import VueScope.Analysis.Result
import VueScope.Identifiers.Presentation
import VueScope.Text.Word

/-! What is shown about the name under the cursor. -/
namespace VueScope.Analysis

structure Hover where
  name : String
  category : Category
  icon : String
  definition : String
  start : Nat
  stop : Nat
deriving DecidableEq, Repr

def describe? (identifiers : Identifiers) (name : String) : Option (Category × String) :=
  Category.all.findSome? fun category =>
    ((identifiers.get category).get? name).map (category, ·)

def hover? (identifiers : Identifiers) (text : List Char) (offset : Int) (icons : Presentation) :
    Option Hover :=
  match Text.wordAt text offset with
  | none => none
  | some word =>
    let name := String.ofList word.text
    (describe? identifiers name).map fun (category, definition) =>
      ⟨name, category, (icons.get? category.key).getD "", definition, word.start, word.stop⟩

end VueScope.Analysis
