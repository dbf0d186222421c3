import VueScope.Script.FreeIdentifiers
import VueScope.Script.Parse

/-! The names that a template expression refers to, and the names that a template
pattern binds. -/
namespace VueScope.Template

open Script

variable [Recovery]

structure Reference where
  name : String
  offset : Int
deriving DecidableEq, Repr

/-- An expression as a tree, and by how many characters the tree's offsets are ahead
of the expression's. -/
structure ExpressionTree where
  root : Script.Node
  shift : Nat

namespace ExpressionTree

/-- Expressions are read in parentheses, so that a brace opens an object. What cannot
be read so is read as statements. -/
def read? (content : List Char) : Option ExpressionTree :=
  match parse? .typescript ('(' :: content ++ [')']) with
  | some root => some ⟨root, 1⟩
  | none => (parse? .typescript content).map fun root => ⟨root, 0⟩

def read (content : List Char) : ExpressionTree :=
  (read? content).getD ⟨Recovery.script .typescript content, 0⟩

/-- The references to names that are not bound outside the expression. -/
def references (tree : ExpressionTree) (bound : List String) : List Reference :=
  (tree.root.freeIdentifiers bound).map fun node => ⟨node.name, (node.start : Int) - tree.shift⟩

end ExpressionTree

def references (content : List Char) : List Reference :=
  (ExpressionTree.read content).references []

/-- The names bound by the alias of a loop or the props of a slot, which are written
like a function's parameters. -/
def patternNames (content : List Char) : List String :=
  if Text.isBlank content then []
  else
    let root := tree .typescript ('(' :: content ++ ") => 0".toList)
    match root.preorder.find? fun node => node.kind = .arrowFunction with
    | some function => function.parameterNames
    | none => []

end VueScope.Template
