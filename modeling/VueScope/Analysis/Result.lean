import VueScope.Template.Occurrence
import VueScope.Text.Document

/-! The result of analysing a component: the classified names of its script, and the
ranges of the template where they are used. -/
namespace VueScope.Analysis

open Text

structure Result where
  identifiers : Identifiers
  /-- The ranges of each category, in the order found. -/
  ranges : Category → List Document.Range

namespace Result

def empty : Result := ⟨∅, fun _ => []⟩

instance : EmptyCollection Result := ⟨empty⟩

end Result

def range? (document : Document) (candidate : Template.Candidate) : Option Document.Range :=
  (document.rangeOf candidate.start (candidate.start + candidate.name.length) candidate.name).toOption

/-- The ranges of a category. A candidate that the document does not hold is left out. -/
def recorded (document : Document) (candidates : List Template.Candidate) (category : Category) :
    List Document.Range :=
  (candidates.filter fun candidate => candidate.category = category).filterMap (range? document)

def markTemplate [Recovery] (nodes : Option (List Template.Node)) (identifiers : Identifiers)
    (document : Document) : Result :=
  match nodes with
  | none => ⟨identifiers, fun _ => []⟩
  | some nodes =>
    let candidates := Template.candidates identifiers nodes
    ⟨identifiers, recorded document candidates⟩

end VueScope.Analysis
