import VueScope.Analysis.Result
import VueScope.Options.Classify
import VueScope.Setup.Classify
import VueScope.Setup.Compile

/-! One full pass over a component file. -/
namespace VueScope.Analysis

open Text

variable [Recovery]

/-- The classified names of a component. A setup script goes before a plain one. -/
def classify (component : Component.Descriptor) : Except Failure Identifiers :=
  match component.scriptSetup, component.script with
  | some setup, _ => do
    let compiled ← (Setup.compile component).mapError .compile
    return Setup.analyze setup.content setup.lang compiled.bindings none
  | none, some script => Options.analyze script.content script.lang none
  | none, none => .ok ∅

/-- Splits a document into blocks, classifies its names, and marks its template. -/
def analyze (document : Document) : Except Failure Result := do
  let filename := if document.uri = "" then Component.defaultFilename else document.uri
  let parsed ← Component.parse filename document.text
  let identifiers ← classify parsed.descriptor
  return markTemplate parsed.descriptor.tree? identifiers
    document

def analyzeText (text : List Char) : Except Failure Result :=
  analyze ⟨Component.defaultFilename, 0, text⟩

end VueScope.Analysis
