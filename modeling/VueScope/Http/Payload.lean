import VueScope.Analysis.Cache
import VueScope.Analysis.File
import VueScope.Analysis.Hover
import VueScope.Http.Json

/-! Analyses as JSON. -/
namespace VueScope.Http

open Analysis

def ofPosition (position : Text.Position) : Json :=
  .object [("line", .ofInt position.line), ("character", .ofInt position.character)]

def ofRange (category : Category) (range : Text.Document.Range) : Json :=
  .object [
    ("name", .string range.name),
    ("category", .string category.key),
    ("start", .ofInt range.start),
    ("end", .ofInt range.stop),
    ("startPosition", ofPosition range.startPosition),
    ("endPosition", ofPosition range.stopPosition)]

def ofDefinitions (definitions : Definitions) : Json :=
  .object (definitions.entries.map fun (name, definition) =>
    (name, .ofTexts [("definition", definition)]))

def ofIdentifiers (identifiers : Identifiers) : Json :=
  .object (Category.all.map fun category => (category.key, ofDefinitions (identifiers.get category)))

def ofResult (result : Result) : Json :=
  .object
    ((Category.all.map fun category =>
        (category.key ++ "Ranges", .array ((result.ranges category).map (ofRange category)))) ++
      [("scriptIdentifiers", ofIdentifiers result.identifiers)])

def ofAnswer [Recovery] (answer : Answer Failure Result) : Json :=
  .object [
    ("status", .string answer.status.key),
    ("error", match answer.status.error? with
      | some failure => .string failure.describe
      | none => .null),
    ("result", ofResult answer.result)]

def ofHover (hover : Hover) : Json :=
  .object [
    ("name", .string hover.name),
    ("category", .string hover.category.key),
    ("label", .string hover.category.label),
    ("icon", .string hover.icon),
    ("definition", .string hover.definition),
    ("start", .ofNat hover.start),
    ("end", .ofNat hover.stop)]

def ofCategories (icons colors : Presentation) : Json :=
  .array ((Category.all.zipIdx).map fun (category, priority) =>
    .object [
      ("key", .string category.key),
      ("label", .string category.label),
      ("icon", .string ((icons.get? category.key).getD "")),
      ("color", .string ((colors.get? category.key).getD "")),
      ("priority", .ofNat priority)])

end VueScope.Http
