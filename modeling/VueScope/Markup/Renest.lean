import VueScope.Markup.TagName
import VueScope.Markup.Tree

/-! Nesting as the author wrote it. The element rules may close an element before
its written end tag, which then stands stray among the following siblings. Such
an element takes back the siblings up to that end tag. -/
namespace VueScope.Markup

def neverClosed (name : List Char) : Bool :=
  ["area", "base", "br", "col", "embed", "hr", "img", "input", "link", "meta", "source", "track",
    "wbr"].any fun void => void.toList = Text.lower name

/-- The siblings before the first stray end tag of the name, its span, and the
siblings after it. -/
def untilStrayEnd? (name : List Char) : List Node → Option (List Node × Span × List Node)
  | [] => none
  | node :: rest =>
    let later := (untilStrayEnd? name rest).map fun (before, span, after) =>
      (node :: before, span, after)
    match node with
    | .strayEnd span written =>
      if Text.lower written = Text.lower name then some ([], span, rest) else later
    | _ => later

/-- The siblings an element takes back, the stray end tag that closes it, and the
siblings that follow. -/
def writtenEnd? (tag : StartTag) (endTag : Option Span) (siblings : List Node) :
    Option (List Node × Span × List Node) :=
  if tag.selfClosing || endTag.isSome || neverClosed tag.name then none
  else untilStrayEnd? tag.name siblings

/-- One step for every node, so the number of nodes is fuel enough. -/
def renestWithin : Nat → List Node → List Node
  | 0, nodes => nodes
  | _ + 1, [] => []
  | fuel + 1, node :: siblings =>
    match node with
    | .element span tag children endTag =>
      match writtenEnd? tag endTag siblings with
      | some (adopted, close, after) =>
        .element ⟨span.start, close.stop⟩ tag (renestWithin fuel (children ++ adopted)) (some close) ::
          renestWithin fuel after
      | none =>
        .element span tag (renestWithin fuel children) endTag :: renestWithin fuel siblings
    | other => other :: renestWithin fuel siblings

def renest (nodes : List Node) : List Node :=
  renestWithin (Node.sizeAll nodes) nodes

end VueScope.Markup
