import VueScope.Markup.Tree
import VueScope.Template.DirectiveName
import VueScope.Template.Loop

/-! Building the template tree from markup. Whatever lies between two nodes of
the markup is searched for interpolations. -/
namespace VueScope.Template

def sliceBytes (text : List Char) (span : Markup.Span) : List Char × Nat :=
  let start := Text.charOffset text span.start
  (Text.slice text start (Text.charOffset text span.stop), start)

/-- The nodes of a stretch of text that starts at an offset. Blank texts are dropped,
and interpolations are trimmed. -/
def nodesOfPieces (offset : Nat) : List Markup.Piece → List Node
  | [] => []
  | piece :: rest =>
    let later := nodesOfPieces (offset + piece.source.length) rest
    match piece with
    | .text content => if Text.isBlank content then later else .text content offset :: later
    | .interpolation body =>
      let lead := body.length - (Text.trimLeft body).length
      .interpolation ⟨Text.trim body, ((offset + 2 + lead : Nat) : Int), false⟩ offset :: later

def nodesOfGap (text : List Char) (start stop : Nat) : List Node :=
  if stop ≤ start then
    []
  else
    let (segment, base) := sliceBytes text ⟨start, stop⟩
    nodesOfPieces base (Markup.Piece.split segment)

/-- A directive with its value. An empty value is no expression. -/
def directiveOf (written : List Char) (offset : Nat) (value : Option (List Char × Nat)) : Directive :=
  let parsed := DirectiveName.parse written
  let argument := parsed.argument.map fun argument : Argument =>
    (⟨argument.content, ((offset + argument.start : Nat) : Int), argument.isStatic⟩ : Expression)
  let expression : Option Expression := match value with
    | some (content, start) => if content.isEmpty then none else some ⟨content, start, false⟩
    | none => none
  let loop := if parsed.name = "for".toList then expression.bind Loop.parse? else none
  ⟨parsed.name, written, offset, argument, parsed.modifiers, expression, loop⟩

def propOf (text : List Char) (attr : Markup.Attribute) : ElementProp :=
  let (name, offset) := sliceBytes text attr.name
  let value := attr.value.map (sliceBytes text)
  if DirectiveName.isDirective name then .directive (directiveOf name offset value)
  else .plain ⟨name, value.map Prod.fst, offset⟩

def contentSpan (span : Markup.Span) (tag : Markup.StartTag) (endTag : Option Markup.Span) :
    Markup.Span :=
  let stop := match endTag with
    | some close => close.start
    | none => span.stop
  ⟨tag.span.stop, max tag.span.stop stop⟩

mutual

/-- An element with its children. Comments, scripts and stray end tags give no node. -/
def nodeOf? (text : List Char) : Markup.Node → Option Node
  | .element span tag children endTag =>
    let inner := contentSpan span tag endTag
    let nodes := if tag.selfClosing then [] else nodesOf text inner.start inner.stop children
    some (.element tag.name (Text.charOffset text span.start) (Text.charOffset text span.stop)
      (tag.attributes.map (propOf text)) nodes)
  | .raw _ _ _ _ => none
  | .comment _ => none
  | .strayEnd _ _ => none

/-- The nodes of markup siblings and of the gaps around them, from one byte offset
to another. -/
def nodesOf (text : List Char) (start stop : Nat) : List Markup.Node → List Node
  | [] => nodesOfGap text start stop
  | node :: siblings =>
    nodesOfGap text start node.span.start ++ (nodeOf? text node).toList ++
      nodesOf text node.span.stop stop siblings

end

mutual

/-- The loop expressions that do not split, with their offsets, in source order. -/
def badLoops : Node → List Int
  | .element _ _ _ props children =>
    ((directives props).filterMap fun directive =>
      if directive.name = "for".toList && directive.loop.isNone then
        directive.expression.map Expression.offset
      else none) ++ badLoopsAll children
  | .text _ _ => []
  | .interpolation _ _ => []

def badLoopsAll : List Node → List Int
  | [] => []
  | node :: rest => badLoops node ++ badLoopsAll rest

end

end VueScope.Template
