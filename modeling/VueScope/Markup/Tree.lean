/-! Markup as a tree of elements. Every span counts bytes of the UTF-8 form, from
the start of the file. Text is not kept: it is what lies between the nodes. -/
namespace VueScope.Markup

structure Span where
  start : Nat
  stop : Nat
deriving DecidableEq, Repr

structure Attribute where
  name : Span
  /-- The value without its quotes; an empty quoted value has an empty span. -/
  value : Option Span
deriving DecidableEq, Repr

structure StartTag where
  span : Span
  /-- The tag name as written. -/
  name : List Char
  attributes : List Attribute
  selfClosing : Bool
deriving DecidableEq, Repr

inductive RawKind where
  | script
  | style
deriving DecidableEq, Repr

inductive Node where
  /-- Without an end tag the element is self-closing, or closed by its surroundings. -/
  | element (span : Span) (tag : StartTag) (children : List Node) (endTag : Option Span)
  /-- A script or style element: its content is no markup. -/
  | raw (kind : RawKind) (span : Span) (tag : StartTag) (endTag : Span)
  | comment (span : Span)
  /-- An end tag that no open element owns. -/
  | strayEnd (span : Span) (name : List Char)
deriving Repr

namespace Node

def span : Node → Span
  | element span _ _ _ => span
  | raw _ span _ _ => span
  | comment span => span
  | strayEnd span _ => span

mutual

def size : Node → Nat
  | element _ _ children _ => sizeAll children + 1
  | raw _ _ _ _ => 1
  | comment _ => 1
  | strayEnd _ _ => 1

def sizeAll : List Node → Nat
  | [] => 0
  | node :: rest => size node + sizeAll rest

end

end Node

structure Reading where
  nodes : List Node
  sound : Bool
deriving Repr

end VueScope.Markup
