import VueScope.Script.Kind

/-! The form of a script without positions. A shape knows how many characters each
of its tokens and blanks covers; where they stand follows from the order alone. -/
namespace VueScope.Script

inductive Shape where
  | blank (width : Nat)
  | leaf (kind : Kind) (field : Option Field) (width : Nat)
  | node (kind : Kind) (field : Option Field) (children : List Shape)
deriving Repr

namespace Shape

mutual

def width : Shape → Nat
  | blank width => width
  | leaf _ _ width => width
  | node _ _ children => widthAll children

def widthAll : List Shape → Nat
  | [] => 0
  | shape :: rest => width shape + widthAll rest

end

def isTrivia : Shape → Bool
  | blank _ => true
  | leaf .comment _ _ => true
  | _ => false

def kind? : Shape → Option Kind
  | blank _ => none
  | leaf kind _ _ => some kind
  | node kind _ _ => some kind

def label (field : Field) : Shape → Shape
  | blank width => blank width
  | leaf kind none width => if kind = .comment then leaf kind none width else leaf kind (some field) width
  | leaf kind (some own) width => leaf kind (some own) width
  | node kind none children => node kind (some field) children
  | node kind (some own) children => node kind (some own) children

/-- Puts a construct around shapes. White space and comments in front stay outside. -/
def wrap (kind : Kind) (shapes : List Shape) : List Shape :=
  shapes.takeWhile isTrivia ++ [node kind none (shapes.dropWhile isTrivia)]

def mainKind? (shapes : List Shape) : Option Kind :=
  match shapes.dropWhile isTrivia with
  | [shape] => shape.kind?
  | _ => none

end Shape

end VueScope.Script
