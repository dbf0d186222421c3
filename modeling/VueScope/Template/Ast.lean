/-! The tree of a component template: elements with their attributes and
directives, texts and interpolations. Offsets count code points of the whole
file. -/
namespace VueScope.Template

structure Expression where
  content : List Char
  offset : Int
  isStatic : Bool := false
deriving DecidableEq, Repr

namespace Expression

def stop (expression : Expression) : Int :=
  expression.offset + expression.content.length

end Expression

structure Loop where
  source : Expression
  value : Option Expression
  key : Option Expression
  index : Option Expression
deriving DecidableEq, Repr

namespace Loop

def aliases (loop : Loop) : List Expression :=
  [loop.value, loop.key, loop.index].filterMap id

end Loop

structure Attribute where
  name : List Char
  value : Option (List Char)
  offset : Nat
deriving DecidableEq, Repr

structure Directive where
  /-- The name without its sigil: `bind`, `on`, `for`, `slot`, … -/
  name : List Char
  /-- The attribute name as written. -/
  rawName : List Char
  offset : Nat
  argument : Option Expression
  modifiers : List (List Char)
  expression : Option Expression
  /-- The split of a loop expression, when it has one. -/
  loop : Option Loop
deriving DecidableEq, Repr

inductive ElementProp where
  | plain (attr : Attribute)
  | directive (directive : Directive)
deriving DecidableEq, Repr

inductive Node where
  | element (tag : List Char) (start stop : Nat) (props : List ElementProp) (children : List Node)
  | text (content : List Char) (offset : Nat)
  | interpolation (content : Expression) (offset : Nat)
deriving Repr

def directives (props : List ElementProp) : List Directive :=
  props.filterMap fun
    | .plain _ => none
    | .directive directive => some directive

def findDirective? (name : List Char) (props : List ElementProp) : Option Directive :=
  (directives props).find? fun directive => directive.name = name

end VueScope.Template
