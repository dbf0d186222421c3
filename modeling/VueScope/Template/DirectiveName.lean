import VueScope.Markup.Mask

/-! Attribute names that are directives: `v-name:argument.modifier`, with the
shorthands `:` and `.` for `bind`, `@` for `on` and `#` for `slot`. -/
namespace VueScope.Template

structure Argument where
  /-- The argument without its brackets. -/
  content : List Char
  /-- Where the content starts within the attribute name. -/
  start : Nat
  isStatic : Bool
deriving DecidableEq, Repr

structure DirectiveName where
  name : List Char
  argument : Option Argument
  modifiers : List (List Char)
deriving DecidableEq, Repr

namespace DirectiveName

def startsName (c : Char) : Bool :=
  c.isAlphanum || c = '-'

def continuesName (c : Char) : Bool :=
  startsName (Markup.foldCase c)

def isDirective : List Char → Bool
  | 'v' :: '-' :: c :: _ => startsName c
  | c :: _ => c = ':' || c = '.' || c = '@' || c = '#'
  | [] => false

/-- An argument in brackets, or everything up to the first dot. -/
def argumentLength (text : List Char) : Nat :=
  let bracketed := match text with
    | '[' :: inner =>
      let body := inner.takeWhile (· ≠ ']')
      if body.isEmpty || body.length = inner.length then 0 else body.length + 2
    | _ => 0
  if bracketed ≠ 0 then bracketed else (text.takeWhile (· ≠ '.')).length

def argumentOf (written : List Char) (start : Nat) : Argument :=
  match written with
  | '[' :: inner =>
    let content := match inner.reverse with
      | ']' :: body => body.reverse
      | _ => inner
    ⟨content, start + 1, false⟩
  | _ => ⟨written, start, true⟩

/-- The modifiers in what follows the argument: parts between dots. -/
def modifiersOf (rest : List Char) : List (List Char) :=
  if rest.isEmpty then [] else Text.splitOn '.' (rest.drop 1)

/-- The argument and the modifiers that follow a directive's name or stand at its
shorthand, `start` characters into the attribute name. -/
def tailOf (start : Nat) (led : Bool) (text : List Char) : Option Argument × List (List Char) :=
  match text with
  | _ :: after =>
    let length := if led then argumentLength after else 0
    if length = 0 then
      (none, modifiersOf text)
    else
      (some (argumentOf (after.take length) (start + 1)), modifiersOf (after.drop length))
  | [] => (none, [])

def shorthand : Char → List Char
  | ':' => "bind".toList
  | '.' => "bind".toList
  | '@' => "on".toList
  | _ => "slot".toList

def parse (written : List Char) : DirectiveName :=
  match written with
  | 'v' :: '-' :: body =>
    let name := body.takeWhile continuesName
    let rest := body.drop name.length
    let (argument, modifiers) := tailOf (name.length + 2) (rest.head? = some ':') rest
    ⟨name, argument, modifiers⟩
  | c :: _ =>
    let (argument, modifiers) := tailOf 0 true written
    ⟨shorthand c, argument, if c = '.' then modifiers ++ ["prop".toList] else modifiers⟩
  | [] => ⟨[], none, []⟩

end DirectiveName

end VueScope.Template
