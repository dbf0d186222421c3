import VueScope.Text.Quoted

/-! An immutable snapshot of one edited document: its lines, and the conversion
between offsets and line positions. Lines end at a newline only. -/
namespace VueScope.Text

structure Position where
  line : Int
  character : Int
deriving DecidableEq, Repr

inductive OffsetError where
  | offsetOutside (offset : Int) (length : Nat)
  | lineOutside (line : Int)
  | rangeOutside (start stop : Int) (length : Nat)
  | rangeHolds (start stop : Int) (held expected : List Char)
deriving DecidableEq, Repr

namespace OffsetError

private def range (start stop : Int) : String :=
  s!"range [{start}, {stop})"

def message : OffsetError → String
  | offsetOutside offset length => s!"offset {offset} outside document of length {length}"
  | lineOutside line => s!"line {line} outside document"
  | rangeOutside start stop length => s!"{range start stop} outside document of length {length}"
  | rangeHolds start stop held expected =>
    let found := String.ofList (quoted held)
    let wanted := String.ofList (quoted expected)
    s!"{range start stop} holds {found}, expected {wanted}"

end OffsetError

structure Document where
  uri : String
  version : Int
  text : List Char
deriving DecidableEq, Repr

namespace Document

def startsAfterNewlines (start : Nat) : List Char → List Nat
  | [] => []
  | c :: cs =>
    if c = '\n' then (start + 1) :: startsAfterNewlines (start + 1) cs
    else startsAfterNewlines (start + 1) cs

variable (document : Document)

def lineStarts : List Nat :=
  0 :: startsAfterNewlines 0 document.text

def length : Nat :=
  document.text.length

def lineCount : Nat :=
  document.lineStarts.length

/-- The number of the last start at or before the offset, and that start. -/
def lineOf (offset : Nat) : Nat → Nat → List Nat → Nat × Nat
  | line, start, [] => (line, start)
  | line, start, next :: later =>
    if next ≤ offset then lineOf offset (line + 1) next later else (line, start)

def positionAt (offset : Int) : Except OffsetError Position :=
  if offset < 0 || document.length < offset then
    .error (.offsetOutside offset document.length)
  else
    let (line, start) := lineOf offset.toNat 0 0 (startsAfterNewlines 0 document.text)
    .ok ⟨line, offset - start⟩

/-- Columns past the end of the text are cut to its end. -/
def offsetAt (position : Position) : Except OffsetError Int :=
  if position.line < 0 then
    .error (.lineOutside position.line)
  else
    match document.lineStarts[position.line.toNat]? with
    | none => .error (.lineOutside position.line)
    | some start => .ok (min (start + position.character) document.length)

structure Range where
  name : String
  start : Int
  stop : Int
  startPosition : Position
  stopPosition : Position
deriving DecidableEq, Repr

def rangeOf (start stop : Int) (name : String) :
    Except OffsetError Range := do
  if start < 0 || document.length < stop || stop < start then
    .error (.rangeOutside start stop document.length)
  else
    let held := (document.text.drop start.toNat).take (stop - start).toNat
    if held ≠ name.toList then
      .error (.rangeHolds start stop held name.toList)
    else
      let first ← document.positionAt start
      let last ← document.positionAt stop
      .ok ⟨name, start, stop, first, last⟩

end Document

end VueScope.Text
