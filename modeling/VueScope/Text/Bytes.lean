/-! Byte offsets into the UTF-8 form of a text, and the code points they fall on. -/
namespace VueScope.Text

def byteLength : List Char → Nat
  | [] => 0
  | c :: cs => c.utf8Size + byteLength cs

/-- How many code points end at or before a byte offset. An offset inside a
code point counts as its beginning, and one past the end as the end. -/
def charOffset : List Char → Nat → Nat
  | [], _ => 0
  | c :: cs, byte => if c.utf8Size ≤ byte then charOffset cs (byte - c.utf8Size) + 1 else 0

def charsBetween (text : List Char) (start stop : Nat) : List Char :=
  loop 0 text
where
  loop (position : Nat) : List Char → List Char
    | [] => []
    | c :: cs =>
      let next := position + c.utf8Size
      if start ≤ position && next ≤ stop then c :: loop next cs else loop next cs

end VueScope.Text
