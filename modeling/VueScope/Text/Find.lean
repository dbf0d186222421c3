/-! Searching and splitting lists of characters. -/
namespace VueScope.Text

def dropPrefix? (pattern text : List Char) : Option (List Char) :=
  match pattern, text with
  | [], rest => some rest
  | _ :: _, [] => none
  | p :: ps, c :: cs => if p = c then dropPrefix? ps cs else none

def breakOn? (pattern : List Char) : List Char → Option (List Char × List Char)
  | [] => (dropPrefix? pattern []).map fun rest => ([], rest)
  | c :: cs =>
    match dropPrefix? pattern (c :: cs) with
    | some rest => some ([], rest)
    | none => (breakOn? pattern cs).map fun (before, after) => (c :: before, after)

def find? (pattern text : List Char) : Option Nat :=
  (breakOn? pattern text).map fun (before, _) => before.length

def findFrom? (pattern text : List Char) (start : Nat) : Option Nat :=
  if start ≤ text.length then (find? pattern (text.drop start)).map (· + start) else none

/-- The pieces between separators; there is always at least one. -/
def splitOn (separator : Char) : List Char → List (List Char)
  | [] => [[]]
  | c :: cs =>
    if c = separator then
      [] :: splitOn separator cs
    else
      match splitOn separator cs with
      | [] => [[c]]
      | piece :: pieces => (c :: piece) :: pieces

def slice (text : List Char) (start stop : Nat) : List Char :=
  (text.drop start).take (stop - start)

def lowerAscii (text : List Char) : List Char :=
  text.map Char.toLower

end VueScope.Text
