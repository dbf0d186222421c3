import VueScope.Identifiers.OrderedMap
import VueScope.Text.Quoted

/-! JSON values and their written form. -/
namespace VueScope.Http

inductive Json where
  | null
  | bool (value : Bool)
  /-- A mantissa times a power of ten. Whole numbers have the exponent zero, and numbers that are
  written with a point or an exponent another one. -/
  | number (mantissa exponent : Int)
  | special (name : String)
  | string (value : String)
  | array (items : List Json)
  | object (entries : List (String × Json))
deriving Repr

namespace Json

instance : Inhabited Json := ⟨null⟩

def ofInt (value : Int) : Json :=
  .number value 0

def ofNat (value : Nat) : Json :=
  .ofInt value

/-- The value of a key; the last one counts. -/
def get? (json : Json) (key : String) : Option Json :=
  match json with
  | .object entries => (entries.reverse.find? fun entry => entry.1 = key).map Prod.snd
  | _ => none

def string? : Json → Option String
  | .string value => some value
  | _ => none

mutual

/-- Whether a whole number of it has more digits than are read. -/
def isOversized : Json → Bool
  | .number mantissa exponent => exponent = 0 && 10 ^ 4300 ≤ mantissa.natAbs
  | .array items => anyOversized items
  | .object entries => anyEntryOversized entries
  | _ => false

def anyOversized : List Json → Bool
  | [] => false
  | item :: rest => isOversized item || anyOversized rest

def anyEntryOversized : List (String × Json) → Bool
  | [] => false
  | (_, value) :: rest => isOversized value || anyEntryOversized rest

end

def ofTexts (entries : List (String × String)) : Json :=
  .object (entries.map fun (key, value) => (key, .string value))

private def escapedChar (c : Char) : List Char :=
  match c with
  | '"' => ['\\', '"']
  | '\\' => ['\\', '\\']
  | '\n' => ['\\', 'n']
  | '\r' => ['\\', 'r']
  | '\t' => ['\\', 't']
  | _ => if c.toNat < 0x20 then ['\\', 'u'] ++ Text.hex 4 c.toNat else [c]

private def renderString (value : String) : List Char :=
  ['"'] ++ value.toList.flatMap escapedChar ++ ['"']

mutual

def render : Json → List Char
  | .null => "null".toList
  | .bool true => "true".toList
  | .bool false => "false".toList
  | .number mantissa exponent =>
    (toString mantissa).toList ++
      if exponent = 0 then [] else 'e' :: (toString exponent).toList
  | .special name => name.toList
  | .string value => renderString value
  | .array items => ['['] ++ renderItems items ++ [']']
  | .object entries => ['{'] ++ renderEntries entries ++ ['}']

def renderItems : List Json → List Char
  | [] => []
  | [item] => render item
  | item :: rest => render item ++ [','] ++ renderItems rest

def renderEntries : List (String × Json) → List Char
  | [] => []
  | [(key, value)] => renderString key ++ [':'] ++ render value
  | (key, value) :: rest => renderString key ++ [':'] ++ render value ++ [','] ++ renderEntries rest

end

end Json

end VueScope.Http
