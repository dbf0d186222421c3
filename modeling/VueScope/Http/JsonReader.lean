import VueScope.Http.Json
import VueScope.Text.Find

/-! Reading JSON, with the reason why a text is none. -/
namespace VueScope.Http

inductive JsonFault where
  | expectingValue
  | expectingName
  | expectingColon
  | expectingComma
  | extraData
  | unterminatedString
  | controlCharacter
  | invalidEscape
  | invalidUnicodeEscape
  | byteOrderMark
deriving DecidableEq, Repr

namespace JsonFault

def message : JsonFault → String
  | expectingValue => "Expecting value"
  | expectingName => "Expecting property name enclosed in double quotes"
  | expectingColon => "Expecting ':' delimiter"
  | expectingComma => "Expecting ',' delimiter"
  | extraData => "Extra data"
  | unterminatedString => "Unterminated string starting at"
  | controlCharacter => "Invalid control character at"
  | invalidEscape => "Invalid \\escape"
  | invalidUnicodeEscape => "Invalid \\uXXXX escape"
  | byteOrderMark => "Unexpected UTF-8 BOM (decode using utf-8-sig)"

end JsonFault

namespace Json

private def isBlankChar (c : Char) : Bool :=
  c = ' ' || c = '\t' || c = '\n' || c = '\r'

variable (text : List Char)

private def skipBlanks : List Char :=
  text.dropWhile isBlankChar

private def hexValue? (c : Char) : Option Nat :=
  if c.isDigit then some (c.toNat - '0'.toNat)
  else if 'a' ≤ c && c ≤ 'f' then some (c.toNat - 'a'.toNat + 10)
  else if 'A' ≤ c && c ≤ 'F' then some (c.toNat - 'A'.toNat + 10)
  else none

private def hexUnit? (digits : List Char) : Option Nat :=
  (digits.mapM hexValue?).map fun values => values.foldl (fun unit value => 16 * unit + value) 0

private def escape? (c : Char) : Option Nat :=
  match c with
  | '"' => some 0x22
  | '\\' => some 0x5C
  | '/' => some 0x2F
  | 'b' => some 0x08
  | 'f' => some 0x0C
  | 'n' => some 0x0A
  | 'r' => some 0x0D
  | 't' => some 0x09
  | _ => none

/-- The inside of a string as code units, and the text after its closing quote. -/
def readUnits : List Char → Except JsonFault (List Nat × List Char)
  | [] => .error .unterminatedString
  | '"' :: rest => .ok ([], rest)
  | ['\\'] => .error .unterminatedString
  | '\\' :: 'u' :: a :: b :: c :: d :: next :: rest =>
    match hexUnit? [a, b, c, d] with
    | none => .error .invalidUnicodeEscape
    | some unit => (readUnits (next :: rest)).map fun (units, after) => (unit :: units, after)
  | '\\' :: 'u' :: _ => .error .invalidUnicodeEscape
  | '\\' :: c :: rest =>
    match escape? c with
    | none => .error .invalidEscape
    | some unit => (readUnits rest).map fun (units, after) => (unit :: units, after)
  | c :: rest =>
    if c.toNat < 0x20 then .error .controlCharacter
    else (readUnits rest).map fun (units, after) => (c.toNat :: units, after)

/-- The characters of code units: two surrogates make one, and one alone has none. -/
def charsOfUnits : List Nat → List Char
  | [] => []
  | high :: low :: rest =>
    if 0xD800 ≤ high && high < 0xDC00 && 0xDC00 ≤ low && low < 0xE000 then
      Char.ofNat (0x10000 + (high - 0xD800) * 0x400 + (low - 0xDC00)) :: charsOfUnits rest
    else unitChar high :: charsOfUnits (low :: rest)
  | [unit] => [unitChar unit]
where
  unitChar (unit : Nat) : Char :=
    if 0xD800 ≤ unit && unit < 0xE000 then Char.ofNat 0xFFFD else Char.ofNat unit

private def readString : Except JsonFault (String × List Char) :=
  (readUnits text).map fun (units, after) => (String.ofList (charsOfUnits units), after)

private def digitsNumber (digits : List Char) : Nat :=
  digits.foldl (fun value c => 10 * value + (c.toNat - '0'.toNat)) 0

/-- The digits before the point: a zero alone, or digits that do not start with one. -/
private def wholeDigits : List Char :=
  match text with
  | '0' :: _ => ['0']
  | _ => text.takeWhile Char.isDigit

private def fractionDigits : List Char :=
  match text with
  | '.' :: rest => rest.takeWhile Char.isDigit
  | _ => []

/-- An exponent and the number of characters it takes. -/
private def exponentOf : Int × Nat :=
  match text with
  | e :: rest =>
    if e = 'e' || e = 'E' then
      let sign := match rest with
        | '+' :: _ => 1
        | '-' :: _ => 1
        | _ => 0
      let digits := (rest.drop sign).takeWhile Char.isDigit
      let value : Int := digitsNumber digits
      if digits.isEmpty then (0, 0)
      else (if rest.head? = some '-' then -value else value, 1 + sign + digits.length)
    else (0, 0)
  | [] => (0, 0)

def readNumber? : Option (Json × List Char) :=
  let isNegative := text.head? = some '-'
  let unsigned := if isNegative then text.drop 1 else text
  let whole := wholeDigits unsigned
  if whole.isEmpty then none
  else
    let afterWhole := unsigned.drop whole.length
    let fraction := fractionDigits afterWhole
    let afterFraction := if fraction.isEmpty then afterWhole else afterWhole.drop (fraction.length + 1)
    let (exponent, width) := exponentOf afterFraction
    let magnitude : Int := digitsNumber (whole ++ fraction)
    let mantissa := if isNegative then -magnitude else magnitude
    let scale := exponent - fraction.length
    let isFloat := !fraction.isEmpty || width ≠ 0
    let number := if isFloat && scale = 0 then Json.number (10 * mantissa) (-1) else .number mantissa scale
    some (number, afterFraction.drop width)

private def keywords : List (String × Json) :=
  [("null", .null), ("true", .bool true), ("false", .bool false), ("NaN", .special "NaN"),
    ("Infinity", .special "Infinity"), ("-Infinity", .special "-Infinity")]

private def readKeyword? : Option (Json × List Char) :=
  keywords.findSome? fun (word, value) =>
    (Text.dropPrefix? word.toList text).map (value, ·)

mutual

def readValue : Nat → List Char → Except JsonFault (Json × List Char)
  | 0, _ => .error .expectingValue
  | fuel + 1, text =>
    match text with
    | '"' :: rest => (readString rest).map fun (value, after) => (.string value, after)
    | '{' :: rest =>
      match skipBlanks rest with
      | '}' :: after => .ok (.object [], after)
      | inside => readEntries fuel ∅ inside
    | '[' :: rest =>
      match skipBlanks rest with
      | ']' :: after => .ok (.array [], after)
      | inside => readItems fuel [] inside
    | _ =>
      match (readKeyword? text).or (readNumber? text) with
      | some found => .ok found
      | none => .error .expectingValue

def readEntries (fuel : Nat) (entries : OrderedMap String Json) (text : List Char) :
    Except JsonFault (Json × List Char) :=
  match fuel with
  | 0 => .error .expectingName
  | fuel + 1 =>
    match text with
    | '"' :: rest =>
      match readString rest with
      | .error fault => .error fault
      | .ok (key, afterKey) =>
        match skipBlanks afterKey with
        | ':' :: afterColon =>
          match readValue fuel (skipBlanks afterColon) with
          | .error fault => .error fault
          | .ok (value, afterValue) =>
            let extended := entries.insert key value
            match skipBlanks afterValue with
            | '}' :: after => .ok (.object extended.entries, after)
            | ',' :: after => readEntries fuel extended (skipBlanks after)
            | _ => .error .expectingComma
        | _ => .error .expectingColon
    | _ => .error .expectingName

def readItems (fuel : Nat) (items : List Json) (text : List Char) :
    Except JsonFault (Json × List Char) :=
  match fuel with
  | 0 => .error .expectingValue
  | fuel + 1 =>
    match readValue fuel text with
    | .error fault => .error fault
    | .ok (value, afterValue) =>
      match skipBlanks afterValue with
      | ']' :: after => .ok (.array (items ++ [value]), after)
      | ',' :: after => readItems fuel (items ++ [value]) (skipBlanks after)
      | _ => .error .expectingComma

end

def read : Except JsonFault Json :=
  if (text.head?.map Char.toNat) = some 0xFEFF then .error .byteOrderMark
  else
    match readValue (text.length + 1) (skipBlanks text) with
    | .error fault => .error fault
    | .ok (value, after) => if (skipBlanks after).isEmpty then .ok value else .error .extraData

end Json

end VueScope.Http
