import VueScope.Http.Json
import VueScope.Text.Document
import VueScope.Text.Integer

/-! Requests and answers, and what a request body has to hold. -/
namespace VueScope.Http

structure Request where
  method : String
  path : String
  query : List (String × String)
  body : Option Json

structure Response where
  status : Nat
  body : Json
  /-- The path at which the client is told to ask again. -/
  location : Option String

namespace Response

def ok (body : Json) : Response := ⟨200, body, none⟩

def detail (status : Nat) (text : String) : Response :=
  ⟨status, .ofTexts [("detail", text)], none⟩

def redirect (path : String) : Response := ⟨307, .null, some path⟩

def unprocessable : Response := ⟨422, .null, none⟩

def unreadable : Response := detail 400 "There was an error parsing the body"

end Response

namespace Request

/-- The value of a parameter; the last one counts. -/
def parameter? (request : Request) (name : String) : Option String :=
  (request.query.reverse.find? fun entry => entry.1 = name).map Prod.snd

/-- What the body of a request holds, or why it is refused. -/
def content {α : Type} (request : Request) (read? : Json → Option α) : Except Response α :=
  if request.body.any Json.isOversized then .error .unreadable
  else
    match request.body.bind read? with
    | none => .error .unprocessable
    | some found => .ok found

end Request

private def asciiDigit? (c : Char) : Option Nat :=
  if c.isDigit then some (c.toNat - '0'.toNat) else none

/-- A whole number written as text; zeros after a point do not matter. -/
def integerOfText? (text : List Char) : Option Int :=
  let written := ((text.dropWhile Text.isWhite).reverse.dropWhile Text.isWhite).reverse
  let whole := written.takeWhile (· ≠ '.')
  if 4300 < written.length then none
  else if (written.drop (whole.length + 1)).all (· = '0') then Text.signedValue? asciiDigit? whole
  else none

/-- A quotient rounded to the nearest whole number, halves to the even one. -/
def roundedQuotient (dividend divisor : Nat) : Nat :=
  let floor := dividend / divisor
  let twice := 2 * (dividend % divisor)
  if divisor < twice || (twice = divisor && floor % 2 = 1) then floor + 1 else floor

/-- The binary exponent of the last of the 53 digits that a double keeps of a quotient. -/
def lastDigit (dividend divisor : Nat) : Int :=
  let guess : Int := (dividend.log2 : Int) - divisor.log2
  let below := if 0 ≤ guess then dividend < divisor <<< guess.toNat
    else dividend <<< (-guess).toNat < divisor
  max (if below then guess - 1 else guess) (-1022) - 52

/-- The double nearest to a quotient, when it is a whole number. -/
def wholeDouble? (dividend divisor : Nat) : Option Nat :=
  let last := lastDigit dividend divisor
  if 0 ≤ last then
    some (roundedQuotient dividend (divisor <<< last.toNat) <<< last.toNat)
  else
    let scale := 1 <<< (-last).toNat
    let digits := roundedQuotient (dividend * scale) divisor
    if digits % scale = 0 then some (digits / scale) else none

/-- The whole number that a float stands for, if it has less than 64 binary digits. Numbers far
out of reach, and those too small for any double, are told by their decimal digits. -/
def integerOfFloat? (mantissa exponent : Int) : Option Int :=
  let order : Int := (Nat.toDigits 10 mantissa.natAbs).length + exponent
  if mantissa = 0 || order < -400 then some 0
  else if 20 < order then none
  else
    let value := if 0 ≤ exponent then wholeDouble? (mantissa.natAbs * Nat.pow 10 exponent.toNat) 1
      else wholeDouble? mantissa.natAbs (Nat.pow 10 (-exponent).toNat)
    (value.filter (· < 1 <<< 63)).map fun value => mantissa.sign * value

/-- A whole number, also as a text, as a flag, or as a float. -/
def integer? : Json → Option Int
  | .bool value => some (if value then 1 else 0)
  | .number mantissa exponent =>
    if exponent = 0 then some mantissa else integerOfFloat? mantissa exponent
  | .string text => integerOfText? text.toList
  | _ => none

/-- The document in a request body. Its id may be written in two ways. -/
def document? (body : Json) : Option Text.Document := do
  let id ← ((body.get? "documentId").or (body.get? "document_id")).bind Json.string?
  let version ← (body.get? "version").bind integer?
  let text ← (body.get? "text").bind Json.string?
  return ⟨id, version, text.toList⟩

def documentAndOffset? (body : Json) : Option (Text.Document × Int) := do
  let document ← document? body
  let offset ← (body.get? "offset").bind integer?
  return (document, offset)

end VueScope.Http
