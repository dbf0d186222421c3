import VueScope.Script.Kind
import VueScope.Text.Space

/-! The tokens of a script: how many characters each kind of token takes at the
front of a text. -/
namespace VueScope.Script.Lexeme

variable (text : List Char) (c : Char)

def isGap : Bool :=
  Text.isWhite c || c.toNat == 0xFEFF || c.toNat == 0x2060 || c.toNat == 0x200B

def endsLine : Bool :=
  c = '\n' || c.toNat == 0x2028 || c.toNat == 0x2029

def lineCommentLength? : List Char → Option Nat
  | '/' :: '/' :: rest => some ((rest.takeWhile fun c => !(endsLine c || c = '\r')).length + 2)
  | _ => none

def blockCommentLength? : List Char → Option Nat
  | '/' :: '*' :: rest => (Text.breakOn? ['*', '/'] rest).map fun (inner, _) => inner.length + 4
  | _ => none

def commentLength? : Option Nat :=
  (lineCommentLength? text).or (blockCommentLength? text)

/-- A line that starts like a comment in markup, or goes on after one. -/
def markupCommentLength? : Option Nat :=
  let opens := (Text.dropPrefix? "<!--".toList text).or (Text.dropPrefix? "-->".toList text)
  opens.map fun _ => (text.takeWhile fun c => !endsLine c).length

def punctuation : List Char :=
  [':', ';', '\x60', '"', '\'', '@', '#', '.', ',', '|', '^', '&', '<', '=', '>', '+', '-', '*', '/',
    '\\', '%', '?', '!', '~', '(', ')', '[', ']', '{', '}']

/-- What a name may start with: anything but digits, punctuation, blanks and controls. -/
def startsName : Bool :=
  !(c.toNat < 0x20 || isGap c || c.isDigit || punctuation.contains c)

def continuesName : Bool :=
  startsName c || c.isDigit

def isHexDigit : Bool :=
  c.isDigit || ('a' ≤ c && c ≤ 'f') || ('A' ≤ c && c ≤ 'F')

def codePointLength? : List Char → Option Nat
  | '\\' :: 'u' :: '{' :: rest =>
    let digits := (rest.takeWhile isHexDigit).length
    match rest.drop digits with
    | '}' :: _ => if digits = 0 then none else some (digits + 4)
    | _ => none
  | '\\' :: 'u' :: a :: b :: c :: d :: _ => if [a, b, c, d].all isHexDigit then some 6 else none
  | _ => none

def nameRestLength : Nat → List Char → Nat
  | 0, _ => 0
  | _ + 1, [] => 0
  | fuel + 1, c :: cs =>
    if continuesName c then nameRestLength fuel cs + 1
    else
      match codePointLength? (c :: cs) with
      | none => 0
      | some width => nameRestLength fuel (cs.drop (width - 1)) + width

def word : List Char :=
  match text with
  | [] => []
  | c :: cs =>
    if startsName c || (codePointLength? (c :: cs)).isSome then
      text.take (nameRestLength text.length text)
    else []

/-- Digits with single underscores between them. -/
def digitsLength (isDigit : Char → Bool) : List Char → Nat
  | [] => 0
  | '_' :: _ => 0
  | c :: cs => if isDigit c then more 1 cs else 0
where
  more (length : Nat) : List Char → Nat
    | '_' :: c :: cs => if isDigit c then more (length + 2) cs else length
    | c :: cs => if isDigit c then more (length + 1) cs else length
    | [] => length

private def exponentLength : Nat :=
  match text with
  | e :: rest =>
    if e = 'e' || e = 'E' then
      let sign := match rest with
        | '+' :: _ => 1
        | '-' :: _ => 1
        | _ => 0
      let digits := digitsLength Char.isDigit (rest.drop sign)
      if digits = 0 then 0 else digits + sign + 1
    else 0
  | [] => 0

private def basedLength (isDigit : Char → Bool) (text : List Char) : Option Nat :=
  let digits := digitsLength isDigit text
  if digits = 0 then none
  else
    match text.drop digits with
    | 'n' :: _ => some (digits + 3)
    | _ => some (digits + 2)

/-- Whether digits can stand before a decimal point: no zero leads them but one. -/
private def isWhole : List Char → Bool
  | ['0'] => true
  | '0' :: c :: _ => '1' ≤ c && c ≤ '9'
  | c :: _ => '1' ≤ c && c ≤ '9'
  | [] => false

private def decimalLength? : Option Nat :=
  let whole := digitsLength Char.isDigit text
  let exact := isWhole (text.take whole)
  match text.drop whole with
  | '.' :: rest =>
    let fraction := digitsLength Char.isDigit rest
    if whole = 0 && fraction = 0 then none
    else if whole = 0 || exact then
      let mantissa := whole + 1 + fraction
      some (mantissa + exponentLength (text.drop mantissa))
    else some whole
  | 'n' :: _ => if whole = 0 then none else some (whole + 1)
  | rest =>
    if whole = 0 then none else some (whole + if exact then exponentLength rest else 0)

def numberLength? : Option Nat :=
  match text with
  | '0' :: b :: rest =>
    let based := match b with
      | 'x' => basedLength isHexDigit rest
      | 'X' => basedLength isHexDigit rest
      | 'b' => basedLength (fun c => c = '0' || c = '1') rest
      | 'B' => basedLength (fun c => c = '0' || c = '1') rest
      | 'o' => basedLength (fun c => '0' ≤ c && c ≤ '7') rest
      | 'O' => basedLength (fun c => '0' ≤ c && c ≤ '7') rest
      | _ => none
    match based with
    | some length => some length
    | none => decimalLength? text
  | _ => decimalLength? text

def escapeLength? : Option Nat :=
  match text with
  | '\\' :: 'x' :: a :: b :: _ => if isHexDigit a && isHexDigit b then some 4 else none
  | '\\' :: 'u' :: _ => codePointLength? text
  | '\\' :: 'x' :: _ => none
  | '\\' :: '\r' :: '\n' :: _ => some 3
  | '\\' :: c :: rest =>
    if '0' ≤ c && c ≤ '7' then
      some (((c :: rest).take 3).takeWhile (fun c => '0' ≤ c && c ≤ '7') |>.length |> (· + 1))
    else some 2
  | _ => none

private def commentAfterGap? : Option Nat :=
  let gap := (text.takeWhile isGap).length
  (commentLength? (text.drop gap)).map (· + gap)

/-- The next part of the inside of a quoted string, and whether the string ends with it. A
line may end only where the quote or a comment comes next. -/
def quotedPart? (quote : Char) (text : List Char) : Option (Nat × Bool) :=
  match text with
  | [] => none
  | c :: _ =>
    if c = quote then some (1, true)
    else if c = '\n' || c = '\r' then
      let gap := (text.takeWhile isGap).length
      let rest := text.drop gap
      if rest.head? = some quote then some (gap + 1, true)
      else (commentLength? rest).map fun width => (gap + width, false)
    else if c = '\\' then (escapeLength? text).map fun width => (width, false)
    else some (1, false)

def quotedLength? (quote : Char) : Nat → List Char → Option Nat
  | 0, _ => none
  | fuel + 1, text =>
    match quotedPart? quote text with
    | none => none
    | some (width, true) => some width
    | some (width, false) => (quotedLength? quote fuel (text.drop width)).map (· + width)

def stringLength? : List Char → Option Nat
  | '"' :: rest => (quotedLength? '"' (rest.length + 1) rest).map (· + 1)
  | '\'' :: rest => (quotedLength? '\'' (rest.length + 1) rest).map (· + 1)
  | _ => none

/-- Plain characters of a template literal: up to a backtick, a backslash or the
start of a substitution. -/
def templateCharsLength : List Char → Nat
  | [] => 0
  | '\x60' :: _ => 0
  | '\\' :: _ => 0
  | '$' :: '{' :: _ => 0
  | _ :: rest => templateCharsLength rest + 1

/-- The pattern of a regular expression up to its closing slash. Slashes in a
character class do not close it. -/
private def patternLength? (inClass : Bool) : List Char → Option Nat
  | [] => none
  | '\n' :: _ => none
  | '\\' :: c :: rest => if c = '\n' then none else (patternLength? inClass rest).map (· + 2)
  | '[' :: rest => (patternLength? true rest).map (· + 1)
  | ']' :: rest => (patternLength? false rest).map (· + 1)
  | '/' :: rest => if inClass then (patternLength? true rest).map (· + 1) else some 0
  | _ :: rest => (patternLength? inClass rest).map (· + 1)

private def patternGap : Nat → List Char → Nat
  | 0, _ => 0
  | fuel + 1, text =>
    match commentAfterGap? text with
    | none => 0
    | some width => patternGap fuel (text.drop width) + width

/-- The flags of a regular expression. Comments may stand in front of them. -/
private def flagsLength : Nat → List Char → Nat
  | 0, _ => 0
  | fuel + 1, text =>
    let letters := (text.takeWhile fun c => 'a' ≤ c && c ≤ 'z').length
    if letters > 0 then letters
    else
      match commentAfterGap? text with
      | none => 0
      | some width =>
        let after := flagsLength fuel (text.drop width)
        if after = 0 then 0 else after + width

def regexLength? : List Char → Option Nat
  | '/' :: rest =>
    let gap := patternGap rest.length rest
    match patternLength? false (rest.drop gap) with
    | none => none
    | some 0 => none
    | some length =>
      let body := gap + length + 1
      some (body + 1 + flagsLength (rest.length + 1) (rest.drop body))
  | _ => none

def operators : List String :=
  [">>>=", "...", "===", "!==", "**=", "<<=", ">>=", ">>>", "&&=", "||=", "??=", "=>", "==", "!=",
    "<=", ">=", "&&", "||", "??", "?.", "++", "--", "+=", "-=", "*=", "/=", "%=", "&=", "|=", "^=",
    "<<", ">>", "**", "=", "<", ">", "+", "-", "*", "/", "%", "&", "|", "^", "!", "~", "?", ":", ".",
    ",", ";", "(", ")", "[", "]"]

/-- The longest operator at the front of a text. A question mark before a decimal
point stands alone. -/
def operator : String :=
  match text with
  | '?' :: '.' :: d :: _ => if d.isDigit then "?" else "?."
  | _ => (operators.find? fun op => (Text.dropPrefix? op.toList text).isSome).getD ""

end VueScope.Script.Lexeme
