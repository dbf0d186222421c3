import VueScope.Script.Lexeme

/-! Where a statement may end without a semicolon: at the end of the text, before a
closing brace, and at the end of a line unless the next line goes on with it. -/
namespace VueScope.Script.Semicolon

/-- What stands before the place where a semicolon may be left out. -/
inductive Place where
  /-- An expression, so that an operator may follow. -/
  | operand
  /-- The signature of a function, so that a body may follow. -/
  | signature
  | other
deriving DecidableEq, Repr

/-- White space as far as line ends are looked for; no-break spaces do not count. -/
def isLineGap (c : Char) : Bool :=
  Text.isWhite c && c.toNat != 0x85 && c.toNat != 0xA0 && c.toNat != 0x2007 && c.toNat != 0x202F

inductive Passed where
  /-- A slash that opens no comment. -/
  | refused
  /-- Just after a block comment on one line. -/
  | sameLine (rest : List Char)
  | done (rest : List Char)

private def blockRest (spans : Bool) : List Char → Bool × List Char
  | [] => (spans, [])
  | '*' :: '/' :: rest => (spans, rest)
  | c :: rest => blockRest (spans || Lexeme.endsLine c) rest

/-- Passes over white space and comments. Unless all comments are to be passed, it
stops after a block comment. -/
def pass (all : Bool) : Nat → Bool → List Char → Passed
  | 0, _, _ => .refused
  | fuel + 1, spans, text =>
    match text.dropWhile isLineGap with
    | '/' :: '/' :: rest => pass all fuel spans (rest.dropWhile fun c => !Lexeme.endsLine c)
    | '/' :: '*' :: rest =>
      let (spansNow, after) := blockRest spans rest
      if !all && after.head? ≠ some '/' then
        if spansNow then .done after else .sameLine after
      else
        pass all fuel spansNow after
    | '/' :: _ => .refused
    | rest => .done rest

private def isLetter (c : Char) : Bool :=
  c.isAlpha || (0x80 ≤ c.toNat && Lexeme.startsName c)

/-- Of all words, `in` and `instanceof` alone go on with an expression. -/
private def continuesWithWord (text : List Char) : Bool :=
  match text with
  | 'i' :: 'n' :: rest =>
    if !(rest.head?.any isLetter) then true
    else
      match Text.dropPrefix? "stanceof".toList rest with
      | none => false
      | some after => !(after.head?.any isLetter)
  | _ => false

variable (dialect : Dialect) (place : Place)

/-- Whether a line that starts so goes on with the statement before it. -/
def continues (line : List Char) : Bool :=
  match line with
  | [] => false
  | '+' :: rest => rest.head? ≠ some '+'
  | '-' :: rest => rest.head? ≠ some '-'
  | '!' :: rest => rest.head? = some '='
  | '.' :: rest => dialect.hasTypes || !(rest.head?.any Char.isDigit)
  | '(' :: _ => !dialect.hasTypes || place = .operand
  | '[' :: _ => !dialect.hasTypes || place = .operand
  | '{' :: _ => dialect.hasTypes && place = .signature
  | 'i' :: _ => continuesWithWord line
  | c :: _ => ['\x60', ',', ':', ';', '*', '%', '>', '<', '=', '?', '^', '|', '&', '/'].contains c

/-- At a line end the next line decides. -/
def endsAtLine (rest : List Char) : Bool :=
  match pass true (rest.length + 2) false rest with
  | .refused => false
  | .sameLine line => !continues dialect place line
  | .done line => !continues dialect place line

/-- With types: a brace ends the statement unless a type follows the brace, and comments
do not count as line ends. -/
def insertedTyped (dialect : Dialect) (place : Place) : List Char → Bool
  | [] => true
  | '}' :: rest => (rest.dropWhile isLineGap).head? ≠ some ':' || place = .operand
  | c :: rest =>
    if c = '\n' then endsAtLine dialect place rest
    else isLineGap c && insertedTyped dialect place rest

/-- Without types: a brace ends the statement, at a line end the next line decides, and after
other white space the text after it. -/
def endsPlain (next : List Char → Bool) : List Char → Bool
  | [] => false
  | '}' :: _ => true
  | c :: rest =>
    if Lexeme.endsLine c then endsAtLine dialect place rest else isLineGap c && next rest

/-- Comments are passed over. Where no operator can follow, one over several lines is a line end
as well. -/
def endsAtComment (next : List Char → Bool) :
    List Char → Bool
  | [] => true
  | '/' :: cs =>
    match pass false (cs.length + 2) false ('/' :: cs) with
    | .refused => false
    | .sameLine rest => endsPlain dialect place next rest
    | .done rest =>
      (place ≠ .operand && rest.head? ≠ some ',' && rest.head? ≠ some '=') ||
        endsPlain dialect place next rest
  | text => endsPlain dialect place next text

def insertedPlain (dialect : Dialect) (place : Place) : Nat → List Char → Bool
  | 0, _ => false
  | fuel + 1, text => endsAtComment dialect place (insertedPlain dialect place fuel) text

/-- Whether a statement ends right before the text, without a semicolon. -/
def inserted (text : List Char) : Bool :=
  if dialect.hasTypes then insertedTyped dialect place text
  else insertedPlain dialect place (text.length + 1) text

end VueScope.Script.Semicolon
