import VueScope.Script.Semicolon
import VueScope.Script.Shape

/-! Parsers over the characters of a script. A parser takes characters off the front
of a text and gives the shapes that cover them, white space and comments included. Where
only one construct can be meant, a parser that cannot go on says that the text is broken,
and no other reading is tried. -/
namespace VueScope.Script

/-- What a parser makes of a text. -/
inductive Outcome where
  /-- The shapes that cover the front of the text, and the rest of it. -/
  | taken (shapes : List Shape) (rest : List Char)
  /-- The construct is not here, but another one may be. -/
  | absent
  /-- A construct starts here and does not go on, so the text has no reading at all. -/
  | broken

namespace Outcome

def map (change : List Shape → List Shape) : Outcome → Outcome
  | taken shapes rest => taken (change shapes) rest
  | absent => absent
  | broken => broken

def bind (outcome : Outcome) (next : List Shape → List Char → Outcome) : Outcome :=
  match outcome with
  | taken shapes rest => next shapes rest
  | absent => absent
  | broken => broken

def rest? : Outcome → Option (List Char)
  | taken _ rest => some rest
  | absent => none
  | broken => none

end Outcome

structure Parser where
  run : List Char → Outcome

namespace Parser

def done : Parser := ⟨fun text => .taken [] text⟩

def fail : Parser := ⟨fun _ => .absent⟩

variable (text : List Char) (parser : Parser) (first : Parser) (kind : Kind) (written : String)

def seq (second : Unit → Parser) : Parser :=
  ⟨fun text =>
    (first.run text).bind fun shapes rest =>
      ((second ()).run rest).map fun more => shapes ++ more⟩

instance : AndThen Parser := ⟨seq⟩

/-- The second parser only where the first construct is not. -/
def or (second : Unit → Parser) : Parser :=
  ⟨fun text =>
    match first.run text with
    | .absent => (second ()).run text
    | found => found⟩

instance : OrElse Parser := ⟨or⟩

def maybe : Parser :=
  parser <|> done

/-- A construct that nothing else can stand for. -/
def required : Parser :=
  ⟨fun text =>
    match parser.run text with
    | .absent => .broken
    | found => found⟩

/-- A construct that is tried before another one for the same text. -/
def trial : Parser :=
  ⟨fun text =>
    match parser.run text with
    | .broken => .absent
    | found => found⟩

def check (test : List Char → Bool) : Parser :=
  ⟨fun text => if test text then .taken [] text else .absent⟩

/-- Chooses by the text ahead. -/
def look (choose : List Char → Parser) : Parser :=
  ⟨fun text => (choose text).run text⟩

def when (condition : Bool) (parser : Parser) : Parser :=
  if condition then parser else fail

/-- As often as it applies and takes something. -/
def many : Parser :=
  ⟨fun text => loop text.length text⟩
where
  loop : Nat → List Char → Outcome
    | 0, text => .taken [] text
    | fuel + 1, text =>
      match parser.run text with
      | .broken => .broken
      | .absent => .taken [] text
      | .taken shapes rest =>
        if rest.length < text.length then (loop fuel rest).map fun more => shapes ++ more
        else .taken [] text

/-- One or more, with separators between them. -/
def separated (item separator : Parser) : Parser :=
  item >> many (separator >> item)

def node (parser : Parser) : Parser :=
  ⟨fun text => (parser.run text).map (Shape.wrap kind)⟩

/-- The part that what a parser takes plays in the construct around it. -/
def field (field : Field) (parser : Parser) : Parser :=
  ⟨fun text => (parser.run text).map fun shapes => shapes.map (Shape.label field)⟩

/-- A construct whose kind and further parts depend on what follows its first part. -/
def branch (choose : List Char → Kind × Parser) : Parser :=
  ⟨fun text =>
    (first.run text).bind fun shapes rest =>
      let (kind, later) := choose rest
      (later.run rest).map fun more => Shape.wrap kind (shapes ++ more)⟩

def trivia : List Shape × List Char :=
  loop text.length text
where
  loop : Nat → List Char → List Shape × List Char
    | 0, text => ([], text)
    | fuel + 1, text =>
      match text with
      | [] => ([], [])
      | c :: _ =>
        if Lexeme.isGap c then
          let width := (text.takeWhile Lexeme.isGap).length
          let (more, rest) := loop fuel (text.drop width)
          (.blank width :: more, rest)
        else
          match Lexeme.commentLength? text with
          | none => ([], text)
          | some width =>
            let (more, rest) := loop fuel (text.drop width)
            (.leaf .comment none width :: more, rest)

def ahead : List Char :=
  (trivia text).2

/-- A token of the width that the text allows. -/
def token (kind : Kind) (width? : List Char → Option Nat) : Parser :=
  ⟨fun text =>
    let (lead, rest) := trivia text
    match width? rest with
    | none => .absent
    | some width => .taken (lead ++ [.leaf kind none width]) (rest.drop width)⟩

/-- A token that starts right here, with nothing in front of it. -/
def immediate (width? : List Char → Option Nat) : Parser :=
  ⟨fun text =>
    match width? text with
    | none => .absent
    | some width => .taken [.leaf kind none width] (text.drop width)⟩

def mark : Parser :=
  token .mark fun text => (Text.dropPrefix? written.toList text).map fun _ => written.length

def openBrace : Parser := mark "\x7b"

def closeBrace : Parser := mark "\x7d"

/-- An operator that is not the beginning of a longer one. -/
def symbol : Parser :=
  token .mark fun text => if Lexeme.operator text = written then some written.length else none

def keywordAs : Parser :=
  token kind fun text =>
    if String.ofList (Lexeme.word text) = written then some written.length else none

def keyword : Parser :=
  keywordAs .keyword written

def name (test : String → Bool) : Parser :=
  token kind fun text =>
    let word := Lexeme.word text
    if !word.isEmpty && test (String.ofList word) then some word.length else none

def string : Parser :=
  token .string Lexeme.stringLength?

def wordAhead : String :=
  String.ofList (Lexeme.word (ahead text))

def operatorAhead : String :=
  Lexeme.operator (ahead text)

def nextIs (c : Char) (text : List Char) : Bool :=
  (ahead text).head? = some c

/-- Items in brackets with commas between them. An item may be left out. -/
def listOf (opening item closing : Parser) : Parser :=
  opening >> maybe item >> many (mark "," >> maybe item) >> closing

/-- One construct after another around what came first, as long as one applies. -/
structure Wrap where
  kind : Kind
  /-- The part of what came first. -/
  role : Option Field
  /-- Which constructs it goes around. -/
  accepts : Option Kind → Bool
  rest : Parser

def chain (wraps : List Wrap) : Parser :=
  ⟨fun text => (first.run text).bind fun shapes rest => grow rest.length shapes rest⟩
where
  apply (shapes : List Shape) (rest : List Char) : List Wrap → Outcome
    | [] => .absent
    | wrap :: others =>
      if wrap.accepts (Shape.mainKind? shapes) then
        match wrap.rest.run rest with
        | .absent => apply shapes rest others
        | .broken => .broken
        | .taken more last =>
          let inner := match wrap.role with
            | some role => shapes.map (Shape.label role)
            | none => shapes
          .taken (Shape.wrap wrap.kind (inner ++ more)) last
      else apply shapes rest others
  grow : Nat → List Shape → List Char → Outcome
    | 0, shapes, rest => .taken shapes rest
    | fuel + 1, shapes, rest =>
      match apply shapes rest wraps with
      | .absent => .taken shapes rest
      | .broken => .broken
      | .taken more last =>
        if last.length < rest.length then grow fuel more last else .taken shapes rest

/-- The end of a statement where a semicolon is left out. Comments on the way to it
belong to the statement. -/
def lineEnd (dialect : Dialect) (place : Semicolon.Place) : Parser :=
  ⟨fun text => loop text.length [] text⟩
where
  loop : Nat → List Shape → List Char → Outcome
    | 0, shapes, text => if text.isEmpty then .taken shapes text else .absent
    | fuel + 1, shapes, text =>
      if Semicolon.inserted dialect place text then .taken shapes text
      else
        let width := (text.takeWhile Lexeme.isGap).length
        let lead := if width = 0 then [] else [Shape.blank width]
        let rest := text.drop width
        match Lexeme.commentLength? rest with
        | none => .absent
        | some length =>
          loop fuel (shapes ++ lead ++ [.leaf .comment none length]) (rest.drop length)

/-- The end of a statement: a semicolon, or a place where one may be left out. -/
def semicolon (dialect : Dialect) (place : Semicolon.Place) : Parser :=
  lineEnd dialect place <|> mark ";"

/-- Whether a statement ends here without a semicolon. Where `place` is nothing, no
statement can end. -/
def endsHere (dialect : Dialect) (place : Option Semicolon.Place) (text : List Char) : Bool :=
  place.any fun place => ((lineEnd dialect place).run text).rest?.isSome

/-- Takes nothing, where the statement does not end. -/
def goesOn (dialect : Dialect) (place : Option Semicolon.Place) : Parser :=
  check fun text => !endsHere dialect place text

end Parser

end VueScope.Script
