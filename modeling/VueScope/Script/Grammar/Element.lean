import VueScope.Script.Grammar.Rule

/-! Elements written inside an expression. -/
namespace VueScope.Script.Grammar

open VueScope.Script.Parser

variable (dialect : Dialect) (rules : Rules)

def isTagChar (c : Char) : Bool :=
  c.isAlphanum || c = '_' || c = '$'

def dashedLength? (text : List Char) : Option Nat :=
  let written := text.takeWhile fun c => isTagChar c || c = '-'
  if written.head?.any (fun c => isTagChar c && !c.isDigit) && written.contains '-' then
    some written.length
  else none

def plainWord : Parser :=
  name .identifier fun word => !isReserved dialect word

def tagWord : Parser :=
  token .identifier dashedLength? <|> plainWord dialect

/-- A name, perhaps after a name space, as in `space:name`. -/
def spacedName : Parser :=
  tagWord dialect >> maybe (mark ":" >> tagWord dialect)

/-- The name of an element: `name`, `name.part` or `space:name`. -/
def tagName : Parser :=
  look fun text =>
    if (dashedLength? (ahead text)).isNone &&
        operatorAhead ((ahead text).drop (Lexeme.word (ahead text)).length) = "." then
      plainWord dialect >> many (symbol "." >> required (plainWord dialect))
    else spacedName dialect

def numberedLength? (isDigit : Char → Bool) (most : Nat) (text : List Char) : Option Nat :=
  let width := (text.takeWhile isDigit).length
  if 1 ≤ width && width ≤ most && (text.drop width).head? = some ';' then some (width + 1) else none

/-- How long a character written by name or number is, after its `&`. -/
def referenceLength? : List Char → Option Nat
  | '#' :: 'x' :: rest => hexadecimal rest
  | '#' :: 'X' :: rest => hexadecimal rest
  | '#' :: rest => (numberedLength? Char.isDigit 5 rest).map (· + 1)
  | rest => numberedLength? Char.isAlpha 30 rest
where
  hexadecimal (text : List Char) : Option Nat :=
    let isHex (c : Char) : Bool := c.isDigit || ('a' ≤ c && c ≤ 'f') || ('A' ≤ c && c ≤ 'F')
    (numberedLength? isHex 6 text).map (· + 2)

/-- The inside of a quoted attribute value with its closing quote. An `&` in front of a
letter or a number sign has to start a whole reference. -/
def quotedLength? (quote : Char) : Nat → List Char → Option Nat
  | 0, _ => none
  | _ + 1, [] => none
  | fuel + 1, c :: rest =>
    if c = quote then some 1
    else if c = '&' && rest.head?.any (fun next => next.isAlpha || next = '#') then
      (referenceLength? rest).bind fun width =>
        (quotedLength? quote fuel (rest.drop width)).map (· + width + 1)
    else (quotedLength? quote fuel rest).map (· + 1)

def attributeValueLength? (text : List Char) : Option Nat :=
  match text with
  | '"' :: rest => (quotedLength? '"' text.length rest).map (· + 1)
  | '\'' :: rest => (quotedLength? '\'' text.length rest).map (· + 1)
  | _ => none

/-- An expression in braces. It may be left out, or be spread. -/
def braced : Parser :=
  node .jsxExpression <|
    openBrace >> required
      ((spread rules <|> maybe (rules (.sequence .inner))) >> closeBrace)

def elementAttribute : Parser :=
  braced rules <|>
  node .jsxPart
    (spacedName dialect >>
      maybe
        (mark "=" >>
          required (token .string attributeValueLength? <|> braced rules <|> rules .element)))

def endsElementText : List Char :=
  ['<', '>', '{', '}', '&']

def elementText : Parser :=
  immediate .jsxText fun text =>
    let width := (text.takeWhile fun c => !endsElementText.contains c).length
    if width = 0 then none else some width

def characterReference : Parser :=
  immediate .jsxText fun text =>
    match text with
    | '&' :: rest => (referenceLength? rest).map (· + 1)
    | _ => none

/-- The inside of an element and its closing tag, which need not repeat the name. -/
def elementRest : Parser :=
  mark ">" >>
  many (elementText <|> characterReference <|> braced rules <|>
    check (fun text => (Text.dropPrefix? ['<', '/'] (ahead text)).isNone) >> rules .element) >>
  mark "</" >> maybe (tagName dialect) >> mark ">"

/-- An element: closed by itself, or around texts, expressions and elements. Without a
name it has no attributes either. -/
def element : Parser :=
  let named :=
    tagName dialect >> maybe (when dialect.hasTypes (typeArguments rules)) >>
      many (elementAttribute dialect rules)
  node .jsxElement <|
    mark "<" >> (named >> (mark "/>" <|> elementRest dialect rules) <|> elementRest dialect rules)

end VueScope.Script.Grammar
