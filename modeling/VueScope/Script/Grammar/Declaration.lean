import VueScope.Script.Grammar.ClassBody

/-! Declarations: variables, functions, classes, and what only types and modules need.
Where an expression may stand as well, the first word of a declaration may be a name, and
what follows it decides. -/
namespace VueScope.Script.Grammar

open VueScope.Script.Parser
open Semicolon (Place)

variable (dialect : Dialect) (rules : Rules)

def declarator : Parser :=
  let place := some Place.other
  let definite :=
    when dialect.hasTypes <|
      field .name (boundName dialect) >> goesOn dialect place >> symbol "!" >>
        field .type (ascription dialect rules place)
  node .variableDeclarator <|
    definite <|>
    field .name (binder dialect rules) >>
    maybe (field .type (ascription dialect rules place)) >>
    maybe (goesOn dialect place >> initializer rules .outer)

def declarators : Parser :=
  ended (separated (declarator dialect rules) (mark ",")) (semicolon dialect)

variable (guard : Option Place)

/-- The word `let` in front of what it declares. On its own it is a name. -/
def letKeyword : Parser :=
  keywordAs .letKeyword "let" >> goesOn dialect guard >> check fun text =>
    let word := wordAhead text
    (word ≠ "" && !isInfixWord dialect word) || nextIs '[' text || nextIs '{' text

def variableDeclaration (keyword : Parser) : Parser :=
  node .lexicalDeclaration
    ((keywordAs .constKeyword "const" <|> keyword) >> declarators dialect rules) <|>
  node .variableDeclaration (keywordAs .varKeyword "var" >> declarators dialect rules)

/-- Words in front of variables that are disposed of at the end of their block. -/
def usingKeyword : Parser :=
  maybe (keyword "await" >> goesOn dialect guard) >> keyword "using"

def usingDeclaration : Parser :=
  when (!dialect.hasTypes) <| node .usingDeclaration <|
    usingKeyword dialect guard >> required (declarators dialect rules)

/-- A named function. With types it may lack a body. -/
def functionDeclaration (place : Place) (guard : Option Place) :
    Parser :=
  let opening := maybe (asyncMark dialect guard) >> keyword "function"
  let rest :=
    field .name (boundName dialect) >> callSignature dialect rules true (some .signature)
  let body := field .body (rules (.block place)) >> maybe (lineEnd dialect place)
  look fun whole =>
    if (opening.run whole).rest?.any (nextIs '*') then
      node .generatorFunctionDeclaration (opening >> mark "*" >> rest >> body)
    else
      branch (opening >> rest) fun text =>
        if nextIs '{' text then (.functionDeclaration, body)
        else (.functionSignature, when dialect.hasTypes (semicolon dialect .signature))

def classParts : Parser :=
  field .name (className dialect) >>
  maybe (typeParameters dialect rules) >>
  maybe (classHeritage dialect rules) >>
  field .body (rules .classBody)

def classDeclaration (place : Place) : Parser :=
  node .classDeclaration
    (many (decorator dialect rules) >> keyword "class" >> classParts dialect rules >>
      maybe (lineEnd dialect place))

def abstractClassDeclaration : Parser :=
  node .abstractClassDeclaration
    (many (decorator dialect rules) >> keyword "abstract" >> keyword "class" >>
      classParts dialect rules)

def extendsTypeClause : Parser :=
  node .extendsTypeClause (keyword "extends" >> separated (field .type (namedType rules)) (mark ","))

def interfaceDeclaration : Parser :=
  node .interfaceDeclaration <|
    keyword "interface" >> field .name (name .typeIdentifier fun _ => true) >>
    maybe (typeParameters dialect rules) >>
    maybe (extendsTypeClause rules) >>
    field .body (node .interfaceBody (typeMembers dialect rules))

/-- A name of a declaration, on the line of the word before it if that may be a name itself. -/
def declaredName (name : Parser) : Parser :=
  goesOn dialect guard >>
  check (fun text => guard.isNone || !isInfixWord dialect (wordAhead text)) >>
  field .name name

def typeAliasDeclaration : Parser :=
  node .typeAliasDeclaration <|
    keyword "type" >> declaredName dialect guard (name .typeIdentifier fun _ => true) >>
    maybe (typeParameters dialect rules) >>
    symbol "=" >> required
      (field .value (rules (.type (some .other))) >> semicolon dialect .other)

def enumDeclaration : Parser :=
  let named := field .name (propertyName rules)
  let entry := node .enumAssignment (named >> initializer rules .inner) <|> named
  node .enumDeclaration <|
    maybe (keyword "const") >> keyword "enum" >>
    field .name (name .identifier fun _ => true) >>
    field .body (node .enumBody
      (openBrace >>
        maybe (separated entry (mark ",") >> maybe (mark ",")) >> closeBrace))

def moduleDeclaration : Parser :=
  node .moduleDeclaration <|
    keyword "module" >> declaredName dialect guard moduleName >>
    maybe (field .body (rules (.block .other)))

def importAlias : Parser :=
  let isName (kind : Option Kind) : Bool :=
    kind = some .identifier || kind = some .nestedIdentifier
  let aliased : Parser := ⟨fun text =>
    (moduleName.run text).bind fun shapes rest =>
      if isName (Shape.mainKind? shapes) then .taken shapes rest else .absent⟩
  node .importAlias <|
    keyword "import" >> name .identifier (fun word => word ≠ "type" && word ≠ "typeof") >>
    symbol "=" >> check (fun text => wordAhead text ≠ "require") >> aliased >>
    semicolon dialect .other

def typedDeclaration
    (nested : Parser) : Parser :=
  look fun text =>
    match wordAhead text with
    | "interface" => interfaceDeclaration dialect rules
    | "type" => typeAliasDeclaration dialect rules guard
    | "enum" => enumDeclaration rules
    | "const" => enumDeclaration rules
    | "abstract" => abstractClassDeclaration dialect rules
    | "namespace" => internalModule dialect rules ⟨guard.isSome, true⟩
    | "module" => moduleDeclaration dialect rules guard
    | "import" => importAlias dialect
    | "declare" =>
      let property :=
        keyword "module" >> symbol "." >> name .propertyIdentifier (fun _ => true) >>
          mark ":" >> rules (.type (some .other)) >> semicolon dialect .other
      node .ambientDeclaration
        (keyword "declare" >> goesOn dialect guard >>
          (keyword "global" >> rules (.block .other) <|> property <|> nested))
    | _ => fail

/-- A declaration where nothing else may stand. -/
def declaration : Parser :=
  let plain :=
    variableDeclaration dialect rules (keywordAs .letKeyword "let") <|>
    functionDeclaration dialect rules .other none <|>
    classDeclaration dialect rules .other <|> usingDeclaration dialect rules none
  if dialect.hasTypes then
    let typed := typedDeclaration dialect rules none
    typed (typed (typed fail <|> plain) <|> plain) <|> plain
  else plain

/-- Whether the text goes on with an expression, and starts no statement. -/
def continuesExpression (text : List Char) : Bool :=
  let word := wordAhead text
  if word ≠ "" then isInfixWord dialect word && !endsHere dialect (some .operand) text
  else
    match ahead text with
    | '.' :: rest => !rest.head?.any Char.isDigit
    | ',' :: _ => true
    | '?' :: _ => true
    | _ =>
      let written := operatorAhead text
      !(["+", "-", "/", "<"].contains written) && ((level? written "").isSome || written = "=")

/-- A declaration where an expression may stand as well. -/
def leadingDeclaration : Parser :=
  let unlessExpression (parser : Parser) : Parser :=
    parser >> check fun text => !continuesExpression dialect text
  let guard := some Place.operand
  let typed := typedDeclaration dialect rules guard (declaration dialect rules)
  look fun text =>
    match wordAhead text with
    | "let" => variableDeclaration dialect rules (letKeyword dialect guard)
    | "const" =>
      if dialect.hasTypes && wordAhead ((ahead text).drop 5) = "enum" then required typed
      else required (variableDeclaration dialect rules fail)
    | "var" => required (variableDeclaration dialect rules fail)
    | "using" => usingDeclaration dialect rules guard
    | "await" => usingDeclaration dialect rules guard
    | "function" => unlessExpression (functionDeclaration dialect rules .operand guard)
    | "async" => unlessExpression (functionDeclaration dialect rules .operand guard)
    | "class" => unlessExpression (classDeclaration dialect rules .operand)
    | "interface" => when dialect.hasTypes (required typed)
    | "enum" => when dialect.hasTypes (required typed)
    | "abstract" => when dialect.hasTypes (required typed)
    | "" =>
      if nextIs '@' text then
        when dialect.hasTypes (abstractClassDeclaration dialect rules) <|>
          unlessExpression (classDeclaration dialect rules .operand)
      else fail
    | _ => when dialect.hasTypes typed

end VueScope.Script.Grammar
