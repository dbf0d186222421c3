import VueScope.Script.Parser

/-! The constructs that hold one another. Each of the grammar's modules says what its
constructs look like, given parsers for all of these. -/
namespace VueScope.Script.Grammar

open VueScope.Script.Parser
open Semicolon (Place)

variable (dialect : Dialect) (rules : Rules)

/-- What surrounds an expression. -/
structure Mode where
  /-- Whether a statement may end right after it. -/
  ends : Bool
  /-- Whether an arrow function in it may name its result type. -/
  typedArrow : Bool
deriving DecidableEq, Repr

namespace Mode

/-- An expression that ends with its statement. -/
def outer : Mode := ⟨true, true⟩

/-- An expression inside brackets. -/
def inner : Mode := ⟨false, true⟩

def place (mode : Mode) : Option Place :=
  if mode.ends then some .operand else none

end Mode

inductive Rule where
  | statement
  /-- Statements in braces, and the place after them. -/
  | block (place : Place)
  /-- One expression, down to assignments and conditionals. -/
  | expression (mode : Mode)
  /-- One or more expressions with commas between them. -/
  | sequence (mode : Mode)
  /-- Operands joined by operators that bind at least as tightly as a level. -/
  | operation (mode : Mode) (level : Nat)
  | unary (mode : Mode)
  | construction (mode : Mode)
  /-- A value with its accesses and calls. -/
  | access
  | pattern
  | destructuring
  | parameters
  | object
  | classBody
  | element
  /-- A type, and the place after it if a statement may end there. -/
  | type (place : Option Place)
  /-- What unions and intersections join. -/
  | typeOperand (place : Option Place)
  /-- A type without operators, with the brackets that follow it. -/
  | primaryType (place : Option Place)
  | objectType
deriving DecidableEq, Repr

abbrev Rules := Rule → Parser

/-- Words that are names nowhere, except of properties. -/
def reservedWords : List String :=
  ["break", "case", "catch", "class", "const", "continue", "debugger", "default", "delete", "do",
    "else", "export", "extends", "false", "finally", "for", "function", "if", "import", "in",
    "instanceof", "new", "null", "return", "super", "switch", "this", "throw", "true", "try",
    "typeof", "var", "void", "while", "with"]

variable (place : Option Place) (word : String)

/-- Where types may be written no word is reserved everywhere. -/
def isReserved : Bool :=
  !dialect.hasTypes && reservedWords.contains word

/-- Words that are no names where an expression is expected. -/
def isOperandWord : Bool :=
  if dialect.hasTypes then
    ["await", "class", "delete", "false", "function", "import", "null", "super", "this", "true",
      "typeof", "using", "void", "yield"].contains word
  else word = "yield" || (word ≠ "export" && isReserved dialect word)

def isInfixWord : Bool :=
  ["in", "instanceof"].contains word || (dialect.hasTypes && ["as", "satisfies"].contains word)

def identifier : Parser :=
  name .identifier fun word => word ≠ "undefined" && !isOperandWord dialect word

/-- A name in an expression; `undefined` is a literal of its own. -/
def reference : Parser :=
  name .undefined (· = "undefined") <|> identifier dialect

def boundName : Parser :=
  name .identifier fun word => !isReserved dialect word

def privateName : Parser :=
  token .privatePropertyIdentifier fun text =>
    match text with
    | '#' :: rest =>
      let word := Lexeme.word rest
      if word.isEmpty then none else some (word.length + 1)
    | _ => none

def number : Parser :=
  token .number Lexeme.numberLength?

def propertyName : Parser :=
  name .propertyIdentifier (fun _ => true) <|> privateName <|> string <|> number <|>
    node .computedPropertyName (mark "[" >> required (rules (.expression .inner)) >> mark "]")

def startsProperty (text : List Char) : Bool :=
  match ahead text with
  | [] => false
  | c :: rest =>
    !(Lexeme.word (c :: rest)).isEmpty || c.isDigit || ['"', '\'', '[', '#'].contains c ||
      (c = '.' && rest.head?.any Char.isDigit)

/-- A word in front of a member's name. If the name does not follow on, the word is the
name itself. -/
def memberModifier (written : String) : Parser :=
  keyword written >> goesOn dialect place >> check startsProperty

def methodModifier (written : String) : Parser :=
  keyword written >> goesOn dialect place >>
    check fun text => startsProperty text || nextIs '*' text

def accessibility : Parser :=
  name .accessibilityModifier (["public", "private", "protected"].contains ·) >>
    goesOn dialect place >> check fun text => startsProperty text || nextIs '*' text

/-- Marks that only a method has: `async`, `get`, `set`, and the star of a generator. -/
def methodMarks : Parser :=
  let last (place : Option Place) : Parser :=
    memberModifier dialect place "get" <|> memberModifier dialect place "set" <|> mark "*"
  methodModifier dialect place "async" >> maybe (last none) <|> last place

def initializer (mode : Mode) : Parser :=
  symbol "=" >> required (field .value (rules (.expression mode)))

/-- Whether the last construct has a value, so that an operator may follow it. -/
def endsInValue (shapes : List Shape) : Bool :=
  match shapes.getLast? with
  | some (.node _ _ parts) => parts.any isValue
  | _ => false
where
  isValue : Shape → Bool
    | .leaf _ role _ => role = some .value
    | .node _ role _ => role = some .value
    | .blank _ => false

def placeAfter (shapes : List Shape) : Place :=
  if endsInValue shapes then .operand else .other

/-- A construct and the end of its statement, which depends on what stands before it. -/
def ended (parser : Parser) (last : Place → Parser) : Parser :=
  ⟨fun text =>
    (parser.run text).bind fun shapes rest =>
      ((last (placeAfter shapes)).run rest).map fun more => shapes ++ more⟩

def ascription : Parser :=
  when dialect.hasTypes (node .ascription (mark ":" >> rules (.type place)))

/-- Type arguments in angle brackets. Without a closing bracket anywhere, `<` only compares. -/
def typeArguments : Parser :=
  node .typeArguments
    (check (fun text => nextIs '<' text && text.contains '>') >> mark "<" >>
      separated (rules (.type none)) (mark ",") >> maybe (mark ",") >> mark ">")

def typeParameter : Parser :=
  node .typeParameter <|
    maybe (keyword "const") >>
    field .name (name .typeIdentifier (· ≠ "const")) >>
    maybe (node .constraint ((keyword "extends" <|> mark ":") >> rules (.type none))) >>
    maybe (node .defaultType (symbol "=" >> rules (.type none)))

def typeParameters : Parser :=
  when dialect.hasTypes <| field .typeParameters <| node .typeParameters <|
    mark "<" >> separated (typeParameter rules) (mark ",") >> maybe (mark ",") >> mark ">"

def predefinedTypes : List String :=
  ["any", "number", "boolean", "string", "symbol", "void", "unknown", "never", "object"]

def isTypeWord : Bool :=
  predefinedTypes.contains word ||
  ["abstract", "const", "false", "import", "infer", "keyof", "new", "null", "readonly", "this",
    "true", "typeof", "undefined", "unique"].contains word

def typePredicate : Parser :=
  let subject :=
    name .thisWord (· = "this") <|>
    name .identifier fun word => predefinedTypes.contains word || !isTypeWord word
  node .typePredicate <|
    field .name subject >> goesOn dialect place >> keyword "is" >> field .type (rules (.type place))

/-- An assertion, `asserts x` or `asserts x is type`. -/
def assertsType : Parser :=
  node .assertsType <|
    keyword "asserts" >>
    (typePredicate dialect rules place <|> name .thisWord (· = "this") <|>
      name .identifier fun word => !predefinedTypes.contains word && word ≠ "unique")

def resultType : Parser :=
  look fun text =>
    if wordAhead text = "asserts" then assertsType dialect rules place
    else typePredicate dialect rules place <|> rules (.type place)

def returnType : Parser :=
  when dialect.hasTypes <| field .returnType <|
    node .ascription (mark ":" >> resultType dialect rules place)

def callSignature (typed : Bool) (place : Option Place) : Parser :=
  maybe (typeParameters dialect rules) >>
  field .parameters (rules .parameters) >>
  (if typed then maybe (returnType dialect rules place) else done)

def spread : Parser :=
  node .spreadElement (symbol "..." >> rules (.expression .inner))

def item : Parser :=
  look fun text => if operatorAhead text = "..." then spread rules else rules (.expression .inner)

def arguments : Parser :=
  node .arguments <|
    check (nextIs '(') >> required (listOf (mark "(") (item rules) (mark ")"))

/-- A decorator in front of a class or a member: a name, a property of one, or a call of
either. With types it may stand in parentheses. -/
def decorator : Parser :=
  let isPath (kind : Option Kind) : Bool := kind = some .identifier || kind = some .memberExpression
  let property := name .propertyIdentifier fun word => !isReserved dialect word
  let called :=
    maybe (when dialect.hasTypes (field .typeArguments (typeArguments rules))) >>
      field .arguments (arguments rules)
  let plain :=
    chain (boundName dialect)
      [⟨.memberExpression, some .object, isPath, symbol "." >> field .property property⟩,
        ⟨.callExpression, some .function, isPath, called⟩]
  node .decorator <|
    mark "@" >>
    (plain <|> when dialect.hasTypes (node .parenthesized (mark "(" >> plain >> mark ")")))

end VueScope.Script.Grammar
