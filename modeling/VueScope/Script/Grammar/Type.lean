import VueScope.Script.Grammar.Expression

/-! Types: names with arguments, unions and intersections, functions, tuples, object
types and their members. -/
namespace VueScope.Script.Grammar

open VueScope.Script.Parser
open Semicolon (Place)

variable (dialect : Dialect) (rules : Rules)

/-- A name or `module.name`, either with type arguments. -/
def namedType : Parser :=
  let isDotted (text : List Char) : Bool := operatorAhead text = "."
  let step : Wrap := ⟨.nestedIdentifier, some .object, fun _ => true,
    symbol "." >> field .property (name .propertyIdentifier fun _ => true) >>
      check isDotted⟩
  let path := chain (name .identifier fun word => !isTypeWord word) [step]
  let dotted := node .nestedTypeIdentifier <|
    field .moduleName path >> symbol "." >> field .name (name .typeIdentifier fun _ => true)
  let plain := name .typeIdentifier fun word => !isTypeWord word
  chain
    (plain >> check (fun text => !isDotted text) <|> dotted)
    [⟨.genericType, some .name,
      fun kind => kind = some .typeIdentifier || kind = some .nestedTypeIdentifier,
      field .typeArguments (typeArguments rules)⟩]

variable (place : Option Place)

/-- What `typeof` asks about: a name, its properties and type arguments, or a module. -/
def typeQuery : Parser :=
  let base := name .identifier (fun word => word ≠ "this" && word ≠ "import") <|>
    keywordAs .thisWord "this" <|> keywordAs .importWord "import"
  let isValue (kind : Option Kind) : Bool :=
    kind = some .identifier || kind = some .memberExpression || kind = some .subscriptExpression
  let isObject (kind : Option Kind) : Bool :=
    isValue kind || kind = some .thisWord || kind = some .callExpression
  let isFunction (kind : Option Kind) : Bool := isValue kind || kind = some .importWord
  let property := field .property (name .propertyIdentifier (fun _ => true) <|> privateName)
  let chained := node .optionalChain (symbol "?.")
  let index := string <|> number <|> name .predefinedType predefinedTypes.contains
  let query := chain base
    [⟨.memberExpression, some .object, isObject, symbol "." >> property⟩,
      ⟨.memberExpression, some .object, isObject, chained >> property⟩,
      ⟨.subscriptExpression, some .object, isObject,
        chained >> mark "[" >> field .index index >> mark "]"⟩,
      ⟨.callExpression, some .function, isFunction,
        goesOn dialect place >> field .arguments (arguments rules)⟩,
      ⟨.instantiation, some .function, isFunction, field .typeArguments (typeArguments rules)⟩]
  node .typeQuery <|
    keyword "typeof" >>
    ⟨fun text =>
      (query.run text).bind fun shapes rest =>
        if Shape.mainKind? shapes = some .importWord then .absent else .taken shapes rest⟩

/-- The type of something in another module: `import('module').name`. -/
def importedType : Parser :=
  let called := goesOn dialect place >> field .arguments (arguments rules)
  let property := field .property (name .propertyIdentifier (fun _ => true) <|> privateName)
  chain (keywordAs .importWord "import" >> check fun text => nextIs '(' text || nextIs '.' text)
    [⟨.callExpression, some .function,
        fun kind => kind = some .importWord || kind = some .memberExpression, called⟩,
      ⟨.memberExpression, some .object, fun _ => true, symbol "." >> property⟩]

/-- Literals stand for the type of their value. -/
def literalType : Parser :=
  node .literalType <|
    string <|> number <|>
    node .unary (field .operator (symbol "-" <|> symbol "+") >>
      field .argument number) <|>
    keywordAs .trueLiteral "true" <|> keywordAs .falseLiteral "false" <|>
    keywordAs .nullLiteral "null" <|> keywordAs .undefined "undefined"

/-- A type whose outermost construct is none of those that need parentheses in front of
brackets. A type to be inferred may be let through. -/
def selfContained (inferred : Bool) : Parser :=
  let isOpen (kind : Option Kind) : Bool :=
    match kind with
    | some .functionType => true
    | some .constructorType => true
    | some .readonlyType => true
    | some .callExpression => true
    | some .memberExpression => true
    | some .inferType => !inferred
    | _ => false
  ⟨fun text =>
    ((rules (.type place)).run text).bind fun shapes rest =>
      if isOpen (Shape.mainKind? shapes) then .absent else .taken shapes rest⟩

def templateLiteralType : Parser :=
  node .templateLiteralType <|
    mark "`" >>
    many
      (immediate .stringFragment (fun text =>
          let width := Lexeme.templateCharsLength text
          if width = 0 then none else some width) <|>
        node .templateType
          (immediate .mark (fun text => (Text.dropPrefix? ['$', '{'] text).map fun _ => 2) >>
            selfContained rules none true >> closeBrace)) >>
    immediate .mark (fun text => if text.head? = some '\x60' then some 1 else none)

def tupleMember : Parser :=
  let label := name .identifier fun word => !isTypeWord word
  let restLabel := node .restPattern (symbol "..." >> name .identifier fun _ => true)
  let type := field .type (ascription dialect rules none)
  node .requiredParameter (field .name (label <|> restLabel) >> type) <|>
  node .optionalParameter (field .name label >> symbol "?" >> type) <|>
  node .restType (symbol "..." >> rules (.type none)) <|>
  chain (rules (.type none))
    [⟨.optionalType, none, fun kind => kind ≠ some .optionalType, symbol "?"⟩]

def tupleType : Parser :=
  node .tupleType <|
    mark "[" >>
    maybe (separated (tupleMember dialect rules) (mark ",")) >>
    maybe (mark ",") >> mark "]"

/-- The type of an index signature or a mapped clause, perhaps made optional or required. -/
def indexedType : Parser :=
  field .type <| node .ascription <|
    (mark ":" <|> mark "?:" <|> mark "-?:" <|> mark "+?:") >> rules (.type (some .other))

def indexSignature : Parser :=
  let index :=
    field .name (name .identifier fun _ => true) >> mark ":" >> rules (.type none) <|>
    node .mappedTypeClause
      (field .name (name .typeIdentifier fun _ => true) >> keyword "in" >>
        field .type (rules (.type none)) >>
        maybe (keyword "as" >> field .aliasName (rules (.type none))))
  let sign := symbol "-" <|> symbol "+"
  node .indexSignature <|
    maybe
      (sign >> keyword "readonly" <|> keyword "readonly" >> goesOn dialect (some .other)) >>
    mark "[" >> index >> mark "]" >> indexedType rules

def constructSignature : Parser :=
  node .constructSignature <|
    maybe (keyword "abstract") >> keyword "new" >> goesOn dialect (some .other) >>
    check (fun text => nextIs '(' text || nextIs '<' text) >>
    maybe (typeParameters dialect rules) >>
    field .parameters (rules .parameters) >>
    maybe (field .type (ascription dialect rules (some .other)))

def memberSignature : Parser :=
  let place := some Place.other
  let modifiers := maybe (accessibility dialect place) >> orderedModifiers dialect place
  let named := field .name (propertyName rules) >> maybe (symbol "?")
  let signature := callSignature dialect rules true place
  node .methodSignature
    (modifiers >> methodMarks dialect place >> named >> signature) <|>
  branch (modifiers >> named) fun text =>
    if (nextIs '(' text || nextIs '<' text) && !endsHere dialect place text then
      (.methodSignature, signature)
    else (.propertySignature, maybe (field .type (ascription dialect rules place)))

def typeMember : Parser :=
  look fun text =>
    if nextIs '(' text || nextIs '<' text then
      node .callSignature (callSignature dialect rules true (some .other))
    else if wordAhead text = "abstract" then constructSignature dialect rules
    else
      constructSignature dialect rules <|>
      indexSignature dialect rules <|>
      memberSignature dialect rules

def typeMembers : Parser :=
  let separator := mark "," <|> semicolon dialect .other
  openBrace >>
  maybe
    (maybe (mark "," <|> mark ";") >>
      separated (typeMember dialect rules) separator >> maybe separator) >>
  closeBrace

def objectType : Parser :=
  node .objectType (typeMembers dialect rules)

def functionType : Parser :=
  node .functionType <|
    maybe (typeParameters dialect rules) >>
    field .parameters (rules .parameters) >> symbol "=>" >>
    field .returnType (resultType dialect rules place)

def constructorType : Parser :=
  node .constructorType <|
    maybe (keyword "abstract") >> keyword "new" >>
    maybe (typeParameters dialect rules) >>
    field .parameters (rules .parameters) >> symbol "=>" >>
    field .type (rules (.typeOperand place))

/-- Operators may stand in front of the first operand too. -/
def leadingOperator : Parser :=
  let operand := rules (.typeOperand place)
  node .intersectionType (symbol "&" >> operand) <|>
  node .unionType
    (symbol "|" >>
      chain operand [⟨.intersectionType, none, fun _ => true, symbol "&" >> operand⟩])

def wordType (word : String) : Parser :=
  match word with
  | "typeof" => typeQuery dialect rules place
  | "keyof" =>
    node .indexTypeQuery
      (keyword "keyof" >> (leadingOperator rules place <|> rules (.primaryType place)))
  | "this" => keywordAs .thisType "this"
  | "unique" => node .predefinedType (keyword "unique" >> keyword "symbol")
  | "const" => keyword "const"
  | _ =>
    if predefinedTypes.contains word then keywordAs .predefinedType word
    else if ["true", "false", "null", "undefined"].contains word then literalType
    else namedType rules

def primaryType : Parser :=
  let base := look fun text =>
    match ahead text with
    | [] => fail
    | '(' :: _ => node .parenthesizedType (mark "(" >> rules (.type none) >> mark ")")
    | '{' :: _ => rules .objectType
    | '[' :: _ => tupleType dialect rules
    | '\x60' :: _ => templateLiteralType rules
    | '*' :: _ => token .existentialType fun _ => some 1
    | '?' :: _ => node .maybeType (mark "?" >> selfContained rules place false)
    | c :: _ =>
      if c.isDigit || ['"', '\'', '-', '+', '.'].contains c then literalType
      else wordType dialect rules place (wordAhead text)
  -- a bracket on a new line starts the next member or statement
  let bracket := goesOn dialect place >> mark "["
  chain base
    [⟨.arrayType, none, fun _ => true, bracket >> mark "]"⟩,
      ⟨.lookupType, none, fun _ => true, bracket >> rules (.type none) >> mark "]"⟩]

/-- Whether parentheses hold nothing but a word that is a type, and so are no parameters. -/
def holdsTypeWord (text : List Char) : Bool :=
  let inside := ahead ((ahead text).drop 1)
  let word := Lexeme.word inside
  isTypeWord (String.ofList word) && word ≠ "this".toList && nextIs ')' (inside.drop word.length)

def typeOperand : Parser :=
  look fun text =>
    let word := wordAhead text
    if nextIs '|' text || nextIs '&' text then leadingOperator rules place
    else if nextIs '(' text && holdsTypeWord text then rules (.primaryType place)
    else if nextIs '(' text || nextIs '<' text then
      functionType dialect rules place <|> rules (.primaryType place)
    else
      match word with
      | "new" => constructorType dialect rules place
      | "abstract" => constructorType dialect rules place
      | "import" => importedType dialect rules place
      | "readonly" => node .readonlyType (keyword "readonly" >> rules (.type place))
      | "infer" =>
        node .inferType
          (keyword "infer" >> name .typeIdentifier (fun _ => true) >>
            maybe (goesOn dialect place >> keyword "extends" >> rules (.type place)))
      | _ => rules (.primaryType place)

def joined (kind : Kind) (operator : String) (operand : Parser) : Parser :=
  chain operand [⟨kind, none, fun _ => true, symbol operator >> operand⟩]

def type : Parser :=
  let union := joined .unionType "|" (joined .intersectionType "&" (rules (.typeOperand place)))
  chain union
    [⟨.conditionalType, some .left, fun kind => kind ≠ some .conditionalType,
      goesOn dialect place >> keyword "extends" >> field .right (rules (.type none)) >>
        symbol "?" >> field .consequence (rules (.type none)) >>
        mark ":" >> field .alternative (rules (.type place))⟩]

end VueScope.Script.Grammar
