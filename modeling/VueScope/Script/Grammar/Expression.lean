import VueScope.Script.Grammar.Pattern

/-! Expressions: literals, accesses and calls, operators, functions, assignments and
conditionals. -/
namespace VueScope.Script.Grammar

open VueScope.Script.Parser
open Semicolon (Place)

variable (dialect : Dialect) (rules : Rules)

def templateSubstitution : Parser :=
  node .templateSubstitution <|
    immediate .mark (fun text => (Text.dropPrefix? ['$', '{'] text).map fun _ => 2) >>
    required (rules (.sequence .inner) >> closeBrace)

def templateString : Parser :=
  node .templateString <|
    mark "`" >>
    many
      (immediate .stringFragment (fun text =>
          let width := Lexeme.templateCharsLength text
          if width = 0 then none else some width) <|>
        immediate .escapeSequence Lexeme.escapeLength? <|>
        templateSubstitution rules) >>
    immediate .mark (fun text => if text.head? = some '\x60' then some 1 else none)

def array : Parser :=
  node .array (listOf (mark "[") (item rules) (mark "]"))

variable (mode : Mode) (text : List Char) (place : Option Place)

def overriding : Parser :=
  name .overrideModifier (· = "override") >> goesOn dialect place >>
    check fun text => startsProperty text || nextIs '*' text

/-- Words that methods and signatures have in front of them, in this order. -/
def orderedModifiers : Parser :=
  maybe (methodModifier dialect place "static") >>
  maybe (overriding dialect place) >>
  maybe (methodModifier dialect place "readonly")

def objectMethodModifiers : Parser :=
  if dialect.hasTypes then
    maybe (accessibility dialect none) >> orderedModifiers dialect none
  else many (decorator dialect rules) >> maybe (methodModifier dialect none "static")

def objectMethod : Parser :=
  node .methodDefinition <|
    objectMethodModifiers dialect rules >>
    maybe (methodMarks dialect none) >>
    field .name (propertyName rules) >>
    maybe (when dialect.hasTypes (symbol "?")) >>
    callSignature dialect rules true none >>
    field .body (rules (.block .other))

def objectEntry : Parser :=
  look fun text =>
    if operatorAhead text = "..." then spread rules
    else
      node .pair
        (field .key (propertyName rules) >> mark ":" >> field .value (rules (.expression .inner))) <|>
      name .shorthandProperty (fun _ => true) >>
        check (fun rest => nextIs ',' rest || nextIs '}' rest) <|>
      objectMethod dialect rules

def object : Parser :=
  node .object (listOf openBrace (objectEntry dialect rules) closeBrace)

/-- Words that start a statement or an expression, and are no names there. -/
def leadingWords : List String :=
  ["break", "class", "const", "continue", "debugger", "delete", "do", "false", "for", "function",
    "if", "import", "null", "return", "super", "switch", "this", "throw", "true", "try", "typeof",
    "undefined", "using", "var", "void", "while", "with", "yield"] ++
  if dialect.hasTypes then ["abstract", "await", "enum", "interface"] else ["new"]

/-- Whether the text in braces may be an object where a block may stand as well. A name
on its own is a statement, so the first entry has to be something else. -/
def mayBeObject : Bool :=
  let inside := ahead ((ahead text).drop 1)
  let word := Lexeme.word inside
  let after := inside.drop word.length
  if word.isEmpty then
    Lexeme.operator inside = "..." ||
    match inside with
    | [] => false
    | '@' :: _ => !dialect.hasTypes
    | c :: _ => c.isDigit || [',', '*', '"', '\'', '[', '#', '.'].contains c
  else
    !(leadingWords dialect).contains (String.ofList word) &&
      (nextIs ':' after || nextIs '(' after || nextIs '*' after || startsProperty after ||
        (dialect.hasTypes && (nextIs '<' after || nextIs '?' after)))

/-- An expression in parentheses; with types, a single one may carry its type. -/
def parenthesized : Parser :=
  let typed := maybe (field .type (ascription dialect rules none))
  let inside : Parser := ⟨fun text =>
    ((rules (.sequence .inner)).run text).bind fun shapes rest =>
      if Shape.mainKind? shapes = some .sequence then .taken shapes rest
      else (typed.run rest).map fun more => shapes ++ more⟩
  node .parenthesized (mark "(" >> required (inside >> mark ")"))

/-- The word `async` in front of a function. On a line of its own it is a name. -/
def asyncMark : Parser :=
  keyword "async" >> goesOn dialect place

def functionExpression : Parser :=
  branch (maybe (asyncMark dialect mode.place) >> keyword "function") fun text =>
    let rest :=
      maybe (field .name (boundName dialect)) >>
      callSignature dialect rules true none >> field .body (rules (.block .operand))
    if nextIs '*' text then (.generatorFunction, mark "*" >> rest) else (.functionExpression, rest)

def classHeritage : Parser :=
  let base := rules (.expression .inner)
  if dialect.hasTypes then
    let ended := check fun text =>
      nextIs '{' text || nextIs ',' text || wordAhead text = "implements"
    let generic :=
      field .value (rules .access) >> field .typeArguments (typeArguments rules) >> ended
    let extending :=
      node .extendsClause (keyword "extends" >> separated (trial generic <|> field .value base) (mark ","))
    let implementing :=
      node .implementsClause (keyword "implements" >> separated (rules (.type none)) (mark ","))
    node .classHeritage (extending >> maybe implementing <|> implementing)
  else
    node .classHeritage (keyword "extends" >> base)

def className : Parser :=
  if dialect.hasTypes then name .typeIdentifier fun word => word ≠ "extends" && word ≠ "implements"
  else boundName dialect

def classExpression : Parser :=
  node .classExpression <|
    many (decorator dialect rules) >> keyword "class" >>
    maybe (field .name (className dialect)) >>
    maybe (typeParameters dialect rules) >>
    maybe (classHeritage dialect rules) >>
    field .body (rules .classBody)

def arrowBody : Parser :=
  let value := rules (.expression mode)
  let block := rules (.block .operand)
  symbol "=>" >> required (field .body (look fun text =>
    if !nextIs '{' text then value
    else if mayBeObject dialect text then trial value <|> block
    else block))

def bareArrow : Parser :=
  let bare := name .identifier fun word => !isReserved dialect word && !isInfixWord dialect word
  node .arrowFunction <|
    (asyncMark dialect mode.place >> field .parameter bare <|>
      field .parameter (identifier dialect)) >>
    arrowBody dialect rules mode

def signedArrow : Parser :=
  node .arrowFunction <|
    maybe (asyncMark dialect mode.place) >>
    callSignature dialect rules mode.typedArrow none >>
    arrowBody dialect rules mode

def hasArrow : Bool :=
  (Text.breakOn? ['=', '>'] text).isSome

def arrow : Parser :=
  look fun text =>
    let next := ahead text
    let word := Lexeme.word next
    let afterWord := ahead (next.drop word.length)
    if !word.isEmpty then
      if Lexeme.operator afterWord = "=>" then bareArrow dialect rules mode
      else if word = "async".toList && hasArrow afterWord then
        if !(Lexeme.word afterWord).isEmpty then bareArrow dialect rules mode
        else signedArrow dialect rules mode
      else fail
    else if (next.head? = some '(' || (dialect.hasTypes && next.head? = some '<')) && hasArrow next then
      signedArrow dialect rules mode
    else fail

def memberAccess : Wrap :=
  ⟨.memberExpression, some .object, fun _ => true,
    symbol "." >> field .property (name .propertyIdentifier (fun _ => true) <|> privateName)⟩

def subscriptAccess : Wrap :=
  ⟨.subscriptExpression, some .object, fun _ => true,
    mark "[" >> required (field .index (rules (.sequence .inner)) >> mark "]")⟩

/-- Expressions that hold together without brackets around them. -/
def isPrimary : Option Kind → Bool
  | some .update => false
  | some .newExpression => false
  | some .asExpression => false
  | some .satisfiesExpression => false
  | some .instantiation => false
  | some .typeAssertion => false
  | some .jsxElement => false
  | some .internalModule => false
  | some .unary => false
  | some .binary => false
  | some .await => false
  | some .yield => false
  | some .assignment => false
  | some .augmentedAssignment => false
  | _ => true

def taggedTemplate : Wrap :=
  ⟨.callExpression, some .function, fun kind => isPrimary kind || kind = some .newExpression,
    check (nextIs '\x60') >> field .arguments (templateString rules)⟩

def optionalAccesses : List Wrap :=
  let any : Option Kind → Bool := fun _ => true
  let chained := node .optionalChain (symbol "?.")
  let property := field .property (name .propertyIdentifier (fun _ => true) <|> privateName)
  let called := field .arguments (arguments rules)
  let typedCall := field .typeArguments (typeArguments rules) >> called
  [⟨.memberExpression, some .object, any, chained >> property⟩,
    ⟨.subscriptExpression, some .object, any,
      chained >> mark "[" >> required (field .index (rules (.sequence .inner)) >> mark "]")⟩,
    ⟨.callExpression, some .function, isPrimary,
      chained >> (when dialect.hasTypes typedCall <|> called)⟩]

def suffixes : List Wrap :=
  let any : Option Kind → Bool := fun _ => true
  let called := field .arguments (arguments rules)
  [memberAccess, subscriptAccess rules, ⟨.callExpression, some .function, any, called⟩,
    taggedTemplate rules] ++
  optionalAccesses dialect rules ++
  [⟨.callExpression, some .function, any,
    when dialect.hasTypes (field .typeArguments (typeArguments rules) >> called)⟩]

/-- Whether what `new` constructs follows; otherwise `new` is a name. -/
def startsConstructed : Bool :=
  let word := wordAhead text
  !dialect.hasTypes ||
    !endsHere dialect mode.place text &&
    (if word ≠ "" then !isInfixWord dialect word
    else
      match ahead text with
      | [] => false
      | c :: _ =>
        c.isDigit || ['(', '[', '{', '\x60', '"', '\'', '@', '#', '.'].contains c ||
          ["/", "<", "+", "++", "-", "--", "!"].contains (operatorAhead text))

/-- The word `import` in an expression: `import(…)` starts a call; `import.meta` stands for itself. -/
def importExpression : Parser :=
  node .metaProperty (keyword "import" >> symbol "." >> keyword "meta") <|>
  keywordAs .importWord "import" >> check fun text =>
    nextIs '(' text || operatorAhead text = "?."

/-- A literal in brackets, or a pattern that takes apart what is assigned to it. -/
def bracketed (literal : Parser) : Parser :=
  let assigned := node .assignment <|
    field .left (rules .destructuring) >> symbol "=" >>
      required (field .right (rules (.expression mode)))
  ⟨fun text =>
    match literal.run text with
    | .broken => .broken
    | .absent => assigned.run text
    | .taken shapes rest =>
      if operatorAhead rest = "=" then
        match assigned.run text with
        | .absent => .taken shapes rest
        | found => found
      else .taken shapes rest⟩

/-- A name with dots, or a string. -/
def moduleName : Parser :=
  string <|>
  chain (name .identifier fun _ => true)
    [⟨.nestedIdentifier, some .object, fun _ => true,
      symbol "." >> field .property (name .propertyIdentifier fun _ => true)⟩]

/-- A namespace with its declarations. Without a name after it, the word is one itself. -/
def internalModule : Parser :=
  node .internalModule <|
    keyword "namespace" >> goesOn dialect mode.place >>
    check (fun text => !isInfixWord dialect (wordAhead text)) >>
    field .name moduleName >>
    maybe (goesOn dialect mode.place >> field .body (rules (.block .operand)))

def wordExpression (word : String) : Parser :=
  match word with
  | "function" => functionExpression dialect rules mode
  | "async" => functionExpression dialect rules mode <|> identifier dialect
  | "class" => classExpression dialect rules
  | "this" => keywordAs .thisWord "this"
  | "super" => keywordAs .superWord "super"
  | "true" => keywordAs .trueLiteral "true"
  | "false" => keywordAs .falseLiteral "false"
  | "null" => keywordAs .nullLiteral "null"
  | "import" => importExpression
  | "namespace" =>
    when dialect.hasTypes (internalModule dialect rules mode) <|> identifier dialect
  | _ => reference dialect

/-- An expression that no operator joins, apart from `new`. -/
def simplePrimary : Parser :=
  look fun text =>
    match ahead text with
    | [] => fail
    | '(' :: _ => parenthesized dialect rules
    | '[' :: _ => bracketed rules mode (array rules)
    | '{' :: _ => bracketed rules mode (rules .object)
    | '\x60' :: _ => templateString rules
    | '"' :: _ => string
    | '\'' :: _ => string
    | '/' :: _ => token .regex Lexeme.regexLength?
    | '.' :: _ => number
    | '@' :: _ => classExpression dialect rules
    | '#' :: _ => privateName >> check fun rest => wordAhead rest = "in"
    | c :: _ => if c.isDigit then number else wordExpression dialect rules mode (wordAhead text)

/-- An expression that no operator joins, functions with arrows included. -/
def compound : Parser :=
  arrow dialect rules mode <|> simplePrimary dialect rules mode

/-- Construction, `new target(…)`, or `new.target`. Without types what is constructed may
itself start with `new`. -/
def construction : Parser :=
  let accesses :=
    [memberAccess, subscriptAccess rules, taggedTemplate rules] ++ optionalAccesses dialect rules
  let newTarget := node .metaProperty (keyword "new" >> symbol "." >> keyword "target")
  let constructed := look fun text =>
    if wordAhead text ≠ "new" then compound dialect rules mode
    else if dialect.hasTypes then newTarget
    else rules (.construction mode)
  let generic := when dialect.hasTypes <|
    check (fun text => operatorAhead text = "<") >>
      required (field .typeArguments (typeArguments rules))
  look fun text =>
    let after := (ahead text).drop 3
    if operatorAhead after = "." && !(ahead after).tail.head?.any Char.isDigit then
      newTarget
    else if startsConstructed dialect mode after then
      node .newExpression
        (keyword "new" >> field .constructed (chain constructed accesses) >>
          maybe generic >> maybe (field .arguments (arguments rules)))
    else name .identifier (· = "new")

def primary : Parser :=
  look fun text =>
    if wordAhead text = "new" && operatorAhead ((ahead text).drop 3) ≠ "=>" then
      construction dialect rules mode
    else compound dialect rules mode

def access : Parser :=
  let nonNull : Wrap :=
    ⟨.nonNull, none, fun _ => true, when dialect.hasTypes (symbol "!")⟩
  chain (reference dialect <|> keywordAs .thisWord "this" <|> keywordAs .superWord "super")
    (suffixes dialect rules ++ [nonNull])

/-- Whether an operand comes next, rather than the end of the expression or an operator. -/
def startsOperand : Bool :=
  let word := wordAhead text
  !endsHere dialect mode.place text &&
    (if word ≠ "" then !isInfixWord dialect word
    else
      match ahead text with
      | [] => false
      | c :: rest =>
        c.isDigit || ['(', '[', '{', '\x60', '"', '\'', '@', '#', '~'].contains c ||
          (c = '.' && rest.head?.any Char.isDigit) ||
          ["/", "<", "+", "++", "-", "--", "!"].contains (operatorAhead text))

def statementWords : List String :=
  ["abstract", "break", "const", "continue", "debugger", "declare", "do", "enum", "export", "for",
    "if", "import", "interface", "let", "module", "return", "switch", "throw", "try", "type", "var",
    "while", "with"]

/-- Whether type arguments end here. If an operand follows, their brackets are comparisons
instead. -/
def endsTypeArguments : Bool :=
  let word := wordAhead text
  let written := operatorAhead text
  if text.head? = some '=' then false
  else if word ≠ "" then
    isInfixWord dialect word || (statementWords.contains word && endsHere dialect mode.place text)
  else if nextIs '[' text then true
  else if ["!", "++", "--"].contains written then
    !startsOperand dialect mode ((ahead text).drop written.length)
  else !startsOperand dialect mode text

def instantiation : Wrap :=
  ⟨.instantiation, none, fun _ => true,
    when dialect.hasTypes
      (field .typeArguments (typeArguments rules) >> check (endsTypeArguments dialect mode))⟩

/-- The operators `++` and `--` after an expression, on the same line if a statement may end there. -/
def postfixUpdate : Wrap :=
  ⟨.update, some .argument, fun _ => true,
    goesOn dialect mode.place >> field .operator (symbol "++" <|> symbol "--")⟩

def augmentedOperators : List String :=
  ["+=", "-=", "*=", "/=", "%=", "^=", "&=", "|=", ">>=", ">>>=", "<<=", "**=", "&&=", "||=", "??="]

def assignments : List Wrap :=
  let isAssignable (kind : Option Kind) : Bool := isTarget dialect kind || kind = some .parenthesized
  [⟨.assignment, some .left, isAssignable,
      symbol "=" >> required (field .right (rules (.expression mode)))⟩,
    ⟨.augmentedAssignment, some .left, fun kind => isAssignable kind && kind ≠ some .undefined,
      look fun text =>
        let written := operatorAhead text
        if augmentedOperators.contains written then
          field .operator (symbol written) >> required (field .right (rules (.expression mode)))
        else fail⟩]

/-- The forms `expression!`, `expression as type` and `expression satisfies type`. -/
def typeSuffixes : List Wrap :=
  let sameLine := goesOn dialect mode.place
  let any : Option Kind → Bool := fun _ => true
  if dialect.hasTypes then
    [⟨.nonNull, none, any, sameLine >> symbol "!"⟩,
      ⟨.asExpression, none, any,
        sameLine >> keyword "as" >> (keyword "const" <|> rules (.type mode.place))⟩,
      ⟨.satisfiesExpression, none, any,
        sameLine >> keyword "satisfies" >> rules (.type mode.place)⟩]
  else []

/-- What may follow an operand that was given a type. -/
def typedSuffixes : List Wrap :=
  if dialect.hasTypes then
    typeSuffixes dialect rules mode ++ suffixes dialect rules ++
      [instantiation dialect rules mode, postfixUpdate dialect mode] ++ assignments dialect rules mode
  else []

def angled : Parser :=
  if dialect.hasElements then rules .element
  else node .typeAssertion (typeArguments rules >> rules (.unary mode))

def unaryOperators : List String :=
  ["!", "~", "-", "+"]

def yieldExpression : Parser :=
  node .yield <|
    keyword "yield" >>
    look fun text =>
      if operatorAhead text = "*" then mark "*" >> required (rules (.expression mode))
      else if startsOperand dialect mode text then required (rules (.expression mode))
      else done

/-- Whether what was read as a name with its accesses is preferred to an operand after
`await`: a call or an assignment, unless an assignment or an arrow goes on from there. -/
def prefersName (shapes : List Shape) (rest : List Char) : Bool :=
  let written := operatorAhead rest
  match Shape.mainKind? shapes with
  | some .callExpression => written ≠ "=" && written ≠ "=>" && !augmentedOperators.contains written
  | some .assignment => true
  | some .augmentedAssignment => true
  | _ => false

/-- The word `await` with its operand. Without types the word is a name as well, and what
follows it decides. -/
def awaitExpression (named : Parser) : Parser :=
  let awaited := node .await
    (keyword "await" >>
      required (chain (rules (.unary mode)) (typedSuffixes dialect rules mode)))
  let complete (text : List Char) : Bool := !startsOperand dialect mode text
  if dialect.hasTypes then awaited
  else
    look fun text =>
      let after := (ahead text).drop 5
      if !startsOperand dialect mode after then named
      else if ['(', '[', '\x60'].any fun c => nextIs c after then
        ⟨fun text =>
          match (trial named).run text with
          | .taken shapes rest =>
            if prefersName shapes rest then .taken shapes rest
            else
              match (trial awaited).run text with
              | .taken others last => .taken others last
              | _ => .taken shapes rest
          | _ => awaited.run text⟩
      else if ["/", "<", "+", "++", "-", "--"].contains (operatorAhead after) then
        trial awaited >> check complete <|> named
      else awaited

def usingAssignment : Parser :=
  node .assignment <|
    keyword "using" >>
    field .left (look fun text =>
      if nextIs '(' text then parenthesized dialect rules else destination dialect rules) >>
    symbol "=" >> required (field .right (rules (.expression mode)))

/-- An expression without binary operators: operators in front, then accesses, calls
and assignments. -/
def unary : Parser :=
  look fun text =>
    let written := operatorAhead text
    let word := wordAhead text
    let operand := required (field .argument (rules (.unary mode)))
    let joined (base : Parser) : Parser :=
      chain base
        (suffixes dialect rules ++ [instantiation dialect rules mode, postfixUpdate dialect mode] ++
          assignments dialect rules mode)
    if unaryOperators.contains written then
      node .unary (field .operator (symbol written) >> operand)
    else if written = "++" || written = "--" then
      node .update (field .operator (symbol written) >> operand)
    else if ["typeof", "void", "delete"].contains word then
      node .unary (field .operator (keyword word) >> operand)
    else if word = "await" then
      awaitExpression dialect rules mode (joined (primary dialect rules mode))
    else if word = "yield" then joined (yieldExpression dialect rules mode)
    else if word = "using" && dialect.hasTypes then usingAssignment dialect rules mode
    else if nextIs '<' text then
      joined (arrow dialect rules mode <|> required (angled dialect rules mode))
    else joined (primary dialect rules mode)

/-- How tightly a binary operator binds. -/
def level? (operator word : String) : Option Nat :=
  match operator with
  | "??" => some 1
  | "||" => some 2
  | "&&" => some 3
  | "|" => some 4
  | "^" => some 5
  | "&" => some 6
  | "==" => some 7
  | "!=" => some 7
  | "===" => some 7
  | "!==" => some 7
  | "<" => some 8
  | ">" => some 8
  | "<=" => some 8
  | ">=" => some 8
  | "<<" => some 9
  | ">>" => some 9
  | ">>>" => some 9
  | "+" => some 10
  | "-" => some 10
  | "*" => some 11
  | "/" => some 11
  | "%" => some 11
  | "**" => some 12
  | _ => if word = "in" || word = "instanceof" then some 8 else none

def binaryRest (least : Nat) : Parser :=
  look fun text =>
    let written := operatorAhead text
    let word := wordAhead text
    match level? written word with
    | none => fail
    | some level =>
      if level < least then fail
      else
        let operator := if word = "" then symbol written else keyword word
        -- only the power operator groups to the right
        let next := if written = "**" then level else level + 1
        field .operator operator >> required (field .right (rules (.operation mode next)))

/-- Operands and operators. At the lowest level an expression may also be given a type. -/
def operation (least : Nat) : Parser :=
  let binary : Wrap := ⟨.binary, some .left, fun _ => true, binaryRest rules mode least⟩
  let outermost := if least ≤ 1 then typedSuffixes dialect rules mode else []
  chain (rules (.unary mode)) (outermost ++ [binary])

/-- The question mark of a conditional. With types, before `:`, `)` or `,` it marks
something optional instead, and before a point an access. -/
def questionMark : Parser :=
  symbol "?" >> check fun text =>
    if dialect.hasTypes then
      text.head? ≠ some '.' &&
      match text.dropWhile Semicolon.isLineGap with
      | ':' :: _ => false
      | ')' :: _ => false
      | ',' :: _ => false
      | _ => true
    else true

def expression : Parser :=
  chain (rules (.operation mode 1))
    [⟨.ternary, some .condition, fun kind => kind ≠ some .ternary,
      questionMark dialect >> required
        ((field .consequence (rules (.expression .inner)) >> mark ":" <|>
            field .consequence (rules (.expression ⟨false, false⟩)) >> mark ":") >>
          field .alternative (rules (.expression mode)))⟩]

def sequence : Parser :=
  branchSequence (rules (.expression mode)) (many (mark "," >> rules (.expression mode)))
where
  /-- A single expression stands for itself. -/
  branchSequence (first rest : Parser) : Parser :=
    ⟨fun text =>
      (first.run text).bind fun shapes after =>
        match rest.run after with
        | .taken [] _ => .taken shapes after
        | .taken more last => .taken (Shape.wrap .sequence (shapes ++ more)) last
        | .absent => .taken shapes after
        | .broken => .broken⟩

end VueScope.Script.Grammar
