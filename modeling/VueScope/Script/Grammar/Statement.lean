import VueScope.Script.Grammar.ImportExport

/-! Statements. -/
namespace VueScope.Script.Grammar

open VueScope.Script.Parser
open Semicolon (Place)

variable (dialect : Dialect) (rules : Rules)

def block (place : Place) : Parser :=
  node .statementBlock <|
    openBrace >> required (many (rules .statement) >> closeBrace) >>
    maybe (lineEnd dialect place)

def expressionStatement : Parser :=
  node .expressionStatement (rules (.sequence .outer) >> semicolon dialect .operand)

def ifStatement : Parser :=
  node .ifStatement <|
    keyword "if" >> field .condition (parenthesized dialect rules) >>
    field .consequence (rules .statement) >>
    maybe (field .alternative (node .elseClause (keyword "else" >> required (rules .statement))))

/-- The first value of a variable that a loop binds, which `in` follows. -/
def loopValue : Parser :=
  symbol "=" >> field .value (rules (.operation .inner 9)) >>
    check (fun text => wordAhead text = "in") <|>
  initializer rules .inner

def declaresInLoop (text : List Char) : Bool :=
  ["const", "var"].contains (wordAhead text) || (wordAhead text = "using" && !dialect.hasTypes)

/-- What a loop over the parts of something binds or assigns. Where the head may also
declare variables for a counting loop, `guard` is the place after them. -/
def loopTarget (guard : Option Place) : Parser :=
  let isOf (text : List Char) : Bool := wordAhead text = "of"
  let declared (keyword : Parser) : Parser :=
    keyword >> check (fun text => wordAhead text ≠ "in" && (dialect.hasTypes || !isOf text)) >>
      field .left (binder dialect rules)
  let ended := maybe (lineEnd dialect .other)
  let letWord :=
    keywordAs .letKeyword "let" >> check fun text =>
      !isOf text && !isInfixWord dialect (wordAhead text)
  let usingWord := when (!dialect.hasTypes) (usingKeyword dialect none)
  let value := loopValue rules >> goesOn dialect (guard.map fun _ => .operand)
  let assigned : Parser := ⟨fun text =>
    ((rules (.unary .inner)).run text).bind fun shapes rest =>
      let kind := Shape.mainKind? shapes
      if isTarget dialect kind || kind = some .parenthesized then .taken shapes rest else .absent⟩
  declared (keywordAs .constKeyword "const" <|> letWord) >> ended <|>
  usingWord >> field .left (binder dialect rules) >> ended <|>
  declared (keywordAs .varKeyword "var") >> goesOn dialect guard >> maybe value <|>
  check (fun text => !declaresInLoop dialect text) >>
    field .left (destination dialect rules <|> assigned)

def forInStatement : Parser :=
  let head :=
    keyword "for" >>
      (keyword "await" >> mark "(" >> loopTarget dialect rules none <|>
        mark "(" >> loopTarget dialect rules (some .other))
  node .forInStatement <|
    head >> (keyword "in" <|> keyword "of") >>
    field .right (rules (.sequence .inner)) >> mark ")" >> required (field .body (rules .statement))

def forStatement : Parser :=
  let isTargetAhead (text : List Char) : Bool :=
    wordAhead text = "async" && wordAhead ((ahead text).drop 5) = "of"
  let value :=
    check (fun text => !declaresInLoop dialect text && !isTargetAhead text) >>
      rules (.sequence .inner) >> mark ";"
  let empty := node .emptyStatement (mark ";")
  let start := variableDeclaration dialect rules (letKeyword dialect none) <|> value <|> empty
  node .forStatement <|
    keyword "for" >> mark "(" >> start >>
    field .condition (rules (.sequence .inner) >> mark ";" <|> empty) >>
    maybe (rules (.sequence .inner)) >> mark ")" >> required (field .body (rules .statement))

def whileStatement : Parser :=
  node .whileStatement <|
    keyword "while" >> field .condition (parenthesized dialect rules) >> field .body (rules .statement)

/-- A loop with its condition at the end. A semicolon may follow an object in its body, but
no block. -/
def doStatement : Parser :=
  let isObject (text : List Char) : Bool :=
    ((openBrace >> closeBrace).run text).rest?.any (nextIs ';')
  let body := look fun text =>
    if isObject text then expressionStatement dialect rules else rules .statement
  node .doStatement <|
    keyword "do" >> field .body body >> keyword "while" >>
    field .condition (parenthesized dialect rules) >> maybe (semicolon dialect .other)

def tryStatement : Parser :=
  let body := field .body (rules (.block .other))
  let caught := node .catchClause <|
    keyword "catch" >> required
      (maybe
        (mark "(" >> field .parameter (binder dialect rules) >>
          maybe (field .type (ascription dialect rules none)) >> mark ")") >>
        body)
  node .tryStatement <|
    keyword "try" >> body >>
    maybe caught >>
    maybe (node .finallyClause (keyword "finally" >> required body))

def switchStatement : Parser :=
  let statements := many <|
    check (fun text => wordAhead text ≠ "case" && wordAhead text ≠ "default") >> rules .statement
  let case := node .switchCase <|
    keyword "case" >> field .value (rules (.sequence .inner)) >> mark ":" >> statements
  let otherwise := node .switchDefault (keyword "default" >> mark ":" >> statements)
  node .switchStatement <|
    keyword "switch" >> field .value (parenthesized dialect rules) >>
    field .body (node .switchBody (openBrace >> many (case <|> otherwise) >> closeBrace))

def withStatement : Parser :=
  node .withStatement <|
    keyword "with" >> field .object (parenthesized dialect rules) >> field .body (rules .statement)

def jumpStatement (kind : Kind) (word : String) : Parser :=
  let ended := semicolon dialect .other
  node kind <|
    keyword word >>
    (ended <|> field .label (name .statementIdentifier fun word => !isReserved dialect word) >> ended)

/-- A value to return must start on the same line. -/
def returnStatement : Parser :=
  node .returnStatement <|
    keyword "return" >>
    (semicolon dialect .other <|>
      rules (.sequence .outer) >> semicolon dialect .operand)

def throwStatement : Parser :=
  node .throwStatement
    (keyword "throw" >> rules (.sequence .outer) >> semicolon dialect .operand)

def labeledStatement : Parser :=
  node .labeledStatement <|
    field .label (name .statementIdentifier fun word =>
      word ≠ "undefined" && !isOperandWord dialect word) >>
    mark ":" >> required (field .body (rules .statement))

/-- An opening brace starts a block or an object. An object is meant where no statement
starts so, or where only an expression goes on like this. -/
def bracedStatement : Parser :=
  look fun text =>
    let inside := ahead ((ahead text).drop 1)
    if mayBeObject dialect text then
      trial (expressionStatement dialect rules) <|> rules (.block .other)
    else if inside.head? ≠ some '}' then rules (.block .other)
    else if continuesExpression dialect (inside.drop 1) then expressionStatement dialect rules
    else rules (.block .operand)

def keywordStatement (word : String) : Option Parser :=
  match word with
  | "if" => some (ifStatement dialect rules)
  | "for" => some (forInStatement dialect rules <|> forStatement dialect rules)
  | "while" => some (whileStatement dialect rules)
  | "do" => some (doStatement dialect rules)
  | "try" => some (tryStatement dialect rules)
  | "switch" => some (switchStatement dialect rules)
  | "with" => some (withStatement dialect rules)
  | "break" => some (jumpStatement dialect .breakStatement "break")
  | "continue" => some (jumpStatement dialect .continueStatement "continue")
  | "return" => some (returnStatement dialect rules)
  | "throw" => some (throwStatement dialect rules)
  | "debugger" =>
    some (node .debuggerStatement (keyword "debugger" >> semicolon dialect .other))
  | _ => none

/-- A namespace as a statement of its own, or as an expression at the end of its line. -/
def namespaceStatement : Parser :=
  let module := internalModule dialect rules .outer
  node .expressionStatement (module >> lineEnd dialect .operand) <|>
  module >> check fun text => !continuesExpression dialect text

/-- Statements whose first word may also be a name or start an expression. -/
def wordStatement (word : String) : Parser :=
  let otherwise := labeledStatement dialect rules <|> expressionStatement dialect rules
  match word with
  | "import" =>
    trial (importStatement dialect rules) <|> when dialect.hasTypes (importAlias dialect) <|>
      expressionStatement dialect rules
  | "export" =>
    look fun text =>
      if operatorAhead ((ahead text).drop 6) = "=" then exportStatement dialect rules <|> otherwise
      else if startsExport dialect text then required (exportStatement dialect rules)
      else otherwise
  | "namespace" => when dialect.hasTypes (namespaceStatement dialect rules) <|> otherwise
  | _ => leadingDeclaration dialect rules <|> otherwise

def statement : Parser :=
  token .markupComment Lexeme.markupCommentLength? <|>
  look fun text =>
    match ahead text with
    | [] => fail
    | '{' :: _ => bracedStatement dialect rules
    | ';' :: _ => node .emptyStatement (mark ";")
    | '@' :: _ =>
      exportStatement dialect rules <|> leadingDeclaration dialect rules <|>
        expressionStatement dialect rules
    | _ =>
      let word := wordAhead text
      match keywordStatement dialect rules word with
      | some parser => required parser
      | none =>
        if word ≠ "" then wordStatement dialect rules word else expressionStatement dialect rules

end VueScope.Script.Grammar
