import VueScope.Script.Grammar.Declaration

/-! Imports and exports. -/
namespace VueScope.Script.Grammar

open VueScope.Script.Parser
open Semicolon (Place)

variable (dialect : Dialect) (rules : Rules)

def fromClause : Parser :=
  keyword "from" >> field .source string

/-- Attributes, `with { … }`, after the name of a module. -/
def importAttributes : Parser :=
  node .importAttribute (goesOn dialect (some .other) >> keyword "with" >> rules .object)

def exportedName : Parser :=
  when (!dialect.hasTypes) (keyword "default") <|>
  name .identifier (fun word => !isReserved dialect word) <|> string

def typeMark : Parser :=
  when dialect.hasTypes (keywordAs .typeKeyword "type" <|> keyword "typeof")

def endsSpecifier (text : List Char) : Bool :=
  nextIs ',' text || nextIs '}' text

/-- An imported name, perhaps renamed. The word `type` in front of it may be the name itself. -/
def importSpecifier : Parser :=
  let named (isName : String → Bool) : Parser :=
    let test := check fun text => isName (wordAhead text)
    test >> field .name (exportedName dialect) >> keyword "as" >>
        field .aliasName (boundName dialect) >> check endsSpecifier <|>
      test >> field .name (boundName dialect) >> check endsSpecifier
  node .importSpecifier (named fun word => !dialect.hasTypes || word ≠ "typeof") <|>
  node .importSpecifier (typeMark dialect >> named (· ≠ "as"))

def namedImports : Parser :=
  node .namedImports <|
    openBrace >>
    maybe (separated (importSpecifier dialect) (mark ",")) >>
    maybe (mark ",") >> closeBrace

def namespaceImport : Parser :=
  node .namespaceImport (mark "*" >> keyword "as" >> boundName dialect)

def importClause : Parser :=
  let bundle := namespaceImport dialect <|> namedImports dialect
  let default :=
    check (fun text => !dialect.hasTypes || wordAhead text ≠ "typeof") >> boundName dialect
  node .importClause (bundle <|> default >> maybe (mark "," >> bundle))

def requireClause : Parser :=
  when dialect.hasTypes <| node .importRequireClause <|
    name .identifier (fun word => word ≠ "type" && word ≠ "typeof") >> symbol "=" >>
    keyword "require" >> mark "(" >> field .source string >> mark ")"

def importStatement : Parser :=
  let subject :=
    requireClause dialect <|> importClause dialect >> fromClause <|> field .source string
  let rest := maybe (importAttributes dialect rules) >> semicolon dialect .other
  node .importStatement (keyword "import" >> typeMark dialect >> subject >> rest) <|>
  node .importStatement (keyword "import" >> subject >> rest)

def exportSpecifier : Parser :=
  let exported := exportedName dialect
  node .exportSpecifier <|
    maybe (typeMark dialect) >> field .name exported >>
    maybe (keyword "as" >> field .aliasName exported) >> check endsSpecifier

/-- Names in braces, and the module they come from if it is another one. -/
def exportClause : Parser :=
  let clause := node .exportClause <|
    openBrace >>
    maybe (separated (exportSpecifier dialect) (mark ",")) >>
    maybe (mark ",") >> closeBrace
  clause >> maybe (goesOn dialect (some .other) >> fromClause)

def reexport : Parser :=
  let all :=
    node .namespaceExport (mark "*" >> keyword "as" >> exportedName dialect) <|> mark "*"
  all >> fromClause <|> exportClause dialect

def defaultExport : Parser :=
  keywordAs .defaultKeyword "default" >> required
    (field .declaration (leadingDeclaration dialect rules) <|>
      field .value (rules (.expression .outer)) >> semicolon dialect .operand)

def exportStatement : Parser :=
  let ended := semicolon dialect .other
  let typed :=
    keywordAs .typeKeyword "type" >> exportClause dialect >> ended <|>
    symbol "=" >> rules (.expression .outer) >> semicolon dialect .operand <|>
    keyword "as" >> keyword "namespace" >> name .identifier (fun _ => true) >> ended
  node .exportStatement <|
    many (decorator dialect rules) >> keyword "export" >>
    (reexport dialect >> ended <|>
      defaultExport dialect rules <|>
      when dialect.hasTypes typed <|>
      field .declaration (declaration dialect rules))

def exportedWords : List String :=
  ["async", "class", "const", "default", "function", "let", "var"] ++
  if dialect.hasTypes then
    ["abstract", "as", "declare", "enum", "import", "interface", "module", "namespace", "type"]
  else ["await", "using"]

/-- Whether the word `export` exports something. Otherwise it is a name. -/
def startsExport (text : List Char) : Bool :=
  let after := (ahead text).drop 6
  !endsHere dialect (some .operand) after &&
    (nextIs '{' after || nextIs '@' after || operatorAhead after = "*" ||
      (exportedWords dialect).contains (wordAhead after))

end VueScope.Script.Grammar
