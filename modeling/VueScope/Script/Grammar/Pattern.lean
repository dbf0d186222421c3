import VueScope.Script.Grammar.Rule

/-! Binding patterns and parameters. -/
namespace VueScope.Script.Grammar

open VueScope.Script.Parser

variable (dialect : Dialect) (rules : Rules)

/-- What may be assigned to without taking it apart. -/
def isTarget : Option Kind → Bool
  | some .identifier => true
  | some .undefined => true
  | some .memberExpression => true
  | some .subscriptExpression => true
  | some .nonNull => dialect.hasTypes
  | _ => false

def target : Parser :=
  ⟨fun text =>
    ((trial (rules .access)).run text).bind fun shapes rest =>
      if isTarget dialect (Shape.mainKind? shapes) then .taken shapes rest else .absent⟩

def destination : Parser :=
  let accessed (text : List Char) : Bool := ['.', '[', '('].any fun c => nextIs c text
  look fun text =>
    if nextIs '{' text || nextIs '[' text then
      rules .destructuring >> check (fun rest => !accessed rest && operatorAhead rest ≠ "?.") <|>
        target dialect rules
    else target dialect rules

def restPattern : Parser :=
  node .restPattern (symbol "..." >> destination dialect rules)

def pattern : Parser :=
  look fun text =>
    if operatorAhead text = "..." then restPattern dialect rules else destination dialect rules

def patternWithDefault : Parser :=
  chain (rules .pattern)
    [⟨.assignmentPattern, some .left,
      fun kind => kind ≠ some .assignmentPattern && kind ≠ some .restPattern,
      symbol "=" >> required (field .right (rules (.expression .inner)))⟩]

/-- One entry of an object pattern: `key: pattern`, a shorthand, something taken apart with
a default value, or the rest. -/
def patternEntry : Parser :=
  let default := symbol "=" >> required (field .right (rules (.expression .inner)))
  restPattern dialect rules <|>
  node .pairPattern
    (field .key (propertyName rules) >> mark ":" >> field .value (patternWithDefault rules)) <|>
  chain (name .shorthandPattern fun _ => true)
    [⟨.objectAssignmentPattern, some .left, fun kind => kind = some .shorthandPattern, default⟩] <|>
  node .objectAssignmentPattern (field .left (rules .destructuring) >> default)

def destructuring : Parser :=
  look fun text =>
    if nextIs '{' text then
      node .objectPattern (listOf openBrace (patternEntry dialect rules) closeBrace)
    else
      node .arrayPattern (listOf (mark "[") (patternWithDefault rules) (mark "]"))

def binder : Parser :=
  look fun text =>
    if nextIs '{' text || nextIs '[' text then rules .destructuring else boundName dialect

/-- Words in front of a parameter's name, each followed by a name or a pattern. -/
def modifier (parser : Parser) : Parser :=
  parser >> check fun text =>
    let word := wordAhead text
    (word ≠ "" && !isInfixWord dialect word) || nextIs '{' text || nextIs '[' text ||
      operatorAhead text = "..."

/-- The mark of an optional parameter. The type or the next parameter follows on; a
question mark before anything else starts a conditional. -/
def optionalMark : Parser :=
  symbol "?" >> check fun text =>
    match text.dropWhile Semicolon.isLineGap with
    | ':' :: _ => true
    | ')' :: _ => true
    | ',' :: _ => true
    | _ => false

/-- A parameter with its modifiers, type and default value. The rest of the parameters has
a default value only after a type. -/
def typedParameter : Parser :=
  let modifiers :=
    many (decorator dialect rules) >>
    maybe (modifier dialect
      (name .accessibilityModifier (["public", "private", "protected"].contains ·))) >>
    maybe (modifier dialect (name .overrideModifier (· = "override"))) >>
    maybe (modifier dialect (keyword "readonly"))
  let type := field .type (ascription dialect rules none)
  let value := maybe (initializer rules .inner)
  let parameter (subject tail : Parser) : Parser :=
    branch (modifiers >> field .pattern subject) fun text =>
      if operatorAhead text = "?" then (.optionalParameter, optionalMark >> tail)
      else (.requiredParameter, tail)
  parameter (restPattern dialect rules) (maybe (type >> value)) <|>
  parameter (destination dialect rules <|> name .thisWord (· = "this")) (maybe type >> value)

def parameter : Parser :=
  if dialect.hasTypes then typedParameter dialect rules else patternWithDefault rules

def parameters : Parser :=
  node .formalParameters <|
    mark "(" >>
    maybe (separated (parameter dialect rules) (mark ",") >> maybe (mark ",")) >>
    mark ")"

end VueScope.Script.Grammar
