import VueScope.Script.Grammar.Type

/-! The members of a class. -/
namespace VueScope.Script.Grammar

open VueScope.Script.Parser
open Semicolon (Place)

variable (dialect : Dialect) (rules : Rules)

def staticBlock : Parser :=
  node .classStaticBlock <|
    keyword "static" >> goesOn dialect (some .other) >> field .body (rules (.block .other))

def plainMember : Parser :=
  let place := some Place.other
  let head := many (decorator dialect rules) >> maybe (methodModifier dialect place "static")
  let named := field .name (propertyName rules)
  let method := field .parameters (rules .parameters) >> field .body (rules (.block .other))
  let fieldOrMethod := branch (head >> named) fun text =>
    if endsHere dialect place text then (.fieldDefinition, done)
    else if nextIs '(' text then (.methodDefinition, method)
    else (.fieldDefinition, maybe (initializer rules .outer))
  let member := node .methodDefinition (head >> methodMarks dialect place >> named >> method) <|>
    fieldOrMethod
  ⟨fun text =>
    (member.run text).bind fun shapes rest =>
      if Shape.mainKind? shapes = some .methodDefinition then .taken shapes rest
      else ((semicolon dialect (placeAfter shapes)).run rest).map fun more => shapes ++ more⟩

def memberEnd (place : Place) : Parser :=
  mark "," <|> semicolon dialect place

/-- Words that start members of their own kind, and are no names there. -/
def isMemberWord (text : List Char) : Bool :=
  ["abstract", "accessor"].contains (wordAhead text)

def methodName : Parser :=
  field .name (propertyName rules) >> maybe (symbol "?")

/-- A method. One without a body only declares its signature, and has no decorators. -/
def typedMethod (decorated : Bool) : Parser :=
  let place := some Place.other
  let head :=
    maybe (accessibility dialect place) >>
    check (fun text => !isMemberWord text) >>
    orderedModifiers dialect place >>
    (methodMarks dialect place >> methodName rules <|> methodName rules >> goesOn dialect place) >>
    check (fun text => nextIs '(' text || nextIs '<' text) >>
    callSignature dialect rules true (some .signature)
  ⟨fun text =>
    (head.run text).bind fun shapes rest =>
      if nextIs '{' rest && !endsHere dialect (some .signature) rest then
        (node .methodDefinition ⟨fun text =>
          ((field .body (rules (.block .other))).run text).map fun body => shapes ++ body⟩).run rest
      else if decorated then .absent
      else
        ((memberEnd dialect .signature).run rest).map fun more =>
          Shape.wrap .methodSignature shapes ++ more⟩

def abstractMethod : Parser :=
  let place := some Place.other
  let marks :=
    memberModifier dialect place "get" <|> memberModifier dialect place "set" <|> mark "*"
  node .methodSignature
    (maybe (accessibility dialect place) >> keyword "abstract" >>
      maybe (overriding dialect place) >>
      (marks >> methodName rules <|> methodName rules >> goesOn dialect place) >>
      callSignature dialect rules true place) >>
  memberEnd dialect .other

def fieldModifiers : Parser :=
  let place := some Place.other
  let access := accessibility dialect place
  let declared := memberModifier dialect place "declare"
  let plain :=
    check (fun text => !isMemberWord text) >>
    maybe (memberModifier dialect place "static") >>
    maybe (overriding dialect place) >>
    maybe (memberModifier dialect place "readonly")
  maybe (declared >> maybe access <|> access >> maybe declared) >>
  (keyword "abstract" >> maybe (memberModifier dialect place "readonly") <|>
    memberModifier dialect place "readonly" >> keyword "abstract" >> check startsProperty <|>
    keyword "accessor" <|>
    plain)

def typedField : Parser :=
  let place := some Place.other
  fieldModifiers dialect >> field .name (propertyName rules) >>
  maybe (symbol "?" <|> goesOn dialect place >> symbol "!") >>
  maybe (field .type (ascription dialect rules place)) >>
  maybe (initializer rules .outer)

def typedMember : Parser :=
  let decorators := many (decorator dialect rules)
  let other (lead : List Shape) : Parser :=
    ended
      ⟨fun text =>
        ((typedField dialect rules).run text).map fun shapes =>
          Shape.wrap .fieldDefinition (lead ++ shapes)⟩
      (memberEnd dialect)
  ⟨fun text =>
    (decorators.run text).bind fun lead rest =>
      if lead.isEmpty then
        (indexSignature dialect rules >> memberEnd dialect .other <|>
          typedMethod dialect rules false <|> abstractMethod dialect rules <|> other []).run rest
      else
        match (typedMethod dialect rules true).run rest with
        | .absent => (other lead).run rest
        | found => found.map fun shapes => lead ++ shapes⟩

/-- Members follow one another; a field ends like a statement. -/
def classBody : Parser :=
  let member := if dialect.hasTypes then typedMember dialect rules else plainMember dialect rules
  node .classBody <|
    openBrace >> required
      (many (mark ";" <|> staticBlock dialect rules <|> member) >> closeBrace)

end VueScope.Script.Grammar
