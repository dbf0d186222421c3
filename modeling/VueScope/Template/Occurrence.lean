import VueScope.Identifiers.Collector
import VueScope.Template.Ast
import VueScope.Template.Reference

/-! Where a template uses the names of its script. An element's loop variables hide names
in the element and below it, slot props only below it. -/
namespace VueScope.Template

variable [Recovery]

/-- An expression that is searched for names, with the names bound around it. -/
structure Scanned where
  expression : Expression
  scope : List String
deriving DecidableEq, Repr

/-- Elements marked so are left as they are written. -/
def isVerbatim (props : List ElementProp) : Bool :=
  (directives props).any fun directive => directive.name = "pre".toList

def loopOf? (props : List ElementProp) : Option Loop :=
  (findDirective? "for".toList props).bind fun directive => directive.loop

def Loop.names (loop : Loop) : List String :=
  (loop.aliases.map fun name => patternNames name.content).flatten

def slotNames (props : List ElementProp) : List String :=
  match (findDirective? "slot".toList props).bind fun directive => directive.expression with
  | some pattern => patternNames pattern.content
  | none => []

/-- What is searched in a directive: a dynamic argument, and its expression unless that
is a loop or a pattern. -/
def scannedInDirective (scope : List String) (directive : Directive) : List Scanned :=
  let argument := directive.argument.toList.filter fun argument => !argument.isStatic
  let expression :=
    if directive.name = "for".toList || directive.name = "slot".toList then []
    else directive.expression.toList
  (argument ++ expression).map (⟨·, scope⟩)

mutual

def scanned (scope : List String) : Node → List Scanned
  | .text _ _ => []
  | .interpolation content _ => [⟨content, scope⟩]
  | .element _ _ _ props children =>
    if isVerbatim props then []
    else
      let loop := loopOf? props
      let own := (loop.map Loop.names).getD [] ++ scope
      loop.toList.map (⟨·.source, scope⟩) ++
        (directives props).flatMap (scannedInDirective own) ++
        scannedInAll (slotNames props ++ own) children

def scannedInAll (scope : List String) : List Node → List Scanned
  | [] => []
  | node :: rest => scanned scope node ++ scannedInAll scope rest

end

structure Occurrence where
  name : String
  start : Int
  scope : List String
deriving DecidableEq, Repr

def Scanned.occurrences (scanned : Scanned) : List Occurrence :=
  if Text.isBlank scanned.expression.content then []
  else
    (references scanned.expression.content).map fun reference =>
      ⟨reference.name, scanned.expression.offset + reference.offset, scanned.scope⟩

def occurrences (nodes : List Node) : List Occurrence :=
  (scannedInAll [] nodes).flatMap Scanned.occurrences

def builtin? (name : String) : Option Category :=
  match name with
  | "$emit" => some .emits
  | "$attrs" => some .passthrough
  | "$slots" => some .passthrough
  | _ => none

def categoryOf? (identifiers : Identifiers) (name : String) (scope : List String) : Option Category :=
  if name.toList.head? = some '$' && !identifiers.contains name then builtin? name
  else if scope.contains name then none
  else identifiers.categoryOf? name

structure Candidate where
  name : String
  start : Int
  category : Category
deriving DecidableEq, Repr

def candidates (identifiers : Identifiers) (nodes : List Node) : List Candidate :=
  (occurrences nodes).filterMap fun occurrence =>
    (categoryOf? identifiers occurrence.name occurrence.scope).map fun category =>
      ⟨occurrence.name, occurrence.start, category⟩

end VueScope.Template
