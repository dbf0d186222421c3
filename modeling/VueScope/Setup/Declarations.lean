import VueScope.Identifiers.Binding
import VueScope.Script.Libraries
import VueScope.Setup.Macros

/-! The bindings of imports and declarations at the top of a script. -/
namespace VueScope.Setup

open Script

/-- Functions whose result is a ref, under the names they are exported by. -/
def refProducers : List String :=
  ["ref", "computed", "shallowRef", "customRef", "toRef"]

/-- The imports of a component's scripts; a later import of a name wins. -/
abbrev Imports := OrderedMap String Import

namespace Imports

def ofScripts (roots : List Node) : Imports :=
  OrderedMap.ofList
    ((roots.map Node.imports).flatten.map fun entry => (entry.localName, entry))

def frameworkNames (roots : List Node) : OrderedMap String String :=
  OrderedMap.ofList
    (((roots.map Node.imports).flatten.filter fun entry =>
        entry.source = Library.vue && !entry.isType).map
      fun entry => (entry.imported, entry.localName))

end Imports

def importBinding (entry : Import) : BindingKind :=
  if entry.imported = "*" || (entry.imported = "default" && ".vue".toList.isSuffixOf entry.source.toList) ||
      entry.source = Library.vue then
    .setupConst
  else .setupMaybeRef

/-- The local names of the functions that make refs and reactive objects. -/
structure Producers where
  reactive : Option String
  refs : List String
deriving DecidableEq, Repr

namespace Producers

def ofScripts (roots : List Node) : Producers :=
  let names := Imports.frameworkNames roots
  ⟨names.get? "reactive", refProducers.filterMap names.get? ++ [Macro.model]⟩

end Producers

/-- Expressions whose value is new and no ref. -/
def isFresh : Kind → Bool
  | .unary => true
  | .binary => true
  | .array => true
  | .object => true
  | .functionExpression => true
  | .arrowFunction => true
  | .update => true
  | .classExpression => true
  | _ => false

variable (producers : Producers)

def Producers.makesReactive (node : Node) : Bool :=
  producers.reactive.any node.calls

mutual

def neverRef (producers : Producers) : Node → Bool
  | node@⟨kind, _, _, _, _, children⟩ =>
    if kind.isTransparent then firstNeverRef producers children
    else if kind = .sequence then lastNeverRef producers children
    else producers.makesReactive node || isFresh kind || kind.isLiteral

def firstNeverRef (producers : Producers) : List Node → Bool
  | [] => false
  | child :: rest =>
    if child.kind.isNamed then neverRef producers child else firstNeverRef producers rest

/-- A sequence has the value of its last part. -/
def lastNeverRef (producers : Producers) : List Node → Bool
  | [] => false
  | child :: rest =>
    if rest.any fun later => later.kind.isNamed then lastNeverRef producers rest
    else child.kind.isNamed && neverRef producers child

end

def declaresProps (node : Node) : Bool :=
  node.calls Macro.props ||
    (node.calls Macro.defaults && node.callArguments.head?.any fun first => first.calls Macro.props)

def constantMacros : List String :=
  [Macro.props, Macro.emits, Macro.defaults, Macro.slots]

def constBinding (value : Node) : BindingKind :=
  if value.isStatic then .literalConst
  else if producers.makesReactive value then .setupReactiveConst
  else if value.callsAny constantMacros || neverRef producers value then
    if declaresProps value then .setupReactiveConst else .setupConst
  else if value.callsAny producers.refs then .setupRef
  else .setupMaybeRef

def nameBinding (isConst : Bool) (value : Option Node) : BindingKind :=
  if isConst then
    match value with
    | some value => constBinding producers value
    | none => .setupMaybeRef
  else .setupLet

def patternBinding (isConst : Bool) (value : Option Node) : BindingKind :=
  if isConst then
    if value.any fun value => value.callsAny constantMacros then .setupConst else .setupMaybeRef
  else .setupLet

/-- The bindings of one declarator. Props that are taken apart are left to the macros. -/
def declaratorBindings (isConst : Bool) (declarator : Node) :
    List (String × BindingKind) :=
  let value := (declarator.child? .value).map Node.unwrapped
  match declarator.child? .name with
  | none => []
  | some target =>
    if target.kind = .identifier then [(target.name, nameBinding producers isConst value)]
    else if value.any declaresProps then []
    else target.boundNames.map (·, patternBinding isConst value)

/-- Whether a declarator gives a name a static value. -/
def declaresLiteral (declarator : Node) : Bool :=
  (declarator.child? .name).any (·.kind = .identifier) &&
    (declarator.child? .value).any fun value => value.unwrapped.isStatic

/-- The bindings of the declarators of one declaration. Constants are literals if all of them are. -/
def jointBindings (isConst : Bool) (declarators : List Node) :
    List (String × BindingKind) :=
  let bindings := (declarators.map (declaratorBindings producers isConst)).flatten
  if isConst && declarators.all declaresLiteral then bindings.map fun (name, _) => (name, .literalConst)
  else bindings

def declaresConstant : Kind → Bool
  | .functionDeclaration => true
  | .generatorFunctionDeclaration => true
  | .classDeclaration => true
  | .abstractClassDeclaration => true
  | .enumDeclaration => true
  | _ => false

def declarationBindings (declaration : Node) : List (String × BindingKind) :=
  if declaresConstant declaration.kind then
    ((declaration.child? .name).map fun name => (name.name, BindingKind.setupConst)).toList
  else if declaration.isVariableDeclaration then
    let isConst := declaration.declarationKind? = some .const
    jointBindings producers isConst declaration.declarators
  else []

/-- The bindings of a plain script beside a setup script, exported ones included. -/
def plainBindings (root : Node) : List (String × BindingKind) :=
  ((root.namedChildren.filterMap declarationOf?).map (declarationBindings producers)).flatten

def setupBindings (root : Node) : List (String × BindingKind) :=
  (root.namedChildren.map (declarationBindings producers)).flatten

end VueScope.Setup
