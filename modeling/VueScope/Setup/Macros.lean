import VueScope.Failure
import VueScope.Script.Binders
import VueScope.Setup.TypeKeys

/-! The macro calls at the top of a setup script: the props, models and events that a
component declares. -/
namespace VueScope.Setup

open Script

namespace Macro

def props : String := "defineProps"

def emits : String := "defineEmits"

def defaults : String := "withDefaults"

def model : String := "defineModel"

def slots : String := "defineSlots"

def defaultModel : String := "modelValue"

end Macro

structure Declared where
  hasProps : Bool
  hasEmits : Bool
  propKeys : List String
  models : List String
  /-- Local names of props that are taken apart, with the props they stand for. -/
  destructured : OrderedMap String String
  /-- The name that takes the remaining props. -/
  rest : Option String
deriving DecidableEq, Repr

variable (context : MacroContext) (declared : Declared)

namespace Declared

def nothing : Declared := ⟨false, false, [], [], ∅, none⟩

def entry? (element : Node) : Option (String × String) :=
  match element.kind with
  | .shorthandPattern => some (element.name, element.name)
  | .objectAssignmentPattern => (element.child? .left).map fun left => (left.name, left.name)
  | .pairPattern =>
    let key := ((element.child? .key).bind Node.keyName?).getD ""
    let target : Option Node := match element.child? .value with
      | some value => if value.kind = .assignmentPattern then value.child? .left else some value
      | none => none
    match target with
    | some name => if key ≠ "" && name.kind = .identifier then some (name.name, key) else none
    | none => none
  | _ => none

def destructure (pattern : Node) : Declared :=
  pattern.namedChildren.foldl
    (fun declared element =>
      if element.kind = .restPattern then
        { declared with rest := element.boundNames.getLast?.or declared.rest }
      else
        match entry? element with
        | some (localName, key) =>
          { declared with destructured := declared.destructured.insert localName key }
        | none => declared)
    declared

end Declared

/-- Where macro calls stand: the types they can name and the offset of their script. -/
structure MacroContext where
  types : TypeDeclarations
  start : Nat

namespace MacroContext

def offset (node : Node) : Nat :=
  context.start + node.start

/-- The keys of the props that a call declares, by a type or by a value. -/
def propKeys (call : Node) : List String :=
  match call.child? .typeArguments with
  | some types =>
    match types.namedChildren.find? fun child => child.kind ≠ .comment with
    | some type => typeKeys context.types type
    | none => []
  | none =>
    match call.callArguments.head? with
    | some first => first.unwrapped.listedKeys
    | none => []

def declareProps (call : Node) (target : Option Node) :
    Except CompileFailure Declared :=
  if declared.hasProps then .error (.duplicateProps (context.offset call))
  else if !call.callArguments.isEmpty && (call.child? .typeArguments).isSome then
    .error (.propsTypedAndValued (context.offset call))
  else
    let extended :=
      { declared with hasProps := true, propKeys := declared.propKeys ++ context.propKeys call }
    match target with
    | some pattern =>
      .ok (if pattern.kind = .objectPattern then extended.destructure pattern else extended)
    | none => .ok extended

def modelName (call : Node) : String :=
  match call.callArguments.head? with
  | some first =>
    match first.unwrapped.stringValue? with
    | some name => if name = "" then Macro.defaultModel else name
    | none => Macro.defaultModel
  | none => Macro.defaultModel

/-- What an expression declares if it is a macro call. -/
def apply (expression : Node) (target : Option Node) :
    Except CompileFailure Declared :=
  match expression.callee? with
  | none => .ok declared
  | some callee =>
    if callee = Macro.defaults then
      match expression.callArguments.head? with
      | some first =>
        if first.calls Macro.props then context.declareProps declared first.unwrapped target
        else .error (.defaultsWithoutProps (context.offset expression))
      | none => .error (.defaultsWithoutProps (context.offset expression))
    else if callee = Macro.props then context.declareProps declared expression target
    else if callee = Macro.emits then
      if declared.hasEmits then .error (.duplicateEmits (context.offset expression))
      else .ok { declared with hasEmits := true }
    else if callee = Macro.model then
      let name := modelName expression
      if declared.models.contains name then .error (.duplicateModel name (context.offset expression))
      else .ok { declared with models := declared.models ++ [name] }
    else .ok declared

def exportsTypes (statement : Node) : Bool :=
  match statement.child? .declaration with
  | some declaration => isTypeDeclaration declaration
  | none => statement.hasToken .typeKeyword

def ofDeclarator (declarator : Node) :
    Except CompileFailure Declared :=
  match declarator.child? .value with
  | some value => context.apply declared value.unwrapped (declarator.child? .name)
  | none => .ok declared

/-- What one statement of a setup script declares. Only types can be exported. -/
def ofStatement (statement : Node) :
    Except CompileFailure Declared :=
  if statement.kind = .exportStatement then
    if exportsTypes statement then .ok declared
    else .error (.exportInSetup (context.offset statement))
  else if statement.kind = .expressionStatement then
    match statement.namedChildren.head? with
    | some expression => context.apply declared expression.unwrapped none
    | none => .ok declared
  else if statement.isVariableDeclaration then
    statement.declarators.foldlM (context.ofDeclarator ·) declared
  else .ok declared

def ofScript (root : Node) : Except CompileFailure Declared :=
  root.namedChildren.foldlM (context.ofStatement ·) Declared.nothing

end MacroContext

end VueScope.Setup
