import VueScope.Identifiers.Collector
import VueScope.Script.Parse
import VueScope.Setup.Declarations

/-! Filing the names of a setup script under categories. What the source says plainly
wins over the kind of binding, and each name is filed once. -/
namespace VueScope.Setup

open Script

/-- The name that stands for the events when they are declared without one. -/
def implicitEmit : String := "emit"

def implicitEmitDefinition : String := "const emit = defineEmits(...)"

/-- The category of a binding. Kinds that say nothing are local state. -/
def categoryOfBinding (kind : Option BindingKind) (definition : String) : Category :=
  match kind with
  | some .props => .props
  | some .propsAliased => .props
  | some .setupRef => .ref
  | some .setupMaybeRef => .ref
  | some .setupReactiveConst =>
    -- declared props are bound like reactive objects
    if (Text.find? Macro.props.toList definition.toList).isSome then .props else .reactive
  | _ => .localState

/-- Names such as `useCartStore`. -/
def isStoreHook (name : String) : Bool :=
  match Text.dropPrefix? "use".toList name.toList with
  | some (c :: rest) => c.isUpper && "Store".toList.isSuffixOf rest
  | _ => false

def categoryOfCall? (imports : StoreImports) (callee : String) : Option Category :=
  if callee = Macro.emits then some .emits
  else if callee = "useAttrs" || callee = "useSlots" then some .passthrough
  else if callee = Library.computed then some .computed
  else if isStoreHook callee then some (imports.category callee)
  else none

def storeToRefs : String := "storeToRefs"

structure Pending where
  name : String
  definition : String
deriving DecidableEq, Repr

/-- What a declarator says about its names. -/
inductive Verdict where
  /-- The names belong to a category. -/
  | settled (names : List String) (category : Category)
  /-- The kind of binding has to decide. -/
  | open (name : String)
  | silent

def verdict (imports : StoreImports) (isConst : Bool) (declarator : Node) : Verdict :=
  match declarator.child? .name with
  | none => .silent
  | some target =>
    let value := (declarator.child? .value).map Node.unwrapped
    let callee := value.bind Node.callee?
    if target.kind = .identifier then
      match callee.bind (categoryOfCall? imports) with
      | some category => .settled [target.name] category
      | none =>
        if isConst && value.any Node.isFunction then .settled [target.name] .methods
        else .open target.name
    else if callee = some storeToRefs && target.kind = .objectPattern then
      .settled target.boundNames (imports.category storeToRefs)
    else .silent

structure Progress where
  collector : Collector
  pending : List Pending

namespace Progress

def declarator (imports : StoreImports) (isConst : Bool) (definition : String) (progress : Progress)
    (declarator : Node) : Progress :=
  match verdict imports isConst declarator with
  | .settled names category =>
    { progress with
      collector := names.foldl (fun collector name => collector.add name category definition)
        progress.collector }
  | .open name => { progress with pending := progress.pending ++ [⟨name, definition⟩] }
  | .silent => progress

def statement (imports : StoreImports) (progress : Progress) (statement : Node) : Progress :=
  let definition := String.ofList (Text.trim statement.text)
  if statement.kind = .functionDeclaration || statement.kind = .generatorFunctionDeclaration then
    match statement.child? .name with
    | some name =>
      { progress with collector := progress.collector.add name.name .methods definition }
    | none => progress
  else if statement.isVariableDeclaration then
    let isConst := statement.declarationKind? = some .const
    statement.declarators.foldl (declarator imports isConst definition) progress
  else progress

end Progress

mutual

/-- Whether a call of a name stands anywhere but right after the name of a declarator. -/
def hasBareCall (callee : String) (parent : Kind) : Node → Bool
  | node@⟨kind, _, _, _, _, children⟩ =>
    (kind = .callExpression && node.calls callee && parent ≠ .variableDeclarator) ||
      anyBareCall callee kind children

def anyBareCall (callee : String) (parent : Kind) : List Node → Bool
  | [] => false
  | child :: rest => hasBareCall callee parent child || anyBareCall callee parent rest

end

mutual

def statementOfCall? (callee : String) (owner : Node) : Node → Option Node
  | node@⟨kind, _, _, _, _, children⟩ =>
    if kind = .callExpression && node.calls callee then some owner
    else
      statementOfCallIn? callee
        (if kind = .program || kind = .statementBlock then none else some owner) children

/-- With no owner given, each part is a statement of its own. -/
def statementOfCallIn? (callee : String) (owner : Option Node) : List Node → Option Node
  | [] => none
  | child :: rest =>
    match statementOfCall? callee (owner.getD child) child with
    | some found => some found
    | none => statementOfCallIn? callee owner rest

end

def propsDefinition (root : Node) : String :=
  match statementOfCall? Macro.props root root with
  | some statement => String.ofList (Text.trim statement.text)
  | none => ""

def fileProps (root : Node) (bindings : Bindings) (collector : Collector) : Collector :=
  let declared := propsDefinition root
  bindings.entries.foldl
    (fun collector (name, kind) =>
      if kind = .props || kind = .propsAliased then
        collector.add name .props (if declared = "" then "prop: " ++ name else declared)
      else collector)
    collector

def classify (root : Node) (bindings : Bindings) (imports : StoreImports) : Identifiers :=
  let explicit := root.statements.foldl (Progress.statement imports) ⟨∅, []⟩
  let withEmit :=
    if anyBareCall Macro.emits root.kind root.children then
      explicit.collector.add implicitEmit .emits implicitEmitDefinition
    else explicit.collector
  let withPending := explicit.pending.foldl
    (fun collector pending =>
      collector.add pending.name
        (categoryOfBinding (bindings.get? pending.name) pending.definition) pending.definition)
    withEmit
  (fileProps root bindings withPending).build

/-- The categories of the names of a setup script, from its text. -/
def analyze [Recovery] (content : List Char) (lang : Option String) (bindings : Bindings)
    (imports : Option StoreImports) : Identifiers :=
  let root := tree (Dialect.ofLang lang) content
  classify root bindings (imports.getD (StoreImports.ofScript root))

end VueScope.Setup
