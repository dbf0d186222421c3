import VueScope.Failure
import VueScope.Identifiers.Collector
import VueScope.Options.Bindings
import VueScope.Script.Binders
import VueScope.Script.Libraries
import VueScope.Script.Parse

/-! Filing the names of an options object under categories: first by the option that
binds them, then by what `setup`, `computed` and `methods` say about them. -/
namespace VueScope.Options

open Script

def trimmedText (node : Node) : String :=
  String.ofList (Text.trim node.text)

def defaultDefinition : String := "Defined in component options"

/-- The category of a binding before its option is looked at more closely. -/
def placeholder? : BindingKind → Option Category
  | .props => some .props
  | .data => some .reactive
  | .setupMaybeRef => some .ref
  | .setupRef => some .ref
  | .options => some .localState
  | _ => none

/-- The names that an array or an object declares, with the text that declares each. -/
def declaredIn (key : String) (container : Node) : List (String × String) :=
  match container.kind with
  | .array =>
    container.namedChildren.filterMap fun element =>
      match element.stringValue? with
      | some name => if name = "" then none else some (name, key ++ ": " ++ element.name)
      | none => none
  | .object => container.keyedMembers.map fun (name, member) => (name, trimmedText member)
  | _ => []

def definitionsOf (key : String) (member : Node) : List (String × String) :=
  if key = "data" || key = "setup" then
    match function? member with
    | none => []
    | some function => ((returnedObjects function).map (declaredIn key)).flatten
  else if ["props", "inject", "computed", "methods"].contains key then
    match value? member with
    | none => []
    | some value => declaredIn key value
  else []

variable (functions : OrderedMap String String) (component : Node) (imports : StoreImports)

/-- The text that declares each name; the first one counts. -/
def definitions : Definitions :=
  (component.keyedMembers.map fun (key, member) => definitionsOf key member).flatten.foldl
    (fun map (name, text) => map.insertIfNew name text) ∅

def isFunctionDeclaration (node : Node) : Bool :=
  node.kind = .functionDeclaration || node.kind = .generatorFunctionDeclaration

/-- A local variable or function of a setup function: its statement and its value. -/
structure LocalDeclaration where
  statement : Node
  value : Option Node

def localsOf (statement : Node) : List (String × LocalDeclaration) :=
  if statement.isVariableDeclaration then
    statement.declarators.filterMap fun declarator =>
      match declarator.child? .name with
      | some target =>
        if target.kind = .identifier then
          some (target.name, ⟨statement, (declarator.child? .value).map Node.unwrapped⟩)
        else none
      | none => none
  else if isFunctionDeclaration statement then
    ((statement.child? .name).map fun name => (name.name, ⟨statement, some statement⟩)).toList
  else []

def locals (body : Node) : OrderedMap String LocalDeclaration :=
  OrderedMap.ofList (body.namedChildren.map localsOf).flatten

def assigned? (node : Node) : Option Node :=
  match node.kind with
  | .assignment => node.child? .left
  | .augmentedAssignment => node.child? .left
  | .update => node.child? .argument
  | _ => none

def reassigned (body : Node) : List String :=
  body.preorder.filterMap fun node =>
    match assigned? node with
    | some target =>
      if target.unwrapped.kind = .identifier then some target.unwrapped.name else none
    | none => none

def categoryOfCall? (callee : String) : Option Category :=
  let exported := match functions.get? callee with
    | some exported => exported
    | none => callee
  if Library.refs.contains exported then some .ref
  else if Library.reactives.contains exported then some .reactive
  else if exported = Library.computed then some .computed
  else none

def categoryOfValue? (value : Node) : Option Category :=
  if isFunctionDeclaration value || value.isFunction then some .methods
  else
    match value.callee? with
    | some callee => categoryOfCall? functions callee
    | none => if value.isStatic then some .localState else none

/-- An entry of an object that setup returns: the entry and the value it is given. -/
structure Returned where
  member : Node
  value : Option Node

def returnedMembers (setup : Node) : OrderedMap String Returned :=
  OrderedMap.ofList
    ((returnedObjects setup).map fun object =>
      object.keyedMembers.map fun (key, member) =>
        (key, match member.kind with
          | .pair => ⟨member, (member.child? .value).map Node.unwrapped⟩
          | .methodDefinition => ⟨member, some member⟩
          | _ => ⟨member, none⟩)).flatten

/-- The category and the definition of a local variable that is never assigned again. -/
def categoryOfLocal? (body : Node) (name : String) :
    Option (Category × String) :=
  match (locals body).get? name with
  | none => none
  | some declaration =>
    if (reassigned body).contains name then none
    else
      match declaration.value with
      | none => none
      | some value =>
        (categoryOfValue? functions value).map (·, trimmedText declaration.statement)

def categoryOfReturned? (setup body : Node) (name : String) :
    Option (Category × String) :=
  match (returnedMembers setup).get? name with
  | some ⟨member, some value⟩ =>
    if value.kind = .identifier then categoryOfLocal? functions body value.name
    else if value.kind = .methodDefinition then some (.methods, trimmedText member)
    else (categoryOfValue? functions value).map (·, trimmedText member)
  | _ => categoryOfLocal? functions body name

def setupBody? : Option (Node × Node) :=
  match (option? component "setup").bind function? with
  | none => none
  | some setup =>
    match setup.child? .body with
    | none => none
    | some body => if body.kind = .statementBlock then some (setup, body) else none

/-- Files a name that setup returns anew. What cannot be told is left out. -/
def refile (setup : Option (Node × Node))
    (collector : Collector) (name : String) : Collector :=
  let released := collector.release name
  match setup.bind fun (setup, body) => categoryOfReturned? functions setup body name with
  | some (category, definition) => released.add name category definition
  | none => released

def spreadCall? (member : Node) : Option Node :=
  if member.kind = .spreadElement then
    match member.namedChildren.head? with
    | some inner => if inner.unwrapped.kind = .callExpression then some inner.unwrapped else none
    | none => none
  else none

def arrayArgument? (call : Node) : Option Node :=
  (call.callArguments.map Node.unwrapped).find? fun passed => passed.kind = .array

/-- The names that a spread call lists, and the call. -/
def spreadNames (member : Node) : Option (Node × List String) :=
  match spreadCall? member with
  | none => none
  | some call => (arrayArgument? call).map fun array => (call, array.stringElements)

/-- The category of what a call that is spread into an option brings in. -/
def spreadCategory (target : Category) (call : Node) : Category :=
  if target = .computed then
    match call.callee? with
    | some callee => imports.category callee
    | none => .store
  else target

/-- Files a name under a category, moving it there if it was local state. -/
def fileAs (category : Category) (definition : String) (collector : Collector) (name : String) :
    Collector :=
  let (moved, after) := collector.move name .localState category
  if moved then after else collector.add name category definition

def refineMember (target : Category) (collector : Collector) (member : Node) :
    Collector :=
  let keyed := match member.memberKey? with
    | some key => if key = "" then none else some key
    | none => none
  match keyed with
  | some key => (collector.move key .localState target).2
  | none =>
    match spreadNames member with
    | none => collector
    | some (call, names) =>
      names.foldl (fileAs (spreadCategory imports target call) (trimmedText member)) collector

def refineSection (component : Node) (key : String) (target : Category)
    (collector : Collector) : Collector :=
  match (option? component key).bind value? with
  | none => collector
  | some value =>
    if value.kind = .object then value.namedChildren.foldl (refineMember imports target) collector
    else collector

def placeholders : Collector :=
  (bindings component).entries.foldl
    (fun collector (name, kind) =>
      match placeholder? kind with
      | some category =>
        collector.add name category (((definitions component).get? name).getD defaultDefinition)
      | none => collector)
    ∅

def setupNames : List String :=
  ((bindings component).entries.filter fun (_, kind) => kind = .setupMaybeRef).map Prod.fst

def classify (functions : OrderedMap String String) :
    Identifiers :=
  let filed := placeholders component
  let refiled := (setupNames component).foldl (refile functions (setupBody? component)) filed
  let computed := refineSection imports component "computed" .computed refiled
  (refineSection imports component "methods" .methods computed).build

/-- The categories of the names of a plain script. A script without a component has none. -/
def analyze (content : List Char) (lang : Option String) (imports : Option StoreImports) :
    Except Failure Identifiers :=
  match parse? (Dialect.ofLang lang) content with
  | none => .error (.scriptSyntax ⟨Dialect.ofLang lang, content, 0⟩)
  | some root =>
    match component? root with
    | none => .ok ∅
    | some component =>
      .ok (classify component (imports.getD (StoreImports.ofScript root)) (reactivityAliases root))

end VueScope.Options
