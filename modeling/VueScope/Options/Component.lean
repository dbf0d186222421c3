import VueScope.Script.Members

/-! The options object of a component, its entries, and what its functions return. -/
namespace VueScope.Options

open Script

/-- The object behind a default export: the object itself, or the one given to
`defineComponent`. -/
def objectOfExport? (value : Node) : Option Node :=
  let exported := value.unwrapped
  if exported.kind = .object then some exported
  else if exported.calls "defineComponent" then
    match exported.callArguments.head? with
    | some first => if first.unwrapped.kind = .object then some first.unwrapped else none
    | none => none
  else none

def defaultValue? (statement : Node) : Option Node :=
  if statement.kind = .exportStatement && statement.hasToken .defaultKeyword then
    statement.child? .value
  else none

/-- The options object of the component that a script exports. The first default export
with a value decides. -/
def component? (root : Node) : Option Node :=
  (root.namedChildren.findSome? defaultValue?).bind objectOfExport?

def option? (component : Node) (key : String) : Option Node :=
  (component.keyedMembers.find? fun (found, _) => found = key).map Prod.snd

def value? (member : Node) : Option Node :=
  if member.kind = .pair then (member.child? .value).map Node.unwrapped else none

def function? (member : Node) : Option Node :=
  if member.kind = .methodDefinition then some member
  else
    match value? member with
    | some value => if value.isFunction then some value else none
    | none => none

def returnedBy (statement : Node) : List Node :=
  if statement.kind = .returnStatement then
    (statement.namedChildren.map Node.unwrapped).filter fun value => value.kind = .object
  else []

/-- The object literals that a function returns from the top level of its body. -/
def returnedObjects (function : Node) : List Node :=
  match function.child? .body with
  | none => []
  | some body =>
    if body.kind = .statementBlock then (body.namedChildren.map returnedBy).flatten
    else if body.unwrapped.kind = .object then [body.unwrapped]
    else []

end VueScope.Options
