import VueScope.Identifiers.Binding
import VueScope.Options.Component

/-! The bindings that an options object gives its template. -/
namespace VueScope.Options

open Script

def bindingsOf (key : String) (member : Node) : List (String × BindingKind) :=
  let returned (kind : BindingKind) : List (String × BindingKind) :=
    match function? member with
    | none => []
    | some function =>
      ((returnedObjects function).map fun object => object.objectKeys.map (·, kind)).flatten
  match key with
  | "setup" => returned .setupMaybeRef
  | "data" => returned .data
  | _ =>
    match value? member with
    | none => []
    | some value =>
      match key with
      | "props" => value.listedKeys.map (·, .props)
      | "inject" => value.listedKeys.map (·, .options)
      | "computed" => if value.kind = .object then value.objectKeys.map (·, .options) else []
      | "methods" => if value.kind = .object then value.objectKeys.map (·, .options) else []
      | _ => []

/-- The bindings of all options; a later option wins. -/
def bindings (component : Node) : Bindings :=
  OrderedMap.ofList (component.keyedMembers.map fun (key, member) => bindingsOf key member).flatten

end VueScope.Options
