import VueScope.Script.Value

/-! The entries of object and array literals. -/
namespace VueScope.Script.Node

/-- The name that a key spells out; computed keys have none. -/
def keyName? (key : Node) : Option String :=
  match key.kind with
  | .propertyIdentifier => some key.name
  | .identifier => some key.name
  | .privatePropertyIdentifier => some key.name
  | .number => some key.name
  | .string => key.stringValue?
  | _ => none

def memberKey? (member : Node) : Option String :=
  match member.kind with
  | .pair => (member.child? .key).bind keyName?
  | .methodDefinition => (member.child? .name).bind keyName?
  | .shorthandProperty => some member.name
  | _ => none

def keyedMembers (object : Node) : List (String × Node) :=
  object.namedChildren.filterMap fun member =>
    match member.memberKey? with
    | some key => if key = "" then none else some (key, member)
    | none => none

def objectKeys (object : Node) : List String :=
  object.keyedMembers.map Prod.fst

def stringElements (array : Node) : List String :=
  array.namedChildren.filterMap stringValue?

def listedKeys (value : Node) : List String :=
  match value.kind with
  | .array => value.stringElements
  | .object => value.objectKeys
  | _ => []

end VueScope.Script.Node
