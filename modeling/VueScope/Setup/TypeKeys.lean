import VueScope.Identifiers.OrderedMap
import VueScope.Script.Members

/-! The property names of a type. Names of types are looked up among the declarations of
the script; each declaration is followed at most once on the way to a key. -/
namespace VueScope.Setup

open Script

abbrev TypeDeclarations := OrderedMap String Node

def isTypeDeclaration (node : Node) : Bool :=
  node.kind = .interfaceDeclaration || node.kind = .typeAliasDeclaration

def declarationOf? (statement : Node) : Option Node :=
  if statement.kind = .exportStatement then statement.child? .declaration else some statement

namespace TypeDeclarations

def declared? (statement : Node) : Option (String × Node) :=
  match declarationOf? statement with
  | none => none
  | some declaration =>
    if isTypeDeclaration declaration then
      (declaration.child? .name).map fun name => (name.name, declaration)
    else none

/-- The types declared at the top of scripts; a later declaration wins. -/
def ofScripts (roots : List Node) : TypeDeclarations :=
  OrderedMap.ofList (roots.map fun root => root.namedChildren.filterMap declared?).flatten

end TypeDeclarations

def appendNew (keys more : List String) : List String :=
  more.foldl (fun keys key => if keys.contains key then keys else keys ++ [key]) keys

def signatureKeys (members : List Node) : List String :=
  members.filterMap fun member =>
    if member.kind = .propertySignature || member.kind = .methodSignature then
      match (member.child? .name).bind Node.keyName? with
      | some key => if key = "" then none else some key
      | none => none
    else none

/-- Types that have the keys of their first argument. -/
def keepsKeys (name : String) : Bool :=
  ["Partial", "Required", "Readonly"].contains name

mutual

def keysOfType (named : String → List String) : Node → List String
  | node@⟨kind, _, _, _, _, children⟩ =>
    match kind with
    | .objectType => signatureKeys node.namedChildren
    | .interfaceBody => signatureKeys node.namedChildren
    | .intersectionType => keysOfParts named [] children
    | .unionType => keysOfParts named [] children
    | .parenthesizedType => keysOfParts named [] children
    | .typeIdentifier => named node.name
    | .genericType =>
      let name := ((node.child? .name).map Node.name).getD ""
      if keepsKeys name then keysOfArguments named children else named name
    | _ => []

def keysOfParts (named : String → List String) (found : List String) : List Node → List String
  | [] => found
  | child :: rest =>
    keysOfParts named
      (if child.kind.isNamed then appendNew found (keysOfType named child) else found) rest

def keysOfArguments (named : String → List String) : List Node → List String
  | [] => []
  | ⟨_, field, _, _, _, inner⟩ :: rest =>
    if field = some .typeArguments then keysOfFirst named inner else keysOfArguments named rest

def keysOfFirst (named : String → List String) : List Node → List String
  | [] => []
  | child :: rest => if child.kind.isNamed then keysOfType named child else keysOfFirst named rest

end

def bases (declaration : Node) : List Node :=
  ((declaration.namedChildren.filter fun child => child.kind = .extendsTypeClause).map
    Node.namedChildren).flatten

/-- The keys of a declared type: those of an alias's value, or those of an interface's
bases and its own. -/
def keysOfDeclaration (named : String → List String) (declaration : Node) : List String :=
  if declaration.kind = .typeAliasDeclaration then
    match declaration.child? .value with
    | some value => keysOfType named value
    | none => []
  else
    let inherited := (bases declaration).foldl
      (fun keys base => appendNew keys (keysOfType named base)) []
    match declaration.child? .body with
    | some body => appendNew inherited (keysOfType named body)
    | none => inherited

/-- The keys of a named type. A name that is being followed already has none. -/
def keysOfName (declarations : TypeDeclarations) : Nat → List String → String → List String
  | 0, _, _ => []
  | depth + 1, seen, name =>
    if seen.contains name then []
    else
      match declarations.get? name with
      | none => []
      | some declaration =>
        keysOfDeclaration (keysOfName declarations depth (name :: seen)) declaration

/-- The keys of a type. No name is followed twice, so there are at most as many steps as
declarations. -/
def typeKeys (declarations : TypeDeclarations) (type : Node) : List String :=
  keysOfType (keysOfName declarations declarations.size []) type

end VueScope.Setup
