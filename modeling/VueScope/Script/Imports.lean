import VueScope.Identifiers.OrderedMap
import VueScope.Script.Value

/-! The names that import statements bring into a script. -/
namespace VueScope.Script

inductive ImportForm where
  /-- The form `import name from …`. -/
  | single
  /-- The form `import * as name from …`. -/
  | everything
  /-- The form `import { name } from …`. -/
  | listed
deriving DecidableEq, Repr

structure Import where
  localName : String
  /-- The name in the other module; `default` and `*` for the forms that give none. -/
  imported : String
  source : String
  isType : Bool
  form : ImportForm
deriving DecidableEq, Repr

namespace Node

/-- The name written in the other module, and the local one. -/
def importedNames? (specifier : Node) : Option (String × String) :=
  match specifier.child? .name with
  | none => none
  | some written =>
    let imported := if written.kind = .string then written.stringValue?.getD "" else written.name
    let localName := match specifier.child? .aliasName with
      | some renamed => renamed.name
      | none => imported
    some (imported, localName)

def specifiers (clause : Node) : List Node :=
  ((clause.namedChildren.filter fun part => part.kind = .namedImports).map fun part =>
    part.namedChildren.filter fun specifier => specifier.kind = .importSpecifier).flatten

def importsOfPart (source : String) (isType : Bool) (part : Node) : List Import :=
  match part.kind with
  | .identifier => [⟨part.name, "default", source, isType, .single⟩]
  | .namespaceImport =>
    (part.namedChildren.filter fun child => child.kind = .identifier).map fun child =>
      ⟨child.name, "*", source, isType, .everything⟩
  | .namedImports =>
    part.namedChildren.filterMap fun specifier =>
      if specifier.kind = .importSpecifier then
        specifier.importedNames?.map fun (imported, localName) =>
          ⟨localName, imported, source, isType || specifier.hasToken .typeKeyword, .listed⟩
      else none
  | _ => []

def importSource? (statement : Node) : Option String :=
  (statement.child? .source).bind stringValue?

def importsOfStatement (statement : Node) : List Import :=
  if statement.kind = .importStatement then
    match statement.importSource? with
    | none => []
    | some source =>
      let isType := statement.hasToken .typeKeyword
      let clauses := statement.namedChildren.filter fun child => child.kind = .importClause
      (clauses.map fun clause =>
        (clause.namedChildren.map (importsOfPart source isType)).flatten).flatten
  else []

def imports (root : Node) : List Import :=
  (root.namedChildren.map importsOfStatement).flatten

end Node

end VueScope.Script
