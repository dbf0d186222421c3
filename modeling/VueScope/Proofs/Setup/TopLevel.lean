import VueScope.Proofs.Script.Pattern
import VueScope.Script.Imports

/-! The names that are bound at the top of a script: by imports, by variables and the patterns they
are taken apart by, and by declarations that have a name. -/
namespace VueScope.Setup

open Script

/-- The parts of the import clauses of a script, other than those that import types only. -/
def importedParts (root : Node) : List Node :=
  (root.namedChildren.filter fun statement =>
    statement.kind = .importStatement ∧ (∃ source ∈ statement.child? .source, source.kind = .string) ∧
      statement.hasToken .typeKeyword = false).flatMap fun statement =>
    (statement.namedChildren.filter fun clause => clause.kind = .importClause).flatMap
      Node.namedChildren

/-- A name that a script imports, other than as a type. -/
inductive ImportsName (root : Node) : String → Prop
  | single {part : Node} (imported : part ∈ importedParts root) (kind : part.kind = .identifier) :
      ImportsName root part.name
  | everything {part name : Node} (imported : part ∈ importedParts root)
      (kind : part.kind = .namespaceImport) (member : name ∈ part.namedChildren)
      (isName : name.kind = .identifier) : ImportsName root name.name
  | listed {part specifier written : Node} (imported : part ∈ importedParts root)
      (kind : part.kind = .namedImports) (member : specifier ∈ part.namedChildren)
      (form : specifier.kind = .importSpecifier) (value : specifier.hasToken .typeKeyword = false)
      (named : specifier.child? .name = some written) (isName : written.kind ≠ .string) :
      ImportsName root ((specifier.child? .aliasName).getD written).name

/-- A variable, or a pattern, that a script declares at its top. -/
structure DeclaresTarget (root declarator target : Node) : Prop where
  declared : ∃ statement ∈ root.namedChildren,
    (statement.kind = .lexicalDeclaration ∨ statement.kind = .variableDeclaration) ∧
      declarator ∈ statement.namedChildren
  kind : declarator.kind = .variableDeclarator
  target : declarator.child? .name = some target

theorem DeclaresTarget.exists_declaration {root declarator target : Node}
    (declares : DeclaresTarget root declarator target) :
    ∃ statement ∈ root.namedChildren,
      (statement.kind = .lexicalDeclaration ∨ statement.kind = .variableDeclaration) ∧
        statement.isVariableDeclaration = true ∧ declarator ∈ statement.declarators := by
  obtain ⟨statement,member,kind,part⟩ := declares.declared
  refine ⟨statement,member,kind,?_,?_⟩
  · simpa [Node.isVariableDeclaration] using kind
  · simpa [Node.declarators] using ⟨part,declares.kind⟩

/-- A declaration of one of the kinds at the top of a script, by its name. -/
def DeclaresName (root : Node) (kinds : List Kind) (name : String) : Prop :=
  ∃ statement ∈ root.namedChildren, statement.kind ∈ kinds ∧
    ∃ written ∈ statement.child? .name, written.name = name

/-- The declarations that bind the name they have. -/
def namedDeclarations : List Kind :=
  [.functionDeclaration,.generatorFunctionDeclaration,.classDeclaration,.abstractClassDeclaration,
    .enumDeclaration]

/-- A name that is bound at the top of a script. -/
inductive BindsAtTop (root : Node) (name : String) : Prop
  | ofImport (imported : ImportsName root name)
  | ofVariable {declarator target : Node} (declares : DeclaresTarget root declarator target)
      (bound : target.Binds name)
  | ofDeclaration (declares : DeclaresName root namedDeclarations name)

/-- A name that a script declares at its top as a variable or a function. -/
inductive DeclaresAtTop (root : Node) (name : String) : Prop
  | ofVariable {declarator target : Node} (declares : DeclaresTarget root declarator target)
      (bound : target.Binds name)
  | ofFunction (declares : DeclaresName root [.functionDeclaration,.generatorFunctionDeclaration] name)

end VueScope.Setup
