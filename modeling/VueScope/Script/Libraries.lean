import VueScope.Identifiers.Category
import VueScope.Script.Imports

/-! The libraries whose imports say what a name stands for. -/
namespace VueScope.Script

namespace Library

def vue : String := "vue"

def pinia : String := "pinia"

def vuex : String := "vuex"

def refs : List String := ["ref", "shallowRef", "toRef", "customRef"]

def reactives : List String := ["reactive", "shallowReactive"]

def computed : String := "computed"

def reactivity : List String := refs ++ reactives ++ [computed]

end Library

structure StoreImports where
  hasPinia : Bool
  hasVuex : Bool
  pinia : List String
  vuex : List String
deriving DecidableEq, Repr

namespace Node

/-- The library of a statement, named by its source or else by the first string in it. -/
def librarySource? (statement : Node) : Option String :=
  let written := statement.namedChildren.find? fun child => child.kind = .string
  ((statement.child? .source).or written).bind stringValue?

def importStatements (root : Node) : List (Node × String) :=
  root.namedChildren.filterMap fun statement =>
    if statement.kind = .importStatement then statement.librarySource?.map (statement, ·) else none

def listedNames (statement : Node) : List (String × String) :=
  match statement.namedChildren.find? fun child => child.kind = .importClause with
  | none => []
  | some clause =>
    (clause.specifiers.filterMap importedNames?).filter fun (imported, localName) =>
      imported ≠ "" && localName ≠ ""

def listedFrom (root : Node) (source : String) : List (String × String) :=
  ((root.importStatements.filter fun (_, origin) => origin = source).map fun (statement, _) =>
    statement.listedNames).flatten

end Node

namespace StoreImports

def none : StoreImports := ⟨false, false, [], []⟩

def ofScript (root : Node) : StoreImports where
  hasPinia := root.importStatements.any fun (_, source) => source = Library.pinia
  hasVuex := root.importStatements.any fun (_, source) => source = Library.vuex
  pinia := (root.listedFrom Library.pinia).map Prod.snd
  vuex := (root.listedFrom Library.vuex).map Prod.snd

/-- Which store library a name comes from. Only an import by name tells. -/
def category (imports : StoreImports) (name : String) : Category :=
  if imports.pinia.contains name then .pinia
  else if imports.vuex.contains name then .vuex
  else .store

end StoreImports

def reactivityAliases (root : Node) : OrderedMap String String :=
  OrderedMap.ofList
    (((root.listedFrom Library.vue).filter fun (imported, _) => Library.reactivity.contains imported).map
      fun (imported, localName) => (localName, imported))

end VueScope.Script
