import VueScope.Component.Descriptor
import VueScope.Options.Bindings
import VueScope.Script.Parse
import VueScope.Setup.Declarations

/-! The bindings that a component exposes to its template. -/
namespace VueScope.Setup

open Script Component

structure Compiled where
  bindings : Bindings
  lang : Option String
  setup : Bool
  /-- Local names of props that are taken apart under another name. -/
  aliases : OrderedMap String String
deriving DecidableEq, Repr

def parseBlock (role : ScriptRole) (lang : Option String) (block : Block) :
    Except CompileFailure Node :=
  match parse? (Dialect.ofLang lang) block.content with
  | some root => .ok root
  | none => .error (.syntaxError (role, ⟨Dialect.ofLang lang, block.content, block.start⟩))

/-- An empty language name is none at all. -/
def sameLanguage (first second : Option String) : Bool :=
  let given (lang : Option String) : Option String := if lang = some "" then none else lang
  given first = given second

def optionBindings (root : Node) : Bindings :=
  match Options.component? root with
  | some component => Options.bindings component
  | none => ∅

def Declared.bindings (declared : Declared) : List (String × BindingKind) :=
  declared.propKeys.map (·, .props) ++
  declared.models.map (·, .props) ++
  declared.destructured.entries.map (fun (localName, key) =>
    (localName, if localName = key then BindingKind.props else .propsAliased)) ++
  match declared.rest with
  | some name => if name = "" then [] else [(name, .setupReactiveConst)]
  | none => []

def importBindings (imports : Imports) : List (String × BindingKind) :=
  (imports.entries.filter fun (_, entry) => !entry.isType).map fun (localName, entry) =>
    (localName, importBinding entry)

/-- The bindings of a setup script with the plain script beside it, in the order in which
one replaces another. -/
def collect (plain : Option Node) (setup : Node) (declared : Declared) : Bindings :=
  let roots := plain.toList ++ [setup]
  let producers := Producers.ofScripts roots
  (((plain.map optionBindings).getD ∅).union
    (OrderedMap.ofList
      (importBindings (Imports.ofScripts roots) ++
        (plain.map (plainBindings producers)).getD [] ++
        setupBindings producers setup ++
        declared.bindings)))

def compileSetup (plain : Option Block) (setup : Block) : Except CompileFailure Compiled := do
  let plainRoot ← plain.mapM (parseBlock .plain setup.lang)
  let setupRoot ← parseBlock .setup setup.lang setup
  let types := TypeDeclarations.ofScripts (plainRoot.toList ++ [setupRoot])
  let declared ← MacroContext.ofScript ⟨types, setup.start⟩ setupRoot
  return {
    bindings := collect plainRoot setupRoot declared
    lang := setup.lang
    setup := true
    aliases := ⟨declared.destructured.entries.filter fun (localName, key) => localName ≠ key⟩ }

def compilePlain (script : Block) : Except CompileFailure Compiled := do
  let root ← parseBlock .plain script.lang script
  return ⟨optionBindings root, script.lang, false, ∅⟩

def compile (component : Descriptor) : Except CompileFailure Compiled :=
  match component.script, component.scriptSetup with
  | none, none => .error (.noScript component.filename)
  | some plain, none => compilePlain plain
  | none, some setup => compileSetup none setup
  | some plain, some setup =>
    if sameLanguage plain.lang setup.lang then compileSetup (some plain) setup
    else .error .differentLanguages

structure CompilationIds where
  stem : String
  given : Nat
deriving DecidableEq, Repr

namespace CompilationIds

def start (stem : String) : CompilationIds := ⟨stem, 0⟩

def next (ids : CompilationIds) : String × CompilationIds :=
  (ids.stem ++ "-" ++ toString (ids.given + 1), { ids with given := ids.given + 1 })

/-- Compiles a component file. An id is used up once the file is split into blocks,
whether its scripts compile or not. -/
def compile [Recovery] (ids : CompilationIds) (text : List Char) :
    Except Failure Bindings × CompilationIds :=
  match Component.parse defaultFilename text with
  | .error failure => (.error failure, ids)
  | .ok parsed =>
    match Setup.compile parsed.descriptor with
    | .error failure => (.error (.compile failure), ids.next.2)
    | .ok compiled => (.ok compiled.bindings, ids.next.2)

end CompilationIds

end VueScope.Setup
