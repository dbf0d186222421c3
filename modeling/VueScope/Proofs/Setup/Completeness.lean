import VueScope.Proofs.Component.Template
import VueScope.Proofs.Setup.Constants
import VueScope.Proofs.Setup.Props
import VueScope.Setup.Compile

/-! Every name that is bound at the top of a setup script is a binding of the component, but for two
kinds of names: those that are only imported and last as a type, and those that props are taken
apart into where a pattern goes deeper than one prop. -/
namespace VueScope.Setup

open Script Component

/-- The last import of a name is that of a type. -/
def LastImportsType (root : Node) (name : String) : Prop :=
  ∃ entry ∈ root.imports.reverse.find? (fun entry => entry.localName = name), entry.isType = true

instance (root : Node) (name : String) : Decidable (LastImportsType root name) := by
  unfold LastImportsType
  infer_instance

/-- A name is overruled if the last import of it is that of a type, and no declaration binds it. -/
structure Overruled (root : Node) (name : String) : Prop where
  imported : LastImportsType root name
  unnamed : ¬DeclaresName root namedDeclarations name
  unbound : ∀ declarator target, DeclaresTarget root declarator target → ¬target.Binds name

/-- A name is buried if the props are taken apart into it and their pattern does not list it. -/
def Buried (root : Node) (name : String) : Prop :=
  ∃ declarator target, DeclaresTarget root declarator target ∧ TakesProps declarator ∧
    target.kind ≠ .identifier ∧ target.Binds name ∧ ¬ListsProp target name

variable {root : Node} {name : String} {producers : Producers} {component : Descriptor}

theorem exists_imports_of_part {part : Node} (imported : part ∈ importedParts root) :
    ∃ source, part.importsOfPart source false ⊆ root.imports := by
  obtain ⟨statement,chosen,found⟩ := List.mem_flatMap.mp imported
  obtain ⟨clause,held,within⟩ := List.mem_flatMap.mp found
  obtain ⟨member,form⟩ := List.mem_filter.mp chosen
  obtain ⟨kind,⟨source,written,isString⟩,value⟩ := of_decide_eq_true form
  refine ⟨source.unquoted,fun entry listed => ?_⟩
  have module : statement.importSource? = some source.unquoted := by
    rw [Node.importSource?,Option.mem_def.mp written,Option.bind_some]
    simp [Node.stringValue?,isString]
  have partImports := List.mem_flatten_of_mem
    (List.mem_map_of_mem (f := Node.importsOfPart source.unquoted false) within) listed
  have statementImports : entry ∈ statement.importsOfStatement := by
    rw [Node.importsOfStatement,if_pos kind,module]
    dsimp only
    rw [value]
    exact List.mem_flatten.mpr ⟨_,List.mem_map.mpr ⟨clause,held,rfl⟩,partImports⟩
  exact List.mem_flatten_of_mem (List.mem_map_of_mem member) statementImports

theorem exists_import_of_importsName (imported : ImportsName root name) :
    ∃ entry ∈ root.imports, entry.localName = name ∧ entry.isType = false := by
  cases imported with
  | @single part imported kind =>
    obtain ⟨source,below⟩ := exists_imports_of_part imported
    refine ⟨⟨part.name,"default",source,false,.single⟩,below ?_,rfl,rfl⟩
    simp [Node.importsOfPart,kind]
  | @everything part name imported kind member isName =>
    obtain ⟨source,below⟩ := exists_imports_of_part imported
    refine ⟨⟨name.name,"*",source,false,.everything⟩,below ?_,rfl,rfl⟩
    simpa [Node.importsOfPart,kind] using ⟨name,⟨member,isName⟩,rfl⟩
  | @listed part specifier written imported kind member form value named isName =>
    obtain ⟨source,below⟩ := exists_imports_of_part imported
    have names : specifier.importedNames? =
        some (written.name,((specifier.child? .aliasName).getD written).name) := by
      rw [Node.importedNames?,named]
      dsimp only
      rw [if_neg isName]
      cases specifier.child? .aliasName <;> rfl
    refine ⟨⟨((specifier.child? .aliasName).getD written).name,written.name,source,false,.listed⟩,
      below ?_,rfl,rfl⟩
    simp only [Node.importsOfPart,kind,List.mem_filterMap]
    exact ⟨specifier,member,by simp [form,names,value]⟩

theorem get?_imports (roots : List Node) (root : Node) (name : String) :
    (Imports.ofScripts (roots ++ [root])).get? name =
      (root.imports.reverse.find? fun entry => entry.localName = name).or
        ((Imports.ofScripts roots).get? name) := by
  rw [Imports.ofScripts,List.map_append,List.flatten_append,List.map_append,
    OrderedMap.get?_ofList_append]
  congr 1
  simp only [List.map_cons,List.map_nil,List.flatten_cons,List.flatten_nil,List.append_nil]
  rw [OrderedMap.get?_ofList,← List.map_reverse,List.find?_map,Option.map_map]
  exact Option.map_id'

theorem mem_importBindings {roots : List Node} (imported : ImportsName root name)
    (last : ¬LastImportsType root name) :
    name ∈ (importBindings (Imports.ofScripts (roots ++ [root]))).map Prod.fst := by
  obtain ⟨first,member,named,_⟩ := exists_import_of_importsName imported
  have some : (root.imports.reverse.find? fun entry => entry.localName = name).isSome = true := by
    rw [List.find?_isSome]
    exact ⟨first,List.mem_reverse.mpr member,by simpa using named⟩
  obtain ⟨entry,found⟩ := Option.isSome_iff_exists.mp some
  have value : entry.isType = false := by
    rw [Bool.eq_false_iff]
    exact fun isType => last ⟨entry,found,isType⟩
  have own := get?_imports roots root name
  rw [found,Option.some_or] at own
  have held := (OrderedMap.mem_entries_iff _ name entry (OrderedMap.nodup_keys_ofList _)).mpr own
  refine List.mem_map.mpr ⟨(name,importBinding entry),List.mem_map.mpr ⟨(name,entry),?_,rfl⟩,rfl⟩
  exact List.mem_filter.mpr ⟨held,by simp [value]⟩

theorem mem_setupBindings {statement : Node} (member : statement ∈ root.namedChildren)
    (bound : name ∈ (declarationBindings producers statement).map Prod.fst) :
    name ∈ (setupBindings producers root).map Prod.fst := by
  obtain ⟨entry,inside,named⟩ := List.mem_map.mp bound
  exact List.mem_map.mpr
    ⟨entry,List.mem_flatten_of_mem (List.mem_map_of_mem member) inside,named⟩

theorem mem_setupBindings_of_declares
    (declares : DeclaresName root namedDeclarations name) :
    name ∈ (setupBindings producers root).map Prod.fst := by
  obtain ⟨statement,member,kind,written,named,rfl⟩ := declares
  have constant : declaresConstant statement.kind = true := by
    simp only [namedDeclarations,List.mem_cons,List.not_mem_nil,or_false] at kind
    rcases kind with kind | kind | kind | kind | kind <;> rw [kind] <;> rfl
  apply mem_setupBindings member
  rw [declarationBindings,if_pos constant,Option.mem_def.mp named]
  exact List.mem_singleton.mpr rfl

theorem any_declaresProps_iff (declarator : Node) :
    ((declarator.child? .value).map Node.unwrapped).any declaresProps = true ↔
      TakesProps declarator := by
  rw [Option.any_eq_true,TakesProps]
  simp

variable {declarator target : Node}

theorem mem_setupBindings_of_target
    (declares : DeclaresTarget root declarator target) (bound : target.Binds name)
    (plain : target.kind = .identifier ∨ ¬TakesProps declarator) :
    name ∈ (setupBindings producers root).map Prod.fst := by
  obtain ⟨statement,member,kind,declaration,listed⟩ := declares.exists_declaration
  have own (isConst : Bool) :
      name ∈ (declaratorBindings producers isConst declarator).map Prod.fst := by
    rw [declaratorBindings,declares.target]
    dsimp only
    split
    next isName => simp [bound.eq_name isName]
    next pattern =>
      rw [if_neg (by rw [any_declaresProps_iff]; exact plain.resolve_left pattern)]
      simpa using Node.mem_boundNames bound
  obtain ⟨entry,inside,named⟩ := List.mem_map.mp
    (own (decide (statement.declarationKind? = some .const)))
  apply mem_setupBindings member
  rw [declarationBindings,if_neg (by rcases kind with kind | kind <;> simp [kind,declaresConstant]),
    if_pos declaration,jointBindings_eq]
  exact List.mem_map.mpr ⟨entry,List.mem_flatten_of_mem (List.mem_map_of_mem listed) inside,named⟩

theorem DeclaresTarget.preorder_subset
    (declares : DeclaresTarget root declarator target) : target.preorder ⊆ root.preorder := by
  obtain ⟨statement,member,_,part⟩ := declares.declared
  have first := Node.preorder_subset root statement (List.mem_filter.mp member).1
  have second := Node.preorder_subset statement declarator (List.mem_filter.mp part).1
  have third := Node.preorder_subset declarator target (List.mem_of_find?_eq_some declares.target)
  exact fun node inside => first (second (third inside))

theorem mem_bindings_of_listsProp {context : MacroContext} {dialect : Dialect} {source : List Char}
    {declared : Declared} (parsed : parse? dialect source = some root)
    (ran : context.ofScript root = .ok declared) (declares : DeclaresTarget root declarator target)
    (props : TakesProps declarator) (bound : target.Binds name) (listed : ListsProp target name) :
    name ∈ declared.bindings.map Prod.fst := by
  obtain ⟨pattern,listed⟩ := listed
  obtain ⟨taken,rest⟩ := MacroContext.declared_of_takesProps ran declares props pattern
  rw [Declared.bindings,List.map_append,List.map_append,List.mem_append,List.mem_append]
  rcases listed with ⟨element,member,takes⟩ | last
  · have held := taken element member name takes
    rw [OrderedMap.contains_iff_mem_keys] at held
    simp only [List.map_map]
    exact .inl (.inr held)
  · have some : name ≠ "" := Node.ne_empty_of_mem_boundNames parsed
      declares.preorder_subset (Node.mem_boundNames bound)
    rw [last] at rest
    rw [rest]
    simp [some]

def written (plain : Option Node) (setup : Node) (declared : Declared) : List (String × BindingKind) :=
  let roots := plain.toList ++ [setup]
  let producers := Producers.ofScripts roots
  importBindings (Imports.ofScripts roots) ++ (plain.map (plainBindings producers)).getD [] ++
    setupBindings producers setup ++ declared.bindings

theorem get?_collect (plain : Option Node) (setup : Node) (declared : Declared) (name : String) :
    (collect plain setup declared).get? name =
      ((OrderedMap.ofList (written plain setup declared)).get? name).or
        (((plain.map optionBindings).getD ∅).get? name) :=
  OrderedMap.get?_union _ _ name (OrderedMap.nodup_keys_ofList _)

theorem contains_collect {plain : Option Node} {setup : Node} {declared : Declared}
    (member : name ∈ (written plain setup declared).map Prod.fst) :
    (collect plain setup declared).contains name = true := by
  rw [← OrderedMap.contains_ofList_iff,OrderedMap.contains] at member
  rw [OrderedMap.contains,get?_collect,Option.isSome_or,member,Bool.true_or]

theorem parseBlock_eq_ok_iff (role : ScriptRole) (lang : Option String) (block : Block) (root : Node) :
    parseBlock role lang block = .ok root ↔ parse? (Dialect.ofLang lang) block.content = some root := by
  unfold parseBlock
  cases parse? (Dialect.ofLang lang) block.content <;> simp

theorem compileSetup_eq_ok_iff (plain : Option Block) (setup : Block) (compiled : Compiled) :
    compileSetup plain setup = .ok compiled ↔
      ∃ plainRoot root declared, plain.mapM (parseBlock .plain setup.lang) = .ok plainRoot ∧
        parseBlock .setup setup.lang setup = .ok root ∧
        MacroContext.ofScript ⟨TypeDeclarations.ofScripts (plainRoot.toList ++ [root]),setup.start⟩ root =
          .ok declared ∧
        (⟨collect plainRoot root declared,setup.lang,true,
          ⟨declared.destructured.entries.filter fun (localName,key) => localName ≠ key⟩⟩ : Compiled) =
            compiled := by
  unfold compileSetup
  cases plain.mapM (parseBlock .plain setup.lang) with
  | error _ => simp [bind,Except.bind]
  | ok plainRoot =>
    cases parseBlock .setup setup.lang setup with
    | error _ => simp [bind,Except.bind]
    | ok root =>
      cases ran : MacroContext.ofScript
          ⟨TypeDeclarations.ofScripts (plainRoot.toList ++ [root]),setup.start⟩ root with
      | error _ => simp [bind,Except.bind,ran]
      | ok declared => simp [bind,Except.bind,pure,Except.pure,ran]

theorem exists_compileSetup {setup : Block} {compiled : Compiled}
    (block : component.scriptSetup = some setup) (accepted : compile component = .ok compiled) :
    ∃ plain, compileSetup plain setup = .ok compiled := by
  rw [compile,block] at accepted
  cases script : component.script with
  | none =>
    rw [script] at accepted
    exact ⟨none,accepted⟩
  | some plain =>
    rw [script] at accepted
    dsimp only at accepted
    split at accepted
    · exact ⟨some plain,accepted⟩
    · contradiction

theorem exists_of_compile {setup : Block} {compiled : Compiled} (block : component.scriptSetup = some setup)
    (accepted : compile component = .ok compiled) :
    ∃ plain root context declared, parse? (Dialect.ofLang setup.lang) setup.content = some root ∧
      MacroContext.ofScript context root = .ok declared ∧
      compiled.bindings = collect plain root declared := by
  obtain ⟨plain,accepted⟩ := exists_compileSetup block accepted
  obtain ⟨plainRoot,root,declared,_,parsed,ran,rfl⟩ := (compileSetup_eq_ok_iff _ _ _).mp accepted
  exact ⟨plainRoot,root,_,declared,(parseBlock_eq_ok_iff _ _ _ _).mp parsed,ran,rfl⟩

/-- Every name that is bound at the top of a setup script is a binding of the component, unless it is
overruled or buried. -/
theorem names_at_top_are_bound (component : Descriptor) (setup : Block) (compiled : Compiled)
    (block : component.scriptSetup = some setup) (accepted : compile component = .ok compiled) :
    ∃ root, parse? (Dialect.ofLang setup.lang) setup.content = some root ∧
      ∀ name, BindsAtTop root name → ¬Overruled root name → ¬Buried root name →
        compiled.bindings.contains name = true := by
  obtain ⟨plain,root,context,declared,parsed,ran,bindings⟩ := exists_of_compile block accepted
  refine ⟨root,parsed,fun name bound last listed => ?_⟩
  rw [bindings]
  apply contains_collect
  simp only [written,List.map_append,List.mem_append]
  have declared (declarator target : Node) (declares : DeclaresTarget root declarator target)
      (bound : target.Binds name) : name ∈ (setupBindings (.ofScripts (plain.toList ++ [root])) root).map
        Prod.fst ∨ name ∈ declared.bindings.map Prod.fst := by
    -- a pattern over the props is left to the macros, which know its entries only
    by_cases plain : target.kind = .identifier ∨ ¬TakesProps declarator
    · exact .inl (mem_setupBindings_of_target declares bound plain)
    · rw [not_or,not_not] at plain
      obtain ⟨pattern,props⟩ := plain
      have lists : ListsProp target name := by
        by_contra unlisted
        exact listed ⟨declarator,target,declares,props,pattern,bound,unlisted⟩
      exact .inr (mem_bindings_of_listsProp parsed ran declares props bound lists)
  cases bound with
  | ofDeclaration declares => exact .inl (.inr (mem_setupBindings_of_declares declares))
  | @ofVariable declarator target declares bound =>
    exact (declared declarator target declares bound).imp_left .inr
  | ofImport imported =>
    -- a type that is imported later takes the place of the import, but not of a declaration
    by_contra absent
    rw [not_or,not_or] at absent
    refine last ⟨?_,fun declares => absent.1.2 (mem_setupBindings_of_declares declares),
      fun declarator target declares bound =>
        absent.2 ((declared declarator target declares bound).resolve_left absent.1.2)⟩
    by_contra value
    exact absent.1.1 (.inl (mem_importBindings imported value))

def setupOnly (lang : Option String) (content : List Char) : Descriptor :=
  { Descriptor.empty "Card.vue" with
    scriptSetup := some ⟨"script",content,0,content.length,∅,lang,true⟩ }

theorem exists_of_setupOnly {α : Type} {lang : Option String} {content : List Char}
    {view : Compiled → α} {value : α}
    (ran : (compile (setupOnly lang content)).toOption.map view = some value) :
    ∃ root compiled, parse? (Dialect.ofLang lang) content = some root ∧
      compile (setupOnly lang content) = .ok compiled ∧ view compiled = value := by
  obtain ⟨compiled,succeeded,seen⟩ := Option.map_eq_some_iff.mp ran
  have accepted := eq_ok_of_toOption succeeded
  obtain ⟨_,root,_,_,parsed,_,_⟩ := exists_of_compile rfl accepted
  exact ⟨root,compiled,parsed,accepted,seen⟩

/-- A variable at the top that binds a name no deeper than a few patterns down. -/
def ShowsVariable (root : Node) (name : String) : Prop :=
  ∃ statement ∈ root.namedChildren,
    (statement.kind = .lexicalDeclaration ∨ statement.kind = .variableDeclaration) ∧
      ∃ declarator ∈ statement.namedChildren, declarator.kind = .variableDeclarator ∧
        ∃ target ∈ declarator.child? .name, name ∈ target.namesWithin 4

instance (root : Node) (name : String) : Decidable (ShowsVariable root name) := by
  unfold ShowsVariable
  infer_instance

theorem exists_target_of_showsVariable (seen : ShowsVariable root name) :
    ∃ declarator target, DeclaresTarget root declarator target ∧ target.Binds name := by
  obtain ⟨statement,member,kind,declarator,part,form,target,named,inside⟩ := seen
  exact ⟨declarator,target,⟨⟨statement,member,kind,part⟩,form,named⟩,
    Node.binds_of_mem_namesWithin target inside⟩

theorem remaining_props_are_bound :
    let content := ("const \x7b id, label: title = '', ...others \x7d =\n" ++
      "  withDefaults(defineProps<Props>(), \x7b\x7d)").toList
    ∃ root compiled, parse? (Dialect.ofLang (some "ts")) content = some root ∧
      compile (setupOnly (some "ts") content) = .ok compiled ∧ BindsAtTop root "others" ∧
      compiled.bindings.contains "others" = true := by
  rw [String.toList_append,String.toList_ofList,String.toList_ofList]
  intro content
  have ran : ((compile (setupOnly (some "ts") content)).toOption.map fun _ => ()) = some () := by
    decide +kernel
  have shown : ∀ root ∈ parse? (Dialect.ofLang (some "ts")) content,
      ShowsVariable root "others" ∧ ¬LastImportsType root "others" ∧
        ∀ statement ∈ root.namedChildren, ∀ declarator ∈ statement.namedChildren,
          ∀ target ∈ declarator.child? .name, ListsProp target "others" := by
    decide +kernel
  obtain ⟨_,compiled,_,accepted,_⟩ := exists_of_setupOnly ran
  obtain ⟨root,parsed,bound⟩ := names_at_top_are_bound _ _ compiled rfl accepted
  obtain ⟨seen,last,listed⟩ := shown root parsed
  obtain ⟨_,_,declares,bound'⟩ := exists_target_of_showsVariable seen
  have top : BindsAtTop root "others" := .ofVariable declares bound'
  refine ⟨root,compiled,parsed,accepted,top,bound "others" top (last ·.imported) ?_⟩
  rintro ⟨declarator,target,⟨⟨statement,member,_,part⟩,_,named⟩,_,_,_,unlisted⟩
  exact unlisted (listed statement member declarator part target named)

/-- A script can be compiled and bind a name at its top that is no binding: where a prop is taken
apart in turn, and where a type of the same name is imported later. -/
theorem name_below_a_prop_is_not_bound :
    let nested := "const \x7b user: \x7b name \x7d \x7d = defineProps(['user'])".toList
    let twice := "import \x7b A \x7d from './a'\nimport type \x7b A \x7d from './t'".toList
    (∃ root compiled, parse? (Dialect.ofLang none) nested = some root ∧
      compile (setupOnly none nested) = .ok compiled ∧ BindsAtTop root "name" ∧
      compiled.bindings.contains "name" = false) ∧
    ∃ root compiled, parse? (Dialect.ofLang (some "ts")) twice = some root ∧
      compile (setupOnly (some "ts") twice) = .ok compiled ∧ BindsAtTop root "A" ∧
      compiled.bindings.contains "A" = false := by
  rw [String.toList_ofList,String.toList_ofList]
  intro nested twice
  constructor
  · have ran : ((compile (setupOnly none nested)).toOption.map fun compiled =>
        compiled.bindings.contains "name") = some false := by decide +kernel
    have shown : ∀ root ∈ parse? (Dialect.ofLang none) nested, ShowsVariable root "name" := by
      decide +kernel
    obtain ⟨root,compiled,parsed,accepted,absent⟩ := exists_of_setupOnly ran
    obtain ⟨_,_,declares,bound⟩ := exists_target_of_showsVariable (shown root parsed)
    exact ⟨root,compiled,parsed,accepted,.ofVariable declares bound,absent⟩
  · have ran : ((compile (setupOnly (some "ts") twice)).toOption.map fun compiled =>
        compiled.bindings.contains "A") = some false := by decide +kernel
    have shown : ∀ root ∈ parse? (Dialect.ofLang (some "ts")) twice,
        ∃ part ∈ importedParts root, part.kind = .namedImports ∧
          ∃ specifier ∈ part.namedChildren, specifier.kind = .importSpecifier ∧
            specifier.hasToken .typeKeyword = false ∧ ∃ written ∈ specifier.child? .name,
              written.kind ≠ .string ∧ ((specifier.child? .aliasName).getD written).name = "A" := by
      decide +kernel
    obtain ⟨root,compiled,parsed,accepted,absent⟩ := exists_of_setupOnly ran
    obtain ⟨part,imported,isList,specifier,entry,form,value,written,named,isName,same⟩ :=
      shown root parsed
    have listed := ImportsName.listed imported isList entry form value named isName
    rw [same] at listed
    exact ⟨root,compiled,parsed,accepted,.ofImport listed,absent⟩

end VueScope.Setup
