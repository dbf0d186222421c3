import VueScope.Proofs.Identifiers.Classified
import VueScope.Proofs.Setup.Completeness

/-! Which names of a setup script are classified. A name reaches a category by one of five routes,
and a name that is declared as a variable or a function at the top of the script takes one of them
unless it stands in a pattern that no route looks into. -/
namespace VueScope

theorem holds_foldl_iff {σ α : Type} (change : σ → α → σ) (holds : σ → Prop) (adds : α → Prop)
    (step : ∀ state item, holds (change state item) ↔ adds item ∨ holds state) (items : List α)
    (state : σ) : holds (items.foldl change state) ↔ (∃ item ∈ items, adds item) ∨ holds state := by
  induction items generalizing state with
  | nil => simp
  | cons item rest ih =>
    rw [List.foldl_cons,ih,step]
    simp only [List.mem_cons,exists_eq_or_imp]
    rw [or_left_comm,or_assoc]

variable (declarator target : Node) (collector : Collector)

namespace Collector

theorem contains_add_iff (name other : String) (category : Category)
    (definition : String) : (collector.add other category definition).contains name = true ↔
      other = name ∨ collector.contains name = true := by
  unfold add claim
  split
  next held =>
    refine ⟨.inr,fun either => either.elim ?_ id⟩
    rintro rfl
    exact held
  next =>
    rw [contains,OrderedMap.contains,OrderedMap.get?_insert]
    by_cases same : name = other
    · simp [same]
    · simp [same,Ne.symm same,contains,OrderedMap.contains]

theorem Reached.contains_build {collector : Collector} (reached : Reached collector) (name : String) :
    collector.build.contains name = collector.contains name := by
  obtain ⟨operations,rfl⟩ := reached
  have files := (Files.empty.run operations).2
  rw [Identifiers.contains,files.categoryOf?_build,contains,OrderedMap.contains,files.claimed]

end Collector

namespace Setup

open Script Component

/-- A declarator whose names are those of a store. -/
def TakesStore : Prop :=
  target.kind = .objectPattern ∧
    ∃ value ∈ declarator.child? .value, value.unwrapped.calls storeToRefs = true

/-- The routes by which a name of a setup script reaches a category. -/
inductive Filed (root : Node) (bindings : Bindings) (name : String) : Prop
  | ofFunction (declares : DeclaresName root [.functionDeclaration,.generatorFunctionDeclaration] name)
  | ofName {declarator target : Node} (declares : DeclaresTarget root declarator target)
      (kind : target.kind = .identifier) (named : target.name = name)
  | ofStore {declarator target : Node} (declares : DeclaresTarget root declarator target)
      (store : TakesStore declarator target) (bound : name ∈ target.boundNames)
  | ofEvents (bare : anyBareCall Macro.emits root.kind root.children = true) (named : implicitEmit = name)
  | ofProps {kind : BindingKind} (bound : (name,kind) ∈ bindings.entries)
      (prop : kind = .props ∨ kind = .propsAliased)

/-- What a declarator says of a name, now or once the kind of binding is asked. -/
def SaysOf (declarator : Node) (name : String) : Prop :=
  ∃ target ∈ declarator.child? .name,
    (target.kind = .identifier ∧ target.name = name) ∨
      (TakesStore declarator target ∧ name ∈ target.boundNames)

def Progress.Holds (name : String) (progress : Progress) : Prop :=
  progress.collector.contains name = true ∨ ∃ pending ∈ progress.pending, pending.name = name

theorem contains_foldl_add_iff (names : List String) (category : Category)
    (definition name : String) :
    (names.foldl (fun collector name => collector.add name category definition) collector).contains
      name = true ↔ name ∈ names ∨ collector.contains name = true := by
  refine (holds_foldl_iff _ (fun collector : Collector => collector.contains name = true) (· = name) ?_
    names collector).trans ?_
  · exact fun collector other => collector.contains_add_iff name other category definition
  · simp

def Verdict.names : Verdict → List String
  | settled names _ => names
  | .open name => [name]
  | silent => []

theorem takesStore_iff :
    TakesStore declarator target ↔
      ((declarator.child? .value).map Node.unwrapped).bind Node.callee? = some storeToRefs ∧
        target.kind = .objectPattern := by
  rw [TakesStore,and_comm]
  cases declarator.child? .value <;> simp [Node.calls]

variable {declared : Declared} {name : String} (root : Node) (bindings : Bindings)
  (imports : StoreImports)

theorem mem_names_verdict_iff (isConst : Bool) (declarator : Node) (name : String) :
    name ∈ (verdict imports isConst declarator).names ↔ SaysOf declarator name := by
  unfold SaysOf verdict
  cases declarator.child? .name with
  | none => simp [Verdict.names]
  | some target =>
    simp only [Option.mem_def,Option.some.injEq,exists_eq_left']
    by_cases isName : target.kind = .identifier
    · have apart : ¬TakesStore declarator target := by simp [TakesStore,isName]
      have own (category : Category) :
          name ∈ (Verdict.settled [target.name] category).names ↔ target.name = name := by
        simp [Verdict.names,eq_comm]
      rw [if_pos isName]
      simp only [isName,apart,true_and,false_and,or_false]
      split
      · exact own _
      · split
        · exact own _
        · exact own .methods
    · rw [if_neg isName]
      simp only [isName,false_and,false_or,takesStore_iff,Bool.and_eq_true,decide_eq_true_eq]
      split
      next store => simp [Verdict.names,store]
      next other => simp [Verdict.names,other]

theorem holds_declarator_iff (isConst : Bool) (definition name : String) (progress : Progress)
    (declarator : Node) :
    (progress.declarator imports isConst definition declarator).Holds name ↔
      SaysOf declarator name ∨ progress.Holds name := by
  rw [← mem_names_verdict_iff imports isConst]
  unfold Progress.declarator Progress.Holds
  cases verdict imports isConst declarator with
  | settled names category =>
    dsimp only
    rw [contains_foldl_add_iff,or_assoc,Verdict.names]
  | «open» own =>
    simp only [Verdict.names,List.mem_append,List.mem_singleton,or_and_right,exists_or,exists_eq_left]
    rw [← or_assoc,or_comm (b := own = name),eq_comm (a := own)]
  | silent => simp [Verdict.names]

def StatesOf (statement : Node) (name : String) : Prop :=
  ((statement.kind = .functionDeclaration ∨ statement.kind = .generatorFunctionDeclaration) ∧
    ∃ written ∈ statement.child? .name, written.name = name) ∨
  (statement.isVariableDeclaration = true ∧
    ∃ declarator ∈ statement.declarators, SaysOf declarator name)

theorem holds_statement_iff (name : String) (progress : Progress) (statement : Node) :
    (progress.statement imports statement).Holds name ↔
      StatesOf statement name ∨ progress.Holds name := by
  unfold Progress.statement StatesOf
  dsimp only
  split
  next isFunction =>
    have kind : statement.kind = .functionDeclaration ∨
        statement.kind = .generatorFunctionDeclaration := by simpa using isFunction
    have other : statement.isVariableDeclaration = false := by
      rcases kind with kind | kind <;> simp [Node.isVariableDeclaration,kind]
    simp only [kind,other,Bool.false_eq_true,true_and,false_and,or_false]
    cases statement.child? .name with
    | none => simp
    | some written =>
      unfold Progress.Holds
      dsimp only
      rw [Collector.contains_add_iff,or_assoc]
      simp
  next noFunction =>
    have kind : ¬(statement.kind = .functionDeclaration ∨
        statement.kind = .generatorFunctionDeclaration) := by simpa using noFunction
    simp only [kind,false_and,false_or]
    split
    next declaration =>
      rw [declaration]
      simpa using holds_foldl_iff _ (Progress.Holds name) (SaysOf · name)
        (holds_declarator_iff imports _ _ name) statement.declarators progress
    next other => simp [other]

theorem filed_of_statesOf {root statement : Node} {bindings : Bindings}
    (member : statement ∈ root.statements) (states : StatesOf statement name) :
    Filed root bindings name := by
  have child := (List.mem_filter.mp member).1
  rcases states with ⟨kind,written⟩ | ⟨declaration,declarator,listed,target,named,told⟩
  · exact .ofFunction ⟨statement,child,by simpa using kind,written⟩
  · obtain ⟨part,form⟩ := List.mem_filter.mp listed
    have declares : DeclaresTarget root declarator target :=
      ⟨⟨statement,child,by simpa [Node.isVariableDeclaration] using declaration,part⟩,
        by simpa using form,named⟩
    rcases told with ⟨kind,same⟩ | ⟨store,bound⟩
    · exact .ofName declares kind same
    · exact .ofStore declares store bound

theorem exists_statesOf_function {root : Node}
    (declares : DeclaresName root [.functionDeclaration,.generatorFunctionDeclaration] name) :
    ∃ statement ∈ root.statements, StatesOf statement name := by
  obtain ⟨statement,member,kind,written⟩ := declares
  have either : statement.kind = .functionDeclaration ∨
      statement.kind = .generatorFunctionDeclaration := by simpa using kind
  refine ⟨statement,List.mem_filter.mpr ⟨member,?_⟩,.inl ⟨either,written⟩⟩
  rcases either with kind | kind <;> simp [kind]

theorem exists_statesOf_target {root declarator target : Node}
    (declares : DeclaresTarget root declarator target)
    (told : (target.kind = .identifier ∧ target.name = name) ∨
      (TakesStore declarator target ∧ name ∈ target.boundNames)) :
    ∃ statement ∈ root.statements, StatesOf statement name := by
  obtain ⟨statement,member,kind,declaration,listed⟩ := declares.exists_declaration
  refine ⟨statement,List.mem_filter.mpr ⟨member,?_⟩,
    .inr ⟨declaration,declarator,listed,target,declares.target,told⟩⟩
  rcases kind with kind | kind <;> simp [kind]

def filedNames (root : Node) (bindings : Bindings) (imports : StoreImports) : Collector :=
  let explicit := root.statements.foldl (Progress.statement imports) ⟨∅,[]⟩
  explicit.pending.foldl
    (fun collector pending =>
      collector.add pending.name
        (categoryOfBinding (bindings.get? pending.name) pending.definition) pending.definition)
    (if anyBareCall Macro.emits root.kind root.children then
      explicit.collector.add implicitEmit .emits implicitEmitDefinition
    else explicit.collector)

theorem classify_eq :
    classify root bindings imports =
      (fileProps root bindings (filedNames root bindings imports)).build :=
  rfl

theorem reached_filedNames : (filedNames root bindings imports).Reached := by
  have explicit := reached_statements imports ⟨∅,[]⟩ root.statements Collector.Reached.empty
  apply Collector.Reached.foldl
  · split
    · exact explicit.add _ _ _
    · exact explicit
  · exact fun _ pending kept => kept.add _ _ _

theorem contains_filedNames_iff (name : String) :
    (filedNames root bindings imports).contains name = true ↔
      (∃ statement ∈ root.statements, StatesOf statement name) ∨
        (anyBareCall Macro.emits root.kind root.children = true ∧ implicitEmit = name) := by
  have explicit := holds_foldl_iff _ (Progress.Holds name) (StatesOf · name)
    (holds_statement_iff imports name) root.statements ⟨∅,[]⟩
  have nothing : ¬Progress.Holds name ⟨∅,[]⟩ := by
    rintro (held | ⟨pending,member,_⟩) <;> contradiction
  rw [or_iff_left nothing] at explicit
  rw [← explicit,Progress.Holds]
  refine (holds_foldl_iff _ (fun collector : Collector => collector.contains name = true)
    (fun pending : Pending => pending.name = name)
    (fun collector pending => collector.contains_add_iff name pending.name _ _) _ _).trans ?_
  split
  next bare =>
    rw [Collector.contains_add_iff]
    simp only [bare,true_and]
    rw [or_left_comm,or_comm (a := implicitEmit = name),or_comm (b := Exists _)]
  next bare =>
    simp only [bare,Bool.false_eq_true,false_and,or_false]
    rw [or_comm]

theorem contains_fileProps_iff (name : String) :
    (fileProps root bindings collector).contains name = true ↔
      (∃ entry ∈ bindings.entries, (entry.2 = .props ∨ entry.2 = .propsAliased) ∧ entry.1 = name) ∨
        collector.contains name = true := by
  refine holds_foldl_iff _ (fun collector : Collector => collector.contains name = true)
    (fun entry : String × BindingKind =>
      (entry.2 = .props ∨ entry.2 = .propsAliased) ∧ entry.1 = name) ?_ bindings.entries collector
  rintro filed ⟨own,kind⟩
  dsimp only
  split
  next prop =>
    rw [Collector.contains_add_iff]
    simp only [Bool.or_eq_true,decide_eq_true_eq] at prop
    simp only [prop,true_and]
  next other =>
    simp only [Bool.or_eq_true,decide_eq_true_eq] at other
    simp only [other,false_and,false_or]

theorem contains_classify_iff (name : String) :
    (classify root bindings imports).contains name = true ↔ Filed root bindings name := by
  have reached := reached_fileProps root bindings _ (reached_filedNames root bindings imports)
  rw [classify_eq,reached.contains_build,contains_fileProps_iff,contains_filedNames_iff]
  constructor
  · rintro (⟨⟨_,kind⟩,bound,prop,rfl⟩ | ⟨statement,member,states⟩ | ⟨bare,named⟩)
    · exact .ofProps bound prop
    · exact filed_of_statesOf member states
    · exact .ofEvents bare named
  · intro filed
    cases filed with
    | ofFunction declares => exact .inr (.inl (exists_statesOf_function declares))
    | ofName declares kind named =>
      exact .inr (.inl (exists_statesOf_target declares (.inl ⟨kind,named⟩)))
    | ofStore declares store bound =>
      exact .inr (.inl (exists_statesOf_target declares (.inr ⟨store,bound⟩)))
    | ofEvents bare named => exact .inr (.inr ⟨bare,named⟩)
    | ofProps bound prop => exact .inl ⟨_,bound,prop,rfl⟩

/-- A pattern that takes one prop under the name, and not the props that are left. -/
def NamesProp (pattern : Node) (name : String) : Prop :=
  pattern.kind = .objectPattern ∧ (∃ element ∈ pattern.namedChildren, TakesProp element name) ∧
    (restNames pattern).getLast? ≠ some name

/-- A name in a pattern that is taken neither from a store nor, by itself, from the props. -/
def PassedOver (root : Node) (name : String) : Prop :=
  ∃ declarator target, DeclaresTarget root declarator target ∧ target.Binds name ∧
    target.kind ≠ .identifier ∧ ¬TakesStore declarator target ∧
    ¬(TakesProps declarator ∧ NamesProp target name)

def destructuredBindings (declared : Declared) : List (String × BindingKind) :=
  declared.destructured.entries.map fun entry =>
    (entry.1,if entry.1 = entry.2 then BindingKind.props else .propsAliased)

theorem contains_destructuredBindings (taken : declared.destructured.contains name = true) :
    (OrderedMap.ofList (destructuredBindings declared)).contains name = true := by
  rw [OrderedMap.contains_iff_mem_keys] at taken
  rw [OrderedMap.contains_ofList_iff,destructuredBindings,List.map_map]
  exact taken

theorem isProp_of_destructuredBindings {kind : BindingKind}
    (found : (OrderedMap.ofList (destructuredBindings declared)).get? name = some kind) :
    kind = .props ∨ kind = .propsAliased := by
  obtain ⟨prop,_,same⟩ := List.mem_map.mp (OrderedMap.mem_of_get?_ofList found)
  cases same
  split
  · exact .inl rfl
  · exact .inr rfl

theorem get?_bindings_of_destructured (taken : declared.destructured.contains name = true)
    (single : declared.rest ≠ some name) :
    ∃ kind, (kind = .props ∨ kind = .propsAliased) ∧
      (OrderedMap.ofList declared.bindings).get? name = some kind := by
  -- what takes the props that are left is written last
  have parts : ∃ front last, declared.bindings = front ++ destructuredBindings declared ++ last ∧
      (OrderedMap.ofList last).get? name = none := by
    refine ⟨_,_,rfl,?_⟩
    split
    next other rest =>
      have apart : other ≠ name := fun same => single (same ▸ rest)
      split
      · rfl
      · simp [OrderedMap.get?_ofList,apart]
    · rfl
  obtain ⟨front,last,bindings,apart⟩ := parts
  obtain ⟨kind,found⟩ := Option.isSome_iff_exists.mp (contains_destructuredBindings taken)
  refine ⟨kind,isProp_of_destructuredBindings found,?_⟩
  rw [bindings,OrderedMap.get?_ofList_append,apart,Option.none_or,OrderedMap.get?_ofList_append,found,
    Option.some_or]

theorem exists_binding_of_namesProp (plain : Option Node) {context : MacroContext}
    {root declarator target : Node} (ran : context.ofScript root = .ok declared)
    (declares : DeclaresTarget root declarator target) (props : TakesProps declarator)
    (named : NamesProp target name) :
    ∃ kind, (name,kind) ∈ (collect plain root declared).entries ∧
      (kind = .props ∨ kind = .propsAliased) := by
  obtain ⟨pattern,⟨element,member,takes⟩,single⟩ := named
  obtain ⟨taken,rest⟩ := MacroContext.declared_of_takesProps ran declares props pattern
  obtain ⟨kind,prop,found⟩ := get?_bindings_of_destructured (taken element member name takes)
    (by rwa [rest])
  refine ⟨kind,OrderedMap.mem_entries_of_get? _ name kind ?_,prop⟩
  rw [get?_collect,written,OrderedMap.get?_ofList_append,found,Option.some_or,Option.some_or]

/-- The names of a setup script that are classified are those that one of the routes takes. A name
that is declared at the top as a variable or a function takes one, unless it is passed over. -/
theorem declared_names_are_classified [Recovery] (component : Descriptor) (setup : Block) (compiled : Compiled)
    (imports : Option StoreImports) (block : component.scriptSetup = some setup)
    (accepted : compile component = .ok compiled) :
    ∃ root, parse? (Dialect.ofLang setup.lang) setup.content = some root ∧
      (∀ name, (analyze setup.content setup.lang compiled.bindings imports).contains name = true ↔
        Filed root compiled.bindings name) ∧
      ∀ name, DeclaresAtTop root name → ¬PassedOver root name →
        (analyze setup.content setup.lang compiled.bindings imports).contains name = true := by
  obtain ⟨plain,root,context,declared,parsed,ran,bindings⟩ := exists_of_compile block accepted
  have routes (name : String) :
      (analyze setup.content setup.lang compiled.bindings imports).contains name = true ↔
        Filed root compiled.bindings name := by
    rw [analyze,tree,parsed]
    exact contains_classify_iff root compiled.bindings _ name
  refine ⟨root,parsed,routes,fun name top taken => (routes name).mpr ?_⟩
  cases top with
  | ofFunction declares => exact .ofFunction declares
  | @ofVariable declarator target declares bound =>
    by_cases isName : target.kind = .identifier
    · exact .ofName declares isName (bound.eq_name isName)
    by_cases store : TakesStore declarator target
    · exact .ofStore declares store (Node.mem_boundNames bound)
    -- no route but that of the props is left for a pattern
    have prop : TakesProps declarator ∧ NamesProp target name := by
      by_contra other
      exact taken ⟨declarator,target,declares,bound,isName,store,other⟩
    obtain ⟨kind,held,isProp⟩ := exists_binding_of_namesProp plain ran declares prop.1 prop.2
    rw [← bindings] at held
    exact .ofProps held isProp

instance : Decidable (TakesStore declarator target) := by
  unfold TakesStore
  infer_instance

instance (pattern : Node) (name : String) : Decidable (NamesProp pattern name) := by
  unfold NamesProp
  infer_instance

theorem taken_apart_names_are_classified :
    let content := ("const \x7b id, label: title = '' \x7d = defineProps(['id','label'])\n" ++
      "const \x7b items: [first] \x7d = storeToRefs(useCart())").toList
    ∃ root compiled, parse? (Dialect.ofLang none) content = some root ∧
      compile (setupOnly none content) = .ok compiled ∧
      ∀ name ∈ ["title","first"], DeclaresAtTop root name ∧
        (analyze content none compiled.bindings none).contains name = true := by
  rw [String.toList_append,String.toList_ofList,String.toList_ofList]
  intro content
  have ran : ((compile (setupOnly none content)).toOption.map fun _ => ()) = some () := by
    decide +kernel
  have shown : ∀ root ∈ parse? (Dialect.ofLang none) content, ∀ name ∈ ["title","first"],
      ShowsVariable root name ∧ ∀ statement ∈ root.namedChildren,
        ∀ declarator ∈ statement.namedChildren, ∀ target ∈ declarator.child? .name,
          name ∈ target.boundNames →
            TakesStore declarator target ∨ (TakesProps declarator ∧ NamesProp target name) := by
    decide +kernel
  obtain ⟨_,compiled,_,accepted,_⟩ := exists_of_setupOnly ran
  obtain ⟨root,parsed,_,classified⟩ := declared_names_are_classified _ _ compiled none rfl accepted
  refine ⟨root,compiled,parsed,accepted,fun name listed => ?_⟩
  obtain ⟨seen,routes⟩ := shown root parsed name listed
  obtain ⟨_,_,declares,bound⟩ := exists_target_of_showsVariable seen
  have top : DeclaresAtTop root name := .ofVariable declares bound
  refine ⟨top,classified name top ?_⟩
  rintro ⟨declarator,target,⟨⟨statement,member,_,part⟩,_,named⟩,inside,_,noStore,noProp⟩
  have either := routes statement member declarator part target named
    (Node.mem_boundNames inside)
  exact either.elim noStore noProp

/-- A name that a call gives in a pattern is in no category, and neither are the props that are
left. -/
theorem name_from_a_call_is_not_classified :
    let mouse := "const \x7b x \x7d = useMouse()".toList
    let others := "const \x7b a, ...others \x7d = defineProps(['a'])".toList
    (∃ root compiled, parse? (Dialect.ofLang none) mouse = some root ∧
      compile (setupOnly none mouse) = .ok compiled ∧ DeclaresAtTop root "x" ∧
      (analyze mouse none compiled.bindings none).contains "x" = false) ∧
    ∃ root compiled, parse? (Dialect.ofLang none) others = some root ∧
      compile (setupOnly none others) = .ok compiled ∧ DeclaresAtTop root "others" ∧
      (analyze others none compiled.bindings none).contains "others" = false := by
  rw [String.toList_ofList,String.toList_ofList]
  intro mouse others
  constructor
  · have ran : ((compile (setupOnly none mouse)).toOption.map fun compiled =>
        (analyze mouse none compiled.bindings none).contains "x") = some false := by decide +kernel
    have shown : ∀ root ∈ parse? (Dialect.ofLang none) mouse, ShowsVariable root "x" := by
      decide +kernel
    obtain ⟨root,compiled,parsed,accepted,absent⟩ := exists_of_setupOnly ran
    obtain ⟨_,_,declares,bound⟩ := exists_target_of_showsVariable (shown root parsed)
    exact ⟨root,compiled,parsed,accepted,.ofVariable declares bound,absent⟩
  · have ran : ((compile (setupOnly none others)).toOption.map fun compiled =>
        (analyze others none compiled.bindings none).contains "others") = some false := by
      decide +kernel
    have shown : ∀ root ∈ parse? (Dialect.ofLang none) others, ShowsVariable root "others" := by
      decide +kernel
    obtain ⟨root,compiled,parsed,accepted,absent⟩ := exists_of_setupOnly ran
    obtain ⟨_,_,declares,bound⟩ := exists_target_of_showsVariable (shown root parsed)
    exact ⟨root,compiled,parsed,accepted,.ofVariable declares bound,absent⟩

end Setup

end VueScope
