import VueScope.Proofs.Setup.Constants
import VueScope.Proofs.Setup.Faults

/-! The bindings of models. A constant that holds a model is a ref and the model itself is a prop, and
where the two have one name it is bound as the prop, since macros are bound after declarations. -/
namespace VueScope.Setup

open Script Component

/-- A declarator of a constant that holds a model. -/
def HoldsModel (statement declarator : Node) (name : String) : Prop :=
  statement.declarationKind? = some .const ∧
  (∃ target ∈ declarator.child? .name, target.kind = .identifier ∧ target.name = name) ∧
  ∃ value ∈ declarator.child? .value, value.calls "defineModel" = true

instance (statement declarator : Node) (name : String) :
    Decidable (HoldsModel statement declarator name) := by
  unfold HoldsModel
  infer_instance

def topDeclarators (root : Node) : List (Node × Node) :=
  (root.namedChildren.filter Node.isVariableDeclaration).flatMap fun statement =>
    statement.declarators.map fun declarator => (statement,declarator)

/-- A name that something else at the top declares too. -/
inductive DeclaredOtherwise (root : Node) (name : String) : Prop
  | ofVariable {place : Node × Node} {target : Node} (member : place ∈ topDeclarators root)
      (named : place.2.child? .name = some target) (bound : name ∈ target.boundNames)
      (other : ¬HoldsModel place.1 place.2 name)
  | ofDeclaration (declares : DeclaresName root namedDeclarations name)

theorem declaredOtherwise_iff (root : Node) (name : String) :
    DeclaredOtherwise root name ↔
      (∃ place ∈ topDeclarators root, ∃ target ∈ place.2.child? .name, name ∈ target.boundNames ∧
        ¬HoldsModel place.1 place.2 name) ∨
      ∃ statement ∈ root.namedChildren, statement.kind ∈ namedDeclarations ∧
        ∃ written ∈ statement.child? .name, written.name = name := by
  constructor
  · intro declared
    cases declared with
    | ofVariable member named bound other => exact .inl ⟨_,member,_,named,bound,other⟩
    | ofDeclaration declares => exact .inr declares
  · rintro (⟨place,member,target,named,bound,other⟩ | declares)
    · exact .ofVariable member named bound other
    · exact .ofDeclaration declares

instance (root : Node) (name : String) : Decidable (DeclaredOtherwise root name) :=
  decidable_of_iff _ (declaredOtherwise_iff root name).symm

/-- What a place declares by a macro: a prop, a model, or a name that the props are taken apart
into. -/
inductive Site.Declares (types : TypeDeclarations) : Site → String → Prop
  | prop {value call : Node} {target : Option Node} {name : String}
      (declares : propsCall? value = some call)
      (key : name ∈ MacroContext.propKeys ⟨types,0⟩ call) : Declares types (evaluated value target) name
  | model {value : Node} {target : Option Node} {name : String} (declares : model? value = some name) :
      Declares types (evaluated value target) name
  | taken {value call pattern : Node} {name : String} (declares : propsCall? value = some call)
      (listed : ListsProp pattern name) : Declares types (evaluated value (some pattern)) name

theorem Site.declares_evaluated_iff (types : TypeDeclarations) (value : Node) (target : Option Node)
    (name : String) :
    (evaluated value target).Declares types name ↔
      (∃ call ∈ propsCall? value, name ∈ MacroContext.propKeys ⟨types,0⟩ call ∨
        ∃ pattern ∈ target, ListsProp pattern name) ∨ model? value = some name := by
  constructor
  · intro declares
    cases declares with
    | prop declares key => exact .inl ⟨_,declares,.inl key⟩
    | model declares => exact .inr declares
    | taken declares listed => exact .inl ⟨_,declares,.inr ⟨_,rfl,listed⟩⟩
  · rintro (⟨call,declares,key | ⟨pattern,given,listed⟩⟩ | declares)
    · exact .prop declares key
    · rw [Option.mem_def.mp given]
      exact .taken declares listed
    · exact .model declares

instance (types : TypeDeclarations) (site : Site) (name : String) :
    Decidable (site.Declares types name) :=
  match site with
  | .exported _ => isFalse nofun
  | .evaluated value target => decidable_of_iff _ (Site.declares_evaluated_iff types value target name).symm

def Site.TakesRest (name : String) : Site → Prop
  | exported _ => False
  | evaluated value target => (propsCall? value).isSome = true ∧
    ∃ pattern ∈ target, pattern.kind = .objectPattern ∧ (restNames pattern).getLast? = some name

instance (name : String) (site : Site) : Decidable (site.TakesRest name) := by
  cases site <;> unfold Site.TakesRest <;> infer_instance

variable {name : String}

theorem Site.TakesRest.declares {site : Site} (rest : site.TakesRest name)
    (types : TypeDeclarations) : site.Declares types name := by
  cases site with
  | exported => exact rest.elim
  | evaluated value target =>
    obtain ⟨props,pattern,given,kind,last⟩ := rest
    obtain ⟨call,declares⟩ := Option.isSome_iff_exists.mp props
    rw [Option.mem_def.mp given]
    exact .taken declares ⟨kind,.inr last⟩

/-- All that is declared was declared at some place. -/
structure Sourced (types : TypeDeclarations) (before : List Site) (declared : Declared) : Prop where
  keys : ∀ name ∈ declared.propKeys, ∃ site ∈ before, site.Declares types name
  models : ∀ name ∈ declared.models, ∃ site ∈ before, site.Declares types name
  destructured : ∀ name, declared.destructured.contains name = true →
    ∃ site ∈ before, site.Declares types name
  rest : ∀ name, declared.rest = some name → ∃ site ∈ before, site.TakesRest name

namespace Sourced

variable {types : TypeDeclarations} {before : List Site} {site : Site} {declared after : Declared}

theorem nothing (types : TypeDeclarations) : Sourced types [] Declared.nothing := by
  constructor
  · exact fun name member => absurd member List.not_mem_nil
  · exact fun name member => absurd member List.not_mem_nil
  · exact fun name held => absurd held Bool.false_ne_true
  · exact fun name held => absurd held (Option.some_ne_none name).symm

theorem snoc (sourced : Sourced types before declared)
    (keys : ∀ name ∈ after.propKeys, name ∈ declared.propKeys ∨ site.Declares types name)
    (models : ∀ name ∈ after.models, name ∈ declared.models ∨ site.Declares types name)
    (destructured : ∀ name, after.destructured.contains name = true →
      declared.destructured.contains name = true ∨ site.Declares types name)
    (rest : ∀ name, after.rest = some name → declared.rest = some name ∨ site.TakesRest name) :
    Sourced types (before ++ [site]) after := by
  have joined {holds : Site → Prop} {earlier : Prop} (shown : earlier → ∃ site ∈ before, holds site)
      (found : earlier ∨ holds site) : ∃ other ∈ before ++ [site], holds other := by
    rcases found with found | held
    · obtain ⟨other,member,held⟩ := shown found
      exact ⟨other,List.mem_append_left _ member,held⟩
    · exact ⟨site,by simp,held⟩
  exact ⟨fun name member => joined (sourced.keys name) (keys name member),
    fun name member => joined (sourced.models name) (models name member),
    fun name held => joined (sourced.destructured name) (destructured name held),
    fun name held => joined (sourced.rest name) (rest name held)⟩

theorem keep (sourced : Sourced types before declared) (keys : after.propKeys = declared.propKeys)
    (models : after.models = declared.models)
    (destructured : after.destructured = declared.destructured) (rest : after.rest = declared.rest) :
    Sourced types (before ++ [site]) after :=
  sourced.snoc (fun _ member => .inl (keys ▸ member)) (fun _ member => .inl (models ▸ member))
    (fun _ held => .inl (destructured ▸ held)) (fun _ held => .inl (rest ▸ held))

end Sourced

namespace Declared

theorem takesProp_of_contains {declared : Declared} {element : Node}
    (held : (declared.takeApart element).destructured.contains name = true) :
    declared.destructured.contains name = true ∨ TakesProp element name := by
  unfold takeApart at held
  split at held
  · exact .inl held
  · split at held
    next localName key entry =>
      rw [OrderedMap.contains,OrderedMap.get?_insert] at held
      split at held
      next same =>
        rw [same]
        exact .inr <| takesProp_of_entry? element localName key entry
      next => exact .inl held
    next => exact .inl held

theorem exists_of_contains_destructure (declared : Declared) {pattern : Node}
    (held : (declared.destructure pattern).destructured.contains name = true) :
    declared.destructured.contains name = true ∨
      ∃ element ∈ pattern.namedChildren, TakesProp element name := by
  rw [destructure_eq] at held
  generalize pattern.namedChildren = elements at held ⊢
  induction elements generalizing declared with
  | nil => exact .inl held
  | cons element rest ih =>
    rcases ih _ held with earlier | ⟨later,member,takes⟩
    · rcases takesProp_of_contains earlier with before | takes
      · exact .inl before
      · exact .inr ⟨element,List.mem_cons_self,takes⟩
    · exact .inr ⟨later,List.mem_cons_of_mem _ member,takes⟩

theorem keys_destructure (declared : Declared) (pattern : Node) :
    (declared.destructure pattern).propKeys = declared.propKeys := by
  rw [destructure_eq]
  induction pattern.namedChildren generalizing declared with
  | nil => rfl
  | cons element rest ih =>
    rw [List.foldl_cons,ih]
    unfold takeApart
    split
    · rfl
    · split <;> rfl

end Declared

namespace Sourced

variable {context : MacroContext} {before : List Site} {site : Site} {declared after : Declared}

theorem declareProps (sourced : Sourced context.types before declared) {value call : Node}
    {target : Option Node} (declares : propsCall? value = some call)
    (accepted : context.declareProps declared call target = .ok after) :
    Sourced context.types (before ++ [.evaluated value target]) after := by
  obtain ⟨_,rfl⟩ := MacroContext.declareProps_eq_ok accepted
  have keys (name : String) (member : name ∈ declared.propKeys ++ context.propKeys call) :
      name ∈ declared.propKeys ∨ (Site.evaluated value target).Declares context.types name :=
    (List.mem_append.mp member).imp_right (.prop declares)
  unfold Declared.taken
  split
  next pattern =>
    split
    next kind =>
      refine sourced.snoc ?_ ?_ ?_ ?_
      · rw [Declared.keys_destructure]
        exact keys
      · rw [(MacroContext.flags_destructure _ pattern).2]
        exact fun name member => .inl member
      · intro name held
        refine (Declared.exists_of_contains_destructure _ held).imp_right ?_
        exact fun takes => .taken declares ⟨kind,.inl takes⟩
      · intro name held
        rw [Declared.rest_destructure,Option.or_eq_some_iff] at held
        rcases held with last | ⟨_,earlier⟩
        · exact .inr ⟨by rw [declares]; rfl,pattern,rfl,kind,last⟩
        · exact .inl earlier
    next =>
      exact sourced.snoc keys (fun _ member => .inl member) (fun _ held => .inl held)
        (fun _ held => .inl held)
  next =>
    exact sourced.snoc keys (fun _ member => .inl member) (fun _ held => .inl held)
      (fun _ held => .inl held)

theorem atSite (sourced : Sourced context.types before declared)
    (accepted : context.atSite declared site = .ok after) :
    Sourced context.types (before ++ [site]) after := by
  cases site with
  | exported statement =>
    rw [MacroContext.atSite] at accepted
    split at accepted
    · cases accepted
      exact sourced.keep rfl rfl rfl rfl
    · contradiction
  | evaluated value target =>
    rw [MacroContext.atSite] at accepted
    rcases apply_cases context declared value target with ⟨effect,ran⟩ | ⟨call,effect,ran⟩ |
      ⟨effect,ran⟩ | ⟨name,effect,ran⟩ | ⟨effect,ran⟩
    · rw [ran] at accepted
      contradiction
    · rw [ran] at accepted
      exact sourced.declareProps effect.props accepted
    · rw [ran] at accepted
      split at accepted
      · contradiction
      · cases accepted
        exact sourced.keep rfl rfl rfl rfl
    · rw [ran] at accepted
      split at accepted
      · contradiction
      · cases accepted
        refine sourced.snoc (fun _ member => .inl member) ?_ (fun _ held => .inl held)
          (fun _ held => .inl held)
        intro other member
        refine (List.mem_append.mp member).imp_right fun last => ?_
        rw [List.mem_singleton.mp last]
        exact .model effect.model
    · rw [ran] at accepted
      cases accepted
      exact sourced.keep rfl rfl rfl rfl

theorem mem_bindings {types : TypeDeclarations} (sourced : Sourced types before declared)
    (bound : name ∈ declared.bindings.map Prod.fst) : ∃ site ∈ before, site.Declares types name := by
  unfold Declared.bindings at bound
  simp only [List.map_append,List.mem_append,List.map_map,Function.comp_def,List.map_id'] at bound
  rcases bound with ((key | model) | destructured) | rest
  · exact sourced.keys name key
  · exact sourced.models name model
  · exact sourced.destructured name ((OrderedMap.contains_iff_mem_keys _ name).mpr destructured)
  · cases last : declared.rest with
    | none => simp [last] at rest
    | some other =>
      obtain ⟨site,member,takes⟩ := sourced.rest other last
      have same : name = other := by
        rw [last] at rest
        dsimp only at rest
        split at rest
        · contradiction
        · simpa using rest
      rw [same]
      exact ⟨site,member,takes.declares types⟩

end Sourced

theorem get?_bindings_of_model (declared : Declared) (name : String) (model : name ∈ declared.models)
    (noAlias : ∀ key, (name,key) ∈ declared.destructured.entries → key = name)
    (noRest : declared.rest ≠ some name) :
    (OrderedMap.ofList declared.bindings).get? name = some .props := by
  apply OrderedMap.get?_ofList_of_agree
  · unfold Declared.bindings
    simp [model]
  · intro entry member named
    unfold Declared.bindings at member
    simp only [List.mem_append,List.mem_map] at member
    rcases member with ((⟨key,_,rfl⟩ | ⟨model,_,rfl⟩) | ⟨⟨localName,key⟩,taken,rfl⟩) | rest
    · rfl
    · rfl
    · obtain rfl : localName = name := named
      rw [noAlias key taken]
      exact if_pos rfl
    · cases last : declared.rest with
      | none => simp [last] at rest
      | some other =>
        rw [last] at rest noRest
        dsimp only at rest
        split at rest
        · contradiction
        · rw [List.mem_singleton.mp rest] at named
          exact absurd (congrArg some named) noRest

theorem constBinding_of_model {producers : Producers} {value : Node}
    (calls : value.calls "defineModel" = true) (listed : "defineModel" ∈ producers.refs)
    (other : producers.reactive ≠ some "defineModel") :
    constBinding producers value.unwrapped = .setupRef := by
  have callee : value.unwrapped.callee? = some "defineModel" := by
    simpa [Node.calls,Node.callee?,Node.unwrapped_unwrapped] using calls
  have noReactive : producers.makesReactive value.unwrapped = false := by
    cases named : producers.reactive with
    | none => simp [Producers.makesReactive,named]
    | some localName =>
      rw [named] at other
      simpa [Producers.makesReactive,named,Node.calls,callee,eq_comm] using other
  rw [constBinding_of_call producers (Node.kind_unwrapped_of_callee? (of_decide_eq_true calls)),noReactive]
  simp [Node.callsAny,callee,listed,constantMacros,Macro.props,Macro.emits,Macro.defaults,Macro.slots]

theorem mem_topDeclarators_iff (root statement declarator : Node) :
    (statement,declarator) ∈ topDeclarators root ↔
      statement ∈ root.namedChildren ∧ statement.isVariableDeclaration = true ∧
        declarator ∈ statement.declarators := by
  simp [topDeclarators,and_assoc]

theorem declaresName_of_declaresConstant {root statement written : Node}
    (member : statement ∈ root.namedChildren) (constant : declaresConstant statement.kind = true)
    (named : statement.child? .name = some written) :
    DeclaresName root namedDeclarations written.name := by
  refine ⟨statement,member,?_,written,named,rfl⟩
  cases kind : statement.kind <;> simp [kind,declaresConstant,namedDeclarations] at constant ⊢

theorem setupBindings_of_model (producers : Producers) (root : Node) (name : String)
    (listed : "defineModel" ∈ producers.refs) (noReactive : producers.reactive ≠ some "defineModel")
    (single : ¬DeclaredOtherwise root name) (entry : String × BindingKind)
    (member : entry ∈ setupBindings producers root) (named : entry.1 = name) :
    entry.2 = .setupRef := by
  obtain ⟨bindings,inside,member⟩ := List.mem_flatten.mp member
  obtain ⟨statement,top,rfl⟩ := List.mem_map.mp inside
  simp only [declarationBindings,jointBindings_eq] at member
  split at member
  next constant =>
    obtain ⟨written,name,rfl⟩ := Option.map_eq_some_iff.mp (Option.mem_toList.mp member)
    subst named
    exact absurd (.ofDeclaration (declaresName_of_declaresConstant top constant name)) single
  next =>
    split at member
    next declaration =>
      obtain ⟨bindings,inside,member⟩ := List.mem_flatten.mp member
      obtain ⟨declarator,part,rfl⟩ := List.mem_map.mp inside
      have place := (mem_topDeclarators_iff root statement declarator).mpr ⟨top,declaration,part⟩
      unfold declaratorBindings at member
      dsimp only at member
      split at member
      next => contradiction
      next target found =>
        have holds (bound : name ∈ target.boundNames) : HoldsModel statement declarator name := by
          by_contra other
          exact single (.ofVariable place found bound other)
        split at member
        next isName =>
          rw [List.mem_singleton.mp member] at named ⊢
          have bound := Node.mem_boundNames (.name (.inl isName))
          obtain ⟨constant,_,value,given,calls⟩ := holds (named ▸ bound)
          simp only [constant,Option.mem_def.mp given,nameBinding,decide_true,if_true,Option.map_some]
          exact constBinding_of_model calls listed noReactive
        next pattern =>
          split at member
          next => contradiction
          next =>
            obtain ⟨own,bound,rfl⟩ := List.mem_map.mp member
            obtain ⟨_,⟨other,found',isName,_⟩,_⟩ := holds (named ▸ bound)
            rw [Option.mem_def.mp found',Option.some.injEq] at found
            exact absurd (found ▸ isName) pattern
    next => contradiction

theorem mem_setupBindings_of_model (producers : Producers) {root statement declarator : Node}
    (place : (statement,declarator) ∈ topDeclarators root)
    (holds : HoldsModel statement declarator name) :
    name ∈ (setupBindings producers root).map Prod.fst := by
  obtain ⟨member,declaration,part⟩ := (mem_topDeclarators_iff root statement declarator).mp place
  obtain ⟨_,⟨target,found,isName,rfl⟩,_⟩ := holds
  obtain ⟨inside,kind⟩ := List.mem_filter.mp part
  have declares : DeclaresTarget root declarator target :=
    ⟨⟨statement,member,by simpa [Node.isVariableDeclaration] using declaration,inside⟩,
      by simpa using kind,found⟩
  exact mem_setupBindings_of_target declares (.name (.inl isName)) (.inl isName)

theorem exists_scripts_of_compile {component : Descriptor} {setup : Block} {compiled : Compiled}
    (block : component.scriptSetup = some setup) (accepted : compile component = .ok compiled) :
    ∃ plain root declared, component.script.mapM (parseBlock .plain setup.lang) = .ok plain ∧
      parse? (Dialect.ofLang setup.lang) setup.content = some root ∧
      MacroContext.ofScript ⟨TypeDeclarations.ofScripts (plain.toList ++ [root]),setup.start⟩ root =
        .ok declared ∧
      compiled.bindings = collect plain root declared ∧
      compiled.aliases =
        ⟨declared.destructured.entries.filter fun entry => entry.1 ≠ entry.2⟩ := by
  obtain ⟨_,_,same⟩ := compile_eq_compileSetup block (accompanies_of_compile block accepted)
  rw [same] at accepted
  obtain ⟨plain,root,declared,plainRead,read,ran,rfl⟩ := (compileSetup_eq_ok_iff _ _ _).mp accepted
  exact ⟨plain,root,declared,plainRead,(parseBlock_eq_ok_iff _ _ _ _).mp read,ran,rfl,rfl⟩

/-- The constant of a model is bound as a ref, unless its name is declared otherwise or by a macro as
well. The model is bound as a prop, whatever holds it, unless the props are taken apart into its name. -/
theorem models_are_refs_and_props (component : Descriptor) (setup : Block) (compiled : Compiled)
    (block : component.scriptSetup = some setup) (accepted : compile component = .ok compiled) :
    ∃ plain root, component.script.mapM (parseBlock .plain setup.lang) = .ok plain ∧
      parse? (Dialect.ofLang setup.lang) setup.content = some root ∧
      (∀ place ∈ topDeclarators root, ∀ name, HoldsModel place.1 place.2 name →
        ¬DeclaredOtherwise root name →
        (∀ site ∈ Site.ofScript root,
          ¬site.Declares (TypeDeclarations.ofScripts (plain.toList ++ [root])) name) →
        (Imports.frameworkNames (plain.toList ++ [root])).get? "reactive" ≠ some "defineModel" →
          compiled.bindings.get? name = some .setupRef) ∧
      ∀ value ∈ values (Site.ofScript root), ∀ model ∈ model? value,
        compiled.aliases.contains model = false →
        (∀ site ∈ Site.ofScript root, ¬site.TakesRest model) →
          compiled.bindings.get? model = some .props := by
  obtain ⟨plain,root,declared,plainRead,parsed,ran,bindings,aliases⟩ :=
    exists_scripts_of_compile block accepted
  have sourced := MacroContext.ofScript_induction (Sourced.nothing _)
    (fun _ _ _ _ sourced accepted => sourced.atSite accepted) ran
  have reflects := MacroContext.ofScript_induction Reflects.nothing
    (fun _ _ _ _ reflects accepted => reflects.atSite accepted) ran
  refine ⟨plain,root,plainRead,parsed,?_,?_⟩
  · intro place member name holds single noMacro noReactive
    have unmentioned : (OrderedMap.ofList declared.bindings).get? name = none := by
      rw [← Option.not_isSome_iff_eq_none,← OrderedMap.contains,OrderedMap.contains_ofList_iff]
      intro bound
      obtain ⟨site,place,declares⟩ := sourced.mem_bindings bound
      exact noMacro site place declares
    have bound : (OrderedMap.ofList (setupBindings
        (Producers.ofScripts (plain.toList ++ [root])) root)).get? name = some .setupRef := by
      apply OrderedMap.get?_ofList_of_agree
      · exact mem_setupBindings_of_model _ member holds
      · exact setupBindings_of_model _ root name (by simp [Producers.ofScripts,Macro.model]) noReactive single
    simp [bindings,get?_collect,written,OrderedMap.get?_ofList_append,unmentioned,bound]
  · intro value member model declares noAlias noRest
    have prop : (OrderedMap.ofList declared.bindings).get? model = some .props := by
      apply get?_bindings_of_model
      · exact (reflects.models model).mpr ⟨value,member,declares⟩
      · intro key taken
        by_contra other
        have held : compiled.aliases.contains model = true := by
          rw [aliases,OrderedMap.contains_iff_mem_keys]
          refine List.mem_map.mpr ⟨(model,key),List.mem_filter.mpr ⟨taken,?_⟩,rfl⟩
          simpa using Ne.symm other
        rw [noAlias] at held
        contradiction
      · intro rest
        obtain ⟨site,place,takes⟩ := sourced.rest model rest
        exact noRest site place takes
    simp [bindings,get?_collect,written,OrderedMap.get?_ofList_append,prop]

/-- Two models of a typed script, one of them behind wrappers, beside props that are taken apart. -/
theorem wrapped_models_are_refs :
    let content := ("const \x7b title: heading, ...others \x7d = defineProps<\x7b title: string \x7d>()\n" ++
      "const text = defineModel<string>(), total = (defineModel('count') as any)!").toList
    ∃ compiled, compile (setupOnly (some "ts") content) = .ok compiled ∧
      compiled.bindings.get? "text" = some .setupRef ∧ compiled.bindings.get? "total" = some .setupRef ∧
      compiled.bindings.get? "modelValue" = some .props ∧ compiled.bindings.get? "count" = some .props := by
  rw [String.toList_append,String.toList_ofList,String.toList_ofList]
  intro content
  have ran : ((compile (setupOnly (some "ts") content)).toOption.map fun compiled => compiled.aliases.keys) =
      some ["heading"] := by
    decide +kernel
  have shown : ∀ root ∈ parse? (Dialect.ofLang (some "ts")) content,
      (∀ name ∈ ["text","total"], (∃ place ∈ topDeclarators root, HoldsModel place.1 place.2 name) ∧
        ¬DeclaredOtherwise root name ∧
        ∀ site ∈ Site.ofScript root, ¬site.Declares (TypeDeclarations.ofScripts [root]) name) ∧
      (Imports.frameworkNames [root]).get? "reactive" ≠ some "defineModel" ∧
      ∀ model ∈ ["modelValue","count"],
        (∃ value ∈ values (Site.ofScript root), model? value = some model) ∧
        ∀ site ∈ Site.ofScript root, ¬site.TakesRest model := by
    decide +kernel
  clear_value content
  obtain ⟨_,compiled,_,accepted,aliases⟩ := exists_of_setupOnly ran
  obtain ⟨plain,root,plainRead,parsed,refs,props⟩ :=
    models_are_refs_and_props _ _ compiled rfl accepted
  cases plainRead
  obtain ⟨constants,noReactive,models⟩ := shown root parsed
  have ref (name : String) (listed : name ∈ ["text","total"]) :
      compiled.bindings.get? name = some .setupRef := by
    obtain ⟨⟨place,member,holds⟩,single,noMacro⟩ := constants name listed
    exact refs place member name holds single noMacro noReactive
  have prop (model : String) (listed : model ∈ ["modelValue","count"]) :
      compiled.bindings.get? model = some .props := by
    obtain ⟨⟨value,member,declares⟩,noRest⟩ := models model listed
    refine props value member model declares ?_ noRest
    rw [Bool.eq_false_iff,ne_eq,OrderedMap.contains_iff_mem_keys,aliases]
    rcases List.mem_pair.mp listed with rfl | rfl <;> decide
  exact ⟨compiled,accepted,ref "text" (by simp),ref "total" (by simp),prop "modelValue" (by simp),
    prop "count" (by simp)⟩

/-- A constant that has the name of its model, or that of a prop, is bound as a prop. -/
theorem model_under_its_own_name_is_a_prop :
    let own := "const modelValue = defineModel()".toList
    let beside := "defineProps(['open'])\nconst open = defineModel('shown')".toList
    ∀ input ∈ [(own,"modelValue"),(beside,"open")],
      ∃ root compiled, parse? (Dialect.ofLang none) input.1 = some root ∧
        compile (setupOnly none input.1) = .ok compiled ∧
        (∃ place ∈ topDeclarators root, HoldsModel place.1 place.2 input.2) ∧
        compiled.bindings.get? input.2 = some .props := by
  rw [String.toList_ofList,String.toList_ofList]
  intro own beside input listed
  have ran : ∀ input ∈ [(own,"modelValue"),(beside,"open")],
      ((compile (setupOnly none input.1)).toOption.map fun compiled =>
        compiled.bindings.get? input.2) = some (some .props) := by
    decide +kernel
  have held : ∀ input ∈ [(own,"modelValue"),(beside,"open")],
      ∀ root ∈ parse? (Dialect.ofLang none) input.1,
        ∃ place ∈ topDeclarators root, HoldsModel place.1 place.2 input.2 := by
    decide +kernel
  obtain ⟨root,compiled,parsed,accepted,bound⟩ := exists_of_setupOnly (ran input listed)
  exact ⟨root,compiled,parsed,accepted,held input listed root parsed,bound⟩

end VueScope.Setup
