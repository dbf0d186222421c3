import VueScope.Proofs.Setup.StepOrder

/-! Where the names among the props come from. A name is bound as a prop, or it is bound as a reactive
object and the statement of its variable mentions the macro that declares the props. -/
namespace VueScope.Setup

open Script

/-- The statement of a declaration has the name of the macro somewhere in its text. -/
def Declaring.MentionsProps (place : Declaring) : Prop :=
  "defineProps".toList <:+: place.statement.text

theorem isSome_find?_definition (place : Declaring) :
    (Text.find? Macro.props.toList place.definition.toList).isSome = true ↔ place.MentionsProps := by
  unfold Text.find? Declaring.definition Declaring.MentionsProps
  rw [Option.isSome_map,Text.isSome_breakOn?_iff,String.toList_ofList]
  have solid : Macro.props.toList.all (fun c => !Text.isSpace c) = true := by decide
  exact Text.infix_trim_iff _ _ (by decide) fun c member =>
    (Bool.not_eq_true' _).mp (List.all_eq_true.mp solid c member)

theorem categoryOfBinding_eq_props_iff (kind : Option BindingKind) (place : Declaring) :
    categoryOfBinding kind place.definition = .props ↔
      kind = some .props ∨ kind = some .propsAliased ∨
        (kind = some .setupReactiveConst ∧ place.MentionsProps) := by
  rw [← isSome_find?_definition]
  rcases kind with _ | kind
  · simp [categoryOfBinding]
  · cases kind <;> simp [categoryOfBinding,Option.isSome_iff_ne_none]

theorem category_ne_props (imports : StoreImports) (name : String) :
    imports.category name ≠ .props := by
  unfold StoreImports.category
  split
  · simp
  · split <;> simp

theorem not_plainly_props (imports : StoreImports) (place : Declaring) (name : String) :
    ¬Plainly imports place name .props := by
  intro told
  generalize given : Category.props = category at told
  cases told with
  | ofFunction => contradiction
  | ofCall _ _ _ _ tells =>
    cases tells with
    | hook => exact category_ne_props _ _ given.symm
    | _ => contradiction
  | ofStore => exact category_ne_props _ _ given.symm
  | ofClosure => contradiction

theorem earliest_or_none {α : Type} (holds : α → Prop) (items : List α) :
    (∃ item, Earliest holds items item) ∨ ∀ item ∈ items, ¬holds item := by
  classical
  cases found : items.find? fun item => decide (holds item) with
  | none => exact .inr fun item member => by simpa using List.find?_eq_none.mp found item member
  | some item =>
    exact .inl ⟨item,(find?_eq_some_iff_earliest item fun _ _ => decide_eq_true_iff).mp found⟩

/-- A name is among the props just when no declaration claims it plainly, it does not stand for the
events, and it is bound as a prop or as a reactive object whose first variable is declared in a
statement that mentions `defineProps`. -/
theorem props_bound_or_mentioned [Recovery] (content : List Char) (lang : Option String)
    (entries : List (String × BindingKind)) (imports : Option StoreImports) (name : String) :
    let root := tree (Dialect.ofLang lang) content
    let bindings := OrderedMap.ofList entries
    ((analyze content lang bindings imports).get .props).contains name = true ↔
      (∀ place ∈ Declaring.ofScript root, ∀ category,
        ¬Plainly (imports.getD (StoreImports.ofScript root)) place name category) ∧
      ¬(name = "emit" ∧ CallsBare root "defineEmits") ∧
      (bindings.get? name = some .props ∨ bindings.get? name = some .propsAliased ∨
        (bindings.get? name = some .setupReactiveConst ∧
          ∃ place, Earliest (Declaring.Names name) (Declaring.ofScript root) place ∧
            place.MentionsProps)) := by
  intro root bindings
  rw [analyze,contains_get_classify,categoryOf?_classify_eq_some_iff _ _ _ name .props
    (OrderedMap.nodup_keys_ofList entries)]
  constructor
  · intro rule
    generalize given : Category.props = category at rule
    cases rule with
    | plain first told => exact absurd (given ▸ told) (not_plainly_props _ _ name)
    | events => contradiction
    | @binding place silent noEvents first =>
      refine ⟨silent,noEvents,?_⟩
      rcases (categoryOfBinding_eq_props_iff _ place).mp given.symm with prop | aliased | reactive
      · exact .inl prop
      · exact .inr (.inl aliased)
      · exact .inr (.inr ⟨reactive.1,place,first,reactive.2⟩)
    | props silent noEvents noVariable prop =>
      exact ⟨silent,noEvents,prop.imp_right .inl⟩
  · intro given
    obtain ⟨silent,noEvents,bound⟩ := given
    have byBinding {place : Declaring}
        (first : Earliest (Declaring.Names name) (Declaring.ofScript root) place)
        (prop : categoryOfBinding (bindings.get? name) place.definition = .props) :
        ByRule root bindings (imports.getD (StoreImports.ofScript root)) name .props :=
      prop ▸ .binding silent noEvents first
    rcases or_assoc.mpr bound with prop | ⟨reactive,place,first,mentions⟩
    · rcases earliest_or_none (Declaring.Names name) (Declaring.ofScript root) with
        ⟨place,first⟩ | noVariable
      · exact byBinding first
          ((categoryOfBinding_eq_props_iff _ place).mpr (or_assoc.mp (.inl prop)))
      · exact .props silent noEvents noVariable prop
    · exact byBinding first
        ((categoryOfBinding_eq_props_iff _ place).mpr (.inr (.inr ⟨reactive,mentions⟩)))

/-- A reactive object is filed under the props when its statement mentions `defineProps` at all: in
a string, or as the value of another variable. -/
theorem reactive_object_among_props :
    let imported := "import \x7b reactive \x7d from 'vue'\n"
    let hinted := (imported ++ "const state = reactive(\x7b hint: 'defineProps' \x7d)").toList
    let beside := (imported ++ "const state = reactive(\x7b\x7d), props = defineProps(['a'])").toList
    ∀ content ∈ [hinted,beside], ∃ root compiled, parse? (Dialect.ofLang none) content = some root ∧
      compile (setupOnly none content) = .ok compiled ∧
      compiled.bindings.get? "state" = some .setupReactiveConst ∧
      ((analyze content none compiled.bindings none).get .props).contains "state" = true ∧
      ∀ declarator target, DeclaresTarget root declarator target → target.Binds "state" →
        ¬TakesProps declarator := by
  intro imported hinted beside content listed
  have ran : ∀ content ∈ [hinted,beside],
      ((compile (setupOnly none content)).toOption.map fun compiled =>
        (compiled.bindings.get? "state",
          ((analyze content none compiled.bindings none).get .props).contains "state")) =
        some (some .setupReactiveConst,true) := by
    simp only [hinted,beside,imported,String.toList_append]
    repeat rw [String.toList_ofList]
    decide +kernel
  have others : ∀ content ∈ [hinted,beside], ∀ root ∈ parse? (Dialect.ofLang none) content,
      ∀ statement ∈ root.namedChildren, ∀ declarator ∈ statement.namedChildren,
        ∀ target ∈ declarator.child? .name, "state" ∈ target.boundNames →
          ¬TakesProps declarator := by
    simp only [hinted,beside,imported,String.toList_append]
    repeat rw [String.toList_ofList]
    decide +kernel
  obtain ⟨root,compiled,parsed,accepted,seen⟩ := exists_of_setupOnly (ran content listed)
  obtain ⟨bound,filed⟩ := Prod.mk.inj seen
  refine ⟨root,compiled,parsed,accepted,bound,filed,?_⟩
  intro declarator target declares binds
  obtain ⟨statement,member,_,part⟩ := declares.declared
  exact others content listed root parsed statement member declarator part target declares.target
    (Node.mem_boundNames binds)

end VueScope.Setup
