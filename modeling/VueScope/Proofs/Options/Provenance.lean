import VueScope.Proofs.Identifiers.CategoryOf

/-! Where the categories of an options object come from. Names are first filed by the option that binds
them. Those that `setup` binds are then filed anew, and the entries of `computed` and `methods` take over
what is local state or not filed yet. Each pass is said by what it makes of the category of one name. -/
namespace VueScope.Script.Node

/-- An object literal into which the result of a call is spread. -/
def Spreads (object call : Node) : Prop :=
  ∃ member ∈ object.namedChildren, member.kind = .spreadElement ∧
    ∃ inner ∈ member.namedChildren.head?, inner.unwrapped = call ∧ call.kind = .callExpression

def PassesArray (call array : Node) : Prop :=
  ∃ before passed after, call.callArguments = before ++ passed :: after ∧
    (∀ earlier ∈ before, earlier.unwrapped.kind ≠ .array) ∧
    passed.unwrapped = array ∧ array.kind = .array

def Lists (call : Node) (name : String) : Prop :=
  ∃ array, call.PassesArray array ∧ ∃ element ∈ array.namedChildren, element.stringValue? = some name

end VueScope.Script.Node

namespace VueScope.Options

open Script

/-- The object literal that is given as the first option of a name. -/
def IsSection (component : Node) (key : String) (object : Node) : Prop :=
  ∃ member ∈ option? component key, value? member = some object ∧ object.kind = .object

/-- A call that is spread into the object literal of an option, and lists a name. -/
def SpreadBy (component : Node) (key : String) (call : Node) (name : String) : Prop :=
  ∃ object, IsSection component key object ∧ object.Spreads call ∧ call.Lists name

inductive Brand (imports : StoreImports) : Option String → Category → Prop
  | pinia {callee : String} (imported : callee ∈ imports.pinia) : Brand imports (some callee) .pinia
  | vuex {callee : String} (other : callee ∉ imports.pinia) (imported : callee ∈ imports.vuex) :
      Brand imports (some callee) .vuex
  | unknown {callee : String} (noPinia : callee ∉ imports.pinia) (noVuex : callee ∉ imports.vuex) :
      Brand imports (some callee) .store
  | unnamed : Brand imports none .store

theorem Brand.mem {imports : StoreImports} {callee : Option String} {category : Category}
    (brand : Brand imports callee category) : category ∈ [Category.pinia,.vuex,.store] := by
  cases brand <;> decide

theorem brand_spreadCategory (imports : StoreImports) (call : Node) :
    Brand imports call.callee? (spreadCategory imports .computed call) := by
  unfold spreadCategory
  rw [if_pos rfl]
  cases call.callee? with
  | none => exact .unnamed
  | some callee =>
    dsimp only
    unfold StoreImports.category
    split
    next imported => exact .pinia (by simpa using imported)
    next other =>
      have noPinia : callee ∉ imports.pinia := by simpa using other
      split
      next imported => exact .vuex noPinia (by simpa using imported)
      next noVuex => exact .unknown noPinia (by simpa using noVuex)

theorem spreads_of_spreadCall? {object member call : Node} (inside : member ∈ object.namedChildren)
    (found : spreadCall? member = some call) : object.Spreads call := by
  unfold spreadCall? at found
  split at found
  next isSpread =>
    split at found
    next inner first =>
      split at found
      next isCall =>
        cases found
        exact ⟨member,inside,isSpread,inner,first,rfl,isCall⟩
      next => contradiction
    next => contradiction
  next => contradiction

theorem passesArray_of_arrayArgument? {call array : Node} (found : arrayArgument? call = some array) :
    call.PassesArray array := by
  unfold arrayArgument? at found
  obtain ⟨isArray,before,after,whole,others⟩ := List.find?_eq_some_iff_append.mp found
  obtain ⟨front,rest,parts,rfl,back⟩ := List.map_eq_append_iff.mp whole
  obtain ⟨passed,behind,rfl,rfl,rfl⟩ := List.map_eq_cons_iff.mp back
  refine ⟨front,passed,behind,parts,fun earlier member => ?_,rfl,by simpa using isArray⟩
  simpa using others earlier.unwrapped (List.mem_map_of_mem member)

theorem spreads_of_spreadNames {object member call : Node} {names : List String}
    (inside : member ∈ object.namedChildren) (found : spreadNames member = some (call,names)) :
    object.Spreads call ∧ ∀ name ∈ names, call.Lists name := by
  unfold spreadNames at found
  split at found
  next => contradiction
  next spread isSpread =>
    obtain ⟨array,first,pair⟩ := Option.map_eq_some_iff.mp found
    obtain ⟨rfl,rfl⟩ := Prod.mk.inj pair
    refine ⟨spreads_of_spreadCall? inside isSpread,fun name member => ?_⟩
    obtain ⟨element,held,written⟩ := List.mem_filterMap.mp member
    exact ⟨array,passesArray_of_arrayArgument? first,element,held,written⟩

theorem isSection_iff (component : Node) (key : String) (object : Node) :
    IsSection component key object ↔
      (option? component key).bind value? = some object ∧ object.kind = .object := by
  simp only [IsSection,Option.bind_eq_some_iff,Option.mem_def]
  constructor
  · intro ⟨member,first,given,isObject⟩
    exact ⟨⟨member,first,given⟩,isObject⟩
  · intro ⟨⟨member,first,given⟩,isObject⟩
    exact ⟨member,first,given,isObject⟩

def KeyOf (component : Node) (key name : String) : Prop :=
  ∃ object, IsSection component key object ∧ name ∈ object.objectKeys

section Refining

variable {imports : StoreImports} {target : Category} {isKey : Prop} {spread : Node → Prop}
  {before between after : Option Category}

/-- What an option may make of the category of a name. As a key of the option, a name is taken over if it
is local state. A call that is spread there also takes over what is not filed yet. -/
inductive Refined (imports : StoreImports) (target : Category) (isKey : Prop) (spread : Node → Prop) :
    Option Category → Option Category → Prop
  | kept (before : Option Category) : Refined imports target isKey spread before before
  | keyed (key : isKey) : Refined imports target isKey spread (some .localState) (some target)
  | listed {before : Option Category} {call : Node}
      (free : before = none ∨ before = some .localState) (listed : spread call) :
      Refined imports target isKey spread before (some (spreadCategory imports target call))

theorem spreadCategory_ne_localState (call : Node) (away : target ≠ .localState) :
    spreadCategory imports target call ≠ .localState := by
  by_cases computed : target = .computed
  · subst computed
    have brand := (brand_spreadCategory imports call).mem
    intro same
    rw [same] at brand
    contradiction
  · rw [spreadCategory,if_neg computed]
    exact away

namespace Refined

theorem eq_of_some {category : Category} (refined : Refined imports target isKey spread (some category) after)
    (filed : category ≠ .localState) : after = some category := by
  cases refined with
  | kept => rfl
  | keyed => contradiction
  | listed free => exact absurd (Option.some.inj (free.resolve_left nofun)) filed

section

variable (refined : Refined imports target isKey spread before after)
include refined

theorem ne_localState
    (away : target ≠ .localState) (filed : before ≠ some .localState) : after ≠ some .localState := by
  cases refined with
  | kept => exact filed
  | keyed => contradiction
  | listed =>
    intro same
    exact spreadCategory_ne_localState _ away (Option.some.inj same)

theorem origin {category : Category}
    (filed : after = some category) : before = some category ∨ (isKey ∧ category = target) ∨
      ∃ call, spread call ∧ category = spreadCategory imports target call := by
  cases refined with
  | kept => exact .inl filed
  | keyed key => exact .inr (.inl ⟨key,(Option.some.inj filed).symm⟩)
  | listed _ listed => exact .inr (.inr ⟨_,listed,(Option.some.inj filed).symm⟩)

theorem eq_none (absent : before = none)
    (unlisted : ∀ call, ¬spread call) : after = none := by
  cases refined with
  | kept => exact absent
  | keyed => contradiction
  | listed _ listed => exact absurd listed (unlisted _)

theorem isSome (held : before.isSome) :
    after.isSome := by
  cases refined with
  | kept => exact held
  | keyed => rfl
  | listed => rfl

end

theorem trans (first : Refined imports target isKey spread before between)
    (second : Refined imports target isKey spread between after) (away : target ≠ .localState) :
    Refined imports target isKey spread before after := by
  cases first with
  | kept => exact second
  | keyed key =>
    rw [second.eq_of_some away]
    exact .keyed key
  | listed free listed =>
    rw [second.eq_of_some (spreadCategory_ne_localState _ away)]
    exact .listed free listed

theorem imp {isKey' : Prop} {spread' : Node → Prop} (refined : Refined imports target isKey spread before after)
    (key : isKey → isKey') (call : ∀ call, spread call → spread' call) :
    Refined imports target isKey' spread' before after := by
  cases refined with
  | kept => exact .kept _
  | keyed held => exact .keyed (key held)
  | listed free listed => exact .listed free (call _ listed)

end Refined

end Refining

section Members

variable {imports : StoreImports} {target : Category} {object : Node} {name : String}

variable {collector : Collector}

theorem categoryOf?_fileAs (reached : collector.Reached) (category : Category)
    (definition other name : String) :
    (fileAs category definition collector other).categoryOf? name =
      if name = other ∧ (collector.categoryOf? name = none ∨
        collector.categoryOf? name = some .localState) then some category
      else collector.categoryOf? name := by
  obtain ⟨done,after⟩ := reached.move_eq other .localState category
  unfold fileAs
  dsimp only
  rw [done]
  by_cases same : name = other
  · subst same
    by_cases isLocal : collector.categoryOf? name = some .localState
    · simp [isLocal,after]
    · rw [if_neg (by simpa using isLocal),Collector.categoryOf?_add]
      cases held : collector.categoryOf? name with
      | none => simp
      | some own =>
        rw [held] at isLocal
        simp [isLocal]
  · simp only [same,false_and,if_false]
    split
    · rw [after,if_neg fun both => same both.1]
    · rw [Collector.categoryOf?_add,if_neg (Ne.symm same),Option.or_none]

theorem categoryOf?_foldl_fileAs (category : Category) (definition name : String) (names : List String)
    (reached : collector.Reached) :
    (names.foldl (fileAs category definition) collector).categoryOf? name =
      if name ∈ names ∧ (collector.categoryOf? name = none ∨
        collector.categoryOf? name = some .localState) then some category
      else collector.categoryOf? name := by
  induction names generalizing collector with
  | nil => simp
  | cons other rest ih =>
    rw [List.foldl_cons,ih (reached_fileAs _ _ _ _ reached),categoryOf?_fileAs reached]
    by_cases same : name = other
    · subst same
      by_cases free : collector.categoryOf? name = none ∨ collector.categoryOf? name = some .localState
      · simp [free]
      · simp [free]
    · simp [same]

theorem mem_objectKeys_iff :
    name ∈ object.objectKeys ↔ name ≠ "" ∧ ∃ member ∈ object.namedChildren, member.memberKey? = some name := by
  simp only [Node.objectKeys,Node.keyedMembers,List.mem_map,List.mem_filterMap]
  constructor
  · intro ⟨entry,⟨member,inside,found⟩,own⟩
    subst own
    split at found
    next key written =>
      split at found
      next => contradiction
      next nonempty =>
        cases found
        exact ⟨nonempty,member,inside,written⟩
    next => contradiction
  · intro ⟨nonempty,member,inside,written⟩
    exact ⟨(name,member),⟨member,inside,by simp [written,nonempty]⟩,rfl⟩

theorem refineMember_cases (imports : StoreImports) (target : Category) (collector : Collector)
    (member : Node) :
    (∃ key ≠ "", member.memberKey? = some key ∧
      refineMember imports target collector member = (collector.move key .localState target).2) ∨
    (∀ key ≠ "", member.memberKey? ≠ some key) ∧
      (refineMember imports target collector member = collector ∨
        ∃ call names, spreadNames member = some (call,names) ∧
          refineMember imports target collector member =
            names.foldl (fileAs (spreadCategory imports target call) (trimmedText member)) collector) := by
  unfold refineMember
  dsimp only
  split
  next key keyed =>
    split at keyed
    next own written =>
      split at keyed
      next => contradiction
      next nonempty =>
        cases keyed
        exact .inl ⟨key,nonempty,written,rfl⟩
    next => contradiction
  next unkeyed =>
    refine .inr ⟨fun key nonempty written => ?_,?_⟩
    · rw [written] at unkeyed
      simp [nonempty] at unkeyed
    · split
      next => exact .inl rfl
      next call names found => exact .inr ⟨call,names,found,rfl⟩

theorem refined_refineMember {member : Node} (inside : member ∈ object.namedChildren)
    (reached : collector.Reached) :
    Refined imports target (name ∈ object.objectKeys) (fun call => object.Spreads call ∧ call.Lists name)
      (collector.categoryOf? name)
      ((refineMember imports target collector member).categoryOf? name) := by
  rcases refineMember_cases imports target collector member with
    ⟨key,nonempty,written,moves⟩ | ⟨_,stays | ⟨call,names,found,files⟩⟩
  · rw [moves,(reached.move_eq key .localState target).2]
    split
    next moved =>
      obtain ⟨rfl,isLocal⟩ := moved
      rw [isLocal]
      exact .keyed (mem_objectKeys_iff.mpr ⟨nonempty,member,inside,written⟩)
    next => exact .kept _
  · rw [stays]
    exact .kept _
  · obtain ⟨spreads,lists⟩ := spreads_of_spreadNames inside found
    rw [files,categoryOf?_foldl_fileAs _ _ _ _ reached]
    split
    next listed => exact .listed listed.2 ⟨spreads,lists name listed.1⟩
    next => exact .kept _

theorem refined_foldl (away : target ≠ .localState) {members : List Node}
    (inside : members ⊆ object.namedChildren) (reached : collector.Reached) :
    Refined imports target (name ∈ object.objectKeys) (fun call => object.Spreads call ∧ call.Lists name)
      (collector.categoryOf? name)
      ((members.foldl (refineMember imports target) collector).categoryOf? name) := by
  induction members generalizing collector with
  | nil => exact .kept _
  | cons member rest ih =>
    have first : Refined imports target (name ∈ object.objectKeys) _ _
        ((refineMember imports target collector member).categoryOf? name) :=
      refined_refineMember (inside List.mem_cons_self) reached
    exact first.trans (ih (fun other later => inside (List.mem_cons_of_mem _ later))
      (reached_refineMember imports target collector member reached)) away

theorem foldl_ne_localState (away : target ≠ .localState) {members : List Node}
    (inside : members ⊆ object.namedChildren) {collector : Collector} (reached : collector.Reached)
    (nonempty : name ≠ "") (key : ∃ member ∈ members, member.memberKey? = some name) :
    (members.foldl (refineMember imports target) collector).categoryOf? name ≠ some .localState := by
  induction members generalizing collector with
  | nil => simp at key
  | cons member rest ih =>
    have next := reached_refineMember imports target collector member reached
    have later : rest ⊆ object.namedChildren := fun other held => inside (List.mem_cons_of_mem _ held)
    by_cases own : member.memberKey? = some name
    · -- the entry takes the name over, and what is taken over stays
      have moved : (refineMember imports target collector member).categoryOf? name ≠
          some .localState := by
        rcases refineMember_cases imports target collector member with
          ⟨key,_,written,moves⟩ | ⟨none,_⟩
        · obtain rfl := Option.some.inj (own.symm.trans written)
          rw [moves,(reached.move_eq name .localState target).2]
          split
          next => simpa using away
          next kept => simpa using kept
        · exact absurd own (none name nonempty)
      exact (refined_foldl away later next).ne_localState away moved
    · refine ih later next ?_
      obtain ⟨found,held,written⟩ := key
      rcases List.mem_cons.mp held with rfl | behind
      · exact absurd written own
      · exact ⟨found,behind,written⟩

end Members

section Sections

variable (imports : StoreImports) (component : Node) (key : String) {target : Category}
  (away : target ≠ .localState) (name : String) {collector : Collector} (reached : collector.Reached)

theorem refineSection_of_isSection {object : Node} (isSection : IsSection component key object) :
    refineSection imports component key target collector =
      object.namedChildren.foldl (refineMember imports target) collector := by
  obtain ⟨given,isObject⟩ := (isSection_iff component key object).mp isSection
  rw [refineSection,given]
  exact if_pos isObject

include away reached

theorem refined_refineSection :
    Refined imports target (KeyOf component key name) (fun call => SpreadBy component key call name)
      (collector.categoryOf? name)
      ((refineSection imports component key target collector).categoryOf? name) := by
  by_cases found : ∃ object, IsSection component key object
  · obtain ⟨object,isSection⟩ := found
    rw [refineSection_of_isSection imports component key isSection]
    refine (refined_foldl away (List.Subset.refl _) reached).imp (fun held => ⟨object,isSection,held⟩) ?_
    intro call listed
    exact ⟨object,isSection,listed⟩
  · have same : refineSection imports component key target collector = collector := by
      unfold refineSection
      split
      next => rfl
      next value given =>
        exact if_neg fun isObject =>
          found ⟨value,(isSection_iff component key value).mpr ⟨given,isObject⟩⟩
    rw [same]
    exact .kept _

theorem refineSection_ne_localState (held : KeyOf component key name) :
    (refineSection imports component key target collector).categoryOf? name ≠ some .localState := by
  obtain ⟨object,isSection,held⟩ := held
  obtain ⟨nonempty,written⟩ := mem_objectKeys_iff.mp held
  rw [refineSection_of_isSection imports component key isSection]
  exact foldl_ne_localState away (List.Subset.refl _) reached nonempty written

end Sections

section Filing

variable (component : Node) (functions : OrderedMap String String) (name : String)

theorem nodup_keys_bindings : (bindings component).keys.Nodup :=
  OrderedMap.nodup_keys_ofList _

theorem categoryOf?_placeholders :
    (placeholders component).categoryOf? name = ((bindings component).get? name).bind placeholder? := by
  let step (collector : Collector) (entry : String × BindingKind) : Collector :=
    (placeholder? entry.2).elim collector fun category =>
      collector.add entry.1 category (((definitions component).get? entry.1).getD defaultDefinition)
  have whole : placeholders component = (bindings component).entries.foldl step ∅ := by
    unfold placeholders
    congr 1
    funext collector entry
    dsimp only [step]
    cases placeholder? entry.2 <;> rfl
  have run (entries : List (String × BindingKind)) (distinct : (entries.map Prod.fst).Nodup)
      (collector : Collector) :
      (entries.foldl step collector).categoryOf? name = (collector.categoryOf? name).or
        (((entries.find? fun entry => entry.1 = name).map Prod.snd).bind placeholder?) := by
    induction entries generalizing collector with
    | nil => simp
    | cons entry rest ih =>
      obtain ⟨fresh,distinct⟩ := List.nodup_cons.mp distinct
      rw [List.foldl_cons,ih distinct,List.find?_cons]
      by_cases same : entry.1 = name
      · -- the name has no second entry
        have single : rest.find? (fun entry => entry.1 = name) = none := by
          rw [List.find?_eq_none]
          intro other member found
          exact fresh (List.mem_map.mpr ⟨other,member,(of_decide_eq_true found).trans same.symm⟩)
        cases given : placeholder? entry.2 <;>
          simp [step,single,same,given,Collector.categoryOf?_add]
      · cases given : placeholder? entry.2 <;> simp [step,same,given,Collector.categoryOf?_add]
  rw [whole]
  exact (run _ (nodup_keys_bindings component) ∅).trans Option.none_or

def told? : Option Category :=
  ((setupBody? component).bind fun parts => categoryOfReturned? functions parts.1 parts.2 name).map
    Prod.fst

theorem mem_setupNames_iff :
    name ∈ setupNames component ↔ (bindings component).get? name = some .setupMaybeRef := by
  rw [setupNames,List.mem_map,
    ← OrderedMap.mem_entries_iff (bindings component) _ _ (nodup_keys_bindings component)]
  simp [List.mem_filter]

theorem categoryOf?_refile (collector : Collector) (other : String) :
    (refile functions (setupBody? component) collector other).categoryOf? name =
      if name = other then told? component functions name else collector.categoryOf? name := by
  have added (category : Category) (definition : String) :
      ((collector.release other).add other category definition).categoryOf? name =
        if name = other then some category else collector.categoryOf? name := by
    rw [Collector.categoryOf?_add,Collector.categoryOf?_release]
    by_cases same : name = other
    · simp [same]
    · simp [same,Ne.symm same]
  unfold refile told?
  dsimp only
  split
  next category definition found =>
    rw [added]
    split
    next same =>
      rw [same]
      exact (congrArg (Option.map Prod.fst) found).symm
    next => rfl
  next unknown =>
    rw [Collector.categoryOf?_release]
    split
    next same =>
      rw [same]
      exact (congrArg (Option.map Prod.fst) unknown).symm
    next => rfl

def refiled : Collector :=
  (setupNames component).foldl (refile functions (setupBody? component)) (placeholders component)

theorem reached_refiled : (refiled component functions).Reached :=
  (reached_placeholders component).foldl _ (reached_refile _ _) _

theorem categoryOf?_refiled :
    (refiled component functions).categoryOf? name =
      if (bindings component).get? name = some .setupMaybeRef then told? component functions name
      else ((bindings component).get? name).bind placeholder? := by
  have run (names : List String) (collector : Collector) :
      (names.foldl (refile functions (setupBody? component)) collector).categoryOf? name =
        if name ∈ names then told? component functions name else collector.categoryOf? name := by
    induction names generalizing collector with
    | nil => simp
    | cons other rest ih =>
      rw [List.foldl_cons,ih,categoryOf?_refile]
      by_cases same : name = other <;> simp [same]
  rw [refiled,run,categoryOf?_placeholders]
  simp only [mem_setupNames_iff]

end Filing

def valueCategories : List Category := [.ref,.reactive,.computed,.methods,.localState]

section Values

variable {functions : OrderedMap String String} {category : Category} {definition : String}

theorem mem_of_categoryOfCall? {callee : String}
    (told : categoryOfCall? functions callee = some category) : category ∈ valueCategories := by
  have chosen (exported : String) (told : (if Library.refs.contains exported then some .ref
      else if Library.reactives.contains exported then some .reactive
      else if exported = Library.computed then some .computed else none) = some category) :
      category ∈ valueCategories := by
    split at told
    · cases told
      decide
    split at told
    · cases told
      decide
    split at told
    · cases told
      decide
    · contradiction
  exact chosen _ told

theorem mem_of_categoryOfValue? {value : Node} (told : categoryOfValue? functions value = some category) :
    category ∈ valueCategories := by
  unfold categoryOfValue? at told
  split at told
  · cases told
    decide
  split at told
  next => exact mem_of_categoryOfCall? told
  next =>
    split at told
    · cases told
      decide
    · contradiction

theorem mem_of_categoryOfLocal? {body : Node} {name : String}
    (told : categoryOfLocal? functions body name = some (category,definition)) :
    category ∈ valueCategories := by
  unfold categoryOfLocal? at told
  split at told
  · contradiction
  split at told
  · contradiction
  split at told
  · contradiction
  next value _ =>
    obtain ⟨own,known,pair⟩ := Option.map_eq_some_iff.mp told
    rw [← (Prod.mk.inj pair).1]
    exact mem_of_categoryOfValue? known

theorem mem_of_categoryOfReturned? {setup body : Node} {name : String}
    (told : categoryOfReturned? functions setup body name = some (category,definition)) :
    category ∈ valueCategories := by
  unfold categoryOfReturned? at told
  split at told
  next member value _ =>
    split at told
    · exact mem_of_categoryOfLocal? told
    split at told
    · cases told
      decide
    · obtain ⟨own,known,pair⟩ := Option.map_eq_some_iff.mp told
      rw [← (Prod.mk.inj pair).1]
      exact mem_of_categoryOfValue? known
  next => exact mem_of_categoryOfLocal? told

theorem mem_of_told? {component : Node} {name : String}
    (told : told? component functions name = some category) : category ∈ valueCategories := by
  obtain ⟨⟨own,definition⟩,found,rfl⟩ := Option.map_eq_some_iff.mp told
  obtain ⟨parts,_,known⟩ := Option.bind_eq_some_iff.mp found
  exact mem_of_categoryOfReturned? known

end Values

theorem exists_passes (component : Node) (imports : StoreImports) (functions : OrderedMap String String)
    (name : String) :
    ∃ between after,
      Refined imports .computed (KeyOf component "computed" name)
        (fun call => SpreadBy component "computed" call name)
        ((refiled component functions).categoryOf? name) between ∧
      (KeyOf component "computed" name → between ≠ some .localState) ∧
      Refined imports .methods (KeyOf component "methods" name)
        (fun call => SpreadBy component "methods" call name) between after ∧
      (KeyOf component "methods" name → after ≠ some .localState) ∧
      ∀ category, ((classify component imports functions).get category).contains name = true ↔
        after = some category := by
  have first := reached_refiled component functions
  have second := reached_refineSection imports component "computed" .computed _ first
  have third := reached_refineSection imports component "methods" .methods _ second
  refine ⟨_,_,refined_refineSection imports component "computed" (by decide) name first,
    refineSection_ne_localState imports component "computed" (by decide) name first,
    refined_refineSection imports component "methods" (by decide) name second,
    refineSection_ne_localState imports component "methods" (by decide) name second,
    fun category => ?_⟩
  rw [← third.categoryOf?_build]
  exact third.contains_get_build name category

variable {component : Node} {imports : StoreImports} {functions : OrderedMap String String}
  {name : String}

theorem origin_of_refiled {category : Category}
    (filed : (refiled component functions).categoryOf? name = some category) :
    ∃ kind, (bindings component).get? name = some kind ∧
      (kind = .setupMaybeRef ∧ category ∈ valueCategories ∨ placeholder? kind = some category) := by
  rw [categoryOf?_refiled] at filed
  split at filed
  next bound => exact ⟨_,bound,.inl ⟨rfl,mem_of_told? filed⟩⟩
  next =>
    obtain ⟨kind,bound,given⟩ := Option.bind_eq_some_iff.mp filed
    exact ⟨kind,bound,.inr given⟩

theorem not_mem_brands_of_refiled {category : Category}
    (filed : (refiled component functions).categoryOf? name = some category) :
    category ∉ [Category.pinia,.vuex,.store] := by
  obtain ⟨kind,_,⟨_,given⟩ | given⟩ := origin_of_refiled filed
  · have apart : ∀ category ∈ valueCategories, category ∉ [Category.pinia,.vuex,.store] := by decide
    exact apart category given
  · cases kind <;> cases given <;> decide

theorem refiled_of_kind {kind : BindingKind} (bound : (bindings component).get? name = some kind)
    (other : kind ≠ .setupMaybeRef) :
    (refiled component functions).categoryOf? name = placeholder? kind := by
  rw [categoryOf?_refiled,bound]
  simp [other]

section Passes

variable {start between after : Option Category} {category : Category}
  (computed : Refined imports .computed (KeyOf component "computed" name)
    (fun call => SpreadBy component "computed" call name) start between)
  (methods : Refined imports .methods (KeyOf component "methods" name)
    (fun call => SpreadBy component "methods" call name) between after)
include computed methods

theorem start_of_passes (filed : after = some category) (noMethod : category ≠ .methods) :
    start = some category ∨ category = .computed ∨
      ∃ call, SpreadBy component "computed" call name ∧ Brand imports call.callee? category := by
  have given : between = some category := by
    rcases methods.origin filed with same | ⟨_,same⟩ | ⟨call,_,same⟩
    · exact same
    · exact absurd same noMethod
    · exact absurd same noMethod
  rcases computed.origin given with same | ⟨_,same⟩ | ⟨call,listed,rfl⟩
  · exact .inl same
  · exact .inr (.inl same)
  · exact .inr (.inr ⟨call,listed,brand_spreadCategory imports call⟩)

theorem end_of_passes (given : start = some category) (away : category ≠ .localState) :
    after = some category := by
  rw [given] at computed
  rw [computed.eq_of_some away] at methods
  exact methods.eq_of_some away

theorem eq_none_of_passes (absent : start = none)
    (unlisted : ¬∃ key ∈ ["computed","methods"], ∃ call, SpreadBy component key call name) :
    after = none := by
  have second := computed.eq_none absent fun call spread => unlisted ⟨"computed",by simp,call,spread⟩
  exact methods.eq_none second fun call spread => unlisted ⟨"methods",by simp,call,spread⟩

end Passes

theorem bound_of_refiled_props
    (filed : (refiled component functions).categoryOf? name = some .props) :
    (bindings component).get? name = some .props := by
  obtain ⟨kind,bound,⟨_,given⟩ | given⟩ := origin_of_refiled filed
  · exact absurd given (by decide)
  · rw [bound]
    cases kind <;> first | rfl | contradiction

theorem refiled_of_unbound (unbound : ¬(bindings component).contains name = true) :
    (refiled component functions).categoryOf? name = none := by
  rw [Option.eq_none_iff_forall_ne_some]
  intro category filed
  obtain ⟨_,bound,_⟩ := origin_of_refiled filed
  exact unbound (by rw [OrderedMap.contains,bound]; rfl)

/-- Every category of an options object has its origin. Props are the names of props and nothing else,
data is reactive, and a name of the other options is filed, as local state only if it is no key of
`computed` and `methods`. What counts as a store is listed by a call that is spread into `computed`, under
the brand of the called function. Nothing is classified but bindings and what such calls list. -/
theorem categories_have_their_origin (component : Node) (imports : StoreImports)
    (functions : OrderedMap String String) (name : String) :
    let filed (category : Category) : Prop :=
      ((classify component imports functions).get category).contains name = true
    let kind := (bindings component).get? name
    (filed .props ↔ kind = some .props) ∧
    (kind = some .data → filed .reactive) ∧
    (kind = some .options → (∃ category, filed category) ∧
      (filed .localState → ¬KeyOf component "computed" name ∧ ¬KeyOf component "methods" name)) ∧
    (∀ brand ∈ [Category.pinia,.vuex,.store], filed brand →
      ∃ call, SpreadBy component "computed" call name ∧ Brand imports call.callee? brand) ∧
    ((∃ category, filed category) → (bindings component).contains name = true ∨
      ∃ key ∈ ["computed","methods"], ∃ call, SpreadBy component key call name) := by
  intro filed kind
  obtain ⟨between,after,computed,noComputed,methods,noMethods,final⟩ :=
    exists_passes component imports functions name
  simp only [filed,final]
  refine ⟨⟨fun held => ?_,fun bound => ?_⟩,fun bound => ?_,fun bound => ⟨?_,fun held => ?_⟩,?_,?_⟩
  · -- no later pass gives props
    rcases start_of_passes computed methods held (by decide) with first | same | ⟨call,_,brand⟩
    · exact bound_of_refiled_props first
    · contradiction
    · exact absurd brand.mem (by decide)
  · exact end_of_passes computed methods (refiled_of_kind bound (by decide)) (by decide)
  · exact end_of_passes computed methods (refiled_of_kind bound (by decide)) (by decide)
  · rw [refiled_of_kind bound (by decide)] at computed
    exact Option.isSome_iff_exists.mp (methods.isSome (computed.isSome rfl))
  · refine ⟨fun key => ?_,fun key => noMethods key held⟩
    exact methods.ne_localState (by decide) (noComputed key) held
  · intro brand listed held
    have noMethod : brand ≠ .methods := by
      rintro rfl
      contradiction
    rcases start_of_passes computed methods held noMethod with first | rfl | found
    · exact absurd listed (not_mem_brands_of_refiled first)
    · contradiction
    · exact found
  · intro classified
    obtain ⟨category,held⟩ := classified
    by_contra neither
    rw [not_or] at neither
    obtain ⟨unbound,unlisted⟩ := neither
    rw [eq_none_of_passes computed methods (refiled_of_unbound unbound) unlisted] at held
    contradiction

end VueScope.Options
