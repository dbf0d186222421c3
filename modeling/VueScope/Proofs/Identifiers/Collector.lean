import Mathlib.Data.Finmap
import VueScope.Identifiers.Collector
import VueScope.Proofs.Identifiers.OrderedMap

/-! The collector keeps a registry of claimed names beside one map for each category. It does
what a single finite map from names to their filings would do, and what it builds holds each
name under the category of its filing only. -/
namespace VueScope

structure Filing where
  category : Category
  definition : String
deriving DecidableEq, Repr

/-- One finite map from names to filings. -/
abbrev Register := Finmap fun _ : String => Filing

namespace Collector

inductive Operation where
  | claim (name : String) (category : Category) (definition : String)
  | move (name : String) (source target : Category)
  | release (name : String)
deriving DecidableEq, Repr

/-- An operation reports whether it was done; releasing a name reports nothing. -/
def step (collector : Collector) : Operation → Option Bool × Collector
  | .claim name category definition =>
    let (done,after) := collector.claim name category definition
    (some done,after)
  | .move name source target =>
    let (done,after) := collector.move name source target
    (some done,after)
  | .release name => (none,collector.release name)

end Collector

/-- What each operation means for one map: a claim files a name that is absent, a move changes
the category of a name that stands under the source, and a release drops a name. -/
def Register.step (register : Register) : Collector.Operation → Option Bool × Register
  | .claim name category definition =>
    if name ∈ register then (some false,register)
    else (some true,register.insert name ⟨category,definition⟩)
  | .move name source target =>
    match register.lookup name with
    | none => (some false,register)
    | some filing =>
      if filing.category = source then (some true,register.insert name { filing with category := target })
      else (some false,register)
  | .release name => (none,register.erase name)

def Collector.Operation.run {σ : Type} (step : σ → Collector.Operation → Option Bool × σ) (state : σ) :
    List Collector.Operation → List (Option Bool) × σ
  | [] => ([],state)
  | operation :: rest =>
    let (report,next) := step state operation
    let (reports,last) := run step next rest
    (report :: reports,last)

theorem Category.mem_all (category : Category) : category ∈ Category.all := by
  cases category <;> decide

@[simp] theorem Identifiers.get_set (identifiers : Identifiers) (category other : Category)
    (names : Definitions) :
    (identifiers.set category names).get other =
      if other = category then names else identifiers.get other :=
  rfl

theorem Register.lookup_insert (register : Register) (name other : String) (filing : Filing) :
    (register.insert name filing).lookup other =
      if other = name then some filing else register.lookup other := by
  split
  next same => rw [same,Finmap.lookup_insert]
  next apart => exact Finmap.lookup_insert_of_ne register apart

theorem Register.lookup_erase (register : Register) (name other : String) :
    (register.erase name).lookup other = if other = name then none else register.lookup other := by
  split
  next same => rw [same,Finmap.lookup_erase]
  next apart => exact Finmap.lookup_erase_ne apart

namespace Collector

/-- The registry and the maps of a collector both say what one map says. -/
structure Files (collector : Collector) (register : Register) : Prop where
  claimed : ∀ name, collector.claimed.get? name = (register.lookup name).map Filing.category
  filed : ∀ name category definition,
    (collector.filed.get category).get? name = some definition ↔
      register.lookup name = some ⟨category,definition⟩
  distinct : ∀ category, (collector.filed.get category).keys.Nodup

namespace Files

variable {collector : Collector} {register : Register}

theorem empty : Files ∅ ∅ := by
  refine ⟨fun _ => rfl,?_,fun _ => List.nodup_nil⟩
  intro name category definition
  constructor <;> intro found <;> contradiction

section

variable (files : Files collector register) (name : String)
include files

theorem contains_iff :
    collector.contains name = true ↔ name ∈ register := by
  rw [contains,OrderedMap.contains,files.claimed,Option.isSome_map]
  exact Finmap.lookup_isSome

theorem insert (filing : Filing)
    (filed : Identifiers)
    (written : ∀ category other, (filed.get category).get? other =
      if other = name then (if category = filing.category then some filing.definition else none)
      else (collector.filed.get category).get? other)
    (distinct : ∀ category, (filed.get category).keys.Nodup) :
    Files ⟨filed,collector.claimed.insert name filing.category⟩ (register.insert name filing) := by
  refine ⟨?_,?_,distinct⟩
  · intro other
    rw [OrderedMap.get?_insert,Register.lookup_insert,files.claimed]
    split <;> rfl
  · intro other category definition
    rw [written,Register.lookup_insert]
    split
    · obtain ⟨own,text⟩ := filing
      by_cases same : category = own
      · simp [same]
      · simp [same,Ne.symm same]
    · exact files.filed other category definition

theorem get?_of_other (category : Category)
    (other : ∀ definition, register.lookup name ≠ some ⟨category,definition⟩) :
    (collector.filed.get category).get? name = none := by
  rw [Option.eq_none_iff_forall_ne_some]
  intro definition held
  exact other definition ((files.filed name category definition).mp held)

theorem claim (category : Category)
    (definition : String) (absent : name ∉ register) :
    (collector.claim name category definition).1 = true ∧
      Files (collector.claim name category definition).2
        (register.insert name ⟨category,definition⟩) := by
  unfold Collector.claim
  rw [if_neg (mt (files.contains_iff name).mp absent)]
  refine ⟨rfl,files.insert name ⟨category,definition⟩ _ ?_ ?_⟩
  · intro given other
    -- an absent name stands in no map, so writing it into one leaves it out of the rest
    have none := files.get?_of_other name given fun text held =>
      absent (Finmap.mem_of_lookup_eq_some held)
    rw [Identifiers.get_set]
    by_cases own : given = category
    · simp [own,OrderedMap.get?_insert]
    · by_cases same : other = name
      · simp [same,own,none]
      · simp [same,own]
  · intro given
    rw [Identifiers.get_set]
    split
    · exact OrderedMap.nodup_keys_insert _ _ _ (files.distinct category)
    · exact files.distinct given

theorem move (source target : Category)
    (definition : String) (held : register.lookup name = some ⟨source,definition⟩) :
    (collector.move name source target).1 = true ∧
      Files (collector.move name source target).2 (register.insert name ⟨target,definition⟩) := by
  have claimed : collector.claimed.get? name = some source := by rw [files.claimed,held]; rfl
  have filed := (files.filed name source definition).mpr held
  unfold Collector.move
  rw [if_pos claimed,filed]
  refine ⟨rfl,files.insert name ⟨target,definition⟩ _ ?_ ?_⟩
  · intro given other
    -- the name is taken out of the source before it is put under the target
    have elsewhere (apart : given ≠ source) : (collector.filed.get given).get? name = none := by
      apply files.get?_of_other
      intro text also
      rw [held,Option.some.injEq,Filing.mk.injEq] at also
      exact apart also.1.symm
    rw [Identifiers.get_set]
    by_cases own : given = target
    · subst own
      rw [if_pos rfl,OrderedMap.get?_insert,Identifiers.get_set]
      by_cases same : other = name
      · simp [same]
      · rw [if_neg same,if_neg same]
        split
        next stays => rw [OrderedMap.get?_erase,if_neg same,stays]
        · rfl
    · rw [if_neg own,Identifiers.get_set]
      by_cases left : given = source
      · rw [if_pos left,OrderedMap.get?_erase,left]
        simp [← left,own]
      · by_cases same : other = name
        · simp [left,same,own,elsewhere left]
        · simp [left,same]
  · intro given
    have without (category : Category) : ((collector.filed.set source
        ((collector.filed.get source).erase name)).get category).keys.Nodup := by
      rw [Identifiers.get_set]
      split
      · exact OrderedMap.nodup_keys_erase _ _ (files.distinct source)
      · exact files.distinct category
    rw [Identifiers.get_set]
    split
    · exact OrderedMap.nodup_keys_insert _ _ _ (without target)
    · exact without given

theorem release :
    Files (collector.release name) (register.erase name) := by
  unfold Collector.release
  have registered := files.claimed name
  cases held : register.lookup name with
  | none =>
    rw [held] at registered
    rw [registered]
    -- there is nothing to drop
    have same : register.erase name = register := by
      apply Finmap.ext_lookup
      intro other
      rw [Register.lookup_erase]
      split
      next own => rw [own,held]
      · rfl
    rw [same]
    exact files
  | some filing =>
    rw [held,Option.map_some] at registered
    rw [registered]
    refine ⟨?_,?_,?_⟩
    · intro other
      rw [OrderedMap.get?_erase,Register.lookup_erase,files.claimed]
      split <;> rfl
    · intro other given definition
      rw [Register.lookup_erase,Identifiers.get_set]
      by_cases own : given = filing.category
      · rw [if_pos own,OrderedMap.get?_erase,← own]
        by_cases same : other = name
        · simp [same]
        · simpa [same] using files.filed other given definition
      · rw [if_neg own]
        by_cases same : other = name
        · have none := files.get?_of_other name given fun text also => by
            rw [held,Option.some.injEq] at also
            exact own (congrArg Filing.category also).symm
          simp [same,none]
        · simpa [same] using files.filed other given definition
    · intro given
      rw [Identifiers.get_set]
      split
      · exact OrderedMap.nodup_keys_erase _ _ (files.distinct _)
      · exact files.distinct given

end

section

variable (files : Files collector register)
include files

theorem step (operation : Operation) :
    (collector.step operation).1 = (register.step operation).1 ∧
      Files (collector.step operation).2 (register.step operation).2 := by
  cases operation with
  | claim name category definition =>
    by_cases present : name ∈ register
    · have refused : collector.claim name category definition = (false,collector) :=
        if_pos ((files.contains_iff name).mpr present)
      simp only [Collector.step,Register.step,refused,if_pos present]
      exact ⟨trivial,files⟩
    · obtain ⟨done,after⟩ := files.claim name category definition present
      simp only [Collector.step,Register.step,done,if_neg present]
      exact ⟨trivial,after⟩
  | move name source target =>
    have registered := files.claimed name
    have refused (other : collector.claimed.get? name ≠ some source) :
        collector.move name source target = (false,collector) := if_neg other
    simp only [Collector.step,Register.step]
    cases held : register.lookup name with
    | none =>
      rw [refused (by simp [registered,held])]
      exact ⟨rfl,files⟩
    | some filing =>
      by_cases under : filing.category = source
      · subst under
        obtain ⟨done,after⟩ := files.move name filing.category target filing.definition held
        simp only [done,if_true]
        exact ⟨trivial,after⟩
      · rw [refused (by simpa [registered,held] using under)]
        simp only [if_neg under]
        exact ⟨trivial,files⟩
  | release name => exact ⟨rfl,files.release name⟩

theorem run (operations : List Operation) :
    (Operation.run Collector.step collector operations).1 =
        (Operation.run Register.step register operations).1 ∧
      Files (Operation.run Collector.step collector operations).2
        (Operation.run Register.step register operations).2 := by
  induction operations generalizing collector register with
  | nil => exact ⟨rfl,files⟩
  | cons operation rest ih =>
    obtain ⟨reported,next⟩ := files.step operation
    obtain ⟨reports,last⟩ := ih next
    exact ⟨by simp only [Operation.run,reported,reports],last⟩

theorem mem_build (name : String) (category : Category)
    (definition : String) :
    (name,definition) ∈ (collector.build.get category).entries ↔
      register.lookup name = some ⟨category,definition⟩ :=
  (OrderedMap.mem_entries_iff _ _ _ (files.distinct category)).trans
    (files.filed name category definition)

theorem contains_build_iff (name : String) (category : Category) :
    (collector.build.get category).contains name = true ↔
      (register.lookup name).map Filing.category = some category := by
  rw [OrderedMap.contains,Option.isSome_iff_exists,Option.map_eq_some_iff]
  constructor
  · rintro ⟨definition,found⟩
    exact ⟨_,(files.filed name category definition).mp found,rfl⟩
  · rintro ⟨⟨_,definition⟩,held,rfl⟩
    exact ⟨definition,(files.filed name _ definition).mpr held⟩

theorem categoryOf?_build (name : String) :
    collector.build.categoryOf? name = (register.lookup name).map Filing.category := by
  unfold Identifiers.categoryOf?
  cases held : (register.lookup name).map Filing.category with
  | none =>
    rw [List.find?_eq_none]
    intro category _
    rw [files.contains_build_iff,held]
    exact Option.some_ne_none category |>.symm
  | some category =>
    have here := (files.contains_build_iff name category).mpr held
    cases found : Category.all.find? fun category => (collector.build.get category).contains name with
    | none => exact absurd here (List.find?_eq_none.mp found category category.mem_all)
    | some first =>
      have there : (collector.build.get first).contains name = true := by
        simpa using List.find?_some found
      exact ((files.contains_build_iff name first).mp there).symm.trans held

end

end Files

end Collector

end VueScope
