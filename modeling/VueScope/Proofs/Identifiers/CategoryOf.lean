import VueScope.Proofs.Identifiers.Classified

/-! The category that a collector gives to one name, and what each operation makes of it. -/
namespace VueScope.Collector

def categoryOf? (collector : Collector) (name : String) : Option Category :=
  collector.claimed.get? name

theorem categoryOf?_add (collector : Collector) (other : String) (category : Category)
    (definition name : String) :
    (collector.add other category definition).categoryOf? name =
      (collector.categoryOf? name).or (if other = name then some category else none) := by
  unfold add claim categoryOf?
  split
  next held =>
    split
    next same =>
      obtain ⟨first,found⟩ := Option.isSome_iff_exists.mp held
      rw [same] at found
      rw [found,Option.some_or]
    next => rw [Option.or_none]
  next fresh =>
    rw [OrderedMap.get?_insert]
    by_cases same : name = other
    · have absent : collector.claimed.get? other = none := by
        simpa [contains,OrderedMap.contains] using fresh
      simp [same,absent]
    · simp [same,Ne.symm same]

theorem categoryOf?_foldl_add {α : Type} (nameOf : α → String) (category : α → Category)
    (definition : α → String) (items : List α) (collector : Collector) (name : String) :
    (items.foldl (fun collector item => collector.add (nameOf item) (category item) (definition item))
        collector).categoryOf? name =
      (collector.categoryOf? name).or ((items.find? fun item => nameOf item = name).map category) := by
  induction items generalizing collector with
  | nil => simp
  | cons item rest ih =>
    rw [List.foldl_cons,ih,categoryOf?_add,Option.or_assoc,List.find?_cons]
    by_cases same : nameOf item = name <;> simp [same]

theorem categoryOf?_release (collector : Collector) (other name : String) :
    (collector.release other).categoryOf? name =
      if name = other then none else collector.categoryOf? name := by
  unfold release categoryOf?
  split
  next absent =>
    split
    next same => rw [same,absent]
    next => rfl
  next => rw [OrderedMap.get?_erase]

variable {collector : Collector}

theorem Reached.files (reached : Reached collector) : ∃ register, Files collector register := by
  obtain ⟨operations,rfl⟩ := reached
  exact ⟨_,(Files.empty.run operations).2⟩

theorem Reached.move_eq (reached : Reached collector) (name : String) (source target : Category) :
    (collector.move name source target).1 = decide (collector.categoryOf? name = some source) ∧
      ∀ other, (collector.move name source target).2.categoryOf? other =
        if other = name ∧ collector.categoryOf? name = some source then some target
        else collector.categoryOf? other := by
  obtain ⟨register,files⟩ := reached.files
  unfold Collector.move categoryOf?
  split
  next under =>
    -- what is registered under a category is held by the map of that category
    obtain ⟨filing,held,own⟩ := Option.map_eq_some_iff.mp ((files.claimed name).symm.trans under)
    have filed := (files.filed name source filing.definition).mpr (by rw [held,← own])
    rw [filed]
    refine ⟨by simp [under],fun other => ?_⟩
    rw [OrderedMap.get?_insert]
    simp [under]
  next other => simp [other]

theorem Reached.categoryOf?_build (reached : Reached collector) (name : String) :
    collector.build.categoryOf? name = collector.categoryOf? name := by
  obtain ⟨register,files⟩ := reached.files
  rw [files.categoryOf?_build,Collector.categoryOf?,files.claimed]

theorem Reached.contains_get_build (reached : Reached collector) (name : String) (category : Category) :
    (collector.build.get category).contains name = true ↔
      collector.build.categoryOf? name = some category := by
  obtain ⟨register,files⟩ := reached.files
  rw [files.contains_build_iff,files.categoryOf?_build]

end VueScope.Collector
