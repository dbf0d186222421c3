import Mathlib.Data.List.Nodup
import VueScope.Identifiers.OrderedMap

/-! What a map holds after it was written to. -/
namespace VueScope.OrderedMap

variable {κ α : Type} [DecidableEq κ]
variable (entries : List (κ × α)) (map : OrderedMap κ α) (key other : κ) (value : α)

theorem find?_insertEntry (entries : List (κ × α)) :
    (insertEntry key value entries).find? (fun entry => entry.1 = other) =
      if other = key then some (key,value) else entries.find? fun entry => entry.1 = other := by
  induction entries with
  | nil =>
    by_cases same : other = key
    · simp [insertEntry,same]
    · simp [insertEntry,same,Ne.symm same]
  | cons entry rest ih =>
    rw [insertEntry]
    by_cases same : other = key
    · subst same
      split
      · simp
      next apart => simpa [List.find?_cons,apart] using ih
    · split
      next replaced => simp [replaced,Ne.symm same]
      · simp only [List.find?_cons,ih,if_neg same]

theorem get?_insert :
    (map.insert key value).get? other = if other = key then some value else map.get? other := by
  unfold get? insert
  rw [find?_insertEntry]
  split <;> rfl

theorem get?_erase : (map.erase key).get? other = if other = key then none else map.get? other := by
  unfold get? erase
  rw [List.find?_filter]
  by_cases same : other = key
  · subst same
    simp
  · rw [if_neg same]
    congr 2
    funext entry
    by_cases found : entry.1 = other
    · simp [found,same]
    · simp [found]

theorem keys_insertEntry (entries : List (κ × α)) :
    (insertEntry key value entries).map Prod.fst =
      if key ∈ entries.map Prod.fst then entries.map Prod.fst else entries.map Prod.fst ++ [key] := by
  induction entries with
  | nil => simp [insertEntry]
  | cons entry rest ih =>
    rw [insertEntry]
    by_cases same : entry.1 = key
    · simp [same]
    · rw [if_neg same,List.map_cons,ih]
      have first : key ∈ (entry :: rest).map Prod.fst ↔ key ∈ rest.map Prod.fst := by
        rw [List.map_cons,List.mem_cons,or_iff_right (Ne.symm same)]
      simp only [first]
      split <;> rfl

theorem nodup_keys_insert (distinct : map.keys.Nodup) : (map.insert key value).keys.Nodup := by
  unfold keys insert at *
  rw [keys_insertEntry]
  split
  · exact distinct
  next absent =>
    rw [List.nodup_append]
    refine ⟨distinct,List.nodup_singleton key,?_⟩
    rintro other member _ last rfl
    exact absent (List.mem_singleton.mp last ▸ member)

theorem nodup_keys_erase (distinct : map.keys.Nodup) : (map.erase key).keys.Nodup :=
  distinct.sublist (List.filter_sublist.map Prod.fst)

theorem mem_entries_iff (distinct : map.keys.Nodup) :
    (key,value) ∈ map.entries ↔ map.get? key = some value := by
  unfold get?
  rw [Option.map_eq_some_iff]
  constructor
  · intro member
    cases found : map.entries.find? fun entry => entry.1 = key with
    | none =>
      have absent := List.find?_eq_none.mp found (key,value) member
      simp at absent
    | some entry =>
      have same : entry.1 = key := by simpa using List.find?_some found
      have equal := List.inj_on_of_nodup_map distinct (List.mem_of_find?_eq_some found) member same
      exact ⟨entry,rfl,by rw [equal]⟩
  · rintro ⟨entry,found,rfl⟩
    have same : entry.1 = key := by simpa using List.find?_some found
    rw [← same]
    exact List.mem_of_find?_eq_some found

theorem mem_entries_of_get? (found : map.get? key = some value) : (key,value) ∈ map.entries := by
  rw [get?,Option.map_eq_some_iff] at found
  obtain ⟨entry,first,rfl⟩ := found
  have same : entry.1 = key := by simpa using List.find?_some first
  rw [← same]
  exact List.mem_of_find?_eq_some first

theorem contains_iff_mem_keys : map.contains key = true ↔ key ∈ map.keys := by
  rw [contains,get?,Option.isSome_map,List.find?_isSome,keys,List.mem_map]
  simp

theorem get?_foldl_insert :
    (entries.foldl (fun map entry => map.insert entry.1 entry.2) map).get? key =
      ((entries.reverse.find? fun entry => entry.1 = key).map Prod.snd).or (map.get? key) := by
  induction entries generalizing map with
  | nil => rfl
  | cons entry rest ih =>
    rw [List.foldl_cons,ih,get?_insert,List.reverse_cons,List.find?_append]
    cases rest.reverse.find? fun entry => entry.1 = key with
    | some _ => rfl
    | none =>
      by_cases same : entry.1 = key
      · simp [same]
      · simp [same,Ne.symm same]

theorem get?_ofList :
    (ofList entries).get? key =
      (entries.reverse.find? fun entry => entry.1 = key).map Prod.snd := by
  rw [ofList,get?_foldl_insert]
  exact Option.or_none

theorem get?_ofList_map {β : Type} (entries : List (κ × α)) (change : α → β) (key : κ) :
    (ofList (entries.map fun entry => (entry.1,change entry.2))).get? key =
      ((ofList entries).get? key).map change := by
  rw [get?_ofList,get?_ofList,← List.map_reverse,List.find?_map,Option.map_map,Option.map_map]
  rfl

theorem keys_foldl_insert_map {β : Type} (entries : List (κ × α)) (change : α → β)
    (map : OrderedMap κ α) (mapped : OrderedMap κ β) (same : mapped.keys = map.keys) :
    ((entries.map fun entry => (entry.1,change entry.2)).foldl
        (fun map entry => map.insert entry.1 entry.2) mapped).keys =
      (entries.foldl (fun map entry => map.insert entry.1 entry.2) map).keys := by
  induction entries generalizing map mapped with
  | nil => exact same
  | cons entry rest ih =>
    apply ih
    unfold keys at same ⊢
    simp only [insert,keys_insertEntry,same]

theorem size_ofList_map {β : Type} (entries : List (κ × α)) (change : α → β) :
    (ofList (entries.map fun entry => (entry.1,change entry.2))).size = (ofList entries).size := by
  have same := congrArg List.length (keys_foldl_insert_map entries change empty empty rfl)
  rwa [keys,keys,List.length_map,List.length_map] at same

theorem get?_ofList_append (first second : List (κ × α)) (key : κ) :
    (ofList (first ++ second)).get? key =
      ((ofList second).get? key).or ((ofList first).get? key) := by
  rw [get?_ofList,get?_ofList,get?_ofList,List.reverse_append,List.find?_append]
  cases second.reverse.find? fun entry => entry.1 = key <;> rfl

theorem contains_ofList_iff :
    (ofList entries).contains key = true ↔ key ∈ entries.map Prod.fst := by
  rw [contains,get?_ofList,Option.isSome_map,List.find?_isSome]
  simp [eq_comm]

theorem mem_of_get?_ofList {entries : List (κ × α)} {key : κ} {value : α}
    (found : (ofList entries).get? key = some value) : (key,value) ∈ entries := by
  rw [get?_ofList,Option.map_eq_some_iff] at found
  obtain ⟨entry,chosen,rfl⟩ := found
  have same : entry.1 = key := by simpa using List.find?_some chosen
  rw [← same]
  exact List.mem_reverse.mp (List.mem_of_find?_eq_some chosen)

theorem get?_ofList_of_agree (held : key ∈ entries.map Prod.fst)
    (agree : ∀ entry ∈ entries, entry.1 = key → entry.2 = value) :
    (ofList entries).get? key = some value := by
  rw [← contains_ofList_iff,contains,Option.isSome_iff_exists] at held
  obtain ⟨last,found⟩ := held
  rw [found]
  exact congrArg some (agree (key,last) (mem_of_get?_ofList found) rfl)

theorem nodup_keys_foldl_insert (distinct : map.keys.Nodup) :
    (entries.foldl (fun map entry => map.insert entry.1 entry.2) map).keys.Nodup := by
  induction entries generalizing map with
  | nil => exact distinct
  | cons entry rest ih => exact ih _ (nodup_keys_insert map entry.1 entry.2 distinct)

theorem nodup_keys_ofList : (ofList entries).keys.Nodup :=
  nodup_keys_foldl_insert entries empty List.nodup_nil

theorem get?_ofList_eq_some_iff (distinct : (entries.map Prod.fst).Nodup) :
    (ofList entries).get? key = some value ↔ (key,value) ∈ entries := by
  have backwards : (OrderedMap.mk entries.reverse).keys.Nodup := by
    rwa [keys,List.map_reverse,List.nodup_reverse]
  rw [get?_ofList,← List.mem_reverse]
  exact (mem_entries_iff _ key value backwards).symm

theorem get?_union (first second : OrderedMap κ α) (key : κ) (distinct : second.keys.Nodup) :
    (first.union second).get? key = (second.get? key).or (first.get? key) := by
  rw [union,get?_foldl_insert]
  congr 1
  cases last : second.entries.reverse.find? fun entry => entry.1 = key with
  | none =>
    have absent : second.entries.find? (fun entry => entry.1 = key) = none := by
      rw [List.find?_eq_none] at last ⊢
      exact fun entry member => last entry (List.mem_reverse.mpr member)
    rw [get?,absent]
  | some entry =>
    have member := List.mem_reverse.mp (List.mem_of_find?_eq_some last)
    have same : entry.1 = key := by simpa using List.find?_some last
    exact ((mem_entries_iff second key entry.2 distinct).mp (same ▸ member)).symm

end VueScope.OrderedMap
