import VueScope.Analysis.File
import VueScope.Proofs.Component.Anchored

/-! A template that is marked in the text it was read from loses none of its occurrences. -/
namespace VueScope.Text.Document

theorem positionAt_of_inside (document : Document) (offset : Int) (atLeast : 0 ≤ offset)
    (atMost : offset ≤ document.length) : ∃ position, document.positionAt offset = .ok position := by
  have inside : ¬(offset < 0 || document.length < offset) = true := by simp; omega
  exact ⟨_,by rw [positionAt,if_neg inside]⟩

theorem rangeOf_of_standsAt (document : Document) (start : Int) (name : String)
    (stands : StandsAt document.text name.toList start) :
    ∃ first last, document.rangeOf start (start + name.length) name =
      .ok ⟨name,start,start + name.length,first,last⟩ := by
  have atLeast := stands.nonneg
  have atMost : start + name.length ≤ document.length := by
    rw [← String.length_toList]
    exact stands.stop_le
  obtain ⟨first,positioned⟩ := document.positionAt_of_inside start atLeast (by omega)
  obtain ⟨last,ended⟩ := document.positionAt_of_inside (start + name.length) (by omega) atMost
  refine ⟨first,last,?_⟩
  have inside : ¬(start < 0 || document.length < start + name.length ||
      start + name.length < start) = true := by simp; omega
  have held : (document.text.drop start.toNat).take (start + name.length - start).toNat =
      name.toList := by
    have width : (start + name.length - start).toNat = name.toList.length := by
      rw [String.length_toList]
      omega
    rw [width]
    exact stands.take_drop
  rw [rangeOf,if_neg inside]
  simp only [held]
  rw [if_neg (by simp),positioned,ended]
  rfl

end VueScope.Text.Document

namespace VueScope.Analysis

open Text Template

section

variable [Recovery] {filename : String} {text : List Char} {parsed : Component.Parsed}
  {nodes : List Template.Node}

theorem standsAt_occurrence (holds : Recovery.HoldsText) (split : Component.parse filename text = .ok parsed)
    (tree : parsed.descriptor.tree? = some nodes) :
    ∀ occurrence ∈ occurrences nodes, StandsAt text occurrence.name.toList occurrence.start := by
  intro occurrence member
  obtain ⟨template,present,built⟩ := Option.bind_eq_some_iff.mp tree
  obtain ⟨part,searched,reference,referred,rfl⟩ := exists_reference member
  have anchored := Component.anchored_parse split template present nodes built
  exact (anchored_scannedInAll [] nodes anchored part searched).within (standsAt_reference holds referred)

end

def rangePlace (range : Document.Range) : String × Int × Int :=
  (range.name,range.start,range.stop)

def occurrencePlace (occurrence : Occurrence) : String × Int × Int :=
  (occurrence.name,occurrence.start,occurrence.start + occurrence.name.length)

theorem recorded_of_standsAt (document : Document) (identifiers : Identifiers)
    (found : List Occurrence)
    (held : ∀ occurrence ∈ found, StandsAt document.text occurrence.name.toList occurrence.start)
    (category : Category) :
    (recorded document (found.filterMap fun occurrence =>
        (categoryOf? identifiers occurrence.name occurrence.scope).map fun category =>
          ⟨occurrence.name,occurrence.start,category⟩) category).map rangePlace =
      (found.filter fun occurrence =>
        categoryOf? identifiers occurrence.name occurrence.scope = some category).map
        occurrencePlace := by
  induction found with
  | nil => rfl
  | cons occurrence rest ih =>
    have later := ih fun other member => held other (List.mem_cons_of_mem _ member)
    obtain ⟨first,last,ranged⟩ := document.rangeOf_of_standsAt occurrence.start occurrence.name
      (held occurrence List.mem_cons_self)
    unfold recorded at later ⊢
    cases classified : categoryOf? identifiers occurrence.name occurrence.scope with
    | none => simpa [classified] using later
    | some given =>
      by_cases same : given = category
      · simpa [classified,same,range?,ranged,Except.toOption,rangePlace,occurrencePlace] using later
      · simpa [classified,same] using later

/-- No occurrence is lost on the live text: every occurrence with a category gets a range,
the ranges of a category are those of its occurrences in their order, and the text holds the
name of each range between its ends. Of the trees of expressions that do not parse it is only
asked that nodes hold the text they span. -/
theorem classified_occurrences_recorded [Recovery] (holds : Recovery.HoldsText) (filename : String)
    (text : List Char) (parsed : Component.Parsed) (nodes : List Template.Node)
    (identifiers : Identifiers) (document : Document) (split : Component.parse filename text = .ok parsed)
    (tree : parsed.descriptor.tree? = some nodes)
    (live : document.text = text) :
    (∀ occurrence ∈ occurrences nodes, ∀ category,
      categoryOf? identifiers occurrence.name occurrence.scope = some category →
      ∃ range ∈ (markTemplate (some nodes) identifiers document).ranges category,
        document.rangeOf occurrence.start (occurrence.start + occurrence.name.length)
          occurrence.name = .ok range) ∧
    (∀ category,
      ((markTemplate (some nodes) identifiers document).ranges category).map rangePlace =
        ((occurrences nodes).filter fun occurrence =>
          categoryOf? identifiers occurrence.name occurrence.scope = some category).map
          occurrencePlace) ∧
    ∀ category, ∀ range ∈ (markTemplate (some nodes) identifiers document).ranges category,
      0 ≤ range.start ∧ range.start ≤ range.stop ∧ range.stop ≤ text.length ∧
        slice text range.start.toNat range.stop.toNat = range.name.toList := by
  subst live
  have held := standsAt_occurrence holds split tree
  have all := recorded_of_standsAt document identifiers (occurrences nodes) held
  refine ⟨?_,all,?_⟩
  · intro occurrence member category classified
    obtain ⟨first,last,ranged⟩ := document.rangeOf_of_standsAt occurrence.start occurrence.name
      (held occurrence member)
    have candidate : ⟨occurrence.name,occurrence.start,category⟩ ∈ candidates identifiers nodes :=
      List.mem_filterMap.mpr ⟨occurrence,member,by rw [classified]; rfl⟩
    refine ⟨_,List.mem_filterMap.mpr ⟨_,List.mem_filter.mpr ⟨candidate,by simp⟩,?_⟩,ranged⟩
    rw [range?,ranged]
    rfl
  · intro category range member
    have place : rangePlace range ∈ ((occurrences nodes).filter fun occurrence =>
        categoryOf? identifiers occurrence.name occurrence.scope = some category).map
        occurrencePlace := by
      rw [← all category]
      exact List.mem_map_of_mem member
    obtain ⟨occurrence,inside,same⟩ := List.mem_map.mp place
    have stands := held occurrence (List.mem_filter.mp inside).1
    simp only [occurrencePlace,rangePlace,Prod.mk.injEq] at same
    obtain ⟨named,started,stopped⟩ := same
    rw [← named,← started,← stopped,← String.length_toList]
    exact ⟨stands.nonneg,by omega,stands.stop_le,stands.slice_eq⟩

/-- A loop, a dynamic argument and an interpolation that does not parse, behind characters of more
than one byte. -/
theorem classified_occurrences_recorded_behind_accents :
    let _ := Recovery.leading
    let text := "<template><p é v-for=\"ö in n\" :[n]=\"ö\">é \x7b\x7b n + \x7d\x7d</p></template>".toList
    let identifiers := (Collector.empty.add "n" .ref "const n = ref(0)").build
    ∃ parsed nodes, Component.parse "a.vue" text = .ok parsed ∧
      parsed.descriptor.tree? = some nodes ∧
      ((markTemplate (some nodes) identifiers ⟨"a.vue",1,text⟩).ranges .ref).map rangePlace =
        [("n",27,28),("n",32,33),("n",44,45)] ∧
      ∀ range ∈ (markTemplate (some nodes) identifiers ⟨"a.vue",1,text⟩).ranges .ref,
        slice text range.start.toNat range.stop.toNat = range.name.toList := by
  rw [String.toList_ofList]
  intro _ text identifiers
  have marked : ((Component.parse "a.vue" text).toOption.bind fun parsed =>
      parsed.descriptor.tree?).map (fun nodes =>
        ((markTemplate (some nodes) identifiers ⟨"a.vue",1,text⟩).ranges .ref).map rangePlace) =
      some [("n",27,28),("n",32,33),("n",44,45)] := by decide +kernel
  obtain ⟨nodes,found,places⟩ := Option.map_eq_some_iff.mp marked
  obtain ⟨parsed,succeeded,tree⟩ := Option.bind_eq_some_iff.mp found
  have split := Component.eq_ok_of_toOption succeeded
  have recorded := classified_occurrences_recorded Recovery.holdsText_leading "a.vue" text parsed nodes
    identifiers ⟨"a.vue",1,text⟩ split tree rfl
  refine ⟨parsed,nodes,split,tree,places,?_⟩
  intro range member
  exact (recorded.2.2 .ref range member).2.2.2

end VueScope.Analysis
