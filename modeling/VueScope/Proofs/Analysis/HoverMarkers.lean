import VueScope.Analysis.Hover
import VueScope.Proofs.Analysis.Ranges
import VueScope.Proofs.Analysis.LiveText
import VueScope.Proofs.Text.Words

/-! Hovering over a marked name. The scan for a word finds a marked name from every offset that
touches it, unless the name holds a character that the scan takes for no part of a word. -/
namespace VueScope.Analysis

open Text Template

section

variable [Recovery] {document : Document} {result : Result} {category : Category} {range : Document.Range}

/-- An expression that is searched for names in the template of a document. -/
def Searched (document : Document) (expression : Expression) : Prop :=
  ∃ parsed nodes, Component.parse (filenameOf document) document.text = .ok parsed ∧
    parsed.descriptor.tree? = some nodes ∧
    ∃ part ∈ scannedInAll [] nodes, part.expression = expression

theorem exists_occurrence_of_range (analyzed : analyze document = .ok result)
    (member : range ∈ result.ranges category) :
    ∃ parsed nodes, Component.parse (filenameOf document) document.text = .ok parsed ∧
      parsed.descriptor.tree? = some nodes ∧
      ∃ occurrence ∈ occurrences nodes, rangePlace range = occurrencePlace occurrence ∧
        categoryOf? result.identifiers range.name occurrence.scope = some category := by
  obtain ⟨parsed,identifiers,split,_,rfl⟩ := (analyze_eq_ok_iff document result).mp analyzed
  cases tree : parsed.descriptor.tree? with
  | none =>
    rw [tree] at member
    contradiction
  | some nodes =>
    rw [tree] at member
    obtain ⟨candidate,found,rfl,named,placed⟩ := exists_candidate_of_recorded document _ category range member
    obtain ⟨occurrence,inside,classified⟩ := List.mem_filterMap.mp found
    obtain ⟨category,filed,rfl⟩ := Option.map_eq_some_iff.mp classified
    refine ⟨parsed,nodes,split,tree,occurrence,inside,Prod.ext named placed,?_⟩
    rw [named]
    exact filed

/-- If the faults of its markup are passed over and the expression parses that it stands in, a range is a
whole word. -/
theorem bounded_range (holds : Recovery.HoldsText) (analyzed : analyze document = .ok result)
    (member : range ∈ result.ranges category) (passed : Markup.PassesFaults document.text)
    (parses : ∀ expression, Searched document expression → expression.offset ≤ range.start →
      range.stop ≤ expression.stop → (ExpressionTree.read? expression.content).isSome) :
    range.name ≠ "" ∧ Bounded document.text range.name.toList range.start := by
  obtain ⟨parsed,nodes,split,tree,occurrence,found,placed,_⟩ := exists_occurrence_of_range analyzed member
  obtain ⟨part,searched,reference,referred,rfl⟩ := exists_reference found
  simp only [rangePlace,occurrencePlace,Prod.mk.injEq] at placed
  obtain ⟨named,start,stop⟩ := placed
  have inside := standsAt_reference holds referred
  have low := inside.nonneg
  have high := inside.stop_le
  rw [String.length_toList] at high
  have parsed := parses part.expression ⟨parsed,nodes,split,tree,part,searched,rfl⟩ (by omega)
    (by simp only [Expression.stop]; omega)
  obtain ⟨filled,bounded⟩ := bounded_reference parsed referred
  rw [named,start]
  exact ⟨filled,(Component.bounded_parse passed split tree part searched).within bounded⟩

end

theorem categoryOf?_of_contains {identifiers : Identifiers} {name : String} {scope : List String}
    {category : Category} (classified : identifiers.contains name = true)
    (filed : categoryOf? identifiers name scope = some category) :
    identifiers.categoryOf? name = some category := by
  unfold categoryOf? at filed
  rw [classified,Bool.not_true,Bool.and_false,if_neg (by decide)] at filed
  split at filed
  · contradiction
  · exact filed

theorem describe?_of_categoryOf? (identifiers : Identifiers) (name : String) (category : Category)
    (found : identifiers.categoryOf? name = some category) :
    ∃ definition, describe? identifiers name = some (category,definition) := by
  unfold Identifiers.categoryOf? at found
  unfold describe?
  generalize Category.all = categories at found ⊢
  induction categories with
  | nil => contradiction
  | cons first rest ih =>
    rw [List.find?_cons] at found
    rw [List.findSome?_cons]
    cases held : (identifiers.get first).get? name with
    | some definition =>
      have here : (identifiers.get first).contains name = true := by
        rw [OrderedMap.contains,held]
        rfl
      rw [here] at found
      cases found
      exact ⟨definition,rfl⟩
    | none =>
      have absent : (identifiers.get first).contains name = false := by
        rw [OrderedMap.contains,held]
        rfl
      rw [absent] at found
      exact ih found

/-- A hover that tells what a marked range is. -/
structure Hover.Describes (hover : Hover) (category : Category) (range : Document.Range) : Prop where
  name : hover.name = range.name
  category : hover.category = category
  start : (hover.start : Int) = range.start
  stop : (hover.stop : Int) = range.stop

/-- Hover agrees with the markers: from every offset that touches a marked name of the script,
the name is found and described as it is marked, exactly if all its characters are ASCII letters,
digits, underscores or dollar signs and it is a whole word of the text. It is one unless the
markup has faults or the expression that it stands in does not parse. -/
theorem hover_describes_marked_iff [Recovery] (document : Document) (result : Result)
    (icons : Presentation) (category : Category) (range : Document.Range) (offset : Int)
    (analyzed : analyze document = .ok result) (member : range ∈ result.ranges category)
    (classified : result.identifiers.contains range.name = true) (low : range.start ≤ offset)
    (high : offset ≤ range.stop) :
    ((∃ hover, hover? result.identifiers document.text offset icons = some hover ∧
        hover.Describes category range) ↔
      (∀ c ∈ range.name.toList, isWordChar c = true) ∧ range.name ≠ "" ∧
        Bounded document.text range.name.toList range.start) ∧
    (Recovery.HoldsText → Markup.PassesFaults document.text →
      (∀ expression, Searched document expression → expression.offset ≤ range.start →
        range.stop ≤ expression.stop → (ExpressionTree.read? expression.content).isSome) →
      range.name ≠ "" ∧ Bounded document.text range.name.toList range.start) := by
  refine ⟨⟨?_,?_⟩,fun holds => bounded_range holds analyzed member⟩
  · rintro ⟨hover,found,describes⟩
    unfold hover? at found
    split at found
    · contradiction
    next word scanned =>
      obtain ⟨description,_,rfl⟩ := Option.map_eq_some_iff.mp found
      have same : word.text = range.name.toList := by
        rw [← describes.name,String.toList_ofList]
      rw [← same,← describes.start]
      obtain ⟨all,some,bounded⟩ := bounded_of_wordAt scanned
      refine ⟨all,fun empty => some ?_,bounded⟩
      rw [same,empty]
      rfl
  · rintro ⟨word,some,bounded⟩
    obtain ⟨_,_,_,_,occurrence,_,placed,filed⟩ := exists_occurrence_of_range analyzed member
    have stop : range.stop = range.start + range.name.toList.length := by
      simp only [rangePlace,occurrencePlace,Prod.mk.injEq] at placed
      rw [placed.2.2,placed.2.1,placed.1,String.length_toList]
    have nonempty : range.name.toList ≠ [] := fun none => some (String.toList_inj.mp none)
    have scanned := wordAt_of_bounded bounded nonempty word low (stop ▸ high)
    obtain ⟨definition,described⟩ :=
      describe?_of_categoryOf? _ _ _ (categoryOf?_of_contains classified filed)
    have start := Int.toNat_of_nonneg bounded.stands.nonneg
    have ends : ((range.start.toNat + range.name.toList.length : Nat) : Int) = range.stop := by
      omega
    refine ⟨⟨range.name,category,(icons.get? category.key).getD "",definition,range.start.toNat,
      range.start.toNat + range.name.toList.length⟩,?_,rfl,rfl,start,ends⟩
    rw [hover?,scanned]
    simp only [String.ofList_toList,described,Option.map_some]

/-- A name that is marked in a loop and in its body, hovered over from both ends. -/
theorem hover_describes_marked_ref :
    let text := ("<template><p v-for=\"x of n$\">\x7b\x7b x+n$ \x7d\x7d</p></template>" ++
      "<script setup>const n$ = ref(0)</script>").toList
    ∃ result, analyzeText text = .ok result ∧
      (result.ranges .ref).map rangePlace = [("n$",25,27),("n$",34,36)] ∧
      ∀ range ∈ result.ranges .ref, ∀ offset, range.start ≤ offset → offset ≤ range.stop →
        ∃ hover, hover? result.identifiers text offset .defaultIcons = some hover ∧
          hover.Describes .ref range := by
  rw [String.toList_append,String.toList_ofList,String.toList_ofList]
  intro text
  have ran : (analyzeText text).toOption.map (fun result =>
      ((result.ranges .ref).map rangePlace,result.identifiers.contains "n$")) =
      some ([("n$",25,27),("n$",34,36)],true) := by decide +kernel
  obtain ⟨result,succeeded,found⟩ := Option.map_eq_some_iff.mp ran
  obtain ⟨places,classified⟩ := Prod.ext_iff.mp found
  have analyzed : analyzeText text = .ok result := Component.eq_ok_of_toOption succeeded
  refine ⟨result,analyzed,places,?_⟩
  intro range member offset low high
  have place := List.mem_map_of_mem (f := rangePlace) member
  dsimp only at places
  rw [places] at place
  simp only [List.mem_cons,rangePlace,Prod.mk.injEq,List.not_mem_nil,or_false] at place
  have held : range.name = "n$" ∧ Bounded text "n$".toList range.start := by
    rcases place with ⟨named,start,_⟩ | ⟨named,start,_⟩
    · exact ⟨named,text.take 25,text.drop 27,by decide,start,.of_left (by decide),.of_right (by decide)⟩
    · exact ⟨named,text.take 34,text.drop 36,by decide,start,.of_left (by decide),.of_right (by decide)⟩
  obtain ⟨named,bounded⟩ := held
  refine (hover_describes_marked_iff _ result .defaultIcons .ref range offset analyzed member ?_ low
    high).1.mpr ?_
  · rw [named]
    exact classified
  · rw [named]
    exact ⟨List.all_eq_true.mp rfl,by decide,bounded⟩

/-- A name with an accent is marked, and nothing is shown at any offset that touches it. -/
theorem accented_name_has_no_hover :
    let text := ("<template>\x7b\x7b naïve \x7d\x7d</template>" ++
      "<script setup>const naïve = 1</script>").toList
    ∃ result, analyzeText text = .ok result ∧
      (result.ranges .localState).map rangePlace = [("naïve",13,18)] ∧
      result.identifiers.contains "naïve" = true ∧
      ∀ offset ∈ [13,14,15,16,17,18],
        hover? result.identifiers text offset .defaultIcons = none := by
  rw [String.toList_append,String.toList_ofList,String.toList_ofList]
  intro text
  have ran : (analyzeText text).toOption.map (fun result =>
      ((result.ranges .localState).map rangePlace,result.identifiers.contains "naïve",
        [13,14,15,16,17,18].all fun offset =>
          decide (hover? result.identifiers text offset .defaultIcons = none))) =
      some ([("naïve",13,18)],true,true) := by decide +kernel
  obtain ⟨result,succeeded,found⟩ := Option.map_eq_some_iff.mp ran
  obtain ⟨places,rest⟩ := Prod.ext_iff.mp found
  obtain ⟨classified,silent⟩ := Prod.ext_iff.mp rest
  refine ⟨result,Component.eq_ok_of_toOption succeeded,places,classified,?_⟩
  intro offset member
  exact of_decide_eq_true (List.all_eq_true.mp silent offset member)

end VueScope.Analysis
