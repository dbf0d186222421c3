import VueScope.Proofs.Text.Seam

/-! The word at an offset. Every offset lies inside a run of word characters, which may be empty; a run that
is not empty is the word at each of its offsets. -/
namespace VueScope.Text

theorem exists_run (text : List Char) : ∃ run rest, text = run ++ rest ∧
    (∀ c ∈ run, isWordChar c = true) ∧ startsWithWord rest = false := by
  refine ⟨text.takeWhile isWordChar,text.drop (text.takeWhile isWordChar).length,?_,
    fun c => List.mem_takeWhile_imp,startsWithWord_drop_takeWhile isWordChar text fun _ => id⟩
  have whole := List.take_append_drop (text.takeWhile isWordChar).length text
  rw [← List.prefix_iff_eq_take.mp (List.takeWhile_prefix _)] at whole
  exact whole.symm

/-- Word characters before a place and after it, and no others around them. -/
structure IsRun (outer before after rest : List Char) : Prop where
  word : ∀ c ∈ before ++ after, isWordChar c = true
  opens : endsInWord outer = false
  closes : startsWithWord rest = false

theorem exists_isRun_between (front back : List Char) :
    ∃ outer before after rest, front = outer ++ before ∧ back = after ++ rest ∧
      IsRun outer before after rest := by
  obtain ⟨run,outer,taken,word,opens⟩ := exists_run front.reverse
  obtain ⟨after,rest,left,word',closes⟩ := exists_run back
  refine ⟨outer.reverse,run.reverse,after,rest,?_,left,?_,?_,closes⟩
  · rw [← List.reverse_append,← taken,List.reverse_reverse]
  · intro c member
    rcases List.mem_append.mp member with early | late
    · exact word c (List.mem_reverse.mp early)
    · exact word' c late
  · rw [← startsWithWord_reverse,List.reverse_reverse]
    exact opens

theorem exists_isRun {text : List Char} {offset : Int} (low : 0 ≤ offset) (high : offset ≤ text.length) :
    ∃ outer before after rest, text = outer ++ before ++ (after ++ rest) ∧
      offset = (outer ++ before).length ∧ IsRun outer before after rest := by
  obtain ⟨outer,before,after,rest,taken,left,run⟩ :=
    exists_isRun_between (text.take offset.toNat) (text.drop offset.toNat)
  refine ⟨outer,before,after,rest,?_,?_,run⟩
  · rw [← taken,← left,List.take_append_drop]
  · rw [← taken,List.length_take]
    omega

/-- A word of a text as a whole. -/
def HoldsWord (text word : List Char) : Prop :=
  ∃ outer rest, outer ++ word ++ rest = text ∧ IsRun outer [] word rest

theorem exists_holdsWord {pattern text : List Char} (word : ∀ c ∈ pattern, isWordChar c = true)
    (held : pattern <:+: text) : ∃ whole, HoldsWord text whole ∧ pattern <:+: whole := by
  obtain ⟨front,back,rfl⟩ := held
  obtain ⟨outer,before,after,rest,rfl,rfl,run⟩ := exists_isRun_between front back
  refine ⟨before ++ pattern ++ after,⟨outer,rest,by simp only [List.append_assoc],?_,run.opens,run.closes⟩,
    before,after,rfl⟩
  intro c member
  simp only [List.nil_append,List.append_assoc,List.mem_append] at member
  rcases member with early | own | late
  · exact run.word c (List.mem_append_left _ early)
  · exact word c own
  · exact run.word c (List.mem_append_right _ late)

namespace IsRun

variable {outer before after rest : List Char} (run : IsRun outer before after rest)
include run

theorem wordAt_eq_some (some : before ++ after ≠ []) (offset : Int) (low : outer.length ≤ offset)
    (high : offset ≤ outer.length + (before ++ after).length) :
    wordAt (outer ++ before ++ (after ++ rest)) offset = .some ⟨before ++ after,outer.length,
      outer.length + (before ++ after).length⟩ := by
  have bounded : Bounded (outer ++ before ++ (after ++ rest)) (before ++ after) outer.length :=
    ⟨outer,rest,by simp only [List.append_assoc],rfl,.of_left run.opens,.of_right run.closes⟩
  exact wordAt_of_bounded bounded some run.word low high

theorem wordAt_eq_none (none : before ++ after = []) :
    wordAt (outer ++ before ++ (after ++ rest)) (outer ++ before).length = .none := by
  obtain ⟨rfl,rfl⟩ := List.append_eq_nil_iff.mp none
  have front : outer.reverse.takeWhile isWordChar = [] :=
    takeWhile_append_of_seam (List.forall_mem_nil _) (startsWithWord_reverse _ ▸ run.opens)
  have back : rest.takeWhile isWordChar = [] := takeWhile_append_of_seam (List.forall_mem_nil _) run.closes
  rw [List.append_nil,List.nil_append,wordAt]
  split
  · rfl
  · simp only [Int.toNat_natCast,List.take_left,List.drop_left,front,back,List.length_nil,if_true]

theorem eq_nil_iff : before ++ after = [] ↔
    endsInWord (outer ++ before) = false ∧ startsWithWord (after ++ rest) = false := by
  rw [List.append_eq_nil_iff]
  constructor
  · rintro ⟨rfl,rfl⟩
    rw [List.append_nil]
    exact ⟨run.opens,run.closes⟩
  · rintro ⟨ends,starts⟩
    constructor
    · rcases List.eq_nil_or_concat' before with none | ⟨front,last,rfl⟩
      · exact none
      · rw [← List.append_assoc,endsInWord_concat,run.word last (by simp)] at ends
        contradiction
    · cases after with
      | nil => rfl
      | cons c later =>
        rw [List.cons_append,startsWithWord_cons,run.word c (by simp)] at starts
        contradiction

end IsRun

theorem bounded_of_wordAt {text : List Char} {offset : Int} {word : Word}
    (found : wordAt text offset = some word) :
    (∀ c ∈ word.text, isWordChar c = true) ∧ word.text ≠ [] ∧ Bounded text word.text word.start := by
  have inside : 0 ≤ offset ∧ offset ≤ text.length := by
    by_contra outside
    rw [wordAt,if_pos (by simp only [Bool.or_eq_true,decide_eq_true_eq]; omega)] at found
    contradiction
  obtain ⟨outer,before,after,rest,rfl,rfl,run⟩ := exists_isRun inside.1 inside.2
  by_cases empty : before ++ after = []
  · rw [run.wordAt_eq_none empty] at found
    contradiction
  · rw [run.wordAt_eq_some empty _ (by rw [List.length_append]; omega)
      (by simp only [List.length_append]; omega)] at found
    cases found
    exact ⟨run.word,empty,outer,rest,by simp,rfl,.of_left run.opens,.of_right run.closes⟩

/-- The word at an offset is the longest run of letters, digits, underscores and dollar signs that touches
it, and it is the word at each of its offsets. There is none just if no such character stands right before
or right after the offset. -/
theorem word_is_maximal_run (text : List Char) (offset : Int) (low : 0 ≤ offset)
    (high : offset ≤ text.length) :
    (wordAt text offset = none ↔ endsInWord (text.take offset.toNat) = false ∧
      startsWithWord (text.drop offset.toNat) = false) ∧
    ∀ word, wordAt text offset = some word →
      word.start ≤ offset ∧ offset ≤ word.stop ∧ word.start < word.stop ∧ word.stop ≤ text.length ∧
      word.text = (text.drop word.start).take (word.stop - word.start) ∧
      (∀ c ∈ word.text, isWordChar c = true) ∧
      endsInWord (text.take word.start) = false ∧ startsWithWord (text.drop word.stop) = false ∧
      ∀ other : Int, word.start ≤ other → other ≤ word.stop → wordAt text other = some word := by
  obtain ⟨outer,before,after,rest,rfl,rfl,run⟩ := exists_isRun low high
  rw [Int.toNat_natCast,List.take_left,List.drop_left,← run.eq_nil_iff]
  by_cases empty : before ++ after = []
  · refine ⟨iff_of_true (run.wordAt_eq_none empty) empty,fun word found => ?_⟩
    rw [run.wordAt_eq_none empty] at found
    contradiction
  have size := List.length_pos_iff.mpr empty
  have below : (outer.length : Int) ≤ (outer ++ before).length := by
    rw [List.length_append]
    omega
  have above : ((outer ++ before).length : Int) ≤ outer.length + (before ++ after).length := by
    simp only [List.length_append]
    omega
  have everywhere := run.wordAt_eq_some empty
  have found := everywhere _ below above
  refine ⟨iff_of_false (by rw [found]; nofun) empty,fun word same => ?_⟩
  obtain rfl := Option.some.inj (found.symm.trans same)
  have parts : outer ++ before ++ (after ++ rest) = outer ++ ((before ++ after) ++ rest) := by
    simp only [List.append_assoc]
  refine ⟨below,above,Nat.lt_add_of_pos_right size,?_,?_,run.word,?_,?_,everywhere⟩
  · simp only [List.length_append]
    omega
  · rw [parts,List.drop_left,Nat.add_sub_cancel_left,List.take_left]
  · rw [parts,List.take_left]
    exact run.opens
  · rw [parts,List.drop_length_add_append,List.drop_left]
    exact run.closes

/-- A word that is touched at its end, after another one. -/
theorem second_word_is_maximal_run :
    wordAt "a + $emit(x)".toList 9 = some ⟨"$emit".toList,4,9⟩ ∧
      wordAt "a + $emit(x)".toList 4 = some ⟨"$emit".toList,4,9⟩ ∧ wordAt "a + $emit(x)".toList 3 = none := by
  have found : wordAt "a + $emit(x)".toList 9 = some ⟨"$emit".toList,4,9⟩ := by decide
  obtain ⟨_,maximal⟩ := word_is_maximal_run "a + $emit(x)".toList 9 (by decide) (by decide)
  obtain ⟨_,_,_,_,_,_,_,_,everywhere⟩ := maximal _ found
  refine ⟨found,everywhere 4 (by decide) (by decide),?_⟩
  exact (word_is_maximal_run "a + $emit(x)".toList 3 (by decide) (by decide)).1.mpr (by decide)

end VueScope.Text
