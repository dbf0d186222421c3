import Mathlib.Data.List.TakeWhile
import VueScope.Script.Lexeme

/-! The text of a name. A word may be spelled with escapes, but no parenthesis is part of it,
so a name never reaches over the parentheses that an expression is put in. -/
namespace VueScope.Script

/-- A name is not empty, and no parenthesis stands in it. -/
structure IsName (text : List Char) : Prop where
  nonempty : text ≠ []
  noParenthesis : ∀ c ∈ text, c ≠ '(' ∧ c ≠ ')'

namespace Lexeme

theorem continuesName_noParenthesis (c : Char) (continues : continuesName c = true) :
    c ≠ '(' ∧ c ≠ ')' := by
  constructor <;> rintro rfl <;> exact absurd continues (by decide)

theorem isHexDigit_noParenthesis {c : Char} (digit : isHexDigit c = true) : c ≠ '(' ∧ c ≠ ')' := by
  constructor <;> rintro rfl <;> exact absurd digit (by decide)

variable (text : List Char)

theorem codePointLength?_noParenthesis (width : Nat)
    (found : codePointLength? text = some width) :
    0 < width ∧ ∀ c ∈ text.take width, c ≠ '(' ∧ c ≠ ')' := by
  unfold codePointLength? at found
  split at found
  next rest =>
    dsimp only at found
    split at found
    next after closed =>
      split at found
      · contradiction
      · cases found
        refine ⟨by omega,?_⟩
        intro c member
        have written : rest.take ((rest.takeWhile isHexDigit).length + 1) =
            rest.takeWhile isHexDigit ++ ['}'] := by
          rw [List.take_add,closed,← List.prefix_iff_eq_take.mp (List.takeWhile_prefix _)]
          rfl
        simp only [List.take_succ_cons,written,List.mem_cons,List.mem_append,List.not_mem_nil,
          or_false] at member
        rcases member with rfl | rfl | rfl | digit | rfl
        · decide
        · decide
        · decide
        · exact isHexDigit_noParenthesis (List.mem_takeWhile_imp digit)
        · decide
    · contradiction
  next a b c d rest _ =>
    split at found
    next all =>
      cases found
      refine ⟨by omega,?_⟩
      simp only [List.all_cons,List.all_nil,Bool.and_true,Bool.and_eq_true] at all
      intro x member
      simp only [List.take_succ_cons,List.take_zero,List.mem_cons,List.not_mem_nil,or_false] at member
      rcases member with rfl | rfl | rfl | rfl | rfl | rfl
      · decide
      · decide
      · exact isHexDigit_noParenthesis all.1
      · exact isHexDigit_noParenthesis all.2.1
      · exact isHexDigit_noParenthesis all.2.2.1
      · exact isHexDigit_noParenthesis all.2.2.2
    · contradiction
  · contradiction

theorem nameRestLength_noParenthesis (fuel : Nat) (text : List Char) :
    ∀ c ∈ text.take (nameRestLength fuel text), c ≠ '(' ∧ c ≠ ')' := by
  induction fuel generalizing text with
  | zero => simp [nameRestLength]
  | succ fuel ih =>
    cases text with
    | nil => simp [nameRestLength]
    | cons c cs =>
      rw [nameRestLength]
      split
      next continues =>
        intro x member
        rw [List.take_succ_cons,List.mem_cons] at member
        rcases member with rfl | later
        · exact continuesName_noParenthesis x continues
        · exact ih cs x later
      · split
        · simp
        next width found =>
          obtain ⟨positive,escaped⟩ := codePointLength?_noParenthesis (c :: cs) width found
          have after : (c :: cs).drop width = cs.drop (width - 1) := by
            obtain ⟨before,rfl⟩ : ∃ before, width = before + 1 := ⟨width - 1,by omega⟩
            rfl
          intro x member
          rw [Nat.add_comm,List.take_add,after,List.mem_append] at member
          rcases member with here | later
          · exact escaped x here
          · exact ih _ x later

theorem take_word : text.take (word text).length = word text := by
  unfold word
  split
  · rfl
  · split
    · rw [List.length_take,← List.take_eq_take_min]
    · rfl

theorem word_length_le : (word text).length ≤ text.length := by
  rw [← take_word text]
  exact List.length_take_le' _ _

theorem word_isName (nonempty : word text ≠ []) : IsName (word text) := by
  refine ⟨nonempty,?_⟩
  unfold word
  split
  · simp
  · split
    · exact nameRestLength_noParenthesis _ _
    · simp

end Lexeme

end VueScope.Script
