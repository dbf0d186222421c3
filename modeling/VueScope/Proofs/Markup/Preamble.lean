import VueScope.Proofs.Markup.Mask
import VueScope.Proofs.Markup.Recovery
import VueScope.Proofs.Markup.Shift

/-! What may stand before a component without a change to it: line ends, and comments in which no
two dashes follow one another. Masking leaves it alone, whatever braces the comments hold, and
reading passes over it. -/
namespace VueScope.Markup

open Text

section Comment

variable {inner : List Char}

end Comment

namespace Piece

end Piece

namespace Stretch

theorem splitWithin_eq_of_fuel (fuel more : Nat) (text : List Char) (enough : text.length ≤ fuel)
    (others : text.length ≤ more) : splitWithin fuel text = splitWithin more text := by
  have empty (fuel : Nat) : splitWithin fuel [] = [] := by cases fuel <;> rfl
  induction fuel generalizing more text with
  | zero => rw [List.eq_nil_of_length_eq_zero (Nat.le_zero.mp enough),empty,empty]
  | succ fuel ih =>
    cases text with
    | nil => rw [empty,empty]
    | cons c cs =>
      cases more with
      | zero => contradiction
      | succ more =>
        rw [List.length_cons] at enough others
        rw [splitWithin,splitWithin]
        split
        next after region =>
          have shorter := (suffix_of_afterRawRegion? region).length_le
          rw [List.tail_cons] at shorter
          rw [ih more after (by omega) (by omega)]
        · rw [ih more cs (by omega) (by omega)]

end Stretch

variable {lead : List Char}

end VueScope.Markup
