import Mathlib.Data.List.Basic
import Mathlib.Data.List.TakeWhile
import VueScope.Proofs.Text.Part
import VueScope.Text.Word

/-! Places in a text where no word runs on. A part with such places at both ends is a whole word
if it is made of word characters, and it is the word at every offset that touches it. -/
namespace VueScope.Text

def endsInWord (text : List Char) : Bool :=
  text.getLast?.any isWordChar

def startsWithWord (text : List Char) : Bool :=
  text.head?.any isWordChar

/-- No word runs on from the first text into the second. -/
def Seam (first second : List Char) : Prop :=
  endsInWord first = true → startsWithWord second = false

/-- A text holds a part at an offset, and no word runs on into the part or out of it. -/
def Bounded (text part : List Char) (offset : Int) : Prop :=
  ∃ before after, text = before ++ part ++ after ∧ offset = (before.length : Int) ∧
    Seam before part ∧ Seam part after

/-- A text holds a part at an offset, and no word runs on out of the part. -/
def BoundedBehind (text part : List Char) (offset : Int) : Prop :=
  ∃ before after, text = before ++ part ++ after ∧ offset = (before.length : Int) ∧ Seam part after

theorem toNat_of_isWordChar {c : Char} (word : isWordChar c = true) :
    36 ≤ c.toNat ∧ c.toNat ≤ 122 := by
  have letters : c.isAlphanum = ((decide (65 ≤ c.val ∧ c.val ≤ 90) ||
      decide (97 ≤ c.val) && decide (c.val ≤ 122)) || decide (48 ≤ c.val) && decide (c.val ≤ 57)) := rfl
  simp only [isWordChar,letters,Bool.or_eq_true,Bool.and_eq_true,decide_eq_true_eq,
    UInt32.le_iff_toNat_le] at word
  change (((65 ≤ c.toNat ∧ c.toNat ≤ 90 ∨ 97 ≤ c.toNat ∧ c.toNat ≤ 122) ∨
    48 ≤ c.toNat ∧ c.toNat ≤ 57) ∨ c = '_') ∨ c = '$' at word
  rcases word with ((letter | digit) | rfl) | rfl
  · omega
  · omega
  · decide
  · decide

theorem isWordChar_of_isSpace {c : Char} (space : isSpace c = true) : isWordChar c = false := by
  apply Bool.eq_false_iff.mpr
  intro word
  have code := toNat_of_isWordChar word
  simp only [isSpace,isWhite,Bool.or_eq_true,Bool.and_eq_true,decide_eq_true_eq,beq_iff_eq] at space
  omega

theorem isWordChar_of_any {marks : List Char} (plain : marks.any isWordChar = false) {c : Char}
    (member : c ∈ marks) : isWordChar c = false :=
  Bool.eq_false_iff.mpr (List.any_eq_false.mp plain c member)

@[simp] theorem startsWithWord_cons (c : Char) (rest : List Char) :
    startsWithWord (c :: rest) = isWordChar c := rfl

@[simp] theorem endsInWord_concat (lead : List Char) (c : Char) :
    endsInWord (lead ++ [c]) = isWordChar c := by
  simp [endsInWord]

theorem startsWithWord_append {first : List Char} (second : List Char) (nonempty : first ≠ []) :
    startsWithWord (first ++ second) = startsWithWord first := by
  obtain ⟨c,rest,rfl⟩ := List.exists_cons_of_ne_nil nonempty
  rfl

theorem endsInWord_append (first : List Char) {second : List Char} (nonempty : second ≠ []) :
    endsInWord (first ++ second) = endsInWord second := by
  obtain ⟨lead,last,rfl⟩ := (List.eq_nil_or_concat' _).resolve_left nonempty
  rw [← List.append_assoc,endsInWord_concat,endsInWord_concat]

variable {lead trail after : List Char}

namespace Seam

variable {first middle second : List Char}

theorem of_left (ends : endsInWord first = false) : Seam first second := by
  intro word
  simp [ends] at word

theorem of_right (starts : startsWithWord second = false) : Seam first second :=
  fun _ => starts

theorem nil_left (second : List Char) : Seam [] second :=
  of_left rfl

theorem nil_right (first : List Char) : Seam first [] :=
  of_right rfl

theorem append_left_iff (nonempty : middle ≠ []) :
    Seam (first ++ middle) second ↔ Seam middle second := by
  rw [Seam,endsInWord_append first nonempty,Seam]

theorem append_right_iff (nonempty : middle ≠ []) :
    Seam first (middle ++ second) ↔ Seam first middle := by
  rw [Seam,startsWithWord_append second nonempty,Seam]

theorem front (seam : Seam first (middle ++ second)) : Seam first middle := by
  by_cases none : middle = []
  · rw [none]
    exact nil_right first
  · exact (append_right_iff none).mp seam

theorem back (seam : Seam (first ++ middle) second) : Seam middle second := by
  by_cases none : middle = []
  · rw [none]
    exact nil_left second
  · exact (append_left_iff none).mp seam

theorem extend_left {part before : List Char} (begins : Seam lead part)
    (opens : Seam before (lead ++ part ++ trail)) : Seam (before ++ lead) part := by
  cases lead with
  | nil =>
    rw [List.append_nil]
    exact opens.front
  | cons c lead => exact (append_left_iff (by simp)).mpr begins

theorem extend_right {part : List Char} (ends : Seam part trail)
    (closes : Seam (lead ++ part ++ trail) after) : Seam part (trail ++ after) := by
  cases trail with
  | nil =>
    rw [List.append_nil] at closes
    exact closes.back
  | cons c trail => exact (append_right_iff (by simp)).mpr ends

theorem congr_right {other : List Char} (seam : Seam first second)
    (same : startsWithWord other = startsWithWord second) : Seam first other := by
  intro word
  rw [same]
  exact seam word

theorem join (before : middle = [] → Seam first second) (after : Seam middle second) :
    Seam (first ++ middle) second := by
  rcases List.eq_nil_or_concat' middle with rfl | ⟨lead,last,rfl⟩
  · rw [List.append_nil]
    exact before rfl
  · exact (append_left_iff (by simp)).mpr after

end Seam

namespace Bounded

variable {text middle part : List Char} {offset further : Int}

theorem stands (bounded : Bounded text part offset) : StandsAt text part offset := by
  obtain ⟨before,after,same,place,_,_⟩ := bounded
  exact ⟨before,after,same,place⟩

theorem within (outer : Bounded text middle offset) (inner : Bounded middle part further) :
    Bounded text part (offset + further) := by
  obtain ⟨before,after,rfl,rfl,opens,closes⟩ := outer
  obtain ⟨lead,trail,rfl,rfl,begins,ends⟩ := inner
  refine ⟨before ++ lead,trail ++ after,by simp [List.append_assoc],by simp,?_,?_⟩
  · exact begins.extend_left opens
  · exact ends.extend_right closes

end Bounded

namespace BoundedBehind

variable {text middle part : List Char} {offset further : Int}

theorem of_drop (text : List Char) (start : Nat) (inside : start ≤ text.length) :
    BoundedBehind text (text.drop start) start := by
  refine ⟨text.take start,[],?_,?_,Seam.nil_right _⟩
  · rw [List.append_nil,List.take_append_drop]
  · rw [List.length_take,Nat.min_eq_left inside]

theorem within (outer : BoundedBehind text middle offset) (inner : BoundedBehind middle part further) :
    BoundedBehind text part (offset + further) := by
  obtain ⟨before,after,rfl,rfl,closes⟩ := outer
  obtain ⟨lead,trail,rfl,rfl,ends⟩ := inner
  exact ⟨before ++ lead,trail ++ after,by simp [List.append_assoc],by simp,ends.extend_right closes⟩

theorem bounded (outer : BoundedBehind text middle offset) (inner : Bounded middle part further)
    (later : 0 < further) : Bounded text part (offset + further) := by
  obtain ⟨before,after,rfl,rfl,closes⟩ := outer
  obtain ⟨lead,trail,rfl,rfl,begins,ends⟩ := inner
  have some : lead ≠ [] := by
    rintro rfl
    simp at later
  refine ⟨before ++ lead,trail ++ after,by simp [List.append_assoc],by simp,?_,?_⟩
  · exact (Seam.append_left_iff some).mpr begins
  · exact ends.extend_right closes

end BoundedBehind

theorem endsInWord_of_forall (plain : ∀ c ∈ lead, isWordChar c = false) :
    endsInWord lead = false := by
  rcases List.eq_nil_or_concat' lead with rfl | ⟨front,last,rfl⟩
  · rfl
  · rw [endsInWord_concat]
    exact plain last (by simp)

theorem startsWithWord_of_forall (plain : ∀ c ∈ trail, isWordChar c = false) :
    startsWithWord trail = false := by
  cases trail with
  | nil => rfl
  | cons c rest => exact plain c List.mem_cons_self

theorem startsWithWord_drop_takeWhile (test : Char → Bool) (text : List Char)
    (stops : ∀ c, test c = false → isWordChar c = false) :
    startsWithWord (text.drop (text.takeWhile test).length) = false := by
  induction text with
  | nil => rfl
  | cons c rest ih =>
    rw [List.takeWhile_cons]
    split
    · exact ih
    next failed =>
      rw [Bool.not_eq_true] at failed
      exact stops c failed

theorem bounded_trimLeft (text : List Char) :
    Bounded text (trimLeft text) (text.length - (trimLeft text).length : Nat) := by
  refine ⟨text.takeWhile isSpace,[],by simp [trimLeft],?_,?_,Seam.nil_right _⟩
  · have parts := congrArg List.length (@List.takeWhile_append_dropWhile _ isSpace text)
    rw [List.length_append] at parts
    unfold trimLeft
    omega
  · apply Seam.of_left
    apply endsInWord_of_forall
    intro c member
    exact isWordChar_of_isSpace (List.mem_takeWhile_imp member)

theorem bounded_trimRight (text : List Char) : Bounded text (trimRight text) 0 := by
  refine ⟨[],(text.reverse.takeWhile isSpace).reverse,?_,rfl,Seam.nil_left _,?_⟩
  · rw [List.nil_append,trimRight,← List.reverse_append,List.takeWhile_append_dropWhile,
      List.reverse_reverse]
  · apply Seam.of_right
    apply startsWithWord_of_forall
    intro c member
    exact isWordChar_of_isSpace (List.mem_takeWhile_imp (List.mem_reverse.mp member))

theorem bounded_trim (text : List Char) :
    Bounded text (trim text) (text.length - (trimLeft text).length : Nat) := by
  have left := (bounded_trimLeft text).within (bounded_trimRight (trimLeft text))
  rwa [Int.add_zero] at left

/-! The word at an offset. -/

section Word

variable {part : List Char} (nonempty : part ≠ []) (word : ∀ c ∈ part, isWordChar c = true)
include nonempty word

theorem Seam.endsInWord_eq_false {before : List Char} (seam : Seam before part) :
    endsInWord before = false := by
  obtain ⟨c,rest,rfl⟩ := List.exists_cons_of_ne_nil nonempty
  apply Bool.eq_false_iff.mpr
  intro ends
  have starts := seam ends
  rw [startsWithWord_cons,word c List.mem_cons_self] at starts
  contradiction

theorem Seam.startsWithWord_eq_false (seam : Seam part after) :
    startsWithWord after = false := by
  obtain ⟨lead,last,rfl⟩ := (List.eq_nil_or_concat' _).resolve_left nonempty
  apply seam
  rw [endsInWord_concat]
  exact word last (by simp)

end Word

theorem takeWhile_append_of_seam {part : List Char} (word : ∀ c ∈ part, isWordChar c = true)
    (ends : startsWithWord after = false) : (part ++ after).takeWhile isWordChar = part := by
  rw [List.takeWhile_append_of_pos word]
  cases after with
  | nil => simp
  | cons c rest => simp [show isWordChar c = false from ends]

theorem startsWithWord_reverse (text : List Char) : startsWithWord text.reverse = endsInWord text := by
  rw [startsWithWord,List.head?_reverse,endsInWord]

theorem wordAt_of_bounded {text part : List Char} {start offset : Int}
    (bounded : Bounded text part start) (nonempty : part ≠ [])
    (word : ∀ c ∈ part, isWordChar c = true) (low : start ≤ offset)
    (high : offset ≤ start + part.length) :
    wordAt text offset = some ⟨part,start.toNat,start.toNat + part.length⟩ := by
  obtain ⟨before,after,rfl,rfl,opens,closes⟩ := bounded
  have front : startsWithWord before.reverse = false := by
    rw [startsWithWord_reverse]
    exact opens.endsInWord_eq_false nonempty word
  have back : startsWithWord after = false := closes.startsWithWord_eq_false nonempty word
  -- the part splits into what stands before the offset and what stands after it
  obtain ⟨left,right,rfl,rfl⟩ : ∃ left right, part = left ++ right ∧
      offset = ((before ++ left).length : Int) := by
    refine ⟨part.take (offset.toNat - before.length),part.drop (offset.toNat - before.length),
      (List.take_append_drop _ _).symm,?_⟩
    rw [List.length_append,List.length_take]
    omega
  have lead : (before ++ left).reverse.takeWhile isWordChar = left.reverse := by
    rw [List.reverse_append]
    apply takeWhile_append_of_seam _ front
    intro c member
    exact word c (List.mem_append_left _ (List.mem_reverse.mp member))
  have trail : (right ++ after).takeWhile isWordChar = right :=
    takeWhile_append_of_seam (fun c member => word c (List.mem_append_right _ member)) back
  have split : before ++ (left ++ right) ++ after = (before ++ left) ++ (right ++ after) := by
    simp only [List.append_assoc]
  have positive : left.length + right.length ≠ 0 := by
    rw [← List.length_append]
    exact Nat.ne_of_gt (List.length_pos_iff.mpr nonempty)
  have inside : ¬((((before ++ left).length : Nat) : Int) < 0 ||
      ((before ++ left ++ (right ++ after)).length : Int) < ((before ++ left).length : Nat)) := by
    simp only [List.length_append,Bool.or_eq_true,decide_eq_true_eq]
    omega
  rw [split,wordAt,if_neg inside]
  simp only [Int.toNat_natCast,List.take_left,List.drop_left,lead,trail,List.length_reverse]
  have cut : ((left ++ right) ++ after).take (left.length + right.length) = left ++ right := by
    rw [← List.length_append,List.take_left]
  rw [if_neg positive]
  simpa [Nat.add_assoc] using cut

end VueScope.Text
