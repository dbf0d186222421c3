import VueScope.Proofs.Script.Name
import VueScope.Proofs.Text.Seam
import VueScope.Script.Parse

/-! Tokens that end where no word runs on: names and keywords are taken whole, and comments,
strings and operators end in a character of their own or before a line end. -/
namespace VueScope.Script

open Text

variable {c : Char} {text : List Char} {width? : List Char → Option Nat} {dialect : Dialect} {place : Place}

namespace Lexeme

/-- Whatever stands before a token, no word runs on where the token ends. -/
def Closes (width? : List Char → Option Nat) : Prop :=
  ∀ before text width, width? text = some width →
    Seam (before ++ text.take width) (text.drop width)

theorem isWordChar_of_isGap (gap : isGap c = true) : isWordChar c = false := by
  apply Bool.eq_false_iff.mpr
  intro word
  have code := toNat_of_isWordChar word
  simp only [isGap,isWhite,Bool.or_eq_true,Bool.and_eq_true,decide_eq_true_eq,beq_iff_eq] at gap
  omega

theorem isWordChar_of_endsLine (line : endsLine c = true) : isWordChar c = false := by
  apply Bool.eq_false_iff.mpr
  intro word
  have code := toNat_of_isWordChar word
  simp only [endsLine,Bool.or_eq_true,decide_eq_true_eq,beq_iff_eq] at line
  rcases line with (rfl | far) | far
  · contradiction
  · omega
  · omega

theorem getLast?_take_add {lead width : Nat} {last : Char}
    (ends : ((text.drop lead).take width).getLast? = some last) :
    (text.take (lead + width)).getLast? = some last := by
  rw [List.take_add,List.getLast?_append,ends]
  rfl

theorem endsInWord_of_getLast? {last : Char} (ends : text.getLast? = some last)
    (plain : isWordChar last = false) : endsInWord text = false := by
  simp [endsInWord,ends,plain]

theorem Closes.of_getLast? (ends : ∀ text width, width? text = some width →
      ∃ last, (text.take width).getLast? = some last ∧ isWordChar last = false) : Closes width? := by
  intro before text width found
  obtain ⟨last,final,plain⟩ := ends text width found
  apply Seam.of_left
  apply endsInWord_of_getLast? _ plain
  rw [List.getLast?_append,final]
  rfl

/-! Names. -/

theorem isWordChar_of_mem_punctuation : ∀ c ∈ punctuation, isWordChar c = false :=
  fun _ => isWordChar_of_any rfl

theorem continuesName_of_isWordChar (word : isWordChar c = true) : continuesName c = true := by
  have code := toNat_of_isWordChar word
  have noGap : isGap c = false :=
    Bool.eq_false_iff.mpr fun gap => by simp [isWordChar_of_isGap gap] at word
  have noMark : c ∉ punctuation := fun mark => by
    simp [isWordChar_of_mem_punctuation c mark] at word
  have printed : ¬c.toNat < 0x20 := by omega
  cases digit : c.isDigit <;> simp [continuesName,startsName,noGap,noMark,printed,digit]

theorem startsWithWord_drop_nameRestLength (fuel : Nat) (text : List Char)
    (enough : text.length ≤ fuel) :
    startsWithWord (text.drop (nameRestLength fuel text)) = false := by
  induction fuel generalizing text with
  | zero =>
    have none : text = [] := List.eq_nil_of_length_eq_zero (by omega)
    rw [none]
    rfl
  | succ fuel ih =>
    cases text with
    | nil => rfl
    | cons c cs =>
      rw [List.length_cons] at enough
      rw [nameRestLength]
      split
      · rw [List.drop_succ_cons]
        exact ih cs (by omega)
      next stops =>
        split
        · rw [List.drop_zero,startsWithWord_cons]
          exact Bool.eq_false_iff.mpr fun word => stops (continuesName_of_isWordChar word)
        next width found =>
          obtain ⟨positive,_⟩ := codePointLength?_noParenthesis (c :: cs) width found
          obtain ⟨before,rfl⟩ : ∃ before, width = before + 1 := ⟨width - 1,by omega⟩
          rw [Nat.add_comm,← List.drop_drop,List.drop_succ_cons]
          exact ih _ (by rw [List.length_drop]; omega)

theorem startsWithWord_drop_word (text : List Char) (nonempty : word text ≠ []) :
    startsWithWord (text.drop (word text).length) = false := by
  unfold word at nonempty ⊢
  split at nonempty
  · contradiction
  next c cs =>
    split at nonempty
    next starts =>
      have whole := startsWithWord_drop_nameRestLength _ (c :: cs) (Nat.le_refl _)
      rwa [if_pos starts,List.length_take,← List.drop_eq_drop_min]
    · contradiction

/-! Comments. -/

theorem closes_lineCommentLength? : Closes lineCommentLength? := by
  intro before text width found
  apply Seam.of_right
  unfold lineCommentLength? at found
  split at found
  next rest =>
    cases found
    apply startsWithWord_drop_takeWhile
    intro c stops
    simp only [Bool.not_eq_false',Bool.or_eq_true,decide_eq_true_eq] at stops
    rcases stops with line | rfl
    · exact isWordChar_of_endsLine line
    · decide
  · contradiction

theorem closes_blockCommentLength? : Closes blockCommentLength? := by
  apply Closes.of_getLast?
  intro text width found
  refine ⟨'/',?_,by decide⟩
  unfold blockCommentLength? at found
  split at found
  next rest =>
    obtain ⟨⟨inner,after⟩,broken,rfl⟩ := Option.map_eq_some_iff.mp found
    rw [eq_append_of_breakOn? _ broken]
    have whole : '/' :: '*' :: (inner ++ ['*','/'] ++ after) =
        ('/' :: '*' :: inner ++ ['*'] ++ ['/']) ++ after := by simp
    have width : inner.length + 4 = ('/' :: '*' :: inner ++ ['*'] ++ ['/']).length := by simp
    simp only [whole,width,List.take_left,List.getLast?_concat]
  · contradiction

theorem closes_commentLength? : Closes commentLength? := by
  intro before text width found
  rcases Option.or_eq_some_iff.mp found with line | ⟨_,block⟩
  · exact closes_lineCommentLength? before text width line
  · exact closes_blockCommentLength? before text width block

theorem closes_of_startsWithWord
    (stops : ∀ text width, width? text = some width → startsWithWord (text.drop width) = false) :
    Closes width? :=
  fun _ text width found => Seam.of_right (stops text width found)

theorem closes_markupCommentLength? : Closes markupCommentLength? := by
  apply closes_of_startsWithWord
  intro text width found
  obtain ⟨_,_,rfl⟩ := Option.map_eq_some_iff.mp found
  apply startsWithWord_drop_takeWhile
  intro c stops
  rw [Bool.not_eq_false'] at stops
  exact isWordChar_of_endsLine stops

/-! Strings end in their quote. -/

theorem getLast?_quotedPart? {quote : Char} {width : Nat}
    (found : quotedPart? quote text = some (width,true)) : (text.take width).getLast? = some quote := by
  unfold quotedPart? at found
  split at found
  · contradiction
  next c cs =>
    split at found
    next same =>
      cases found
      rw [same]
      rfl
    · split at found
      · dsimp only at found
        split at found
        next closed =>
          cases found
          apply getLast?_take_add
          rw [List.head?_eq_some_iff] at closed
          obtain ⟨rest,closed⟩ := closed
          rw [closed]
          rfl
        · obtain ⟨_,_,same⟩ := Option.map_eq_some_iff.mp found
          simp at same
      · split at found
        · obtain ⟨_,_,same⟩ := Option.map_eq_some_iff.mp found
          simp at same
        · simp at found

theorem getLast?_quotedLength? {quote : Char} {fuel : Nat} (text : List Char) (width : Nat)
    (found : quotedLength? quote fuel text = some width) :
    (text.take width).getLast? = some quote := by
  induction fuel generalizing text width with
  | zero =>
    rw [quotedLength?] at found
    contradiction
  | succ fuel ih =>
    rw [quotedLength?] at found
    split at found
    · contradiction
    next part last =>
      cases found
      exact getLast?_quotedPart? last
    next part more =>
      obtain ⟨rest,inside,rfl⟩ := Option.map_eq_some_iff.mp found
      rw [Nat.add_comm]
      exact getLast?_take_add (ih _ rest inside)

theorem ends_of_quoted {length? : List Char → Option Nat} {quote : Char} {rest : List Char} {width : Nat}
    (ends : ∀ inner, length? rest = some inner → (rest.take inner).getLast? = some quote)
    (found : (length? rest).map (· + 1) = some width) :
    ((quote :: rest).take width).getLast? = some quote := by
  obtain ⟨inner,inside,rfl⟩ := Option.map_eq_some_iff.mp found
  rw [Nat.add_comm]
  exact getLast?_take_add (ends inner inside)

theorem closes_stringLength? : Closes stringLength? := by
  apply Closes.of_getLast?
  intro text width found
  unfold stringLength? at found
  split at found
  next rest =>
    exact ⟨'"',ends_of_quoted (getLast?_quotedLength? rest) found,by decide⟩
  next rest =>
    exact ⟨'\'',ends_of_quoted (getLast?_quotedLength? rest) found,by decide⟩
  · contradiction

/-! Operators. -/

theorem endsInWord_of_mem_operators : ∀ written ∈ operators, endsInWord written.toList = false := by
  decide +kernel

theorem operator_spec {text : List Char} (nonempty : operator text ≠ "") :
    (∃ rest, text = (operator text).toList ++ rest) ∧
      endsInWord (operator text).toList = false := by
  revert nonempty
  fun_cases operator text with
  | case1 d rest digit => exact fun _ => ⟨⟨'.' :: d :: rest,rfl⟩,by decide +kernel⟩
  | case2 d rest digit => exact fun _ => ⟨⟨d :: rest,rfl⟩,by decide +kernel⟩
  | case3 text plain =>
    intro nonempty
    cases found : operators.find? fun op => (dropPrefix? op.toList text).isSome with
    | none => simp [found] at nonempty
    | some written =>
      have starts := List.find?_some found
      obtain ⟨rest,dropped⟩ := Option.isSome_iff_exists.mp starts
      exact ⟨⟨rest,eq_append_of_dropPrefix? _ _ _ dropped⟩,
        endsInWord_of_mem_operators _ (List.mem_of_find?_eq_some found)⟩

end Lexeme

namespace Semicolon

theorem isWordChar_of_isLineGap (gap : isLineGap c = true) : isWordChar c = false := by
  apply Lexeme.isWordChar_of_isGap
  simp only [isLineGap,Bool.and_eq_true] at gap
  simp [Lexeme.isGap,gap.1.1.1.1]

theorem startsWithWord_of_insertedTyped (ends : insertedTyped dialect place text = true) :
    startsWithWord text = false := by
  unfold insertedTyped at ends
  split at ends
  · rfl
  · rfl
  next c rest _ =>
    rw [startsWithWord_cons]
    split at ends
    next line =>
      rw [line]
      rfl
    · rw [Bool.and_eq_true] at ends
      exact isWordChar_of_isLineGap ends.1

theorem startsWithWord_of_endsPlain {next : List Char → Bool}
    (ends : endsPlain dialect place next text = true) : startsWithWord text = false := by
  unfold endsPlain at ends
  split at ends
  · rfl
  · rfl
  next c rest _ =>
    rw [startsWithWord_cons]
    split at ends
    next line => exact Lexeme.isWordChar_of_endsLine line
    · rw [Bool.and_eq_true] at ends
      exact isWordChar_of_isLineGap ends.1

theorem startsWithWord_of_insertedPlain {fuel : Nat} (ends : insertedPlain dialect place fuel text = true) :
    startsWithWord text = false := by
  cases fuel with
  | zero =>
    rw [insertedPlain] at ends
    contradiction
  | succ fuel =>
    rw [insertedPlain] at ends
    unfold endsAtComment at ends
    split at ends
    · rfl
    · rfl
    · exact startsWithWord_of_endsPlain ends

theorem startsWithWord_of_inserted (ends : inserted dialect place text = true) :
    startsWithWord text = false := by
  unfold inserted at ends
  split at ends
  · exact startsWithWord_of_insertedTyped ends
  · exact startsWithWord_of_insertedPlain ends

end Semicolon

end VueScope.Script
