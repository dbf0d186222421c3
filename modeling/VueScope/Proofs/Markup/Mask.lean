import VueScope.Proofs.Markup.Cursor
import VueScope.Proofs.Text.Part

/-! Masking keeps byte offsets. A text is cut into pieces of which none is lost, and each character
of it is either kept or gives way to blanks of its own width. So a place behind a character that
is no blank is a place between two characters of the text. -/
namespace VueScope.Markup

open Text

namespace Piece

theorem breaks_of_firstInterpolation? {text before body rest : List Char}
    (found : firstInterpolation? text = some (before,body,rest)) :
    ∃ after, breakOn? opening text = some (before,after) ∧ breakOn? closing after = some (body,rest) := by
  unfold firstInterpolation? at found
  split at found
  · contradiction
  next lead after opened =>
    split at found
    · contradiction
    next inner later closed =>
      cases found
      exact ⟨after,opened,closed⟩

theorem source_of_firstInterpolation? {text before body rest : List Char}
    (found : firstInterpolation? text = some (before,body,rest)) :
    text = before ++ (opening ++ body ++ closing) ++ rest := by
  obtain ⟨after,opened,closed⟩ := breaks_of_firstInterpolation? found
  rw [eq_append_of_breakOn? before opened,eq_append_of_breakOn? body closed]
  simp only [List.append_assoc]

theorem source_splitUpTo (count : Nat) (content : List Char) :
    (splitUpTo count content).flatMap source = content := by
  induction count generalizing content with
  | zero => simp [splitUpTo,source]
  | succ count ih =>
    rw [splitUpTo]
    split
    · simp [source]
    next before body rest found =>
      have parts := source_of_firstInterpolation? found
      simp only [List.flatMap_cons,source,ih rest]
      rw [← List.append_assoc,← parts]

end Piece

theorem suffix_of_dropWord? (fold : Char → Char) {word : List Char} (text : List Char) {rest : List Char}
    (found : dropWord? fold word text = some rest) : rest <:+ text := by
  induction word generalizing text with
  | nil =>
    cases found
    exact List.suffix_refl _
  | cons w ws ih =>
    cases text with
    | nil => contradiction
    | cons c cs =>
      rw [dropWord?] at found
      split at found
      · exact (ih cs found).trans (List.suffix_cons c cs)
      · contradiction

variable (word text rest : List Char)

theorem suffix_of_afterEndTag?
    (found : afterEndTag? word text = some rest) : rest <:+ text := by
  unfold afterEndTag? at found
  split at found
  · contradiction
  next name opened =>
    split at found
    · contradiction
    next tail named =>
      split at found
      next after closed =>
        cases found
        have behind : rest <:+ tail :=
          (List.suffix_cons '>' rest).trans (closed ▸ List.dropWhile_suffix _)
        exact (behind.trans (suffix_of_dropWord? _ _ named)).trans
          ⟨_,(eq_append_of_dropPrefix? _ _ _ opened).symm⟩
      · contradiction

theorem suffix_of_afterFirstEndTag?
    (found : afterFirstEndTag? word text = some rest) : rest <:+ text := by
  induction text with
  | nil => contradiction
  | cons c cs ih =>
    rw [afterFirstEndTag?] at found
    split at found
    next after ended =>
      cases found
      exact suffix_of_afterEndTag? word _ _ ended
    · exact (ih found).trans (List.suffix_cons c cs)

theorem suffix_of_breakOn? {pattern text before after : List Char}
    (found : breakOn? pattern text = some (before,after)) : after <:+ text :=
  ⟨_,(eq_append_of_breakOn? before found).symm⟩

theorem suffix_of_afterRawElement?
    (found : afterRawElement? word text = some rest) : rest <:+ text.tail := by
  unfold afterRawElement? at found
  split at found
  next name =>
    split at found
    · contradiction
    next tail named =>
      split at found
      · contradiction
      · split at found
        · contradiction
        · split at found
          · contradiction
          next content opened =>
            have inside := (suffix_of_afterFirstEndTag? _ _ _ found).trans
              (suffix_of_breakOn? opened)
            exact inside.trans (suffix_of_dropWord? _ _ named)
  · contradiction

theorem suffix_of_afterComment? {text rest : List Char} (found : afterComment? text = some rest) :
    rest <:+ text.tail := by
  unfold afterComment? at found
  split at found
  · contradiction
  next inner opened =>
    obtain ⟨⟨before,after⟩,closed,rfl⟩ := Option.map_eq_some_iff.mp found
    rw [eq_append_of_dropPrefix? _ _ _ opened]
    exact (suffix_of_breakOn? closed).trans (List.suffix_append ['!','-','-'] inner)

theorem suffix_of_afterRawRegion? {text rest : List Char} (found : afterRawRegion? text = some rest) :
    rest <:+ text.tail := by
  rcases Option.or_eq_some_iff.mp found with comment | ⟨_,element⟩
  · exact suffix_of_afterComment? comment
  · rcases Option.or_eq_some_iff.mp element with script | ⟨_,style⟩
    · exact suffix_of_afterRawElement? _ text rest script
    · exact suffix_of_afterRawElement? _ text rest style

namespace Stretch

theorem source_consLive (c : Char) (stretches : List Stretch) :
    (consLive c stretches).flatMap source = c :: stretches.flatMap source := by
  unfold consLive
  split
  · rfl
  · rfl

theorem source_splitWithin (fuel : Nat) (text : List Char) :
    (splitWithin fuel text).flatMap source = text := by
  induction fuel generalizing text with
  | zero => cases text <;> simp [splitWithin,source]
  | succ fuel ih =>
    cases text with
    | nil => rfl
    | cons c cs =>
      rw [splitWithin]
      split
      next after region =>
        have behind := (suffix_of_afterRawRegion? region).trans (List.suffix_cons c cs)
        rw [List.flatMap_cons,ih,source]
        exact (List.suffix_iff_eq_append.mp behind)
      · rw [source_consLive,ih]

end Stretch

/-- A text with some of its characters blanked out, byte for byte. -/
inductive Masks : List Char → List Char → Prop
  | nil : Masks [] []
  | keep {c text masked} (later : Masks text masked) : Masks (c :: text) (c :: masked)
  | blank {c text masked} (later : Masks text masked) : Masks (c :: text) (blank c ++ masked)

namespace Masks

theorem refl (text : List Char) : Masks text text := by
  induction text with
  | nil => exact .nil
  | cons c cs ih => exact .keep ih

theorem blanked (text : List Char) : Masks text (text.flatMap Markup.blank) := by
  induction text with
  | nil => exact .nil
  | cons c cs ih => exact .blank ih

theorem append {first second front back : List Char} (before : Masks first front)
    (after : Masks second back) : Masks (first ++ second) (front ++ back) := by
  induction before with
  | nil => exact after
  | keep _ ih => exact .keep ih
  | blank _ ih =>
    rw [List.append_assoc]
    exact .blank ih

theorem flatMap {α : Type} (items : List α) (source masked : α → List Char)
    (each : ∀ item, Masks (source item) (masked item)) :
    Masks (items.flatMap source) (items.flatMap masked) := by
  induction items with
  | nil => exact .nil
  | cons item rest ih => exact (each item).append ih

end Masks

theorem masks_maskPiece (piece : Piece) : Masks piece.source (maskPiece piece) := by
  cases piece with
  | text content => exact .refl content
  | interpolation body =>
    exact ((Masks.refl Piece.opening).append (.blanked body)).append (.refl Piece.closing)

theorem masks_maskStretch (stretch : Stretch) : Masks stretch.source (maskStretch stretch) := by
  cases stretch with
  | live content =>
    have pieces := Masks.flatMap (Piece.split content) Piece.source maskPiece masks_maskPiece
    rwa [Piece.split,Piece.source_splitUpTo] at pieces
  | raw content => exact .refl content

theorem masks_mask (text : List Char) : Masks text (mask text) := by
  have stretches := Masks.flatMap (Stretch.split text) Stretch.source maskStretch masks_maskStretch
  rwa [Stretch.split,Stretch.source_splitWithin] at stretches

theorem byteLength_blank (c : Char) : byteLength (blank c) = c.utf8Size := by
  unfold blank
  induction c.utf8Size with
  | zero => rfl
  | succ count ih =>
    rw [List.replicate_succ,byteLength,ih,Nat.add_comm]
    rfl

/-- Behind a character that is no blank, the text has been masked whole. -/
theorem exists_split_of_masks {text masked : List Char} (masks : Masks text masked)
    (before after : List Char) (c : Char) (solid : c ≠ ' ') (cut : masked = before ++ c :: after) :
    ∃ front back, text = front ++ back ∧ byteLength front = byteLength (before ++ [c]) := by
  induction masks generalizing before with
  | nil => simp at cut
  | @keep d text masked _ ih =>
    cases before with
    | nil =>
      cases cut
      exact ⟨[c],text,rfl,rfl⟩
    | cons e before =>
      obtain ⟨rfl,later⟩ := List.cons.inj cut
      obtain ⟨front,back,rfl,same⟩ := ih before later
      exact ⟨d :: front,back,rfl,by rw [byteLength,same,List.cons_append,byteLength]⟩
  | @blank d text masked _ ih =>
    rcases List.append_eq_append_iff.mp cut with ⟨more,rfl,later⟩ | ⟨more,wide,later⟩
    · obtain ⟨front,back,rfl,same⟩ := ih more later
      exact ⟨d :: front,back,rfl,by
        rw [byteLength,same,List.append_assoc,byteLength_append (blank d),byteLength_blank]⟩
    · cases more with
      | nil =>
        obtain ⟨front,back,rfl,same⟩ := ih [] (by simpa using later.symm)
        rw [List.append_nil] at wide
        exact ⟨d :: front,back,rfl,by
          rw [byteLength,same,← wide,byteLength_append (blank d),byteLength_blank,List.nil_append]⟩
      | cons e more =>
        -- the character would be one of the blanks
        obtain ⟨rfl,_⟩ := List.cons.inj later
        have among : c ∈ blank d := wide ▸ by simp
        exact absurd (List.eq_of_mem_replicate among) solid

end VueScope.Markup
