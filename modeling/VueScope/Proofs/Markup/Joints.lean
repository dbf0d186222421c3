import VueScope.Proofs.Markup.Mask
import VueScope.Proofs.Text.Seam

/-! Where the readers of markup cut, no word runs on, and none does in the text that was masked.
The braces around an interpolation are kept, so a blank that stands for a character of its body
has one of them, or another blank, on either side. -/
namespace VueScope.Markup

open Text

/-- A place between two characters of a text, after a number of bytes, where no word runs on. -/
def Joint (text : List Char) (offset : Nat) : Prop :=
  ∃ front back, text = front ++ back ∧ byteLength front = offset ∧ Seam front back

def SolidJoint (text : List Char) (offset : Nat) : Prop :=
  ∃ front back, text = front ++ back ∧ byteLength front = offset ∧ Seam front back ∧
    (front.getLast? ≠ some ' ' ∨ back.head? ≠ some ' ')

/-! Masked texts. -/

def Stretch.pieces : Stretch → List Piece
  | .live content => Piece.split content
  | .raw content => [.text content]

theorem exists_pieces_of_mask (text : List Char) :
    ∃ pieces : List Piece, text = pieces.flatMap Piece.source ∧
      mask text = pieces.flatMap maskPiece := by
  refine ⟨(Stretch.split text).flatMap Stretch.pieces,?_,?_⟩
  · have stretches := Stretch.source_splitWithin text.length text
    have each : Stretch.source = fun stretch => stretch.pieces.flatMap Piece.source := by
      funext stretch
      cases stretch with
      | live content =>
        exact (Piece.source_splitUpTo content.length content).symm
      | raw content => simp [Stretch.source,Stretch.pieces,Piece.source]
    rw [each] at stretches
    rw [List.flatMap_assoc]
    exact stretches.symm
  · have each : maskStretch = fun stretch => stretch.pieces.flatMap maskPiece := by
      funext stretch
      cases stretch with
      | live content => rfl
      | raw content => simp [maskStretch,Stretch.pieces,maskPiece]
    rw [mask,each,List.flatMap_assoc]

theorem byteLength_blanks (body : List Char) :
    byteLength (body.flatMap blank) = byteLength body := by
  induction body with
  | nil => rfl
  | cons c rest ih => rw [List.flatMap_cons,byteLength_append,byteLength_blank,ih,byteLength]

theorem byteLength_maskPiece (piece : Piece) :
    byteLength (maskPiece piece) = byteLength piece.source := by
  cases piece with
  | text content => rfl
  | interpolation body =>
    simp only [maskPiece,Piece.source,byteLength_append,byteLength_blanks]

theorem head?_pieces (pieces : List Piece) :
    (pieces.flatMap maskPiece).head? = (pieces.flatMap Piece.source).head? := by
  induction pieces with
  | nil => rfl
  | cons piece rest ih =>
    rw [List.flatMap_cons,List.flatMap_cons,List.head?_append,List.head?_append,ih]
    cases piece with
    | text content => rfl
    | interpolation body => rfl

theorem eq_nil_of_byteLength {text : List Char} (none : byteLength text = 0) : text = [] := by
  cases text with
  | nil => rfl
  | cons c rest =>
    have wide := c.utf8Size_pos
    rw [byteLength] at none
    omega

theorem isWordChar_of_mem_opening : ∀ c ∈ Piece.opening, isWordChar c = false :=
  fun _ => isWordChar_of_any rfl

theorem isWordChar_of_mem_closing : ∀ c ∈ Piece.closing, isWordChar c = false :=
  fun _ => isWordChar_of_any rfl

theorem eq_space_of_mem_blanks {body : List Char} {c : Char} (member : c ∈ body.flatMap blank) :
    c = ' ' := by
  obtain ⟨_,_,among⟩ := List.mem_flatMap.mp member
  exact List.eq_of_mem_replicate among

theorem endsInWord_source (body : List Char) :
    endsInWord (Piece.source (.interpolation body)) = false := by
  rw [Piece.source,endsInWord_append _ (by decide)]
  rfl

/-- A cut inside a masked interpolation that is not between two blanks has a brace before or
behind it. -/
theorem cut_interpolation {body front back : List Char}
    (cut : maskPiece (.interpolation body) = front ++ back) (inside : back ≠ [])
    (solid : front.getLast? ≠ some ' ' ∨ back.head? ≠ some ' ') :
    ∃ first second, Piece.source (.interpolation body) = first ++ second ∧ second ≠ [] ∧
      byteLength first = byteLength front ∧
      (endsInWord first = false ∨ startsWithWord second = false) := by
  rw [maskPiece,List.append_assoc] at cut
  rcases List.append_eq_append_iff.mp cut with ⟨more,rfl,behind⟩ | ⟨more,early,rfl⟩
  · rcases List.append_eq_append_iff.mp behind with ⟨rest,rfl,last⟩ | ⟨rest,blanks,rfl⟩
    · -- behind the body
      refine ⟨Piece.opening ++ body ++ rest,back,?_,inside,?_,.inr ?_⟩
      · rw [Piece.source,last]
        simp only [List.append_assoc]
      · simp only [byteLength_append,byteLength_blanks,Nat.add_assoc]
      · apply startsWithWord_of_forall
        intro c member
        apply isWordChar_of_mem_closing
        rw [last]
        exact List.mem_append_right _ member
    · rcases List.eq_nil_or_concat' more with rfl | ⟨lead,space,rfl⟩
      · -- right behind the opening braces
        refine ⟨Piece.opening,body ++ Piece.closing,?_,by simp [Piece.closing],by simp,.inl ?_⟩
        · rw [Piece.source,List.append_assoc]
        · exact endsInWord_of_forall isWordChar_of_mem_opening
      · cases rest with
        | nil =>
          rw [List.append_nil] at blanks
          refine ⟨Piece.opening ++ body,Piece.closing,rfl,by simp [Piece.closing],?_,.inr ?_⟩
          · rw [byteLength_append,byteLength_append,← blanks,byteLength_blanks]
          · exact startsWithWord_of_forall isWordChar_of_mem_closing
        | cons next rest =>
          -- between two blanks
          have spaces (c : Char) (member : c ∈ lead ++ [space] ++ next :: rest) : c = ' ' :=
            eq_space_of_mem_blanks (blanks ▸ member)
          obtain rfl := spaces space (by simp)
          obtain rfl := spaces next (by simp)
          rcases solid with space | space
          · simp [← List.append_assoc] at space
          · simp at space
  · -- among the opening braces
    refine ⟨front,more ++ (body ++ Piece.closing),?_,by simp [Piece.closing],rfl,.inl ?_⟩
    · rw [Piece.source,early]
      simp only [List.append_assoc]
    · apply endsInWord_of_forall
      intro c member
      apply isWordChar_of_mem_opening
      rw [early]
      exact List.mem_append_left _ member

theorem joint_of_pieces {pieces : List Piece} (front : List Char) {back : List Char}
    (cut : pieces.flatMap maskPiece = front ++ back) (seam : Seam front back)
    (solid : front.getLast? ≠ some ' ' ∨ back.head? ≠ some ' ') :
    ∃ first second, pieces.flatMap Piece.source = first ++ second ∧
      byteLength first = byteLength front ∧ Seam first second := by
  induction pieces generalizing front with
  | nil =>
    obtain ⟨rfl,rfl⟩ := List.append_eq_nil_iff.mp cut.symm
    exact ⟨[],[],rfl,rfl,Seam.nil_left []⟩
  | cons piece rest ih =>
    have starts : startsWithWord (rest.flatMap Piece.source) =
        startsWithWord (rest.flatMap maskPiece) := by
      rw [startsWithWord,← head?_pieces,startsWithWord]
    rw [List.flatMap_cons] at cut ⊢
    by_cases whole : back = rest.flatMap maskPiece
    · -- the cut is where the piece ends
      subst whole
      have same := List.append_cancel_right cut
      subst same
      refine ⟨piece.source,_,rfl,(byteLength_maskPiece piece).symm,?_⟩
      cases piece with
      | text content => exact seam.congr_right starts
      | interpolation body => exact Seam.of_left (endsInWord_source body)
    rcases List.append_eq_append_iff.mp cut with ⟨more,rfl,behind⟩ | ⟨more,early,rfl⟩
    · -- behind the piece
      have nonempty : more ≠ [] := by
        rintro rfl
        exact whole behind.symm
      rw [Seam.append_left_iff nonempty] at seam
      rw [List.getLast?_append_of_ne_nil _ nonempty] at solid
      obtain ⟨first,second,parts,width,joined⟩ := ih more behind seam solid
      refine ⟨piece.source ++ first,second,by rw [parts,List.append_assoc],?_,?_⟩
      · rw [byteLength_append,byteLength_append,byteLength_maskPiece,width]
      · refine (Seam.append_left_iff ?_).mpr joined
        rintro rfl
        exact nonempty (eq_nil_of_byteLength width.symm)
    · -- inside the piece
      have nonempty : more ≠ [] := by
        rintro rfl
        exact whole rfl
      cases piece with
      | text content =>
        refine ⟨front,more ++ rest.flatMap Piece.source,?_,rfl,?_⟩
        · rw [← List.append_assoc,← early]
          rfl
        · rw [Seam.append_right_iff nonempty] at seam ⊢
          exact seam
      | interpolation body =>
        rw [List.head?_append_of_ne_nil _ nonempty] at solid
        obtain ⟨first,second,parts,some,width,brace⟩ := cut_interpolation early
          nonempty solid
        refine ⟨first,second ++ rest.flatMap Piece.source,by rw [parts,List.append_assoc],width,?_⟩
        rw [Seam.append_right_iff some]
        rcases brace with left | right
        · exact Seam.of_left left
        · exact Seam.of_right right

theorem joint_of_mask {text : List Char} {offset : Nat} (solid : SolidJoint (mask text) offset) :
    Joint text offset := by
  obtain ⟨front,back,cut,rfl,seam,apart⟩ := solid
  obtain ⟨pieces,source,masked⟩ := exists_pieces_of_mask text
  obtain ⟨first,second,parts,same,whole⟩ :=
    joint_of_pieces front (masked ▸ cut) seam apart
  exact ⟨first,second,source.trans parts,same,whole⟩

end VueScope.Markup
