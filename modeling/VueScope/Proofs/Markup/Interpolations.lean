import VueScope.Proofs.Markup.Mask
import VueScope.Proofs.Text.Search

/-! Interpolations are leftmost and shortest. A text is cut at its first opening braces and at the
closing braces that are nearest to them, over and over, until what is left holds no interpolation.
There is one way to do so. -/
namespace VueScope.Markup.Piece

open Text

/-- A text that holds opening braces with closing braces somewhere behind them. -/
def Interpolated (content : List Char) : Prop :=
  ∃ before body rest, content = before ++ (opening ++ body ++ closing) ++ rest

inductive Cut : List Char → List Piece → Prop
  | last {content} (plain : ¬Interpolated content) : Cut content [text content]
  | next {before body rest pieces} (first : EndsAtFirst opening before)
      (nearest : EndsAtFirst closing body) (later : Cut rest pieces) :
      Cut (before ++ (opening ++ body ++ closing) ++ rest)
        (text before :: interpolation body :: pieces)

theorem firstInterpolation?_eq_some_iff (content before body rest : List Char) :
    firstInterpolation? content = some (before,body,rest) ↔
      content = before ++ (opening ++ body ++ closing) ++ rest ∧ EndsAtFirst opening before ∧
        EndsAtFirst closing body := by
  constructor
  · intro found
    obtain ⟨after,opened,closed⟩ := breaks_of_firstInterpolation? found
    exact ⟨source_of_firstInterpolation? found,((breakOn?_eq_some_iff _ _ _ _).mp opened).2,
      ((breakOn?_eq_some_iff _ _ _ _).mp closed).2⟩
  · rintro ⟨rfl,first,nearest⟩
    have opened : breakOn? opening (before ++ (opening ++ body ++ closing) ++ rest) =
        some (before,body ++ closing ++ rest) :=
      (breakOn?_eq_some_iff _ _ _ _).mpr ⟨by simp only [List.append_assoc],first⟩
    have closed : breakOn? closing (body ++ closing ++ rest) = some (body,rest) :=
      (breakOn?_eq_some_iff _ _ _ _).mpr ⟨rfl,nearest⟩
    simp only [firstInterpolation?,opened,closed]

theorem firstInterpolation?_eq_none_iff (content : List Char) :
    firstInterpolation? content = none ↔ ¬Interpolated content := by
  constructor
  · rintro none ⟨before,body,rest,rfl⟩
    -- the first braces stand no later than these, so the closing ones are still ahead of them
    obtain ⟨lead,after,opened,early⟩ := exists_breakOn? opening before (body ++ closing ++ rest)
    have parts := eq_append_of_breakOn? _ opened
    have behind : body ++ closing ++ rest <:+ after := by
      refine List.suffix_of_suffix_length_le ⟨before ++ opening,rfl⟩ ⟨lead ++ opening,parts.symm⟩ ?_
      have widths := congrArg List.length parts
      simp only [List.length_append] at widths ⊢
      omega
    have closes : (breakOn? closing after).isSome = true :=
      (isSome_breakOn?_iff closing after).mpr (List.IsInfix.trans ⟨body,rest,rfl⟩ behind.isInfix)
    obtain ⟨⟨inner,later⟩,closed⟩ := Option.isSome_iff_exists.mp closes
    have same : before ++ (opening ++ body ++ closing) ++ rest =
        before ++ opening ++ (body ++ closing ++ rest) := by simp only [List.append_assoc]
    rw [same] at none
    simp only [firstInterpolation?,opened,closed] at none
    contradiction
  · intro plain
    cases found : firstInterpolation? content with
    | none => rfl
    | some parts =>
      obtain ⟨before,body,rest⟩ := parts
      exact absurd ⟨before,body,rest,source_of_firstInterpolation? found⟩ plain

/-- Each interpolation takes up four braces, so a cut for every character is enough. -/
theorem cut_splitUpTo {count : Nat} (content : List Char) (enough : content.length ≤ count) :
    Cut content (splitUpTo count content) := by
  induction count generalizing content with
  | zero =>
    cases List.eq_nil_of_length_eq_zero (Nat.le_zero.mp enough)
    exact .last ((firstInterpolation?_eq_none_iff []).mp rfl)
  | succ count ih =>
    rw [splitUpTo]
    split
    next none => exact .last ((firstInterpolation?_eq_none_iff content).mp none)
    next before body rest found =>
      obtain ⟨rfl,first,nearest⟩ := (firstInterpolation?_eq_some_iff content before body rest).mp found
      refine .next first nearest (ih rest ?_)
      simp only [List.length_append,opening,closing,List.length_cons] at enough
      omega

theorem cut_split (content : List Char) : Cut content (split content) :=
  cut_splitUpTo content (Nat.le_refl _)

namespace Cut

variable {content : List Char} {pieces others : List Piece}

theorem unique (one : Cut content pieces) (other : Cut content others) : pieces = others := by
  induction one generalizing others with
  | last plain =>
    cases other with
    | last => rfl
    | next => exact absurd ⟨_,_,_,rfl⟩ plain
  | @next before body rest pieces first nearest later ih =>
    have found := (firstInterpolation?_eq_some_iff _ before body rest).mpr ⟨rfl,first,nearest⟩
    generalize whole : before ++ (opening ++ body ++ closing) ++ rest = content at other found
    cases other with
    | last plain => exact absurd ⟨before,body,rest,whole.symm⟩ plain
    | next start close behind =>
      cases found.symm.trans ((firstInterpolation?_eq_some_iff _ _ _ _).mpr ⟨rfl,start,close⟩)
      rw [ih behind]

theorem iff_eq_split : Cut content pieces ↔ pieces = split content := by
  constructor
  · intro cut
    exact cut.unique (cut_split content)
  · rintro rfl
    exact cut_split content

theorem source_eq (cut : Cut content pieces) : pieces.flatMap source = content := by
  rw [iff_eq_split.mp cut]
  exact source_splitUpTo content.length content

theorem not_closed (cut : Cut content pieces) {body : List Char}
    (member : interpolation body ∈ pieces) : ¬closing <:+: body := by
  induction cut with
  | last => simp at member
  | next first nearest later ih =>
    rcases List.mem_cons.mp member with same | member
    · contradiction
    rcases List.mem_cons.mp member with same | member
    · cases same
      exact nearest.not_infix (by decide)
    · exact ih member

theorem not_interpolated (cut : Cut content pieces) {between : List Char}
    (member : text between ∈ pieces) : ¬Interpolated between := by
  induction cut with
  | last plain =>
    cases List.mem_singleton.mp member
    exact plain
  | next first nearest later ih =>
    rcases List.mem_cons.mp member with same | member
    · cases same
      rintro ⟨lead,body,rest,parts⟩
      refine first.not_infix (by decide) ⟨lead,body ++ closing ++ rest,?_⟩
      rw [parts]
      simp only [List.append_assoc]
    rcases List.mem_cons.mp member with same | member
    · contradiction
    · exact ih member

end Cut

end VueScope.Markup.Piece
