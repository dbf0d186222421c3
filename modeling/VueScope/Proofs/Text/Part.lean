import VueScope.Proofs.Text.ByteOffsets
import VueScope.Text.Find
import VueScope.Text.Space

/-! Parts of a text. A part stands where the text before it ends, so a part of a part stands
at the sum of their offsets. Slicing, trimming and searching give parts. -/
namespace VueScope.Text

def StandsAt (text part : List Char) (offset : Int) : Prop :=
  ∃ before after, text = before ++ part ++ after ∧ offset = (before.length : Int)

namespace StandsAt

variable {text middle part : List Char} {offset further : Int}

theorem whole (text : List Char) : StandsAt text text 0 :=
  ⟨[],[],by simp,rfl⟩

theorem within (outer : StandsAt text middle offset) (inner : StandsAt middle part further) :
    StandsAt text part (offset + further) := by
  obtain ⟨before,after,rfl,rfl⟩ := outer
  obtain ⟨lead,trail,rfl,rfl⟩ := inner
  exact ⟨before ++ lead,trail ++ after,by simp [List.append_assoc],by simp⟩

theorem front {rest : List Char} (stands : StandsAt text (part ++ rest) offset) :
    StandsAt text part offset := by
  have first := stands.within ⟨[],rest,rfl,rfl⟩
  rwa [List.length_nil,Int.natCast_zero,Int.add_zero] at first

theorem back {lead : List Char} (stands : StandsAt text (lead ++ part) offset) :
    StandsAt text part (offset + lead.length) :=
  stands.within ⟨lead,[],by simp,rfl⟩

section

variable (stands : StandsAt text part offset)
include stands

theorem nonneg : 0 ≤ offset := by
  obtain ⟨before,after,rfl,rfl⟩ := stands
  exact Int.natCast_nonneg _

theorem stop_le : offset + part.length ≤ text.length := by
  obtain ⟨before,after,rfl,rfl⟩ := stands
  simp only [List.length_append]
  omega

theorem take_drop :
    (text.drop offset.toNat).take part.length = part := by
  obtain ⟨before,after,rfl,rfl⟩ := stands
  simp [List.append_assoc]

theorem slice_eq :
    slice text offset.toNat (offset + part.length).toNat = part := by
  have width : (offset + part.length).toNat - offset.toNat = part.length := by
    have start := stands.nonneg
    omega
  rw [slice,width]
  exact stands.take_drop

end

theorem of_drop (text : List Char) (start : Nat) (inside : start ≤ text.length) :
    StandsAt text (text.drop start) start := by
  refine ⟨text.take start,[],?_,?_⟩
  · rw [List.append_nil,List.take_append_drop]
  · rw [List.length_take,Nat.min_eq_left inside]

theorem of_take_drop {text : List Char} {start : Nat} (width : Nat) (inside : start ≤ text.length) :
    StandsAt text ((text.drop start).take width) start := by
  have dropped := of_drop text start inside
  rw [← List.take_append_drop width (text.drop start)] at dropped
  exact dropped.front

end StandsAt

theorem standsAt_slice (text : List Char) (start stop : Nat) (inside : start ≤ text.length) :
    StandsAt text (slice text start stop) start :=
  StandsAt.of_take_drop (stop - start) inside

theorem standsAt_trimLeft (text : List Char) :
    StandsAt text (trimLeft text) (text.length - (trimLeft text).length : Nat) := by
  refine ⟨text.takeWhile isSpace,[],by simp [trimLeft],?_⟩
  have parts := congrArg List.length (@List.takeWhile_append_dropWhile _ isSpace text)
  rw [List.length_append] at parts
  unfold trimLeft
  omega

theorem standsAt_trimRight (text : List Char) : StandsAt text (trimRight text) 0 := by
  refine ⟨[],(text.reverse.takeWhile isSpace).reverse,?_,rfl⟩
  rw [List.nil_append,trimRight,← List.reverse_append,List.takeWhile_append_dropWhile,
    List.reverse_reverse]

theorem standsAt_trim (text : List Char) :
    StandsAt text (trim text) (text.length - (trimLeft text).length : Nat) := by
  have left := (standsAt_trimLeft text).within (standsAt_trimRight (trimLeft text))
  rwa [Int.add_zero] at left

theorem eq_append_of_dropPrefix? (pattern text rest : List Char)
    (found : dropPrefix? pattern text = some rest) : text = pattern ++ rest := by
  induction pattern generalizing text with
  | nil => simpa [dropPrefix?] using found
  | cons p ps ih =>
    cases text with
    | nil => simp [dropPrefix?] at found
    | cons c cs =>
      rw [dropPrefix?] at found
      split at found
      next same => rw [same,ih cs found,List.cons_append]
      · contradiction

theorem dropPrefix?_append (pattern rest : List Char) :
    dropPrefix? pattern (pattern ++ rest) = some rest := by
  induction pattern with
  | nil => simp [dropPrefix?]
  | cons p ps ih => simp [dropPrefix?,ih]

theorem eq_append_of_breakOn? {pattern text : List Char} (before : List Char) {after : List Char}
    (found : breakOn? pattern text = some (before,after)) : text = before ++ pattern ++ after := by
  induction text generalizing before with
  | nil =>
    obtain ⟨rest,dropped,same⟩ := Option.map_eq_some_iff.mp found
    cases same
    exact eq_append_of_dropPrefix? pattern [] _ dropped
  | cons c cs ih =>
    rw [breakOn?] at found
    split at found
    next rest dropped =>
      cases found
      exact eq_append_of_dropPrefix? pattern _ _ dropped
    · obtain ⟨⟨lead,rest⟩,later,same⟩ := Option.map_eq_some_iff.mp found
      cases same
      rw [ih lead later,List.cons_append,List.cons_append]

theorem isSome_breakOn?_iff (pattern text : List Char) :
    (breakOn? pattern text).isSome = true ↔ pattern <:+: text := by
  constructor
  · intro found
    obtain ⟨⟨before,after⟩,broken⟩ := Option.isSome_iff_exists.mp found
    exact ⟨before,after,(eq_append_of_breakOn? before broken).symm⟩
  · intro ⟨before,after,whole⟩
    subst whole
    induction before with
    | nil =>
      have first := dropPrefix?_append pattern after
      cases text : pattern ++ after with
      | nil
      | cons c cs => simp [breakOn?,text,text ▸ first]
    | cons c before ih =>
      simp only [List.cons_append,breakOn?]
      split
      · rfl
      · rw [Option.isSome_map]
        exact ih

theorem infix_dropWhile_iff (test : Char → Bool) (pattern text : List Char) (some : pattern ≠ [])
    (kept : ∀ c ∈ pattern, test c = false) :
    pattern <:+: text.dropWhile test ↔ pattern <:+: text := by
  induction text with
  | nil => rfl
  | cons c cs ih =>
    rw [List.dropWhile_cons]
    split
    next dropped =>
      rw [ih,List.infix_cons_iff]
      refine (or_iff_right ?_).symm
      intro starts
      obtain ⟨first,rest,rfl⟩ := List.exists_cons_of_ne_nil some
      rw [(List.cons_prefix_cons.mp starts).1] at kept
      simp [dropped] at kept
    next => rfl

theorem infix_trim_iff (pattern text : List Char) (some : pattern ≠ [])
    (solid : ∀ c ∈ pattern, isSpace c = false) : pattern <:+: trim text ↔ pattern <:+: text := by
  unfold trim trimRight trimLeft
  rw [← List.reverse_infix,List.reverse_reverse,infix_dropWhile_iff _ _ _ (by simpa using some)
    (by simpa using solid),List.reverse_infix,infix_dropWhile_iff _ _ _ some solid]

end VueScope.Text
