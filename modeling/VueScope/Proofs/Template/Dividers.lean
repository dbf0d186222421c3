import VueScope.Proofs.Text.Part
import VueScope.Template.Loop

/-! The first word with white space around it that can divide a loop does. -/
namespace VueScope.Template.Loop

open Text

def IsWord (word : List Char) : Prop :=
  word = ['i','n'] ∨ word = ['o','f']

theorem IsWord.starts {word : List Char} (divides : IsWord word) (rest : List Char) :
    ∃ c ∈ (word ++ rest).head?, isSpace c = false := by
  rcases divides with rfl | rfl
  · exact ⟨'i',rfl,by decide⟩
  · exact ⟨'o',rfl,by decide⟩

/-- White space, one of the words `in` and `of`, and white space again. -/
def IsDivider (divider : List Char) : Prop :=
  ∃ before word after, divider = before ++ word ++ after ∧ IsWord word ∧
    before ≠ [] ∧ isBlank before = true ∧ after ≠ [] ∧ isBlank after = true

/-- A loop expression that a word divides. The source starts with something other than white space. -/
structure Splits (text left divider source : List Char) : Prop where
  parts : text = left ++ divider ++ source
  divides : IsDivider divider
  starts : ∃ c ∈ source.head?, isSpace c = false

variable {text source : List Char}

theorem dropWhile_of_starts (starts : ∃ c ∈ source.head?, isSpace c = false) :
    source.dropWhile isSpace = source := by
  obtain ⟨c,first,solid⟩ := starts
  cases source with
  | nil => contradiction
  | cons d rest =>
    cases first
    simp [solid]

theorem dropWhile_blank_append {blank : List Char} (blanks : isBlank blank = true) (rest : List Char) :
    (blank ++ rest).dropWhile isSpace = rest.dropWhile isSpace :=
  List.dropWhile_append_of_pos (List.all_eq_true.mp blanks)

theorem afterWord?_eq {word after : List Char} (divides : IsWord word) (some : after ≠ [])
    (blanks : isBlank after = true) (starts : ∃ c ∈ source.head?, isSpace c = false) :
    afterWord? (word ++ (after ++ source)) = .some (after ++ source,source) := by
  have dropped : (dropPrefix? ['i','n'] (word ++ (after ++ source))).or
      (dropPrefix? ['o','f'] (word ++ (after ++ source))) = .some (after ++ source) := by
    rcases divides with rfl | rfl
    · rw [dropPrefix?_append]
      rfl
    · rw [dropPrefix?_append]
      rfl
  have rest : (after ++ source).dropWhile isSpace = source := by
    rw [dropWhile_blank_append blanks,dropWhile_of_starts starts]
  have filled : source.isEmpty = false := by
    obtain ⟨c,first,_⟩ := starts
    cases source with
    | nil => contradiction
    | cons _ _ => rfl
  have shorter : source.length ≠ (after ++ source).length := by
    have room := List.length_pos_iff.mpr some
    rw [List.length_append]
    omega
  unfold afterWord?
  dsimp only
  rw [dropped]
  dsimp only
  rw [rest,filled,if_neg (by simp [some])]

theorem of_afterWord? {rest : List Char} (found : afterWord? text = .some (rest,source)) :
    ∃ word after, text = word ++ after ++ source ∧ IsWord word ∧ after ≠ [] ∧
      isBlank after = true ∧ ∃ c ∈ source.head?, isSpace c = false := by
  unfold afterWord? at found
  dsimp only at found
  split at found
  · contradiction
  next written word =>
    split at found
    · contradiction
    next apart =>
      cases found
      simp only [Bool.or_eq_true,decide_eq_true_eq,not_or,List.isEmpty_iff] at apart
      have parts := @List.takeWhile_append_dropWhile _ isSpace rest
      have some : rest.takeWhile isSpace ≠ [] := by
        intro none
        rw [none,List.nil_append] at parts
        exact apart.2 (congrArg List.length parts)
      have solid : ∃ c ∈ (rest.dropWhile isSpace).head?, isSpace c = false := by
        have first := List.head?_dropWhile_not isSpace rest
        obtain ⟨c,more,cons⟩ := List.exists_cons_of_ne_nil apart.1
        rw [cons] at first ⊢
        exact ⟨c,rfl,by simpa using first⟩
      rcases Option.or_eq_some_iff.mp word with ahead | ⟨_,ahead⟩
      · refine ⟨_,_,?_,Or.inl rfl,some,List.all_takeWhile,solid⟩
        rw [List.append_assoc,parts]
        exact eq_append_of_dropPrefix? _ _ _ ahead
      · refine ⟨_,_,?_,Or.inr rfl,some,List.all_takeWhile,solid⟩
        rw [List.append_assoc,parts]
        exact eq_append_of_dropPrefix? _ _ _ ahead

variable {left divider : List Char}

theorem exists_of_map_cons {α β : Type} {parts : Option (List Char × α × β)} {c : Char}
    {middle : α} {last : β}
    (found : parts.map (fun parts => (c :: parts.1,parts.2.1,parts.2.2)) = .some (left,middle,last)) :
    ∃ lead, left = c :: lead ∧ parts = .some (lead,middle,last) := by
  obtain ⟨⟨lead,_,_⟩,divided,same⟩ := Option.map_eq_some_iff.mp found
  cases same
  exact ⟨lead,rfl,divided⟩

theorem divide?_cons_cases {c : Char} {cs : List Char}
    (found : divide? (c :: cs) = .some (left,divider,source)) :
    (∃ lead, left = c :: lead ∧ divide? cs = .some (lead,divider,source)) ∨
      left = [] ∧ isSpace c = true ∧
        divider = (c :: cs).take ((c :: cs).length - source.length) ∧
          ∃ rest, afterWord? (cs.dropWhile isSpace) = .some (rest,source) := by
  simp only [divide?] at found
  split at found
  next space =>
    split at found
    · exact .inl (exists_of_map_cons found)
    next rest last behind =>
      cases found
      exact .inr ⟨rfl,space,rfl,rest,behind⟩
  · exact .inl (exists_of_map_cons found)

theorem splits_of_divide? (found : divide? text = .some (left,divider,source)) :
    Splits text left divider source := by
  induction text generalizing left with
  | nil => contradiction
  | cons c cs ih =>
    rcases divide?_cons_cases found with ⟨lead,rfl,later⟩ | ⟨rfl,space,taken,rest,behind⟩
    · obtain ⟨parts,divides,starts⟩ := ih later
      exact ⟨congrArg (c :: ·) parts,divides,starts⟩
    · obtain ⟨word,after,parts,divides,some,blanks,starts⟩ := of_afterWord? behind
      have whole : c :: cs = (c :: cs.takeWhile isSpace ++ word ++ after) ++ source := by
        rw [List.append_assoc,List.append_assoc,← List.append_assoc word,← parts,List.cons_append,
          List.takeWhile_append_dropWhile]
      have own : divider = c :: cs.takeWhile isSpace ++ word ++ after := by
        rw [taken,whole,List.length_append,Nat.add_sub_cancel,List.take_left]
      refine ⟨own ▸ whole,⟨_,word,after,own,divides,List.cons_ne_nil _ _,?_,some,blanks⟩,starts⟩
      rw [isBlank,List.all_cons,space,List.all_takeWhile]
      rfl

theorem Splits.exists_divide? (splits : Splits text left divider source) :
    ∃ lead middle rest, divide? text = .some (lead,middle,rest) ∧ lead.length ≤ left.length := by
  obtain ⟨rfl,⟨before,word,after,rfl,divides,filled,blanks,some,between⟩,starts⟩ := splits
  induction left with
  | nil =>
    obtain ⟨c,more,rfl⟩ := List.exists_cons_of_ne_nil filled
    rw [isBlank,List.all_cons,Bool.and_eq_true] at blanks
    have rest : (more ++ (word ++ (after ++ source))).dropWhile isSpace = word ++ (after ++ source) := by
      rw [dropWhile_blank_append blanks.2,dropWhile_of_starts (divides.starts _)]
    have found := afterWord?_eq divides some between starts
    simp only [List.nil_append,List.cons_append,List.append_assoc,divide?,blanks.1,if_true,rest,found]
    exact ⟨_,_,_,rfl,Nat.le_refl _⟩
  | cons c left ih =>
    obtain ⟨lead,middle,rest,found,early⟩ := ih
    simp only [List.cons_append,divide?]
    rw [found]
    split
    · split
      · exact ⟨_,_,_,rfl,Nat.succ_le_succ early⟩
      · exact ⟨_,_,_,rfl,Nat.zero_le _⟩
    · exact ⟨_,_,_,rfl,Nat.succ_le_succ early⟩

end VueScope.Template.Loop
