import VueScope.Proofs.Text.Part

/-! Trimming, searching and splitting. Trimming leaves a text that is blank at neither end, a search
finds a part no later than it stands, and the pieces of a text make it up. -/
namespace VueScope.Text

/-- A text with something other than white space at both ends. -/
structure Tight (text : List Char) : Prop where
  some : text ≠ []
  head : ∀ c ∈ text.head?, isSpace c = false
  last : ∀ c ∈ text.getLast?, isSpace c = false

variable {text : List Char}

theorem trimLeft_of_head (solid : ∀ c ∈ text.head?, isSpace c = false) : trimLeft text = text := by
  cases text with
  | nil => rfl
  | cons c rest => simp [trimLeft,solid c rfl]

theorem trimRight_of_last (solid : ∀ c ∈ text.getLast?, isSpace c = false) : trimRight text = text := by
  have reversed := @trimLeft_of_head text.reverse (by simpa using solid)
  rw [trimLeft] at reversed
  rw [trimRight,reversed,List.reverse_reverse]

theorem Tight.trimRight_eq (tight : Tight text) : trimRight text = text :=
  trimRight_of_last tight.last

theorem Tight.trim_eq (tight : Tight text) : trim text = text := by
  rw [trim,trimLeft_of_head tight.head,tight.trimRight_eq]

theorem head_trimLeft (text : List Char) : ∀ c ∈ (trimLeft text).head?, isSpace c = false := by
  intro c first
  have outside := List.head?_dropWhile_not isSpace text
  rw [trimLeft,Option.mem_def] at first
  rw [first] at outside
  simpa using outside

theorem standsAt_trim_of_head (solid : ∀ c ∈ text.head?, isSpace c = false) :
    StandsAt text (trim text) 0 := by
  have stands := standsAt_trim text
  rwa [trimLeft_of_head solid,Nat.sub_self] at stands

theorem last_trimRight (text : List Char) : ∀ c ∈ (trimRight text).getLast?, isSpace c = false := by
  rw [trimRight,List.getLast?_reverse]
  exact head_trimLeft text.reverse

theorem head_trimRight (solid : ∀ c ∈ text.head?, isSpace c = false) :
    ∀ c ∈ (trimRight text).head?, isSpace c = false := by
  intro c first
  obtain ⟨before,after,parts,place⟩ := standsAt_trimRight text
  have none : before = [] := List.length_eq_zero_iff.mp (Int.ofNat_inj.mp place).symm
  apply solid c
  rw [parts,none,List.nil_append,List.head?_append,Option.mem_def.mp first]
  rfl

theorem exists_eq_trimRight_append (text : List Char) :
    ∃ trail, text = trimRight text ++ trail ∧ isBlank trail = true := by
  refine ⟨(text.reverse.takeWhile isSpace).reverse,?_,?_⟩
  · rw [trimRight,← List.reverse_append,List.takeWhile_append_dropWhile,List.reverse_reverse]
  · rw [isBlank,List.all_reverse,List.all_takeWhile]

theorem tight_trimRight (solid : ∀ c ∈ text.head?, isSpace c = false) (some : trimRight text ≠ []) :
    Tight (trimRight text) :=
  ⟨some,head_trimRight solid,last_trimRight text⟩

theorem tight_trimRight_of_starts (starts : ∃ c ∈ text.head?, isSpace c = false) :
    Tight (trimRight text) := by
  obtain ⟨c,first,solid⟩ := starts
  have alone : ∀ d ∈ text.head?, isSpace d = false := by
    intro d other
    cases Option.mem_unique first other
    exact solid
  refine tight_trimRight alone fun none => ?_
  obtain ⟨trail,parts,blank⟩ := exists_eq_trimRight_append text
  rw [none,List.nil_append] at parts
  rw [parts] at first
  rw [List.all_eq_true.mp blank c (List.mem_of_mem_head? first)] at solid
  contradiction

theorem tight_trim (some : trim text ≠ []) : Tight (trim text) :=
  tight_trimRight (head_trimLeft text) some

theorem breakOn?_append_self (pattern rest : List Char) :
    breakOn? pattern (pattern ++ rest) = some ([],rest) := by
  have first := dropPrefix?_append pattern rest
  cases text : pattern ++ rest with
  | nil =>
    rw [text] at first
    rw [breakOn?,first,Option.map_some]
  | cons c cs =>
    rw [text] at first
    rw [breakOn?,first]

theorem tight_iff (text : List Char) : Tight text ↔ text ≠ [] ∧ trim text = text := by
  constructor
  · intro tight
    exact ⟨tight.some,tight.trim_eq⟩
  · rintro ⟨some,same⟩
    rw [← same] at some ⊢
    exact tight_trim some

instance (text : List Char) : Decidable (Tight text) :=
  decidable_of_iff' _ (tight_iff text)

theorem exists_breakOn? (pattern lead rest : List Char) :
    ∃ before after, breakOn? pattern (lead ++ pattern ++ rest) = some (before,after) ∧
      before.length ≤ lead.length := by
  induction lead with
  | nil => exact ⟨[],rest,breakOn?_append_self pattern rest,Nat.le_refl _⟩
  | cons c lead ih =>
    obtain ⟨before,after,found,early⟩ := ih
    rw [List.cons_append,List.cons_append,breakOn?]
    split
    next rest _ => exact ⟨[],rest,rfl,Nat.zero_le _⟩
    · rw [found]
      exact ⟨c :: before,after,rfl,Nat.succ_le_succ early⟩

/-- A pattern behind a text occurs there for the first time: wherever it occurs in the text together
with the pattern, nothing follows. -/
def EndsAtFirst (pattern before : List Char) : Prop :=
  ∀ lead rest, before ++ pattern = lead ++ pattern ++ rest → rest = []

theorem breakOn?_eq_some_iff (pattern text before after : List Char) :
    breakOn? pattern text = some (before,after) ↔
      text = before ++ pattern ++ after ∧ EndsAtFirst pattern before := by
  constructor
  · intro found
    have parts := eq_append_of_breakOn? before found
    refine ⟨parts,?_⟩
    intro lead rest same
    -- the search stops no later than at the occurrence behind `lead`
    obtain ⟨first,later,broken,early⟩ := exists_breakOn? pattern lead (rest ++ after)
    rw [← List.append_assoc,← same,← parts,found] at broken
    cases broken
    have widths := congrArg List.length same
    simp only [List.length_append] at widths
    exact List.eq_nil_of_length_eq_zero (by omega)
  · rintro ⟨parts,ends⟩
    obtain ⟨first,later,broken,early⟩ := exists_breakOn? pattern before after
    rw [← parts] at broken
    have others := eq_append_of_breakOn? first broken
    have inside : first ++ pattern <+: before ++ pattern := by
      refine List.prefix_of_prefix_length_le ⟨later,others.symm⟩ ⟨after,parts.symm⟩ ?_
      simp only [List.length_append]
      omega
    obtain ⟨rest,whole⟩ := inside
    rw [ends first rest whole.symm,List.append_nil] at whole
    cases List.append_cancel_right whole
    cases List.append_cancel_left (others.symm.trans parts)
    exact broken

theorem EndsAtFirst.not_infix {pattern before : List Char} (ends : EndsAtFirst pattern before)
    (some : pattern ≠ []) : ¬pattern <:+: before := by
  rintro ⟨lead,rest,rfl⟩
  have behind := ends lead (rest ++ pattern) (by simp only [List.append_assoc])
  exact some (List.append_eq_nil_iff.mp behind).2

theorem find?_of_standsAt {part : List Char} {place : Int} (stands : StandsAt text part place) :
    ∃ found : Nat, find? part text = some found ∧ (found : Int) ≤ place ∧
      StandsAt text part found := by
  obtain ⟨lead,rest,rfl,rfl⟩ := stands
  obtain ⟨before,after,broken,early⟩ := exists_breakOn? part lead rest
  refine ⟨before.length,by rw [find?,broken]; rfl,Int.ofNat_le.mpr early,before,after,?_,rfl⟩
  exact eq_append_of_breakOn? before broken

theorem findFrom?_of_standsAt {part : List Char} {start : Nat} {place : Int}
    (stands : StandsAt text part place) (ahead : (start : Int) ≤ place) :
    ∃ found : Nat, findFrom? part text start = some found ∧ start ≤ found ∧ (found : Int) ≤ place ∧
      StandsAt text part found := by
  have inside : start ≤ text.length := by
    have stop := stands.stop_le
    omega
  have behind : StandsAt (text.drop start) part (place - start) := by
    obtain ⟨lead,rest,rfl,rfl⟩ := stands
    have short : start ≤ lead.length := Int.ofNat_le.mp ahead
    refine ⟨lead.drop start,rest,?_,?_⟩
    · rw [List.append_assoc,List.drop_append_of_le_length short,← List.append_assoc]
    · rw [List.length_drop]
      omega
  obtain ⟨found,searched,early,there⟩ := find?_of_standsAt behind
  refine ⟨found + start,?_,Nat.le_add_left _ _,by omega,?_⟩
  · rw [findFrom?,if_pos inside,searched]
    rfl
  · have shifted := (StandsAt.of_drop text start inside).within there
    rwa [← Int.natCast_add,Nat.add_comm] at shifted

theorem find?_append_self (part rest : List Char) : find? part (part ++ rest) = some 0 := by
  rw [find?,breakOn?_append_self]
  rfl

theorem find?_cons_of_ne {p c : Char} (other : p ≠ c) (pattern text : List Char) :
    find? (p :: pattern) (c :: text) = (find? (p :: pattern) text).map (· + 1) := by
  rw [find?,find?,breakOn?,dropPrefix?,if_neg other,Option.map_map,Option.map_map]
  rfl

theorem splitOn_ne_nil (separator : Char) (text : List Char) : splitOn separator text ≠ [] := by
  cases text with
  | nil => exact List.cons_ne_nil _ _
  | cons c cs =>
    rw [splitOn]
    split
    · exact List.cons_ne_nil _ _
    · split <;> exact List.cons_ne_nil _ _

theorem intercalate_splitOn (separator : Char) (text : List Char) :
    [separator].intercalate (splitOn separator text) = text := by
  induction text with
  | nil => rfl
  | cons c cs ih =>
    obtain ⟨piece,rest,pieces⟩ := List.exists_cons_of_ne_nil (splitOn_ne_nil separator cs)
    rw [pieces] at ih
    rw [splitOn,pieces]
    split
    next same => rw [same,← ih]; rfl
    · rw [← ih]
      cases rest <;> simp [List.intercalate]

theorem splitOn_of_not_mem {separator : Char} (absent : separator ∉ text) :
    splitOn separator text = [text] := by
  induction text with
  | nil => rfl
  | cons c text ih =>
    obtain ⟨other,later⟩ := not_or.mp (mt List.mem_cons.mpr absent)
    rw [splitOn,if_neg (Ne.symm other),ih later]

theorem splitOn_append {separator : Char} (absent : separator ∉ text) (rest : List Char) :
    splitOn separator (text ++ separator :: rest) = text :: splitOn separator rest := by
  induction text with
  | nil => rw [List.nil_append,splitOn,if_pos rfl]
  | cons c text ih =>
    obtain ⟨other,later⟩ := not_or.mp (mt List.mem_cons.mpr absent)
    rw [List.cons_append,splitOn,if_neg (Ne.symm other),ih later]

end VueScope.Text
