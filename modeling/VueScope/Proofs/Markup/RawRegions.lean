import VueScope.Proofs.Markup.Mask
import VueScope.Proofs.Text.Search

/-! Raw regions as they are written: a comment up to the nearest `-->`, or a script or style element up
to the nearest end tag that repeats its name. The scan finds one where it starts, and nothing else. -/
namespace VueScope.Markup

open Text

def EndTag (word tag : List Char) : Prop :=
  ∃ name blanks, tag = '<' :: '/' :: (name ++ (blanks ++ ['>'])) ∧ name.map smallLetter = word ∧
    isBlank blanks = true

/-- A text in which an end tag starts behind some content, and none starts earlier. -/
def ClosesFirst (word text content : List Char) : Prop :=
  ∀ lead tag rest, text = lead ++ (tag ++ rest) → EndTag word tag → content.length ≤ lead.length

/-- A comment, or a script or style element, with the rest of the text behind it. The name of an
element ends where no letter or number follows, and its start tag ends with the first `>`. -/
inductive RawRegion (rest : List Char) : List Char → Prop
  | comment {inner} (nearest : EndsAtFirst "-->".toList inner) :
      RawRegion rest ("<!--".toList ++ inner ++ "-->".toList)
  | element {name attributes content closing}
      (named : name.map foldCase = "script".toList ∨ name.map foldCase = "style".toList)
      (apart : ∀ c ∈ attributes.head?, continuesWord c = false) (inside : '>' ∉ attributes)
      (closed : EndTag (name.map smallLetter) closing)
      (nearest : ClosesFirst (name.map smallLetter) (content ++ (closing ++ rest)) content) :
      RawRegion rest ('<' :: (name ++ (attributes ++ ('>' :: (content ++ closing)))))

theorem RawRegion.ne_nil {rest region : List Char} (raw : RawRegion rest region) : region ≠ [] := by
  cases raw with
  | comment => exact List.cons_ne_nil _ _
  | element => exact List.cons_ne_nil _ _

theorem endsAtFirst_singleton_iff (c : Char) (before : List Char) :
    EndsAtFirst [c] before ↔ c ∉ before := by
  constructor
  · intro ends member
    obtain ⟨lead,rest,rfl⟩ := List.append_of_mem member
    exact ends.not_infix (List.cons_ne_nil _ _) ⟨lead,rest,by simp⟩
  · intro absent lead rest same
    rcases List.eq_nil_or_concat rest with rfl | ⟨more,last,rfl⟩
    · rfl
    · rw [List.concat_eq_append,← List.append_assoc] at same
      have early : before = lead ++ [c] ++ more := (List.append_inj' same rfl).1
      exact absurd (early ▸ by simp) absent

theorem dropWord?_eq_some_iff (fold : Char → Char) (word text rest : List Char) :
    dropWord? fold word text = some rest ↔ ∃ name, text = name ++ rest ∧ name.map fold = word := by
  induction word generalizing text with
  | nil =>
    rw [dropWord?]
    constructor
    · intro same
      cases same
      exact ⟨[],rfl,rfl⟩
    · rintro ⟨name,rfl,none⟩
      rw [List.map_eq_nil_iff.mp none]
      rfl
  | cons w ws ih =>
    cases text with
    | nil =>
      constructor
      · intro none
        contradiction
      · rintro ⟨name,parts,named⟩
        obtain ⟨rfl,rfl⟩ := List.append_eq_nil_iff.mp parts.symm
        contradiction
    | cons c cs =>
      rw [dropWord?]
      constructor
      · intro found
        split at found
        next same =>
          obtain ⟨name,rfl,named⟩ := (ih cs).mp found
          exact ⟨c :: name,rfl,by rw [List.map_cons,named,same]⟩
        · contradiction
      · rintro ⟨name,parts,named⟩
        cases name with
        | nil => contradiction
        | cons d name =>
          obtain ⟨rfl,rfl⟩ := List.cons.inj parts
          obtain ⟨same,others⟩ := List.cons.inj named
          rw [if_pos same.symm]
          exact (ih _).mpr ⟨name,rfl,others⟩

variable (word text after : List Char)

theorem afterEndTag?_eq_some_iff :
    afterEndTag? word text = some after ↔ ∃ tag, text = tag ++ after ∧ EndTag word tag := by
  constructor
  · intro found
    unfold afterEndTag? at found
    split at found
    · contradiction
    next behind opened =>
      split at found
      · contradiction
      next tail named =>
        split at found
        next later closed =>
          cases found
          obtain ⟨name,rfl,spelled⟩ := (dropWord?_eq_some_iff _ _ _ _).mp named
          have parts := @List.takeWhile_append_dropWhile _ isSpace tail
          rw [closed] at parts
          refine ⟨_,?_,name,tail.takeWhile isSpace,rfl,spelled,?_⟩
          · rw [eq_append_of_dropPrefix? _ _ _ opened]
            simp [parts]
          · rw [isBlank,List.all_takeWhile]
        · contradiction
  · rintro ⟨tag,rfl,name,blanks,rfl,spelled,blank⟩
    have named : dropWord? smallLetter word (name ++ (blanks ++ '>' :: after)) =
        some (blanks ++ '>' :: after) :=
      (dropWord?_eq_some_iff _ _ _ _).mpr ⟨name,rfl,spelled⟩
    have closed : (blanks ++ '>' :: after).dropWhile isSpace = '>' :: after := by
      rw [List.dropWhile_append_of_pos (List.all_eq_true.mp blank)]
      rfl
    simp only [afterEndTag?,List.cons_append,List.append_assoc,dropPrefix?,if_true,List.nil_append,named,
      closed]

theorem afterFirstEndTag?_eq_some_iff :
    afterFirstEndTag? word text = some after ↔ ∃ content tag, text = content ++ (tag ++ after) ∧
      EndTag word tag ∧ ClosesFirst word text content := by
  induction text with
  | nil =>
    constructor
    · intro none
      contradiction
    · rintro ⟨content,tag,parts,⟨name,blanks,rfl,_⟩,_⟩
      simp at parts
  | cons c cs ih =>
    rw [afterFirstEndTag?]
    constructor
    · intro found
      split at found
      next later ended =>
        cases found
        obtain ⟨tag,parts,closes⟩ := (afterEndTag?_eq_some_iff word _ _).mp ended
        exact ⟨[],tag,parts,closes,fun _ _ _ _ _ => Nat.zero_le _⟩
      next unended =>
        obtain ⟨content,tag,rfl,closes,first⟩ := ih.mp found
        refine ⟨c :: content,tag,rfl,closes,?_⟩
        intro lead other rest parts ends
        cases lead with
        | nil =>
          have here := (afterEndTag?_eq_some_iff word _ rest).mpr ⟨other,parts,ends⟩
          rw [unended] at here
          contradiction
        | cons d lead =>
          obtain ⟨rfl,later⟩ := List.cons.inj parts
          exact Nat.succ_le_succ (first lead other rest later ends)
    · rintro ⟨content,tag,parts,closes,first⟩
      cases content with
      | nil =>
        rw [(afterEndTag?_eq_some_iff word _ after).mpr ⟨tag,parts,closes⟩]
      | cons d content =>
        obtain ⟨rfl,rfl⟩ := List.cons.inj parts
        split
        next later ended =>
          -- an end tag that starts here would start before the one that is known
          obtain ⟨other,same,ends⟩ := (afterEndTag?_eq_some_iff word _ _).mp ended
          exact absurd (first [] other later same ends) (Nat.not_succ_le_zero _)
        · refine ih.mpr ⟨content,tag,rfl,closes,?_⟩
          intro lead other rest same ends
          exact Nat.le_of_succ_le_succ (first (c :: lead) other rest (by rw [same]; rfl) ends)

theorem afterRawElement?_eq_some_iff :
    afterRawElement? word text = some after ↔ ∃ name attributes content closing,
      text = '<' :: (name ++ (attributes ++ ('>' :: (content ++ closing)))) ++ after ∧
      name.map foldCase = word ∧ (∀ c ∈ attributes.head?, continuesWord c = false) ∧
      '>' ∉ attributes ∧ EndTag (name.map smallLetter) closing ∧
      ClosesFirst (name.map smallLetter) (content ++ (closing ++ after)) content := by
  constructor
  · intro found
    unfold afterRawElement? at found
    split at found
    next behind =>
      split at found
      · contradiction
      next tail named =>
        split at found
        · contradiction
        next next more =>
          split at found
          · contradiction
          next apart =>
            split at found
            · contradiction
            next attributes inner opened =>
              obtain ⟨name,rfl,spelled⟩ := (dropWord?_eq_some_iff _ _ _ _).mp named
              obtain ⟨parts,first⟩ := (breakOn?_eq_some_iff _ _ _ _).mp opened
              have whole : (name ++ next :: more).take word.length = name := by
                rw [← spelled,List.length_map,List.take_left]
              rw [whole] at found
              obtain ⟨content,closing,rfl,closed,nearest⟩ :=
                (afterFirstEndTag?_eq_some_iff _ _ _).mp found
              refine ⟨name,attributes,content,closing,?_,spelled,?_,
                (endsAtFirst_singleton_iff _ _).mp first,closed,nearest⟩
              · rw [parts]
                simp
              · intro c head
                cases attributes with
                | nil => contradiction
                | cons d attributes =>
                  cases head
                  cases (List.cons.inj parts).1
                  exact Bool.eq_false_iff.mpr apart
    · contradiction
  · rintro ⟨name,attributes,content,closing,rfl,spelled,apart,inside,closed,nearest⟩
    have named : dropWord? foldCase word (name ++ (attributes ++ ('>' :: (content ++ closing))) ++ after) =
        some (attributes ++ ('>' :: (content ++ (closing ++ after)))) :=
      (dropWord?_eq_some_iff _ _ _ _).mpr ⟨name,by simp,spelled⟩
    have whole : (name ++ (attributes ++ ('>' :: (content ++ closing))) ++ after).take word.length =
        name := by
      rw [← spelled,List.length_map,List.append_assoc,List.take_left]
    have opened : breakOn? ['>'] (attributes ++ ('>' :: (content ++ (closing ++ after)))) =
        some (attributes,content ++ (closing ++ after)) :=
      (breakOn?_eq_some_iff _ _ _ _).mpr ⟨by simp,(endsAtFirst_singleton_iff _ _).mpr inside⟩
    have ended := (afterFirstEndTag?_eq_some_iff (name.map smallLetter) _ after).mpr
      ⟨content,closing,rfl,closed,nearest⟩
    have free : ∀ c ∈ (attributes ++ ('>' :: (content ++ (closing ++ after)))).head?,
        continuesWord c = false := by
      cases attributes with
      | nil =>
        intro c head
        cases head
        rfl
      | cons d attributes => exact apart
    rw [List.cons_append,afterRawElement?,named]
    dsimp only
    split
    next none => simp at none
    next next more same =>
      rw [same] at free
      rw [opened,whole,free next rfl]
      exact ended

theorem afterComment?_eq_some_iff (text after : List Char) :
    afterComment? text = some after ↔ ∃ inner,
      text = "<!--".toList ++ inner ++ "-->".toList ++ after ∧ EndsAtFirst "-->".toList inner := by
  constructor
  · intro found
    unfold afterComment? at found
    split at found
    · contradiction
    next behind opened =>
      obtain ⟨⟨inner,later⟩,closed,rfl⟩ := Option.map_eq_some_iff.mp found
      obtain ⟨rfl,nearest⟩ := (breakOn?_eq_some_iff _ _ _ _).mp closed
      refine ⟨inner,?_,nearest⟩
      rw [eq_append_of_dropPrefix? _ _ _ opened]
      simp only [List.append_assoc]
  · rintro ⟨inner,rfl,nearest⟩
    have opened := dropPrefix?_append "<!--".toList (inner ++ "-->".toList ++ after)
    have closed : breakOn? "-->".toList (inner ++ "-->".toList ++ after) = some (inner,after) :=
      (breakOn?_eq_some_iff _ _ _ _).mpr ⟨rfl,nearest⟩
    rw [afterComment?,List.append_assoc,List.append_assoc,← List.append_assoc inner,opened]
    dsimp only
    rw [closed]
    rfl

/-- A script and a style do not start the same text: the second letter tells their names apart. -/
theorem not_script_and_style {first second front back : List Char}
    (script : first.map foldCase = "script".toList) (style : second.map foldCase = "style".toList)
    (same : first ++ front = second ++ back) : False := by
  have letter := congrArg (fun text => (text.map foldCase)[1]?) same
  simp only [List.map_append,script,style] at letter
  exact absurd (Option.some.inj letter) (by decide)

theorem afterRawRegion?_eq_some_iff (text after : List Char) :
    afterRawRegion? text = some after ↔ ∃ region, text = region ++ after ∧ RawRegion after region := by
  unfold afterRawRegion?
  constructor
  · intro found
    rcases Option.or_eq_some_iff.mp found with comment | ⟨_,found⟩
    · obtain ⟨inner,rfl,nearest⟩ := (afterComment?_eq_some_iff _ _).mp comment
      exact ⟨_,rfl,.comment nearest⟩
    · rcases Option.or_eq_some_iff.mp found with script | ⟨_,style⟩
      · obtain ⟨name,attributes,content,closing,rfl,named,apart,inside,closed,nearest⟩ :=
          (afterRawElement?_eq_some_iff _ _ _).mp script
        exact ⟨_,rfl,.element (.inl named) apart inside closed nearest⟩
      · obtain ⟨name,attributes,content,closing,rfl,named,apart,inside,closed,nearest⟩ :=
          (afterRawElement?_eq_some_iff _ _ _).mp style
        exact ⟨_,rfl,.element (.inr named) apart inside closed nearest⟩
  · rintro ⟨region,rfl,raw⟩
    cases raw with
    | @comment inner nearest =>
      rw [(afterComment?_eq_some_iff _ after).mpr ⟨inner,rfl,nearest⟩,Option.some_or]
    | @element name attributes content closing named apart inside closed nearest =>
      have element (word : List Char) (named : name.map foldCase = word) :=
        (afterRawElement?_eq_some_iff word _ after).mpr
          ⟨name,attributes,content,closing,rfl,named,apart,inside,closed,nearest⟩
      have comment : afterComment? ('<' :: (name ++ (attributes ++ ('>' :: (content ++ closing)))) ++
          after) = none := by
        cases name with
        | nil => rcases named with named | named <;> contradiction
        | cons c name =>
          have other : c ≠ '!' := by
            rintro rfl
            rcases named with named | named <;> exact absurd (List.cons.inj named).1 (by decide)
          simp [afterComment?,dropPrefix?,Ne.symm other]
      rw [comment,Option.none_or]
      rcases named with script | style
      · rw [element _ script,Option.some_or]
      · cases found : afterRawElement? "script".toList
            ('<' :: (name ++ (attributes ++ ('>' :: (content ++ closing)))) ++ after) with
        | none => rw [Option.none_or,element _ style]
        | some later =>
          obtain ⟨other,_,_,_,same,script,_⟩ := (afterRawElement?_eq_some_iff _ _ _).mp found
          simp only [List.cons_append,List.append_assoc,List.cons.injEq,true_and] at same
          exact (not_script_and_style script style same.symm).elim

end VueScope.Markup
