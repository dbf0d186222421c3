import VueScope.Proofs.Template.Anchored
import VueScope.Proofs.Text.Search

/-! Where the parts of a loop stand. The aliases are looked for in the text one behind the other, so a
search that finds one too early still finds it behind the one before, and leaves room for the next. -/
namespace VueScope.Template.Loop

open Text

variable {source text part : List Char} {index : Option (List Char)}

theorem standsAt_of_infix (inside : part <:+: text) : ∃ place, StandsAt text part place := by
  obtain ⟨before,after,rfl⟩ := inside
  exact ⟨_,before,after,rfl,rfl⟩

theorem infix_stripParens (text : List Char) : stripParens text <:+: text := by
  unfold stripParens
  dsimp only
  split
  next rest reversed =>
    have closed := congrArg List.reverse reversed
    rw [List.reverse_reverse,List.reverse_cons] at closed
    split at closed
    next inner =>
      rw [closed]
      exact ⟨['('],[')'],rfl⟩
    · rw [closed]
      exact ⟨[],[')'],rfl⟩
  · split
    · exact (List.suffix_cons _ _).isInfix
    · exact List.infix_refl _

theorem infix_trim (text : List Char) : trim text <:+: text := by
  obtain ⟨before,after,parts,_⟩ := standsAt_trim text
  exact ⟨before,after,parts.symm⟩

def aliasText (left : List Char) : List Char :=
  trim (stripParens (trim left))

def aliasStart (left : List Char) : Nat :=
  (find? (aliasText left) left).getD 0

theorem standsAt_aliasText (left : List Char) : StandsAt left (aliasText left) (aliasStart left) := by
  obtain ⟨place,stands⟩ := standsAt_of_infix
    ((infix_trim (stripParens (trim left))).trans ((infix_stripParens (trim left)).trans (infix_trim left)))
  obtain ⟨found,searched,_,there⟩ := find?_of_standsAt stands
  rw [aliasStart,aliasText,searched]
  exact there

theorem iterators?_cons_cases {c : Char} {cs before key : List Char}
    (found : iterators? (c :: cs) = .some (before,key,index)) :
    (∃ lead, before = c :: lead ∧ iterators? cs = .some (lead,key,index)) ∨
      before = [] ∧ c = ',' ∧ splitOn ',' cs = key :: index.toList := by
  simp only [iterators?] at found
  split at found
  next comma =>
    simp only [Bool.and_eq_true,decide_eq_true_eq] at comma
    split at found
    next parts =>
      cases found
      exact .inr ⟨rfl,comma.1,parts⟩
    next parts =>
      cases found
      exact .inr ⟨rfl,comma.1,parts⟩
    · exact .inl (exists_of_map_cons found)
  · exact .inl (exists_of_map_cons found)

theorem eq_append_of_iterators? {before key : List Char}
    (found : iterators? text = .some (before,key,index)) :
    text = before ++ ',' :: (key ++ index.toList.flatMap (',' :: ·)) := by
  induction text generalizing before with
  | nil => contradiction
  | cons c cs ih =>
    rcases iterators?_cons_cases found with ⟨lead,rfl,later⟩ | ⟨rfl,rfl,parts⟩
    · rw [ih later,List.cons_append]
    · have whole := intercalate_splitOn ',' cs
      rw [parts] at whole
      rw [← whole]
      cases index with
      | none => simp
      | some index => simp

theorem exists_located {content : List Char} {start place : Int} (base : Int) (known : 0 ≤ start)
    (stands : StandsAt content part place) (ahead : start ≤ place) :
    ∃ found : Int, located content part base start = ⟨part,base + found,false⟩ ∧ start ≤ found ∧
      found ≤ place ∧ StandsAt content part found := by
  have counted : (start.toNat : Int) = start := Int.toNat_of_nonneg known
  obtain ⟨found,searched,late,early,there⟩ := findFrom?_of_standsAt stands (counted ▸ ahead)
  refine ⟨found,?_,by omega,early,there⟩
  rw [located,searched]

def parts (loop : Loop) : List Expression :=
  loop.aliases ++ [loop.source]

/-- Expressions that stand in a text one behind the other, between two offsets of it. Their own
offsets count from a base. -/
structure Lined (content : List Char) (base lower upper : Int) (parts : List Expression) : Prop where
  ordered : lower ≤ upper
  inside : ∀ part ∈ parts, Tight part.content ∧ StandsAt content part.content (part.offset - base) ∧
    lower ≤ part.offset - base ∧ part.stop - base ≤ upper
  apart : parts.Pairwise fun first second => first.stop ≤ second.offset

namespace Lined

variable {content : List Char} {base lower middle upper : Int} {first second : List Expression}

theorem nil (ordered : lower ≤ upper) : Lined content base lower upper [] :=
  ⟨ordered,List.forall_mem_nil _,.nil⟩

theorem append (before : Lined content base lower middle first)
    (after : Lined content base middle upper second) :
    Lined content base lower upper (first ++ second) := by
  refine ⟨Int.le_trans before.ordered after.ordered,List.forall_mem_append.mpr ⟨?_,?_⟩,
    List.pairwise_append.mpr ⟨before.apart,after.apart,?_⟩⟩
  · intro part member
    obtain ⟨tight,stands,low,high⟩ := before.inside part member
    exact ⟨tight,stands,low,Int.le_trans high after.ordered⟩
  · intro part member
    obtain ⟨tight,stands,low,high⟩ := after.inside part member
    exact ⟨tight,stands,Int.le_trans before.ordered low,high⟩
  · intro early here late there
    have stop := (before.inside early here).2.2.2
    have start := (after.inside late there).2.2.1
    omega

theorem widen {left right : Int} (lined : Lined content base lower upper first) (before : left ≤ lower)
    (after : upper ≤ right) : Lined content base left right first := by
  have lead : Lined content base left lower [] := .nil before
  have trail : Lined content base upper right [] := .nil after
  have whole := (lead.append lined).append trail
  rwa [List.nil_append,List.append_nil] at whole

theorem singleton {part : Expression} (tight : Tight part.content)
    (stands : StandsAt content part.content (part.offset - base)) :
    Lined content base (part.offset - base) (part.stop - base) [part] := by
  refine ⟨?_,List.forall_mem_singleton.mpr ⟨tight,stands,Int.le_refl _,Int.le_refl _⟩,
    List.pairwise_singleton _ _⟩
  rw [Expression.stop]
  omega

theorem placed {place : Int} (tight : Tight part) (stands : StandsAt content part place) :
    Lined content base place (place + part.length) [⟨part,base + place,false⟩] := by
  have counted : base + place - base = place := by omega
  have lined := @singleton content base ⟨part,base + place,false⟩ tight (by rwa [counted])
  refine lined.widen (Int.le_of_eq counted.symm) ?_
  dsimp only [Expression.stop]
  omega

theorem optional {place : Int} (stands : StandsAt content part place) (tight : part ≠ [] → Tight part) :
    Lined content base place (place + part.length)
      ((nonEmpty part).map fun part => (⟨part,base + place,false⟩ : Expression)).toList := by
  unfold nonEmpty
  split
  · exact .nil (by omega)
  next some => exact .placed (tight (by simpa using some)) stands

end Lined

theorem aliases_eq (loop : Loop) :
    loop.aliases = loop.value.toList ++ loop.key.toList ++ loop.index.toList := by
  obtain ⟨source,value,key,index⟩ := loop
  cases value <;> cases key <;> cases index <;> rfl

def searchEnd (content part : List Char) (start : Int) : Int :=
  match (nonEmpty part).map fun part => located content part 0 start with
  | some found => found.offset + part.length
  | none => start

/-- The search for a part finds it no later than it stands, and so leaves room for what
stands behind it. -/
theorem lined_located {content : List Char} {start place : Int} (base : Int) (known : 0 ≤ start)
    (stands : StandsAt content part place) (ahead : start ≤ place) (tight : part ≠ [] → Tight part) :
    Lined content base start (searchEnd content part start)
        ((nonEmpty part).map fun part => located content part base start).toList ∧
      searchEnd content part start ≤ place + part.length := by
  obtain ⟨found,shown,late,early,there⟩ := exists_located 0 known stands ahead
  have based : located content part base start = ⟨part,base + found,false⟩ := by
    have counted : 0 + _ = 0 + found := congrArg Expression.offset shown
    rw [Int.zero_add,Int.zero_add] at counted
    rw [located,counted]
  by_cases none : part = []
  · subst none
    exact ⟨.nil (Int.le_refl _),Int.le_trans ahead (by simp)⟩
  · have some : nonEmpty part = .some part := if_neg (by simpa using none)
    simp only [searchEnd,some,Option.map_some,shown,based,Int.zero_add]
    refine ⟨?_,by omega⟩
    exact (Lined.placed (tight none) there).widen late (Int.le_refl _)

theorem lined_iterators {content before key : List Char} {start : Int} (base : Int)
    (solid : ∀ c ∈ before.head?, isSpace c = false)
    (stands : StandsAt content (before ++ ',' :: (key ++ index.toList.flatMap (',' :: ·))) start) :
    Lined content base start
      (start + (before ++ ',' :: (key ++ index.toList.flatMap (',' :: ·))).length)
      (((nonEmpty (trim before)).map fun part => (⟨part,base + start,false⟩ : Expression)).toList ++
        ((nonEmpty (trim key)).map fun part =>
          located content part base (start + (trim before).length)).toList ++
        ((index.bind fun index => nonEmpty (trim index)).map fun part =>
          located content part base
            (searchEnd content (trim key) (start + (trim before).length))).toList) := by
  have known := stands.nonneg
  have width : (before ++ ',' :: (key ++ index.toList.flatMap (',' :: ·))).length =
      before.length + 1 + key.length + (index.toList.flatMap (',' :: ·)).length := by
    simp only [List.length_append,List.length_cons]
    omega
  -- the value is cut off at its end only, since nothing blank stands before it
  have valued := stands.front.within (standsAt_trim_of_head solid)
  rw [Int.add_zero] at valued
  have value := @Lined.optional _ _ base _ valued tight_trim
  have cut := (standsAt_trim_of_head solid).stop_le
  -- key and index each stand behind a comma
  have behind := @StandsAt.back _ _ _ [','] stands.back
  have keyed := behind.front.within (standsAt_trim key)
  have room := (standsAt_trim key).stop_le
  rw [List.length_singleton] at behind keyed
  have first : (start + (trim before).length : Int) ≤
      start + before.length + (1 : Nat) + (key.length - (trimLeft key).length : Nat) := by
    omega
  obtain ⟨named,ended⟩ := lined_located base (by omega) keyed first tight_trim
  refine (value.append named).append ?_
  cases index with
  | none =>
    rw [width]
    exact .nil (by omega)
  | some index =>
    have last := behind.back
    rw [Option.toList_some,List.flatMap_singleton] at last width
    have indexed := (@StandsAt.back _ _ _ [','] last).within (standsAt_trim index)
    have space := (standsAt_trim index).stop_le
    rw [List.length_singleton] at indexed
    have started := named.ordered
    obtain ⟨numbered,stopped⟩ := lined_located base (by omega) indexed
      (show searchEnd content (trim key) (start + (trim before).length) ≤ _ by omega) tight_trim
    refine numbered.widen (Int.le_refl _) (Int.le_trans stopped ?_)
    rw [Option.toList_some,List.flatMap_singleton,width,List.length_cons]
    omega

section Parsed

variable {expression : Expression} {left divider rest : List Char}
  (divided : divide? expression.content = .some (left,divider,rest))

def sourceOf (expression : Expression) (left divider rest : List Char) : Expression :=
  ⟨trimRight rest,expression.offset + (left.length + divider.length : Nat),false⟩

include divided

theorem parse?_of_value (alone : iterators? (aliasText left) = none) :
    parse? expression = .some ⟨sourceOf expression left divider rest,
      (nonEmpty (aliasText left)).map fun part => ⟨part,expression.offset + (aliasStart left : Int),false⟩,
      none,none⟩ := by
  unfold aliasText at alone
  simp only [parse?,divided,alone]
  rfl

theorem parse?_of_iterators {before key : List Char}
    (parts : iterators? (aliasText left) = .some (before,key,index)) :
    let afterValue : Int := aliasStart left + (trim before).length
    parse? expression = .some ⟨sourceOf expression left divider rest,
      (nonEmpty (trim before)).map fun part => ⟨part,expression.offset + (aliasStart left : Int),false⟩,
      (nonEmpty (trim key)).map fun part =>
        located expression.content part expression.offset afterValue,
      (index.bind fun index => nonEmpty (trim index)).map fun part =>
        located expression.content part expression.offset
          (searchEnd expression.content (trim key) afterValue)⟩ := by
  have moved (part : List Char) (start : Int) :
      { located expression.content part 0 start with
        offset := expression.offset + (located expression.content part 0 start).offset } =
          located expression.content part expression.offset start := by
    simp only [located,Int.zero_add]
  unfold aliasText at parts
  simp only [parse?,divided,parts,Option.map_map,Function.comp_def,moved,Option.bind_map]
  rfl

theorem lined_aliases {loop : Loop} (found : parse? expression = .some loop) :
    Lined expression.content expression.offset 0 left.length loop.aliases := by
  have inside {part : List Char} {place : Int} (stands : StandsAt left part place) :
      StandsAt expression.content part place := by
    rw [(splits_of_divide? divided).parts,List.append_assoc]
    obtain ⟨lead,trail,rfl,rfl⟩ := stands
    exact ⟨lead,trail ++ (divider ++ rest),by simp,rfl⟩
  have stands := standsAt_aliasText left
  have known : (0 : Int) ≤ aliasStart left := Int.natCast_nonneg _
  rw [aliases_eq]
  cases parts : iterators? (aliasText left) with
  | none =>
    cases (parse?_of_value divided parts).symm.trans found
    simp only [Option.toList_none,List.append_nil]
    exact (Lined.optional (inside stands) tight_trim).widen known stands.stop_le
  | some iterators =>
    obtain ⟨before,key,index⟩ := iterators
    cases (parse?_of_iterators divided parts).symm.trans found
    have whole := eq_append_of_iterators? parts
    rw [whole] at stands
    have solid : ∀ c ∈ before.head?, isSpace c = false := by
      intro c first
      have lead := head_trimRight (head_trimLeft (stripParens (trim left)))
      apply lead c
      change c ∈ (aliasText left).head?
      rw [whole,List.head?_append,Option.mem_def.mp first]
      rfl
    exact (lined_iterators expression.offset solid (inside stands)).widen known stands.stop_le

end Parsed

theorem parse?_isSome_iff (expression : Expression) :
    (parse? expression).isSome = true ↔
      ∃ left divider source, Splits expression.content left divider source := by
  constructor
  · intro found
    obtain ⟨loop,parsed⟩ := Option.isSome_iff_exists.mp found
    obtain ⟨left,divider,rest,divided,_⟩ := source_of_parse? parsed
    exact ⟨left,divider,rest,splits_of_divide? divided⟩
  · rintro ⟨left,divider,source,splits⟩
    obtain ⟨lead,middle,rest,divided,_⟩ := splits.exists_divide?
    cases parts : iterators? (aliasText lead) with
    | none => rw [parse?_of_value divided parts,Option.isSome_some]
    | some iterators => rw [parse?_of_iterators divided parts,Option.isSome_some]

theorem lined_parts {expression : Expression} {loop : Loop} (found : parse? expression = .some loop) :
    Lined expression.content expression.offset 0 expression.content.length loop.parts := by
  obtain ⟨left,divider,rest,divided,content,place⟩ := source_of_parse? found
  have stands := standsAt_source found
  have tight := tight_trimRight_of_starts (splits_of_divide? divided).starts
  have last := Lined.singleton (content ▸ tight) stands
  have room := stands.stop_le
  rw [place] at last
  refine (lined_aliases divided found).append (last.widen ?_ ?_)
  · omega
  · rw [Expression.stop]
    omega

/-- A loop is divided by the first word that can divide it. Its parts are those written, trimmed, and
each ends before the next one starts. -/
theorem parts_stand_in_order (expression : Expression) :
    (parse? expression = none ↔
      ¬∃ left divider rest, Splits expression.content left divider rest) ∧
    ∀ loop, parse? expression = some loop →
      (∃ left divider rest trail, Splits expression.content left divider rest ∧
        (∀ lead middle last, Splits expression.content lead middle last → left.length ≤ lead.length) ∧
        rest = loop.source.content ++ trail ∧ isBlank trail = true ∧
        loop.source.offset = expression.offset + (left ++ divider).length) ∧
      (∀ part ∈ loop.parts, Tight part.content ∧
        StandsAt expression.content part.content (part.offset - expression.offset)) ∧
      loop.parts.Pairwise fun first second => first.stop ≤ second.offset := by
  constructor
  · rw [← parse?_isSome_iff,Option.not_isSome_iff_eq_none]
  · intro loop found
    have lined := lined_parts found
    obtain ⟨left,divider,rest,divided,content,place⟩ := source_of_parse? found
    obtain ⟨trail,parts,blank⟩ := exists_eq_trimRight_append rest
    refine ⟨⟨left,divider,rest,trail,splits_of_divide? divided,?_,content ▸ parts,blank,?_⟩,?_,lined.apart⟩
    · intro lead middle last splits
      obtain ⟨_,_,_,other,early⟩ := splits.exists_divide?
      cases divided.symm.trans other
      exact early
    · rw [List.length_append]
      omega
    · intro part member
      obtain ⟨tight,stands,_⟩ := lined.inside part member
      exact ⟨tight,stands⟩

/-- The key and the index are also parts of the value, which stands before them. -/
theorem repeated_names_stand_in_order :
    let expression : Expression := ⟨"( a b, b, a )\tof b in a ".toList,5,false⟩
    ∃ loop, parse? expression = some loop ∧
      loop.parts.map (fun part => (part.content,part.offset)) =
        [("a b".toList,7),("b".toList,12),("a".toList,15),("b in a".toList,22)] ∧
      (∀ part ∈ loop.parts, Tight part.content ∧
        StandsAt expression.content part.content (part.offset - expression.offset)) ∧
      loop.parts.Pairwise fun first second => first.stop ≤ second.offset := by
  intro expression
  have viewed : (parse? expression).map (fun loop =>
      loop.parts.map fun part => (part.content,part.offset)) =
        some [("a b".toList,7),("b".toList,12),("a".toList,15),("b in a".toList,22)] := by
    decide +kernel
  obtain ⟨loop,parsed,shown⟩ := Option.map_eq_some_iff.mp viewed
  obtain ⟨_,standing,apart⟩ := (parts_stand_in_order expression).2 loop parsed
  exact ⟨loop,parsed,shown,standing,apart⟩

end VueScope.Template.Loop
