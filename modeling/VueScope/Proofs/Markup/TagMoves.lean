import VueScope.Proofs.Markup.Authored
import VueScope.Proofs.Markup.OpenElements

/-! What the reader does at a tag that is written as its author means it. At a start tag, the
innermost open element ends unless it holds the tag. At an end tag, it depends on which of the
open elements have its name. -/
namespace VueScope.Markup

namespace TagName

theorem isOneOf_of_subset {few : List String} (many : List String) {tag : TagName}
    (sub : ∀ name ∈ few, name ∈ many) (found : tag.isOneOf few = true) : tag.isOneOf many = true := by
  obtain ⟨name,member,same⟩ := List.any_eq_true.mp found
  exact List.any_eq_true.mpr ⟨name,sub name member,same⟩

theorem holds_of_isCustom (parent child : TagName) (custom : parent.isCustom = true) :
    parent.holds child = true := by
  simp only [isCustom,Bool.not_eq_true',Bool.or_eq_false_iff] at custom
  have ordinary (names : List String) (sub : ∀ name ∈ names, name ∈ ordinaryNames) :
      parent.isOneOf names = false := by
    refine Bool.eq_false_iff.mpr fun found => ?_
    rw [isOneOf_of_subset ordinaryNames sub found] at custom
    exact absurd custom.2 (by decide)
  have void : parent.isVoid = false := custom.1
  have contains : parent.canContain child = true := by
    unfold canContain
    rw [ordinary ["li"] (by decide),ordinary ["dt","dd"] (by decide),ordinary ["p"] (by decide),
      ordinary ["colgroup"] (by decide),ordinary ["rb","rt","rp"] (by decide),
      ordinary ["optgroup"] (by decide),ordinary ["tr"] (by decide),ordinary ["td","th"] (by decide)]
    rfl
  rw [holds,void,contains]
  rfl

theorem isVoid_of_neverClosed {name : List Char} (never : neverClosed name = true) :
    (ofChars name).isVoid = true := by
  obtain ⟨void,member,same⟩ := List.any_eq_true.mp never
  have among : ∀ void ∈ ["area","base","br","col","embed","hr","img","input","link","meta","source",
      "track","wbr"], void ∈ voidNames := by decide
  exact List.any_eq_true.mpr ⟨void,among void member,same⟩

theorem ne_of_neverClosed {first second : List Char} (never : neverClosed first = true)
    (other : neverClosed second = false) : ofChars first ≠ ofChars second := by
  intro same
  have lower : Text.lower first = Text.lower second := congrArg TagName.name same
  unfold neverClosed at never other
  rw [lower,other] at never
  contradiction

end TagName

theorem skipWhite_of_bracket {cursor : Cursor} {rest : List Char}
    (written : cursor.rest = '<' :: rest) : cursor.skipWhite = cursor := by
  apply cursor.skipWhile_of_head
  rintro c first
  rw [written,List.head?_cons,Option.mem_some_iff] at first
  subst first
  decide

variable (openTags : List TagName) (top : TagName) (outer : List TagName)

theorem move_of_bracket {cursor : Cursor} {rest : List Char}
    (written : cursor.rest = '<' :: rest) (noBang : rest.head? ≠ some '!') (noSlash : rest.head? ≠ some '/') :
    move openTags cursor = moveAtStartTag openTags cursor rest := by
  unfold move
  rw [written]
  split
  · contradiction
  next same => exact absurd (congrArg List.head? (List.cons.inj same).2) noBang
  next same => exact absurd (congrArg List.head? (List.cons.inj same).2) noSlash
  next same => rw [(List.cons.inj same).2]
  next same => exact absurd (List.cons.inj same).1 (by decide)
  next same => exact absurd (List.cons.inj same).1 (by decide)
  next first _ _ => exact absurd rfl (first _)

namespace Opens

variable {cursor inside : Cursor} {tag : StartTag}

section

variable (opened : Opens cursor tag inside)
include opened

theorem skipWhite : cursor.skipWhite = cursor := by
  obtain ⟨rest,written,_⟩ := opened.named
  exact skipWhite_of_bracket written

theorem name_ne_nil : tag.name ≠ [] := by
  have read := opened.read
  unfold readStartTag? at read
  dsimp only at read
  split at read
  · contradiction
  next some =>
    split at read
    · contradiction
    · cases read
      simpa using some

theorem move_eq :
    move openTags cursor =
      if closedByStart openTags tag.name then .stop
      else moveAtElement cursor tag (.ofChars tag.name) inside := by
  obtain ⟨rest,written,named⟩ := opened.named
  have nonempty := opened.name_ne_nil
  have other (c : Char) (no : isTagChar c = false) : rest.head? ≠ some c := by
    intro first
    obtain ⟨more,rfl⟩ := List.head?_eq_some_iff.mp first
    rw [tagNameHere,List.takeWhile_cons,no] at named
    exact nonempty named.symm
  rw [move_of_bracket openTags written (other '!' (by decide)) (other '/' (by decide)),moveAtStartTag,named,
    opened.read]

theorem move_of_not_holds
    (ends : top.holds (.ofChars tag.name) = false) : move (top :: outer) cursor = .stop := by
  have closes : closedByStart (top :: outer) tag.name = true := by
    cases void : top.isVoid with
    | true => simp [closedByStart,void]
    | false => simpa [closedByStart,TagName.holds,void,opened.name_ne_nil] using ends
  rw [opened.move_eq,if_pos closes]

theorem move_of_holds
    (stays : top.holds (.ofChars tag.name) = true) :
    move (top :: outer) cursor = moveAtElement cursor tag (.ofChars tag.name) inside := by
  rw [opened.move_eq,if_neg]
  simpa [closedByStart,TagName.holds,opened.name_ne_nil] using stays

end

end Opens

theorem writtenEndTag_ne_nil {cursor after : Cursor} {written : List Char} {name : TagName}
    (read : readEndTag? cursor = some (written,name,after)) : written ≠ [] := by
  unfold readEndTag? at read
  dsimp only at read
  split at read
  · contradiction
  next some =>
    split at read
    · cases read
      simpa using some
    · contradiction

namespace Closes

variable {cursor after : Cursor} {name : TagName}

section

variable (closed : Closes cursor name after)
include closed

theorem skipWhite : cursor.skipWhite = cursor := by
  obtain ⟨rest,written,_⟩ := closed.named
  exact skipWhite_of_bracket written

theorem move_eq :
    ∃ written, TagName.ofChars written = name ∧ move openTags cursor =
      if openTags.head? ≠ some name ∧ (openTags.any fun other => other.sameEntry name) = true then .stop
      else if openTags.head? = some name then .close after
      else if openTags.isEmpty then .skip after false
      else .leaf (.strayEnd ⟨cursor.offset,after.offset⟩ written) after := by
  obtain ⟨rest,here,named⟩ := closed.named
  obtain ⟨written,read⟩ := closed.read
  have same := (of_readEndTag? read).2
  have nonempty : tagNameHere rest ≠ [] := by
    intro none
    rw [none,same] at named
    have lower : [] = Text.lower written := congrArg TagName.name named
    exact writtenEndTag_ne_nil read (List.map_eq_nil_iff.mp lower.symm)
  refine ⟨written,same.symm,?_⟩
  have moved : move openTags cursor = moveAtEndTag openTags cursor rest := by
    unfold move
    rw [here]
    rfl
  rw [moved,moveAtEndTag,read,closesOuter,named]
  simp [nonempty]

theorem move_of_head :
    move (name :: outer) cursor = .close after := by
  obtain ⟨written,_,moved⟩ := closed.move_eq (name :: outer)
  rw [moved,if_neg (by simp),if_pos List.head?_cons]

theorem move_of_inside
    (other : top ≠ name) (around : name ∈ outer) : move (top :: outer) cursor = .stop := by
  obtain ⟨written,_,moved⟩ := closed.move_eq (top :: outer)
  rw [moved,if_pos]
  refine ⟨by simpa using other,List.any_eq_true.mpr ⟨name,List.mem_cons_of_mem _ around,?_⟩⟩
  simp [TagName.sameEntry]

theorem move_of_not_mem
    (known : name.isCustom = false) (absent : name ∉ top :: outer) :
    ∃ written, TagName.ofChars written = name ∧
      move (top :: outer) cursor = .leaf (.strayEnd ⟨cursor.offset,after.offset⟩ written) after := by
  obtain ⟨written,same,moved⟩ := closed.move_eq (top :: outer)
  refine ⟨written,same,?_⟩
  rw [moved,if_neg,if_neg,if_neg]
  · simp
  · intro head
    exact absent (List.mem_of_head? head)
  · rintro ⟨_,found⟩
    obtain ⟨other,member,entry⟩ := List.any_eq_true.mp found
    simp only [TagName.sameEntry,known,Bool.and_false,Bool.or_false,decide_eq_true_eq] at entry
    exact absent (entry ▸ member)

end

end Closes

end VueScope.Markup
