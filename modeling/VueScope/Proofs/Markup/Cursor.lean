import VueScope.Markup.Reader
import VueScope.Proofs.Text.ByteOffsets

/-! How far the readers of tags go. Every reader leaves its cursor further on in the same
text, with the bytes in between counted. -/
namespace VueScope.Markup

open Text

namespace Cursor

/-- A place that is the same as another, or further on in its text. -/
def Reaches (before after : Cursor) : Prop :=
  ∃ taken, before.rest = taken ++ after.rest ∧ after.offset = before.offset + byteLength taken

def Passes (before after : Cursor) : Prop :=
  before.Reaches after ∧ after.rest.length < before.rest.length

variable {first second third : Cursor}
variable (cursor : Cursor) (test : Char → Bool) (count : Nat)

theorem Reaches.refl : cursor.Reaches cursor :=
  ⟨[],rfl,rfl⟩

theorem Reaches.trans (early : first.Reaches second) (late : second.Reaches third) :
    first.Reaches third := by
  obtain ⟨taken,parts,counted⟩ := early
  obtain ⟨more,others,added⟩ := late
  refine ⟨taken ++ more,?_,?_⟩
  · rw [parts,others,List.append_assoc]
  · rw [added,counted,byteLength_append,Nat.add_assoc]

theorem Reaches.offset_le (reached : first.Reaches second) : first.offset ≤ second.offset := by
  obtain ⟨taken,_,counted⟩ := reached
  omega

theorem Reaches.length_le (reached : first.Reaches second) :
    second.rest.length ≤ first.rest.length := by
  obtain ⟨taken,parts,_⟩ := reached
  rw [parts,List.length_append]
  omega

theorem Reaches.eq_of_offset (one : first.Reaches second) (other : first.Reaches third)
    (same : second.offset = third.offset) : second = third := by
  obtain ⟨taken,parts,counted⟩ := one
  obtain ⟨more,others,added⟩ := other
  have none (extra : List Char) (width : byteLength extra = 0) : extra = [] := by
    cases extra with
    | nil => rfl
    | cons c cs =>
      have wide := c.utf8Size_pos
      rw [byteLength] at width
      omega
  have rest : second.rest = third.rest := by
    rw [parts] at others
    rcases List.append_eq_append_iff.mp others with ⟨extra,rfl,behind⟩ | ⟨extra,rfl,behind⟩
    · rw [byteLength_append] at added
      rw [behind,none extra (by omega),List.nil_append]
    · rw [byteLength_append] at counted
      rw [behind,none extra (by omega),List.nil_append]
  obtain ⟨offset,text⟩ := second
  obtain ⟨place,other⟩ := third
  cases same
  cases rest
  rfl

theorem Reaches.passes (early : first.Reaches second) (late : second.Passes third) :
    first.Passes third :=
  ⟨early.trans late.1,Nat.lt_of_lt_of_le late.2 early.length_le⟩

theorem Passes.reaches (early : first.Passes second) (late : second.Reaches third) :
    first.Passes third :=
  ⟨early.1.trans late,Nat.lt_of_le_of_lt late.length_le early.2⟩

theorem reaches_advance : cursor.Reaches (cursor.advance count) :=
  ⟨cursor.rest.take count,(List.take_append_drop count cursor.rest).symm,rfl⟩

theorem reaches_skipWhile : cursor.Reaches (cursor.skipWhile test) :=
  cursor.reaches_advance _

theorem reaches_skipWhite : cursor.Reaches cursor.skipWhite :=
  cursor.reaches_skipWhile _

theorem passes_advance (positive : 0 < count) (c : Char) (rest : List Char)
    (more : cursor.rest = c :: rest) : cursor.Passes (cursor.advance count) := by
  refine ⟨cursor.reaches_advance count,?_⟩
  simp only [advance,List.length_drop,more,List.length_cons]
  omega

theorem take_takeWhile (text : List Char) :
    text.take (text.takeWhile test).length = text.takeWhile test :=
  (List.prefix_iff_eq_take.mp <| List.takeWhile_prefix test).symm

theorem test_of_mem_takeWhile {test : Char → Bool} {text : List Char} {c : Char}
    (member : c ∈ text.takeWhile test) : test c = true :=
  List.all_eq_true.mp List.all_takeWhile c member

theorem skipWhile_eq :
    cursor.skipWhile test =
      ⟨cursor.offset + byteLength (cursor.rest.takeWhile test),cursor.rest.dropWhile test⟩ := by
  have parts := @List.takeWhile_append_dropWhile _ test cursor.rest
  have dropped : cursor.rest.drop (cursor.rest.takeWhile test).length = cursor.rest.dropWhile test := by
    have rest := congrArg (List.drop (cursor.rest.takeWhile test).length) parts
    rwa [List.drop_left,eq_comm] at rest
  rw [skipWhile,advance,take_takeWhile,dropped]

theorem skipWhile_advance (passed : ∀ c ∈ cursor.rest.take count, test c = true) :
    (cursor.advance count).skipWhile test = cursor.skipWhile test := by
  rw [skipWhile_eq,skipWhile_eq cursor,← List.take_append_drop count cursor.rest,
    List.takeWhile_append_of_pos passed,List.dropWhile_append_of_pos passed,byteLength_append,
    ← Nat.add_assoc]
  rfl

theorem skipWhile_of_head (stopped : ∀ c ∈ cursor.rest.head?, test c = false) :
    cursor.skipWhile test = cursor := by
  have none : cursor.rest.takeWhile test = [] := by
    cases written : cursor.rest with
    | nil => rfl
    | cons c rest => simp [stopped c (by simp [written])]
  rw [skipWhile,none]
  simp [advance,byteLength]

theorem head_skipWhile : ∀ c ∈ (cursor.skipWhile test).rest.head?, test c = false := by
  intro c first
  rw [skipWhile_eq] at first
  have stopped := List.head?_dropWhile_not test cursor.rest
  rw [Option.mem_def.mp first] at stopped
  simpa using stopped

theorem skipWhite_skipWhite : cursor.skipWhite.skipWhite = cursor.skipWhite :=
  skipWhile_of_head _ _ (cursor.head_skipWhile _)

end Cursor

def Follow (lower upper : Nat) : List Span → Prop
  | [] => lower ≤ upper
  | span :: rest => lower ≤ span.start ∧ span.start ≤ span.stop ∧ Follow span.stop upper rest

namespace Follow

variable {lower middle upper : Nat} {first second : List Span}

theorem le (follow : Follow lower upper first) : lower ≤ upper := by
  induction first generalizing lower with
  | nil => exact follow
  | cons span rest ih =>
    obtain ⟨before,width,after⟩ := follow
    exact Nat.le_trans (Nat.le_trans before width) (ih after)

theorem from_le (follow : Follow middle upper first) (before : lower ≤ middle) :
    Follow lower upper first := by
  cases first with
  | nil => exact Nat.le_trans before follow
  | cons span rest => exact ⟨Nat.le_trans before follow.1,follow.2⟩

theorem to_le (follow : Follow lower middle first) (after : middle ≤ upper) :
    Follow lower upper first := by
  induction first generalizing lower with
  | nil => exact Nat.le_trans follow after
  | cons span rest ih => exact ⟨follow.1,follow.2.1,ih follow.2.2⟩

theorem append_iff : Follow lower upper (first ++ second) ↔
    ∃ middle, Follow lower middle first ∧ Follow middle upper second := by
  induction first generalizing lower with
  | nil =>
    constructor
    · intro follow
      exact ⟨lower,Nat.le_refl _,follow⟩
    · rintro ⟨middle,before,after⟩
      exact after.from_le before
  | cons span rest ih =>
    simp only [List.cons_append,Follow,ih]
    constructor
    · rintro ⟨before,width,middle,early,late⟩
      exact ⟨middle,⟨before,width,early⟩,late⟩
    · rintro ⟨middle,⟨before,width,early⟩,late⟩
      exact ⟨before,width,middle,early,late⟩

theorem append (before : Follow lower middle first) (after : Follow middle upper second) :
    Follow lower upper (first ++ second) :=
  append_iff.mpr ⟨middle,before,after⟩

end Follow

def Attribute.spans (attr : Attribute) : List Span :=
  attr.name :: attr.value.toList

variable {after : Cursor} {span : Span} {name : TagName}

theorem of_readQuoted? {quote : Char} {cursor : Cursor}
    (read : readQuoted? quote cursor = some (span,after)) :
    cursor.Reaches after ∧ Follow cursor.offset after.offset [span] := by
  unfold readQuoted? at read
  dsimp only at read
  split at read
  · contradiction
  · cases read
    have inner := cursor.reaches_skipWhile (· ≠ quote)
    have closed := (cursor.skipWhile (· ≠ quote)).reaches_advance 1
    exact ⟨inner.trans closed,Nat.le_refl _,inner.offset_le,closed.offset_le⟩

theorem of_readValue? {cursor : Cursor}
    (read : readValue? cursor = some (span,after)) :
    cursor.Reaches after ∧ Follow cursor.offset after.offset [span] := by
  have quoted (quote : Char) (read : readQuoted? quote (cursor.advance 1) = some (span,after)) :
      cursor.Reaches after ∧ Follow cursor.offset after.offset [span] := by
    have opened := cursor.reaches_advance 1
    obtain ⟨reached,follow⟩ := of_readQuoted? read
    exact ⟨opened.trans reached,follow.from_le opened.offset_le⟩
  unfold readValue? at read
  split at read
  · exact quoted '"' read
  · exact quoted '\'' read
  · dsimp only at read
    split at read
    · contradiction
    · cases read
      have bare := cursor.reaches_skipWhile isBareValueChar
      exact ⟨bare,Nat.le_refl _,bare.offset_le,Nat.le_refl _⟩

theorem of_readAttribute? {cursor : Cursor} {attr : Attribute}
    (read : readAttribute? cursor = some (attr,after)) :
    cursor.Reaches after ∧ Follow cursor.offset after.offset attr.spans := by
  unfold readAttribute? at read
  dsimp only at read
  have named := cursor.reaches_skipWhile isNameChar
  split at read
  · contradiction
  · split at read
    next rest written =>
      split at read
      · contradiction
      next value stop valued =>
        cases read
        have between := ((Cursor.reaches_skipWhite _).trans (Cursor.reaches_advance _ 1)).trans
          (Cursor.reaches_skipWhite ((cursor.skipWhile isNameChar).skipWhite.advance 1))
        obtain ⟨reached,follow⟩ := of_readValue? valued
        exact ⟨named.trans (between.trans reached),Nat.le_refl _,named.offset_le,
          follow.from_le between.offset_le⟩
    · cases read
      exact ⟨named,Nat.le_refl _,named.offset_le,Nat.le_refl _⟩

/-- The attributes that are read from a place on, up to the end of their tag. -/
inductive AttributesRead : Cursor → List Attribute → Cursor → Prop
  | ended {cursor rest} (written : cursor.skipWhite.rest = '>' :: rest) :
      AttributesRead cursor [] (cursor.skipWhite.advance 1)
  | closed {cursor rest} (written : cursor.skipWhite.rest = '/' :: '>' :: rest) :
      AttributesRead cursor [] (cursor.skipWhite.advance 2)
  | more {cursor attr next attributes after} (one : readAttribute? cursor.skipWhite = some (attr,next))
      (others : AttributesRead next attributes after) : AttributesRead cursor (attr :: attributes) after

theorem attributesRead_of_readAttributes? {fuel : Nat} (cursor : Cursor)
    (attributes : List Attribute) {selfClosing : Bool}
    (read : readAttributes? fuel cursor = some (attributes,selfClosing,after)) :
    AttributesRead cursor attributes after := by
  induction fuel generalizing cursor attributes with
  | zero => contradiction
  | succ fuel ih =>
    unfold readAttributes? at read
    dsimp only at read
    split at read
    next rest written =>
      cases read
      exact .ended written
    next rest written =>
      cases read
      exact .closed written
    · split at read
      · contradiction
      next attr next one =>
        split at read
        · contradiction
        next others closing stop rest =>
          cases read
          exact .more one (ih next others rest)

theorem AttributesRead.follow {cursor : Cursor} {attributes : List Attribute}
    (read : AttributesRead cursor attributes after) :
    cursor.Passes after ∧ Follow cursor.offset after.offset (attributes.flatMap Attribute.spans) := by
  induction read with
  | @ended cursor _ written =>
    have passed := cursor.reaches_skipWhite.passes (cursor.skipWhite.passes_advance 1 Nat.one_pos _ _ written)
    exact ⟨passed,passed.1.offset_le⟩
  | @closed cursor _ written =>
    have passed := cursor.reaches_skipWhite.passes (cursor.skipWhite.passes_advance 2 Nat.two_pos _ _ written)
    exact ⟨passed,passed.1.offset_le⟩
  | @more cursor attr next _ _ one _ ih =>
    obtain ⟨reached,first⟩ := of_readAttribute? one
    refine ⟨(cursor.reaches_skipWhite.trans reached).passes ih.1,?_⟩
    rw [List.flatMap_cons]
    exact (first.append ih.2).from_le cursor.reaches_skipWhite.offset_le

theorem exists_of_readStartTag? {cursor : Cursor} {tag : StartTag}
    (read : readStartTag? cursor = some (tag,name,after)) :
    tag.span = ⟨cursor.offset,after.offset⟩ ∧ name = .ofChars tag.name ∧
      ∃ named, cursor.Reaches named ∧ AttributesRead named tag.attributes after := by
  unfold readStartTag? at read
  dsimp only at read
  split at read
  · contradiction
  · split at read
    · contradiction
    next attributes selfClosing stop rest =>
      cases read
      exact ⟨rfl,rfl,_,((cursor.reaches_advance 1).trans (Cursor.reaches_skipWhite _)).trans
        (Cursor.reaches_advance _ _),attributesRead_of_readAttributes? _ attributes rest⟩

theorem of_readStartTag? {cursor : Cursor} {tag : StartTag}
    (read : readStartTag? cursor = some (tag,name,after)) :
    cursor.Passes after ∧ tag.span = ⟨cursor.offset,after.offset⟩ ∧ name = .ofChars tag.name ∧
      Follow cursor.offset after.offset (tag.attributes.flatMap Attribute.spans) := by
  obtain ⟨span,same,_,named,attributes⟩ := exists_of_readStartTag? read
  obtain ⟨passed,follow⟩ := attributes.follow
  exact ⟨named.passes passed,span,same,follow.from_le named.offset_le⟩

theorem of_readEndTag? {cursor : Cursor} {written : List Char}
    (read : readEndTag? cursor = some (written,name,after)) :
    cursor.Passes after ∧ name = .ofChars written := by
  unfold readEndTag? at read
  dsimp only at read
  split at read
  · contradiction
  · split at read
    next rest close =>
      cases read
      have named := (((cursor.reaches_advance 2).trans (Cursor.reaches_skipWhite _)).trans
        (Cursor.reaches_advance _ (tagNameHere (cursor.advance 2).skipWhite.rest).length)).trans
          (Cursor.reaches_skipWhite _)
      exact ⟨named.passes (Cursor.passes_advance _ 1 Nat.one_pos _ _ close),rfl⟩
    · contradiction

theorem of_readRawEnd? {tag : TagName} {cursor : Cursor}
    (read : readRawEnd? tag cursor = some (span,after)) : cursor.Passes after := by
  unfold readRawEnd? at read
  split at read
  · split at read
    · contradiction
    next written name stop ended =>
      split at read
      · cases read
        exact (of_readEndTag? ended).1
      · contradiction
  · contradiction

end VueScope.Markup
