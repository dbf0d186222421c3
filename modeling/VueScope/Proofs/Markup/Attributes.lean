import VueScope.Proofs.Markup.Joints
import VueScope.Proofs.Markup.Opened

/-! Attributes stand at joints. A name ends, and a value starts and ends, where no word of the
file runs on. -/
namespace VueScope.Markup

open Text

structure Cursor.Behind (text front : List Char) (cursor : Cursor) : Prop where
  parts : text = front ++ cursor.rest
  counted : cursor.offset = byteLength front

namespace Cursor.Behind

variable {text front : List Char} {cursor : Cursor}

theorem of_reaches (reached : Cursor.Reaches ⟨0,text⟩ cursor) :
    ∃ front, cursor.Behind text front := by
  obtain ⟨front,parts,counted⟩ := reached
  exact ⟨front,parts,counted.trans (Nat.zero_add _)⟩

section

variable (behind : cursor.Behind text front)
include behind

theorem advance (count : Nat) :
    (cursor.advance count).Behind text (front ++ cursor.rest.take count) := by
  refine ⟨?_,?_⟩
  · rw [behind.parts,Cursor.advance,List.append_assoc,List.take_append_drop]
  · rw [Cursor.advance,behind.counted,byteLength_append]

theorem skipWhile (test : Char → Bool) :
    (cursor.skipWhile test).Behind text (front ++ cursor.rest.takeWhile test) := by
  have skipped := behind.advance (cursor.rest.takeWhile test).length
  rwa [take_takeWhile] at skipped

theorem skipWhite :
    cursor.skipWhite.Behind text (front ++ cursor.rest.takeWhile isWhite) :=
  behind.skipWhile isWhite

theorem solidJoint (seam : Seam front cursor.rest)
    (solid : front.getLast? ≠ some ' ' ∨ cursor.rest.head? ≠ some ' ') :
    SolidJoint text cursor.offset :=
  ⟨front,cursor.rest,behind.parts,behind.counted.symm,seam,solid⟩

end

end Cursor.Behind

theorem isWordChar_of_isWhite {c : Char} (white : isWhite c = true) : isWordChar c = false :=
  isWordChar_of_isSpace (by simp [isSpace,white])

theorem isWordChar_of_stop {marks : List Char} {c : Char} (plain : marks.any isWordChar = false)
    (stops : (!(isWhite c || marks.contains c)) = false) : isWordChar c = false := by
  simp only [Bool.not_eq_false',Bool.or_eq_true,List.contains_iff_mem] at stops
  rcases stops with white | mark
  · exact isWordChar_of_isWhite white
  · exact isWordChar_of_any plain mark

/-- A run of characters ends at a solid joint if no space is among them and no word character can
stop it. -/
theorem solidJoint_skipWhile {text front : List Char} {cursor : Cursor} {test : Char → Bool}
    (behind : cursor.Behind text front) (moved : (cursor.skipWhile test).offset ≠ cursor.offset)
    (solid : test ' ' = false) (stops : ∀ c, test c = false → isWordChar c = false) :
    SolidJoint text (cursor.skipWhile test).offset := by
  apply (behind.skipWhile test).solidJoint
  · exact Seam.of_right (startsWithWord_drop_takeWhile test cursor.rest stops)
  · left
    rcases List.eq_nil_or_concat' (cursor.rest.takeWhile test) with none | ⟨lead,last,run⟩
    · rw [Cursor.skipWhile_eq,none] at moved
      exact absurd rfl moved
    · have among : last ∈ cursor.rest.takeWhile test := by
        rw [run]
        exact List.mem_append_right _ (List.mem_singleton.mpr rfl)
      rw [run,← List.append_assoc,List.getLast?_concat]
      intro same
      have passed := Cursor.test_of_mem_takeWhile among
      rw [Option.some.inj same,solid] at passed
      contradiction

structure Attribute.Jointed (joint : Nat → Prop) (attr : Attribute) : Prop where
  name : attr.name.start ≤ attr.name.stop ∧ joint attr.name.stop
  value : ∀ span, attr.value = some span → span.start ≤ span.stop ∧ joint span.start ∧ joint span.stop

variable {after : Cursor} {joint : Nat → Prop}

theorem solidJoint_readQuoted? {text front : List Char} {cursor : Cursor} {quote : Char} {span : Span}
    (behind : cursor.Behind text (front ++ [quote])) (solid : quote ≠ ' ')
    (plain : isWordChar quote = false) (read : readQuoted? quote cursor = some (span,after)) :
    SolidJoint text span.start ∧ SolidJoint text span.stop := by
  unfold readQuoted? at read
  dsimp only at read
  split at read
  · contradiction
  next c rest closed =>
    cases read
    constructor
    · apply behind.solidJoint
      · exact Seam.of_left (by rw [endsInWord_concat,plain])
      · left
        simpa using solid
    · have quoted : c = quote := by
        have ends := List.head?_dropWhile_not (· ≠ quote) cursor.rest
        rw [Cursor.skipWhile_eq] at closed
        dsimp only at closed
        rw [closed] at ends
        simpa using ends
      apply (behind.skipWhile (· ≠ quote)).solidJoint
      · apply Seam.of_right
        rw [closed,startsWithWord_cons,quoted,plain]
      · right
        rw [closed,quoted]
        simpa using solid

theorem solidJoint_readValue? {text front : List Char} {cursor : Cursor} {span : Span}
    (behind : cursor.Behind text front) (plain : endsInWord front = false)
    (read : readValue? cursor = some (span,after)) :
    SolidJoint text span.start ∧ SolidJoint text span.stop := by
  have quoted (quote : Char) (rest : List Char) (opened : cursor.rest = quote :: rest) :
      (cursor.advance 1).Behind text (front ++ [quote]) := by
    have next := behind.advance 1
    rwa [opened] at next
  unfold readValue? at read
  split at read
  next rest opened =>
    exact solidJoint_readQuoted? (quoted _ rest opened) (by decide) (by decide) read
  next rest opened =>
    exact solidJoint_readQuoted? (quoted _ rest opened) (by decide) (by decide) read
  · dsimp only at read
    split at read
    · contradiction
    next moved =>
      cases read
      refine ⟨?_,solidJoint_skipWhile behind moved rfl
        (fun _ => isWordChar_of_stop rfl)⟩
      apply behind.solidJoint (Seam.of_left plain)
      right
      intro space
      apply moved
      rw [Cursor.skipWhile_of_head]
      intro c first
      rw [space] at first
      cases first
      rfl

theorem jointed_readAttribute? {text : List Char} {cursor : Cursor} {attr : Attribute}
    (reached : Cursor.Reaches ⟨0,text⟩ cursor) (read : readAttribute? cursor = some (attr,after)) :
    attr.Jointed (SolidJoint text) := by
  obtain ⟨front,behind⟩ := Cursor.Behind.of_reaches reached
  have follow := (of_readAttribute? read).2
  unfold readAttribute? at read
  dsimp only at read
  split at read
  · contradiction
  next moved =>
    have name := solidJoint_skipWhile behind moved rfl
      (fun _ => isWordChar_of_stop rfl)
    split at read
    next rest equals =>
      split at read
      · contradiction
      next value stop valued =>
        cases read
        refine ⟨⟨follow.2.1,name⟩,?_⟩
        rintro span ⟨rfl⟩
        -- an equals sign and white space stand before the value
        have sign := (behind.skipWhile isNameChar).skipWhite.advance 1
        rw [equals,List.take_succ_cons,List.take_zero] at sign
        refine ⟨follow.2.2.2.1,solidJoint_readValue? sign.skipWhite ?_ valued⟩
        rw [List.append_assoc,endsInWord_append _ (by simp)]
        apply endsInWord_of_forall
        intro c member
        rcases List.mem_cons.mp member with rfl | white
        · decide
        · exact isWordChar_of_isWhite (Cursor.test_of_mem_takeWhile white)
    · cases read
      refine ⟨⟨follow.2.1,name⟩,?_⟩
      intro span none
      contradiction

theorem AttributesRead.jointed {text : List Char} {cursor : Cursor} {attributes : List Attribute}
    (read : AttributesRead cursor attributes after) (reached : Cursor.Reaches ⟨0,text⟩ cursor) :
    ∀ attr ∈ attributes, attr.Jointed (SolidJoint text) := by
  induction read with
  | ended _ => exact List.forall_mem_nil _
  | closed _ => exact List.forall_mem_nil _
  | @more cursor attr next _ _ one _ ih =>
    have white := reached.trans cursor.reaches_skipWhite
    have further := (of_readAttribute? one).1
    exact List.forall_mem_cons.mpr ⟨jointed_readAttribute? white one,ih (white.trans further)⟩

/-! Trees. -/

def StartTag.Jointed (joint : Nat → Prop) (_ : Nat) (tag : StartTag) : Prop :=
  ∀ attr ∈ tag.attributes, attr.Jointed joint

theorem Attribute.Jointed.mono {other : Nat → Prop} {attr : Attribute}
    (implies : ∀ offset, joint offset → other offset) (jointed : attr.Jointed joint) :
    attr.Jointed other := by
  refine ⟨⟨jointed.name.1,implies _ jointed.name.2⟩,?_⟩
  intro span written
  obtain ⟨ordered,start,stop⟩ := jointed.value span written
  exact ⟨ordered,implies _ start,implies _ stop⟩

theorem jointed_read (text : List Char) :
    ∀ node ∈ (read (mask text)).nodes, node.Opened (StartTag.Jointed (Joint text)) := by
  intro node member
  refine (opened_read (mask text) node member).imp fun start tag own attr inside => ?_
  obtain ⟨_,_,reached,_,read⟩ := own
  obtain ⟨_,_,_,named,attributes⟩ := exists_of_readStartTag? read
  exact (attributes.jointed (reached.trans named) attr inside).mono fun _ => joint_of_mask

end VueScope.Markup
