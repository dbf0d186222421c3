import Mathlib.Data.List.DropRight
import VueScope.Text.Document

/-! Offsets and positions of a document. The table of line starts is cut in two at every offset: what
stands before the offset gives the starts up to it, the rest gives later ones. So the line of an offset is
the number of newlines before it, and positions and offsets determine each other. -/
namespace VueScope.Text

/-- The offset just after the last newline of a text. -/
def lineStart (text : List Char) : Nat :=
  (text.rdropWhile (· ≠ '\n')).length

/-- Positions in the order of the text. -/
def Position.Before (first second : Position) : Prop :=
  first.line < second.line ∨ first.line = second.line ∧ first.character < second.character

instance (first second : Position) : Decidable (first.Before second) := by
  unfold Position.Before
  infer_instance

theorem lineStart_concat_newline (text : List Char) : lineStart (text ++ ['\n']) = text.length + 1 := by
  simp [lineStart]

variable {text : List Char}

theorem lineStart_append {line : List Char} (single : '\n' ∉ line) :
    lineStart (text ++ line) = lineStart text := by
  induction line using List.reverseRecOn with
  | nil => rw [List.append_nil]
  | append_singleton front last ih =>
    rw [List.mem_append,List.mem_singleton,not_or] at single
    rw [← List.append_assoc,lineStart,List.rdropWhile_concat_pos _ _ _ (by simpa using Ne.symm single.2)]
    exact ih single.1

theorem lineStart_le_length (text : List Char) : lineStart text ≤ text.length :=
  (List.rdropWhile_prefix _ _).length_le

namespace Document

theorem startsAfterNewlines_append (start : Nat) (first second : List Char) :
    startsAfterNewlines start (first ++ second) =
      startsAfterNewlines start first ++ startsAfterNewlines (start + first.length) second := by
  induction first generalizing start with
  | nil => rfl
  | cons c rest ih =>
    rw [List.cons_append,startsAfterNewlines,startsAfterNewlines,List.length_cons,ih,Nat.add_right_comm]
    split
    · rfl
    · rfl

theorem length_startsAfterNewlines (start : Nat) (text : List Char) :
    (startsAfterNewlines start text).length = text.count '\n' := by
  induction text generalizing start with
  | nil => rfl
  | cons c rest ih =>
    rw [startsAfterNewlines,List.count_cons]
    split
    next newline => simp [newline,ih]
    next other => simp [other,ih]

theorem lt_of_mem_startsAfterNewlines {start next : Nat} (member : next ∈ startsAfterNewlines start text) :
    start < next ∧ next ≤ start + text.length := by
  induction text generalizing start with
  | nil => contradiction
  | cons c rest ih =>
    rw [startsAfterNewlines] at member
    rw [List.length_cons]
    split at member
    · rcases List.mem_cons.mp member with rfl | later
      · omega
      · have between := ih later
        omega
    · have between := ih member
      omega

theorem getLast_startsAfterNewlines (text : List Char) :
    (0 :: startsAfterNewlines 0 text).getLast (List.cons_ne_nil _ _) = lineStart text := by
  induction text using List.reverseRecOn with
  | nil => rfl
  | append_singleton front last ih =>
    simp only [startsAfterNewlines_append,startsAfterNewlines,Nat.zero_add]
    split
    next newline =>
      subst newline
      rw [lineStart_concat_newline]
      simp
    next other =>
      rw [lineStart_append (by simpa using Ne.symm other)]
      simpa using ih

theorem lineOf_append {offset line start : Nat} {early late : List Nat}
    (before : ∀ next ∈ early, next ≤ offset) (after : ∀ next ∈ late, offset < next) :
    lineOf offset line start (early ++ late) =
      (line + early.length,(start :: early).getLast (List.cons_ne_nil _ _)) := by
  induction early generalizing line start with
  | nil =>
    cases late with
    | nil => rfl
    | cons next later =>
      have beyond := after next List.mem_cons_self
      rw [List.nil_append,lineOf,if_neg (by omega)]
      rfl
  | cons next rest ih =>
    rw [List.cons_append,lineOf,if_pos (before next List.mem_cons_self),
      ih fun next member => before next (List.mem_cons_of_mem _ member),List.getLast_cons_cons,
      List.length_cons,Nat.add_assoc,Nat.add_comm 1]

section Offset

variable (document : Document) (before after : List Char) (written : document.text = before ++ after)
include written

theorem lineStarts_eq_append : document.lineStarts =
    (0 :: startsAfterNewlines 0 before) ++ startsAfterNewlines before.length after := by
  rw [lineStarts,written,startsAfterNewlines_append,Nat.zero_add,List.cons_append]

theorem getElem?_lineStarts : document.lineStarts[before.count '\n']? = some (lineStart before) := by
  have last : before.count '\n' = (0 :: startsAfterNewlines 0 before).length - 1 := by
    rw [List.length_cons,length_startsAfterNewlines,Nat.add_sub_cancel]
  rw [lineStarts_eq_append document before after written,
    List.getElem?_append_left (by simp [length_startsAfterNewlines]),last,← List.getLast?_eq_getElem?,
    List.getLast?_eq_some_getLast (List.cons_ne_nil _ _),getLast_startsAfterNewlines]

theorem positionAt_length : document.positionAt before.length =
    .ok ⟨before.count '\n',before.length - lineStart before⟩ := by
  have inside : ¬((before.length : Int) < 0 || (document.length : Int) < before.length) := by
    simp only [length,written,List.length_append,Bool.or_eq_true,decide_eq_true_eq]
    omega
  have found : lineOf before.length 0 0 (startsAfterNewlines 0 document.text) =
      (before.count '\n',lineStart before) := by
    rw [written,startsAfterNewlines_append,Nat.zero_add,lineOf_append,Nat.zero_add,
      length_startsAfterNewlines,getLast_startsAfterNewlines]
    · intro next member
      have between := lt_of_mem_startsAfterNewlines member
      omega
    · intro next member
      exact (lt_of_mem_startsAfterNewlines member).1
  rw [positionAt,if_neg inside]
  simp only [Int.toNat_natCast,found]

theorem offsetAt_lineStart : document.offsetAt ⟨before.count '\n',before.length - lineStart before⟩ =
    .ok before.length := by
  have start := lineStart_le_length before
  have fits : before.length ≤ document.length := by simp [length,written]
  have found : document.lineStarts[Int.toNat (before.count '\n' : Int)]? = some (lineStart before) :=
    getElem?_lineStarts document before after written
  rw [offsetAt,if_neg (by simp)]
  simp only [found,Except.ok.injEq]
  omega

end Offset

theorem exists_before {document : Document} {offset : Int} (low : 0 ≤ offset)
    (high : offset ≤ document.length) : ∃ before after, document.text = before ++ after ∧
      before = document.text.take offset.toNat ∧ offset = before.length := by
  have fits : offset.toNat ≤ document.text.length := by
    rw [length] at high
    omega
  refine ⟨_,document.text.drop offset.toNat,(List.take_append_drop _ _).symm,rfl,?_⟩
  rw [List.length_take_of_le fits]
  omega

theorem positionAt_eq_error_iff (document : Document) (offset : Int) (error : OffsetError) :
    document.positionAt offset = .error error ↔
      (offset < 0 ∨ document.length < offset) ∧ error = .offsetOutside offset document.length := by
  rw [positionAt]
  split
  next outside =>
    have beyond : offset < 0 ∨ document.length < offset := by simpa using outside
    rw [Except.error.injEq,eq_comm]
    exact (and_iff_right beyond).symm
  next inside =>
    have between : ¬(offset < 0 ∨ document.length < offset) := by simpa using inside
    simp [between]

theorem inside_of_positionAt {document : Document} {offset : Int} {position : Position}
    (found : document.positionAt offset = .ok position) : 0 ≤ offset ∧ offset ≤ document.length := by
  by_contra outside
  have failed := (positionAt_eq_error_iff document offset _).mpr ⟨by omega,rfl⟩
  rw [found] at failed
  contradiction

theorem positionAt_increasing {document : Document} {first second : Int} {position next : Position}
    (found : document.positionAt first = .ok position) (foundNext : document.positionAt second = .ok next)
    (ordered : first < second) : position.Before next := by
  obtain ⟨low,_⟩ := inside_of_positionAt found
  obtain ⟨_,high⟩ := inside_of_positionAt foundNext
  obtain ⟨longer,after,written,_,rfl⟩ := exists_before (by omega) high
  -- the text before the second offset is the text before the first one and what stands between them
  obtain ⟨before,between,rfl,rfl⟩ : ∃ before between, longer = before ++ between ∧ first = before.length := by
    refine ⟨longer.take first.toNat,longer.drop first.toNat,(List.take_append_drop _ _).symm,?_⟩
    rw [List.length_take]
    omega
  rw [positionAt_length document before (between ++ after) (by rw [written,List.append_assoc]),
    Except.ok.injEq] at found
  rw [positionAt_length document (before ++ between) after written,Except.ok.injEq] at foundNext
  subst found foundNext
  rw [Position.Before,List.count_append]
  by_cases newline : '\n' ∈ between
  · have positive := List.count_pos_iff.mpr newline
    exact .inl (by dsimp only; omega)
  · rw [lineStart_append newline,List.count_eq_zero.mpr newline]
    exact .inr ⟨rfl,Int.sub_lt_sub_right ordered _⟩

theorem exists_line {part : List Char} {line : Nat} (found : (text.splitOn '\n')[line]? = some part) :
    ∃ before after, text = before ++ part ++ after ∧ before.count '\n' = line ∧
      (before = [] ∨ ∃ lead, before = lead ++ ['\n']) ∧ '\n' ∉ part := by
  induction text generalizing line part with
  | nil =>
    cases line with
    | zero =>
      cases found
      exact ⟨[],[],rfl,rfl,.inl rfl,List.not_mem_nil⟩
    | succ line => contradiction
  | cons c rest ih =>
    rw [List.splitOn_cons_eq_if_modifyHead] at found
    split at found
    next newline =>
      obtain rfl := beq_iff_eq.mp newline
      cases line with
      | zero =>
        cases found
        exact ⟨[],'\n' :: rest,rfl,rfl,.inl rfl,List.not_mem_nil⟩
      | succ line =>
        obtain ⟨before,after,rfl,rfl,ends,single⟩ := ih found
        refine ⟨'\n' :: before,after,rfl,List.count_cons_self,.inr ?_,single⟩
        rcases ends with rfl | ⟨lead,rfl⟩
        · exact ⟨[],rfl⟩
        · exact ⟨'\n' :: lead,rfl⟩
    next other =>
      have different : c ≠ '\n' := by simpa using other
      obtain ⟨first,later,parts⟩ := List.exists_cons_of_ne_nil (List.splitOn_ne_nil '\n' rest)
      rw [parts,List.modifyHead_cons] at found
      cases line with
      | zero =>
        cases found
        have head : (rest.splitOn '\n')[0]? = some first := by rw [parts,List.getElem?_cons_zero]
        obtain ⟨before,after,rfl,none,ends,single⟩ := ih head
        rcases ends with rfl | ⟨lead,rfl⟩
        · exact ⟨[],after,rfl,rfl,.inl rfl,by simp [single,Ne.symm different]⟩
        · simp at none
      | succ line =>
        rw [List.getElem?_cons_succ] at found
        have tail : (rest.splitOn '\n')[line + 1]? = some part := by rw [parts,List.getElem?_cons_succ,found]
        obtain ⟨before,after,rfl,same,ends,single⟩ := ih tail
        refine ⟨c :: before,after,rfl,by rw [List.count_cons_of_ne different,same],.inr ?_,single⟩
        rcases ends with rfl | ⟨lead,rfl⟩
        · contradiction
        · exact ⟨c :: lead,rfl⟩

theorem positionAt_of_line {document : Document} {part : List Char} {line column : Nat}
    (found : (document.text.splitOn '\n')[line]? = some part) (fits : column ≤ part.length) :
    ∃ offset, document.offsetAt ⟨line,column⟩ = .ok offset ∧
      document.positionAt offset = .ok ⟨line,column⟩ := by
  obtain ⟨before,after,written,rfl,ends,single⟩ := exists_line found
  have cut : '\n' ∉ part.take column := fun member => single (List.mem_of_mem_take member)
  have split : document.text = before ++ part.take column ++ (part.drop column ++ after) := by
    rw [written,← List.append_assoc,List.append_assoc before (part.take column),List.take_append_drop]
  have start : lineStart before = before.length := by
    rcases ends with rfl | ⟨lead,rfl⟩
    · rfl
    · rw [lineStart_concat_newline,List.length_append,List.length_singleton]
  have position : (⟨(before ++ part.take column).count '\n',
      (before ++ part.take column).length - lineStart (before ++ part.take column)⟩ : Position) =
      ⟨before.count '\n',column⟩ := by
    rw [lineStart_append cut,start,List.count_append,List.count_eq_zero.mpr cut,List.length_append,
      List.length_take_of_le fits,Nat.add_zero,Nat.add_comm,Int.natCast_add,Int.add_sub_cancel]
  rw [← position]
  exact ⟨_,offsetAt_lineStart document _ _ split,positionAt_length document _ _ split⟩

theorem lineCount_eq (document : Document) :
    document.lineCount = (document.text.splitOn '\n').length := by
  have lines (text : List Char) : (text.splitOn '\n').length = text.count '\n' + 1 := by
    induction text with
    | nil => rfl
    | cons c rest ih =>
      rw [List.splitOn_cons_eq_if_modifyHead,List.count_cons]
      split
      next newline => simp [ih]
      next other => simp [ih]
  rw [lines,lineCount,lineStarts,List.length_cons,length_startsAfterNewlines]

/-- Positions and offsets are inverse. The position of an offset is the number of newlines before it and
its distance from the last of them, found in the table of line starts; it leads back to the offset, and later
offsets have later positions. Every place of a line, up to its end, is the position of an offset. There is no
position outside the text, and only there. -/
theorem positions_and_offsets_are_inverse (document : Document) :
    (∀ offset : Int, 0 ≤ offset → offset ≤ document.length →
      let before := document.text.take offset.toNat
      let position : Position := ⟨before.count '\n',offset - lineStart before⟩
      document.positionAt offset = .ok position ∧ document.offsetAt position = .ok offset ∧
        document.lineStarts[before.count '\n']? = some (lineStart before)) ∧
    (∀ first second position next, document.positionAt first = .ok position →
      document.positionAt second = .ok next → first < second → position.Before next) ∧
    document.lineCount = (document.text.splitOn '\n').length ∧
    (∀ (line : Nat) part, (document.text.splitOn '\n')[line]? = some part → ∀ column ≤ part.length,
      ∃ offset, document.offsetAt ⟨line,column⟩ = .ok offset ∧
        document.positionAt offset = .ok ⟨line,column⟩) ∧
    ∀ offset error, document.positionAt offset = .error error ↔
      (offset < 0 ∨ document.length < offset) ∧ error = .offsetOutside offset document.length := by
  refine ⟨?_,fun _ _ _ _ => positionAt_increasing,lineCount_eq document,
    fun _ _ found _ => positionAt_of_line found,positionAt_eq_error_iff document⟩
  intro offset low high
  obtain ⟨before,after,written,taken,rfl⟩ := exists_before low high
  rw [← taken]
  exact ⟨positionAt_length document before after written,offsetAt_lineStart document before after written,
    getElem?_lineStarts document before after written⟩

/-- The end of a text that ends in a newline is the only place of its last line. -/
theorem positions_after_last_newline :
    let document : Document := ⟨"",0,"ab\ncd\n".toList⟩
    document.positionAt 6 = .ok ⟨2,0⟩ ∧ document.offsetAt ⟨2,0⟩ = .ok 6 ∧
      document.positionAt 2 = .ok ⟨0,2⟩ ∧ document.positionAt 3 = .ok ⟨1,0⟩ ∧
      (⟨0,2⟩ : Position).Before ⟨1,0⟩ ∧
      ∃ offset, document.offsetAt ⟨1,2⟩ = .ok offset ∧ document.positionAt offset = .ok ⟨1,2⟩ := by
  intro document
  obtain ⟨places,increasing,_,lines,_⟩ := positions_and_offsets_are_inverse document
  obtain ⟨position,offset,_⟩ := places 6 (by decide) (by decide)
  exact ⟨position,offset,rfl,rfl,increasing 2 3 _ _ rfl rfl (by decide),
    lines 1 ['c','d'] rfl 2 (by decide)⟩

end Document

end VueScope.Text
