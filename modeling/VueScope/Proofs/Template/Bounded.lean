import VueScope.Proofs.Markup.Attributes
import VueScope.Proofs.Template.Anchored
import VueScope.Proofs.Template.Reference

/-! Names used in a template are whole words of the file. Expressions are cut out of the file at
braces, quotes, brackets and white space, so no word runs on into an expression or out of it. -/
namespace VueScope.Template

open Text Script

/-! Spans. -/

variable {text : List Char} {offset : Nat} {directive : Directive}

theorem seam_of_joint (joint : Markup.Joint text offset) :
    Seam (text.take (charOffset text offset)) (text.drop (charOffset text offset)) := by
  obtain ⟨front,back,rfl,rfl,seam⟩ := joint
  rwa [charOffset_append,List.take_left,List.drop_left]

theorem take_append_slice (text : List Char) {start stop : Nat} (ordered : start ≤ stop) :
    text.take start ++ slice text start stop = text.take stop := by
  rw [slice,← List.take_add,Nat.add_sub_cancel' ordered]

theorem slice_append_drop (text : List Char) {start stop : Nat} (ordered : start ≤ stop) :
    slice text start stop ++ text.drop stop = text.drop start := by
  have rest : text.drop stop = (text.drop start).drop (stop - start) := by
    rw [List.drop_drop,Nat.add_sub_cancel' ordered]
  rw [slice,rest,List.take_append_drop]

theorem boundedBehind_sliceBytes {span : Markup.Span} (ordered : span.start ≤ span.stop)
    (stop : Markup.Joint text span.stop) :
    BoundedBehind text (sliceBytes text span).1 (sliceBytes text span).2 := by
  have order := charOffset_mono text ordered
  have ends := seam_of_joint stop
  rw [← take_append_slice text order] at ends
  refine ⟨text.take (charOffset text span.start),text.drop (charOffset text span.stop),?_,?_,ends.back⟩
  · rw [List.append_assoc,sliceBytes,slice_append_drop text order,List.take_append_drop]
  · rw [List.length_take,Nat.min_eq_left (charOffset_le_length text span.start)]
    rfl

theorem bounded_sliceBytes {span : Markup.Span} (ordered : span.start ≤ span.stop)
    (start : Markup.Joint text span.start) (stop : Markup.Joint text span.stop) :
    Bounded text (sliceBytes text span).1 (sliceBytes text span).2 := by
  obtain ⟨before,after,parts,place,ends⟩ := boundedBehind_sliceBytes ordered stop
  refine ⟨before,after,parts,place,?_,ends⟩
  have begins := seam_of_joint start
  have width : charOffset text span.start = before.length := Int.ofNat_inj.mp place
  rw [width,parts,List.append_assoc,List.take_left,List.drop_left] at begins
  exact begins.front

/-! Directives. -/

namespace DirectiveName

theorem argumentLength_cases (text : List Char) :
    argumentLength text = (text.takeWhile (· ≠ '.')).length ∨
      ∃ body rest, text = '[' :: body ++ ']' :: rest ∧ argumentLength text = body.length + 2 := by
  unfold argumentLength
  dsimp only
  split
  next inner =>
    by_cases unclosed : (inner.takeWhile (· ≠ ']')).isEmpty ||
        (inner.takeWhile (· ≠ ']')).length = inner.length
    · left
      rw [if_pos unclosed]
      rfl
    · right
      rw [if_neg unclosed,if_pos (by simp)]
      simp only [Bool.or_eq_true,decide_eq_true_eq,not_or] at unclosed
      have parts := @List.takeWhile_append_dropWhile _ (· ≠ ']') inner
      have first := List.head?_dropWhile_not (· ≠ ']') inner
      cases behind : inner.dropWhile (· ≠ ']') with
      | nil =>
        rw [behind,List.append_nil] at parts
        exact absurd (congrArg List.length parts) unclosed.2
      | cons c rest =>
        rw [behind] at first parts
        have bracket : c = ']' := by simpa using first
        subst bracket
        exact ⟨_,rest,by rw [List.cons_append,parts],rfl⟩
  · exact .inl rfl

theorem seam_argumentLength (text : List Char) :
    Seam (text.take (argumentLength text)) (text.drop (argumentLength text)) := by
  rcases argumentLength_cases text with dotted | ⟨body,rest,rfl,bracketed⟩
  · rw [dotted]
    apply Seam.of_right
    apply startsWithWord_drop_takeWhile
    intro c dot
    simp only [ne_eq,decide_not,Bool.not_eq_false',decide_eq_true_eq] at dot
    rw [dot]
    decide
  · have taken : ('[' :: body ++ ']' :: rest).take (body.length + 2) = '[' :: body ++ [']'] := by
      simp [List.take_append,List.take_of_length_le]
    rw [bracketed,taken]
    apply Seam.of_left
    rw [endsInWord_concat]
    decide

theorem bounded_argumentOf (written : List Char) (start : Nat)
    (dynamic : (argumentOf written start).isStatic = false) :
    (argumentOf written start).start = start + 1 ∧
      Bounded written (argumentOf written start).content 1 := by
  unfold argumentOf at dynamic ⊢
  split at dynamic
  next inner =>
    refine ⟨rfl,?_⟩
    have opened : Seam ['['] inner := Seam.of_left (by decide)
    dsimp only
    split
    next body reversed =>
      have closed : inner = body.reverse ++ [']'] := by
        rw [← List.reverse_reverse inner,reversed,List.reverse_cons]
      rw [closed] at opened
      refine ⟨['['],[']'],?_,rfl,opened.front,Seam.of_right (by decide)⟩
      rw [closed]
      rfl
    · exact ⟨['['],[],by simp,rfl,opened,Seam.nil_right _⟩
  · contradiction

theorem bounded_tailOf {text rest : List Char} {start : Nat} {led : Bool} {argument : Argument}
    (behind : BoundedBehind text rest start) (found : (tailOf start led rest).1 = some argument)
    (dynamic : argument.isStatic = false) :
    0 < argument.start ∧ Bounded text argument.content argument.start := by
  cases rest with
  | nil => simp [tailOf] at found
  | cons c after =>
    cases led with
    | false => simp [tailOf] at found
    | true =>
      simp only [tailOf,if_true] at found
      split at found
      · contradiction
      · cases found
        have own : BoundedBehind (c :: after) (after.take (argumentLength after)) (1 : Nat) :=
          ⟨[c],after.drop (argumentLength after),by simp,rfl,seam_argumentLength after⟩
        obtain ⟨place,inside⟩ := bounded_argumentOf _ _ dynamic
        rw [place]
        exact ⟨Nat.succ_pos _,(behind.within own).bounded inside (by decide)⟩

theorem bounded_argument {written : List Char} {argument : Argument}
    (found : (parse written).argument = some argument) (dynamic : argument.isStatic = false) :
    0 < argument.start ∧ Bounded written argument.content argument.start := by
  unfold parse at found
  split at found
  next body =>
    refine bounded_tailOf ?_ found dynamic
    have inside := (@List.takeWhile_prefix _ body continuesName).length_le
    exact BoundedBehind.of_drop ('v' :: '-' :: body) _ (Nat.succ_le_succ (Nat.succ_le_succ inside))
  next c rest _ =>
    exact bounded_tailOf (BoundedBehind.of_drop _ 0 (Nat.zero_le _)) found dynamic
  · contradiction

end DirectiveName

namespace Loop

theorem bounded_source {expression : Expression} {loop : Loop}
    (found : parse? expression = some loop) :
    Bounded expression.content loop.source.content (loop.source.offset - expression.offset) := by
  obtain ⟨left,divider,rest,divided,content,place⟩ := source_of_parse? found
  obtain ⟨parts,⟨lead,word,after,divider_eq,_,_,_,filled,blanks⟩,_⟩ := splits_of_divide? divided
  have begins : Seam (left ++ divider) rest := by
    obtain ⟨front,space,rfl⟩ := (List.eq_nil_or_concat' after).resolve_left filled
    apply Seam.of_left
    rw [divider_eq,← List.append_assoc,← List.append_assoc,endsInWord_concat]
    exact isWordChar_of_isSpace (List.all_eq_true.mp blanks space (by simp))
  have whole : Bounded expression.content rest (left.length + divider.length : Nat) := by
    refine ⟨left ++ divider,[],?_,?_,begins,Seam.nil_right rest⟩
    · rw [List.append_nil,parts]
    · rw [List.length_append]
  have trimmed := whole.within (bounded_trimRight rest)
  rwa [Int.add_zero,← content,← place] at trimmed

end Loop

def Expression.Bounded (text : List Char) (expression : Expression) : Prop :=
  Text.Bounded text expression.content expression.offset

theorem bounded_directiveOf {written : List Char} {value : Option (List Char × Nat)}
    (behind : BoundedBehind text written offset) (valued : ∀ part ∈ value, Text.Bounded text part.1 part.2) :
    (directiveOf written offset value).Each (Expression.Bounded text) := by
  have expressed : ∀ expression, (directiveOf written offset value).expression = some expression →
      expression.Bounded text := by
    intro expression found
    obtain ⟨part,held,rfl⟩ := exists_value_of_directiveOf found
    exact valued part held
  refine ⟨?_,expressed,?_⟩
  · intro argument found dynamic
    obtain ⟨part,parsed,rfl⟩ := Option.map_eq_some_iff.mp found
    obtain ⟨later,inside⟩ := DirectiveName.bounded_argument parsed dynamic
    exact behind.bounded inside (Int.ofNat_lt.mpr later)
  · intro loop found
    dsimp only [directiveOf] at found
    split at found
    · obtain ⟨expression,written,split⟩ := Option.bind_eq_some_iff.mp found
      have inside := (expressed expression written).within (Loop.bounded_source split)
      rwa [Int.add_comm,Int.sub_add_cancel] at inside
    · contradiction

theorem bounded_propOf {attr : Markup.Attribute} (jointed : attr.Jointed (Markup.Joint text))
    (found : propOf text attr = .directive directive) : directive.Each (Expression.Bounded text) := by
  dsimp only [propOf] at found
  split at found
  · cases found
    apply bounded_directiveOf
    · exact boundedBehind_sliceBytes jointed.name.1 jointed.name.2
    · intro part written
      obtain ⟨span,present,rfl⟩ := Option.map_eq_some_iff.mp written
      obtain ⟨ordered,start,stop⟩ := jointed.value span present
      exact bounded_sliceBytes ordered start stop
  · contradiction

/-! Trees. -/

theorem bounded_interpolation {body : List Char}
    (stands : StandsAt text (Markup.Piece.source (.interpolation body)) offset) :
    Text.Bounded text (trim body) (offset + 2 + (body.length - (trimLeft body).length) : Nat) := by
  obtain ⟨before,after,rfl,place⟩ := stands
  have inner : Text.Bounded (before ++ Markup.Piece.source (.interpolation body) ++ after) body
      (offset + 2 : Nat) := by
    refine ⟨before ++ Markup.Piece.opening,Markup.Piece.closing ++ after,?_,?_,?_,?_⟩
    · simp [Markup.Piece.source,List.append_assoc]
    · rw [List.length_append,Int.natCast_add,place]
      rfl
    · apply Seam.of_left
      rw [endsInWord_append _ (by decide)]
      decide
    · exact Seam.of_right (by rw [startsWithWord_append _ (by decide)]; decide)
  exact inner.within (bounded_trim body)

variable [Recovery]

theorem scannedInAll_append (scope : List String) (first second : List Node) :
    scannedInAll scope (first ++ second) = scannedInAll scope first ++ scannedInAll scope second := by
  induction first with
  | nil => rfl
  | cons node rest ih => rw [List.cons_append,scannedInAll,scannedInAll,ih,List.append_assoc]

theorem bounded_nodesOfPieces (scope : List String) {pieces : List Markup.Piece}
    (stands : StandsAt text (pieces.flatMap Markup.Piece.source) offset) :
    ∀ part ∈ scannedInAll scope (nodesOfPieces offset pieces), part.expression.Bounded text := by
  induction pieces generalizing offset with
  | nil => simp [nodesOfPieces,scannedInAll]
  | cons piece rest ih =>
    rw [List.flatMap_cons] at stands
    have later := stands.back
    rw [← Int.natCast_add] at later
    unfold nodesOfPieces
    cases piece with
    | text content =>
      dsimp only
      split
      · exact ih later
      · exact ih later
    | interpolation body =>
      rw [scannedInAll,scanned]
      exact List.forall_mem_cons.mpr ⟨bounded_interpolation stands.front,ih later⟩

theorem bounded_nodesOfGap (text : List Char) (scope : List String) (start stop : Nat) :
    ∀ part ∈ scannedInAll scope (nodesOfGap text start stop), part.expression.Bounded text := by
  unfold nodesOfGap
  split
  · simp [scannedInAll]
  · apply bounded_nodesOfPieces
    rw [Markup.Piece.split,Markup.Piece.source_splitUpTo]
    exact standsAt_sliceBytes text ⟨start,stop⟩

mutual

theorem bounded_nodeOf? (text : List Char) (scope : List String) : (markup : Markup.Node) →
    markup.Opened (Markup.StartTag.Jointed (Markup.Joint text)) →
    ∀ part ∈ scannedInAll scope (nodeOf? text markup).toList, part.expression.Bounded text
  | .element span tag children endTag, jointed => by
    obtain ⟨own,below⟩ : (∀ attr ∈ tag.attributes, attr.Jointed (Markup.Joint text)) ∧
        ∀ child ∈ children, child.Opened (Markup.StartTag.Jointed (Markup.Joint text)) := by
      cases jointed with
      | element own _ below => exact ⟨own,below⟩
    simp only [nodeOf?,Option.toList_some,scannedInAll,List.append_nil]
    apply each_scanned_element
    · intro directive member
      obtain ⟨attr,written,built⟩ := List.mem_map.mp (mem_directives.mp member)
      exact bounded_propOf (own attr written) built
    · intro scope
      split
      · simp [scannedInAll]
      · exact bounded_nodesOf text scope _ _ children below
  | .raw _ _ _ _, _ => by simp [nodeOf?,scannedInAll]
  | .comment _, _ => by simp [nodeOf?,scannedInAll]
  | .strayEnd _ _, _ => by simp [nodeOf?,scannedInAll]

theorem bounded_nodesOf (text : List Char) (scope : List String) (start stop : Nat) :
    (markup : List Markup.Node) →
    (∀ node ∈ markup, node.Opened (Markup.StartTag.Jointed (Markup.Joint text))) →
    ∀ part ∈ scannedInAll scope (nodesOf text start stop markup), part.expression.Bounded text
  | [], _ => bounded_nodesOfGap text scope start stop
  | node :: siblings, jointed => by
    obtain ⟨first,later⟩ := List.forall_mem_cons.mp jointed
    intro part member
    rw [nodesOf,scannedInAll_append,scannedInAll_append] at member
    rcases List.mem_append.mp member with early | behind
    · rcases List.mem_append.mp early with gap | here
      · exact bounded_nodesOfGap text scope _ _ part gap
      · exact bounded_nodeOf? text scope node first part here
    · exact bounded_nodesOf text scope _ stop siblings later part behind

end

end VueScope.Template
