import VueScope.Proofs.Markup.Mask
import VueScope.Proofs.Template.Dividers
import VueScope.Template.Build
import VueScope.Template.Occurrence

/-! Every text and expression of a template tree stands in the file at its offset. The offsets are
composed of byte spans, interpolation marks, trimming, attribute names and loop splits, and
each of these steps goes from a text to a part of it. -/
namespace VueScope.Template

open Text

def Expression.Anchored (text : List Char) (expression : Expression) : Prop :=
  StandsAt text expression.content expression.offset

/-- A directive whose argument and value are written in the text, with a loop that is split off
the value. -/
structure Directive.Anchored (text : List Char) (directive : Directive) : Prop where
  argument : ∀ argument, directive.argument = some argument → argument.Anchored text
  expression : ∀ expression, directive.expression = some expression → expression.Anchored text
  split : ∀ loop, directive.loop = some loop →
    ∃ expression, directive.expression = some expression ∧ Loop.parse? expression = some loop

mutual

def Node.Anchored (text : List Char) : Node → Prop
  | .text content offset => StandsAt text content offset
  | .interpolation content _ => content.Anchored text
  | .element _ _ _ props children =>
    (∀ directive ∈ directives props, directive.Anchored text) ∧ Node.AnchoredAll text children

def Node.AnchoredAll (text : List Char) : List Node → Prop
  | [] => True
  | node :: rest => node.Anchored text ∧ Node.AnchoredAll text rest

end

theorem Node.anchoredAll_append (text : List Char) (first second : List Node) :
    Node.AnchoredAll text (first ++ second) ↔
      Node.AnchoredAll text first ∧ Node.AnchoredAll text second := by
  induction first with
  | nil => simp [Node.AnchoredAll]
  | cons node rest ih => simp [Node.AnchoredAll,ih,and_assoc]

theorem standsAt_sliceBytes (text : List Char) (span : Markup.Span) :
    StandsAt text (sliceBytes text span).1 (sliceBytes text span).2 :=
  standsAt_slice text _ _ (charOffset_le_length text span.start)

namespace DirectiveName

theorem standsAt_argumentOf (text written : List Char) (start : Nat)
    (stands : StandsAt text written start) :
    StandsAt text (argumentOf written start).content (argumentOf written start).start := by
  unfold argumentOf
  split
  next inner =>
    -- the content starts behind the opening bracket, and a closing one is cut off its end
    have bracketed : StandsAt text inner (start + 1 : Nat) :=
      @StandsAt.back text inner start ['['] stands
    dsimp only
    split
    next body reversed =>
      have closed : inner = body.reverse ++ [']'] := by
        rw [← List.reverse_reverse inner,reversed,List.reverse_cons]
      rw [closed] at bracketed
      exact bracketed.front
    · exact bracketed
  · exact stands

theorem standsAt_tailOf {text rest : List Char} {start : Nat} {led : Bool} {argument : Argument}
    (stands : StandsAt text rest start) (found : (tailOf start led rest).1 = some argument) :
    StandsAt text argument.content argument.start := by
  cases rest with
  | nil => simp [tailOf] at found
  | cons c after =>
    have behind : StandsAt text after (start + 1 : Nat) :=
      @StandsAt.back text after start [c] stands
    simp only [tailOf] at found
    generalize (if led = true then argumentLength after else 0) = width at found
    split at found
    · contradiction
    · cases found
      apply standsAt_argumentOf
      rw [← List.take_append_drop width after] at behind
      exact behind.front

theorem standsAt_argument {written : List Char} {argument : Argument}
    (found : (parse written).argument = some argument) :
    StandsAt written argument.content argument.start := by
  unfold parse at found
  split at found
  next body =>
    refine standsAt_tailOf ?_ found
    have inside := (@List.takeWhile_prefix _ body continuesName).length_le
    exact StandsAt.of_drop ('v' :: '-' :: body) _ (Nat.succ_le_succ (Nat.succ_le_succ inside))
  next c rest _ => exact standsAt_tailOf (StandsAt.whole _) found
  · contradiction

end DirectiveName

namespace Loop

theorem source_of_parse? {expression : Expression} {loop : Loop}
    (found : parse? expression = some loop) :
    ∃ left divider rest, divide? expression.content = some (left,divider,rest) ∧
      loop.source.content = trimRight rest ∧
      loop.source.offset - expression.offset = (left.length + divider.length : Nat) := by
  unfold parse? at found
  dsimp only at found
  split at found
  · contradiction
  next left divider rest divided =>
    refine ⟨left,divider,rest,divided,?_⟩
    split at found
    · cases found
      exact ⟨rfl,by rw [Int.add_comm,Int.add_sub_cancel]⟩
    · cases found
      exact ⟨rfl,by rw [Int.add_comm,Int.add_sub_cancel]⟩

theorem standsAt_source {expression : Expression} {loop : Loop}
    (found : parse? expression = some loop) :
    StandsAt expression.content loop.source.content (loop.source.offset - expression.offset) := by
  obtain ⟨left,divider,rest,divided,content,place⟩ := source_of_parse? found
  rw [(splits_of_divide? divided).parts,content,place]
  have inside := (StandsAt.whole (left ++ divider ++ rest)).back.within (standsAt_trimRight rest)
  rwa [Int.add_zero,Int.zero_add,List.length_append] at inside

end Loop

theorem exists_value_of_directiveOf {written : List Char} {offset : Nat} {value : Option (List Char × Nat)}
    {expression : Expression} (found : (directiveOf written offset value).expression = some expression) :
    ∃ part ∈ value, expression = ⟨part.1,part.2,false⟩ := by
  dsimp only [directiveOf] at found
  split at found
  next content start =>
    split at found
    · contradiction
    · cases found
      exact ⟨(content,start),rfl,rfl⟩
  · contradiction

theorem anchored_directiveOf (text written : List Char) (offset : Nat) (value : Option (List Char × Nat))
    (stands : StandsAt text written offset)
    (valued : ∀ part ∈ value, StandsAt text part.1 part.2) :
    (directiveOf written offset value).Anchored text := by
  refine ⟨?_,?_,?_⟩
  · intro argument found
    obtain ⟨part,parsed,rfl⟩ := Option.map_eq_some_iff.mp found
    have inside := stands.within (DirectiveName.standsAt_argument parsed)
    rwa [← Int.natCast_add] at inside
  · intro expression found
    obtain ⟨part,held,rfl⟩ := exists_value_of_directiveOf found
    exact valued part held
  · intro loop found
    dsimp only [directiveOf] at found
    split at found
    · exact Option.bind_eq_some_iff.mp found
    · contradiction

theorem anchored_propOf {text : List Char} {attr : Markup.Attribute} {directive : Directive}
    (found : propOf text attr = .directive directive) : directive.Anchored text := by
  dsimp only [propOf] at found
  split at found
  · cases found
    apply anchored_directiveOf
    · exact standsAt_sliceBytes text attr.name
    · intro part written
      obtain ⟨span,_,rfl⟩ := Option.map_eq_some_iff.mp written
      exact standsAt_sliceBytes text span
  · contradiction

theorem mem_directives {props : List ElementProp} {directive : Directive} :
    directive ∈ directives props ↔ .directive directive ∈ props := by
  unfold directives
  rw [List.mem_filterMap]
  constructor
  · rintro ⟨prop,member,found⟩
    cases prop with
    | plain _ => contradiction
    | directive _ => cases found; exact member
  · intro member
    exact ⟨_,member,rfl⟩

theorem standsAt_interpolation (body : List Char) :
    StandsAt (Markup.Piece.source (.interpolation body)) (trim body)
      (2 + (body.length - (trimLeft body).length) : Nat) := by
  have inner : StandsAt (Markup.Piece.source (.interpolation body)) body (2 : Nat) :=
    ⟨Markup.Piece.opening,Markup.Piece.closing,rfl,rfl⟩
  have trimmed := inner.within (standsAt_trim body)
  rwa [← Int.natCast_add] at trimmed

theorem anchored_nodesOfPieces (text : List Char) (offset : Nat) (pieces : List Markup.Piece)
    (stands : StandsAt text (pieces.flatMap Markup.Piece.source) offset) :
    Node.AnchoredAll text (nodesOfPieces offset pieces) := by
  induction pieces generalizing offset with
  | nil => trivial
  | cons piece rest ih =>
    rw [List.flatMap_cons] at stands
    have first := stands.front
    have later := stands.back
    rw [← Int.natCast_add] at later
    unfold nodesOfPieces
    cases piece with
    | text content =>
      dsimp only
      split
      · exact ih _ later
      · exact ⟨first,ih _ later⟩
    | interpolation body =>
      refine ⟨?_,ih _ later⟩
      have trimmed := first.within (standsAt_interpolation body)
      rw [← Int.natCast_add,← Nat.add_assoc] at trimmed
      exact trimmed

theorem anchored_nodesOfGap (text : List Char) (start stop : Nat) :
    Node.AnchoredAll text (nodesOfGap text start stop) := by
  unfold nodesOfGap
  split
  · trivial
  · apply anchored_nodesOfPieces
    rw [Markup.Piece.split,Markup.Piece.source_splitUpTo]
    exact standsAt_sliceBytes text ⟨start,stop⟩

mutual

theorem anchored_nodeOf? (text : List Char) : (markup : Markup.Node) →
    Node.AnchoredAll text (nodeOf? text markup).toList
  | .element span tag children endTag => by
    refine ⟨⟨?_,?_⟩,trivial⟩
    · intro directive member
      obtain ⟨attr,_,built⟩ := List.mem_map.mp (mem_directives.mp member)
      exact anchored_propOf built
    · split
      · trivial
      · exact anchored_nodesOf text _ _ children
  | .raw _ _ _ _ => trivial
  | .comment _ => trivial
  | .strayEnd _ _ => trivial

theorem anchored_nodesOf (text : List Char) (start stop : Nat) : (markup : List Markup.Node) →
    Node.AnchoredAll text (nodesOf text start stop markup)
  | [] => anchored_nodesOfGap text start stop
  | node :: siblings => by
    rw [nodesOf,Node.anchoredAll_append,Node.anchoredAll_append]
    exact ⟨⟨anchored_nodesOfGap text _ _,anchored_nodeOf? text node⟩,
      anchored_nodesOf text _ stop siblings⟩

end

/-! What is searched for names. -/

variable {text : List Char} {directive : Directive} {holds : Expression → Prop}

/-- A property of the expressions of a directive that are searched. -/
structure Directive.Each (holds : Expression → Prop) (directive : Directive) : Prop where
  argument : ∀ argument, directive.argument = some argument → argument.isStatic = false → holds argument
  expression : ∀ expression, directive.expression = some expression → holds expression
  source : ∀ loop, directive.loop = some loop → holds loop.source

theorem Directive.Anchored.each (anchored : directive.Anchored text) :
    directive.Each (Expression.Anchored text) := by
  refine ⟨fun argument written _ => anchored.argument argument written,anchored.expression,?_⟩
  intro loop found
  obtain ⟨expression,written,split⟩ := anchored.split loop found
  have inside := (anchored.expression expression written).within (Loop.standsAt_source split)
  rwa [Int.add_comm,Int.sub_add_cancel] at inside

theorem Directive.Each.scanned (each : directive.Each holds) (scope : List String) :
    ∀ part ∈ scannedInDirective scope directive, holds part.expression := by
  intro part member
  obtain ⟨expression,inside,rfl⟩ := List.mem_map.mp member
  rcases List.mem_append.mp inside with argument | value
  · obtain ⟨found,dynamic⟩ := List.mem_filter.mp argument
    exact each.argument expression (Option.mem_toList.mp found) (by simpa using dynamic)
  · split at value
    · contradiction
    · exact each.expression expression (Option.mem_toList.mp value)

variable [Recovery]

theorem each_scanned_element {tag : List Char} {start stop : Nat} {props : List ElementProp}
    {children : List Node} (scope : List String) (own : ∀ directive ∈ directives props, directive.Each holds)
    (below : ∀ scope, ∀ part ∈ scannedInAll scope children, holds part.expression) :
    ∀ part ∈ scanned scope (.element tag start stop props children), holds part.expression := by
  intro part member
  rw [scanned] at member
  split at member
  · contradiction
  · rcases List.mem_append.mp member with here | inside
    · rcases List.mem_append.mp here with source | directive
      · obtain ⟨loop,found,rfl⟩ := List.mem_map.mp source
        obtain ⟨directive,first,split⟩ :=
          Option.bind_eq_some_iff.mp (Option.mem_toList.mp found)
        exact (own directive (List.mem_of_find?_eq_some first)).source loop split
      · obtain ⟨written,present,searched⟩ := List.mem_flatMap.mp directive
        exact (own written present).scanned _ part searched
    · exact below _ part inside

mutual

theorem anchored_scanned (scope : List String) : (node : Node) → node.Anchored text →
    ∀ part ∈ scanned scope node, part.expression.Anchored text
  | .text _ _, _ => by simp [scanned]
  | .interpolation _ _, anchored => List.forall_mem_singleton.mpr anchored
  | .element _ _ _ _ children, ⟨own,below⟩ =>
    each_scanned_element scope (fun directive carried => (own directive carried).each)
      fun scope => anchored_scannedInAll scope children below

theorem anchored_scannedInAll (scope : List String) : (nodes : List Node) → Node.AnchoredAll text nodes →
    ∀ part ∈ scannedInAll scope nodes, part.expression.Anchored text
  | [], _ => by simp [scannedInAll]
  | node :: rest, ⟨first,later⟩ =>
    List.forall_mem_append.mpr
      ⟨anchored_scanned scope node first,anchored_scannedInAll scope rest later⟩

end

theorem exists_reference {nodes : List Node} {occurrence : Occurrence}
    (member : occurrence ∈ occurrences nodes) :
    ∃ part ∈ scannedInAll [] nodes, ∃ reference ∈ references part.expression.content,
      ⟨reference.name,part.expression.offset + reference.offset,part.scope⟩ = occurrence := by
  obtain ⟨part,searched,inside⟩ := List.mem_flatMap.mp member
  unfold Scanned.occurrences at inside
  split at inside
  · contradiction
  · exact ⟨part,searched,List.mem_map.mp inside⟩

end VueScope.Template
