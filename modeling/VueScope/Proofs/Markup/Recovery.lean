import VueScope.Proofs.Markup.Rendered
import VueScope.Proofs.Markup.TagMoves
import VueScope.Proofs.Text.Part

/-! Reading authored markup. The elements around a place are those that their author wrote, some
of them open and some closed early. Reading an element adds it to the innermost of them, as
long as every end tag finds its element. -/
namespace VueScope.Markup

open Text

def extend (nodes : List Authored) :
    List (StartTag × List Authored) → List (StartTag × List Authored)
  | [] => []
  | (tag,done) :: outer => (tag,done ++ nodes) :: outer

theorem extend_nil (around : List (StartTag × List Authored)) : extend [] around = around := by
  cases around with
  | nil => rfl
  | cons first outer => simp [extend]

theorem extend_extend (first second : List Authored) (around : List (StartTag × List Authored)) :
    extend second (extend first around) = extend (first ++ second) around := by
  cases around with
  | nil => rfl
  | cons _ outer => simp [extend]

theorem extend_append (nodes : List Authored) (first second : List (StartTag × List Authored))
    (some : first ≠ []) : extend nodes (first ++ second) = extend nodes first ++ second := by
  cases first with
  | nil => contradiction
  | cons _ outer => rfl

variable {nodes : List Authored} {stop : Cursor}

theorem exists_of_extend_eq_singleton
    {around : List (StartTag × List Authored)} {tag : StartTag} {whole : List Authored}
    (same : extend nodes around = [(tag,whole)]) : ∃ done, around = [(tag,done)] := by
  cases around with
  | nil => contradiction
  | cons first outer =>
    obtain ⟨own,done⟩ := first
    simp only [extend,List.cons.injEq,Prod.mk.injEq] at same
    obtain ⟨⟨rfl,_⟩,rfl⟩ := same
    exact ⟨done,rfl⟩

namespace Pending

theorem chain_ne_nil (tag : StartTag) (content : Pending) : content.chain tag ≠ [] := by
  cases content <;> simp [chain]

theorem chain_add (tag : StartTag) (nodes : List Authored) (content : Pending) :
    ((content.add nodes).chain tag).reverse = extend nodes (content.chain tag).reverse := by
  induction content generalizing tag with
  | whole done => rfl
  | early done next inner ih =>
    simp only [add,chain,List.reverse_cons,ih next]
    rw [extend_append _ _ _ (by simpa using inner.chain_ne_nil next)]

theorem chain_leave (own : StartTag) (close : Span) (content : Pending) (some : content.names ≠ []) :
    ∃ tag children outer, (content.chain own).reverse = (tag,children) :: outer ∧ outer ≠ [] ∧
      ((content.leave close).chain own).reverse = extend [.element tag children close] outer ∧
      content.names = (content.leave close).names ++ [.ofChars tag.name] := by
  induction content generalizing own with
  | whole _ => contradiction
  | early done tag inner ih =>
    cases inner with
    | whole children => exact ⟨tag,children,[(own,done)],rfl,by simp,rfl,rfl⟩
    | early more next deeper =>
      obtain ⟨last,children,outer,reached,nonempty,left,names⟩ := ih tag (by simp [Pending.names])
      have below : (early done tag (early more next deeper)).leave close =
          early done tag ((early more next deeper).leave close) := rfl
      refine ⟨last,children,outer ++ [(own,done)],?_,by simp,?_,?_⟩
      · rw [chain,List.reverse_cons,reached,List.cons_append]
      · rw [below,chain,List.reverse_cons,left,extend_append _ _ _ nonempty]
      · rw [below,Pending.names,names,Pending.names,List.cons_append]

end Pending

/-- An open element with its content as its author wrote it. -/
structure Around where
  frame : Frame
  content : Pending

namespace Around

def level (around : Around) : Level :=
  ⟨around.frame.name,around.content.names.reverse⟩

def chain (around : Around) : List (StartTag × List Authored) :=
  (around.content.chain around.frame.tag).reverse

/-- The nodes of the element hold its content, and only elements that the rules know were
closed early. -/
structure Sound (around : Around) : Prop where
  rendered : Rendered around.frame.nodes around.content
  paired : around.frame.tag.isSingle = false
  known : ∀ name ∈ around.content.names, name.isCustom = false

variable {around inner : Around}

def add (around : Around) (nodes : List Node) (added : List Authored) : Around :=
  ⟨around.frame.add nodes,around.content.add added⟩

theorem level_add (around : Around) (nodes : List Node) (added : List Authored) :
    (around.add nodes added).level = around.level := by
  simp [add,level,Pending.names_add]

theorem chain_add (around : Around) (nodes : List Node) (added : List Authored) :
    (around.add nodes added).chain = extend added around.chain :=
  Pending.chain_add around.frame.tag added around.content

theorem chain_ne_nil (around : Around) : around.chain ≠ [] := by
  simpa [chain] using around.content.chain_ne_nil around.frame.tag

theorem Sound.add {nodes : List Node} {added : List Authored} (sound : around.Sound)
    (renders : Renders nodes added) (free : ∀ span written, .strayEnd span written ∉ nodes) :
    (around.add nodes added).Sound := by
  refine ⟨sound.rendered.append renders ?_,sound.paired,?_⟩
  · rintro name _ ⟨span,written,member,_⟩
    exact free span written member
  · simpa [Around.add,Pending.names_add] using sound.known

def enter (around inner : Around) (stop : Nat) : Around :=
  ⟨around.frame.add [inner.frame.close stop none],around.content.enter inner.frame.tag inner.content⟩

theorem level_enter (around inner : Around) (stop : Nat) :
    (around.enter inner stop).level =
      ⟨around.level.name,inner.level.early ++ [inner.level.name] ++ around.level.early⟩ := by
  simp [enter,level,Pending.names_enter,Frame.name]

theorem chain_enter (around inner : Around) (stop : Nat) :
    (around.enter inner stop).chain = inner.chain ++ around.chain := by
  simp [enter,chain,Pending.chain_enter]

theorem Sound.enter {stop : Nat} (sound : around.Sound) (below : inner.Sound)
    (known : inner.frame.name.isCustom = false) : (around.enter inner stop).Sound := by
  refine ⟨sound.rendered.enter below.rendered below.paired,sound.paired,?_⟩
  intro name member
  simp only [Around.enter,Pending.names_enter,List.mem_append,List.mem_cons] at member
  rcases member with outside | rfl | inside
  · exact sound.known name outside
  · exact known
  · exact below.known name inside

end Around

theorem opened?_of_holds {name : TagName} {level : Level} (outer : List Level)
    (stays : level.name.holds name = true) :
    opened? name (level :: outer) = some (level :: outer) := by
  simp [opened?,stays]

theorem opened?_of_not_holds {name : TagName} {level : Level} (outer : List Level)
    (ends : level.name.holds name = false) :
    opened? name (level :: outer) =
      match outer with
      | [] => none
      | next :: rest =>
        opened? name (⟨next.name,level.early ++ [level.name] ++ next.early⟩ :: rest) := by
  cases outer with
  | nil => simp [opened?,ends]
  | cons next rest =>
    cases stays : next.name.holds name <;> simp [opened?,ends,stays]

/-- What the reader has before it: the open elements, and perhaps a void element that is open
in them. -/
structure State where
  void : Option Frame
  inner : Around
  outer : List Around

namespace State

def levels (state : State) : List Level :=
  (state.inner :: state.outer).map Around.level

def ancestry (state : State) : List (StartTag × List Authored) :=
  extend (state.void.toList.map fun frame => .leaf frame.tag)
    ((state.inner :: state.outer).flatMap Around.chain)

def resume (state : State) (cursor : Cursor) : Node × Cursor :=
  match state.void with
  | none => complete state.inner.frame (state.outer.map Around.frame) cursor
  | some frame => complete frame (state.inner.frame :: state.outer.map Around.frame) cursor

structure Sound (state : State) : Prop where
  inner : state.inner.Sound
  outer : ∀ around ∈ state.outer, around.Sound
  void : ∀ frame ∈ state.void, frame.tag.selfClosing = false ∧ neverClosed frame.tag.name = true ∧
    Renders frame.nodes []

/-- One state follows from another in reading the text between two places. -/
structure Follows (before : State) (cursor : Cursor) (after : State) (stop : Cursor)
    (levels : List Level) (added : List Authored) : Prop where
  sound : after.Sound
  levels : after.levels = levels
  ancestry : after.ancestry = extend added before.ancestry
  resume : before.resume cursor = after.resume stop

theorem Follows.refl {state : State} (sound : state.Sound) (cursor : Cursor) :
    Follows state cursor state cursor state.levels [] :=
  ⟨sound,rfl,(extend_nil _).symm,rfl⟩

theorem Follows.trans {first second third : State} {start middle : Cursor}
    {between levels : List Level} {front back : List Authored}
    (early : Follows first start second middle between front)
    (late : Follows second middle third stop levels back) :
    Follows first start third stop levels (front ++ back) :=
  ⟨late.sound,late.levels,by rw [late.ancestry,early.ancestry,extend_extend],
    early.resume.trans late.resume⟩

theorem settle (state : State) (sound : state.Sound) (cursor : Cursor)
    (still : cursor.skipWhite = cursor)
    (ends : ∀ frame ∈ state.void,
      move (frame.name :: openTags state.inner.frame (state.outer.map Around.frame)) cursor = .stop) :
    ∃ after : State, after.void = none ∧ Follows state cursor after cursor state.levels [] := by
  cases state with
  | mk void inner outer =>
    cases void with
    | none => exact ⟨_,rfl,.refl sound cursor⟩
    | some frame =>
      obtain ⟨_,never,nodes⟩ := sound.void frame rfl
      have node : Renders [frame.close cursor.offset none] [.leaf frame.tag] :=
        .leaf (by simp [StartTag.isSingle,never]) nodes .nil
      refine ⟨⟨none,inner.add [frame.close cursor.offset none] [.leaf frame.tag],outer⟩,rfl,?_,?_,?_,?_⟩
      · exact ⟨sound.inner.add node (by simp [Frame.close]),sound.outer,by simp⟩
      · simp [levels,Around.level_add]
      · simp only [ancestry,Option.toList_none,Option.toList_some,List.map_nil,List.map_cons,
          List.flatMap_cons,Around.chain_add,extend_nil]
        rw [extend_append _ _ _ inner.chain_ne_nil]
      · have stopped := ends frame rfl
        rw [← still] at stopped
        have completed := complete_stop stopped
        rw [still] at completed
        exact completed

variable {state : State} {inner : Around} {outer : List Around} {cursor inside next : Cursor}
  {tag : StartTag} {found : List Level}

theorem follows_of_holds (sound : Sound ⟨none,inner,outer⟩)
    (stays : inner.frame.name.holds (.ofChars tag.name) = true)
    (traced : opened? (.ofChars tag.name) (levels ⟨none,inner,outer⟩) = some found) :
    Follows ⟨none,inner,outer⟩ cursor ⟨none,inner,outer⟩ cursor found [] := by
  have same := (opened?_of_holds (outer.map Around.level) stays).symm.trans traced
  exact Option.some.inj same ▸ .refl sound cursor

theorem closeEarly (sound : Sound ⟨none,inner,outer⟩) (opened : Opens cursor tag inside)
    (traced : opened? (.ofChars tag.name) (levels ⟨none,inner,outer⟩) = some found) :
    ∃ after : State, after.void = none ∧ after.inner.frame.name.holds (.ofChars tag.name) = true ∧
      Follows ⟨none,inner,outer⟩ cursor after cursor found [] := by
  induction outer generalizing inner with
  | nil =>
    cases stays : inner.frame.name.holds (.ofChars tag.name) with
    | true => exact ⟨⟨none,inner,_⟩,rfl,stays,follows_of_holds sound stays traced⟩
    | false =>
      rw [levels,List.map_cons,opened?_of_not_holds _ stays] at traced
      contradiction
  | cons next rest ih =>
    cases stays : inner.frame.name.holds (.ofChars tag.name) with
    | true => exact ⟨⟨none,inner,_⟩,rfl,stays,follows_of_holds sound stays traced⟩
    | false =>
      rw [levels,List.map_cons,opened?_of_not_holds _ stays,List.map_cons] at traced
      dsimp only at traced
      rw [← Around.level_enter next inner cursor.offset] at traced
      have known : inner.frame.name.isCustom = false := by
        refine Bool.eq_false_iff.mpr fun custom => ?_
        rw [TagName.holds_of_isCustom _ _ custom] at stays
        contradiction
      obtain ⟨below,above⟩ := List.forall_mem_cons.mp sound.outer
      obtain ⟨after,noVoid,holds,follows⟩ := @ih (next.enter inner cursor.offset)
        ⟨below.enter sound.inner known,above,by simp⟩ traced
      refine ⟨after,noVoid,holds,follows.sound,follows.levels,?_,?_⟩
      · rw [follows.ancestry]
        simp [ancestry,Around.chain_enter,extend_nil]
      · have stopped : move (openTags inner.frame (next.frame :: rest.map Around.frame))
            cursor.skipWhite = .stop := by
          rw [opened.skipWhite]
          exact opened.move_of_not_holds _ _ stays
        have completed := complete_stop stopped
        rw [opened.skipWhite] at completed
        exact completed.trans follows.resume

theorem reachTag (sound : state.Sound) (opened : Opens cursor tag inside)
    (traced : opened? (.ofChars tag.name) state.levels = some found) :
    ∃ inner outer, Follows state cursor ⟨none,inner,outer⟩ cursor found [] ∧
      move (openTags inner.frame (outer.map Around.frame)) cursor.skipWhite =
        moveAtElement cursor tag (.ofChars tag.name) inside := by
  obtain ⟨⟨void,inner,outer⟩,rfl,settled⟩ := settle state sound cursor opened.skipWhite (by
    intro frame present
    apply opened.move_of_not_holds
    simp [TagName.holds,Frame.name,
      TagName.isVoid_of_neverClosed (sound.void frame present).2.1])
  rw [← settled.levels] at traced
  obtain ⟨⟨void,top,around⟩,rfl,holds,follows⟩ := closeEarly settled.sound opened traced
  refine ⟨top,around,settled.trans follows,?_⟩
  rw [opened.skipWhite]
  exact opened.move_of_holds _ _ holds

theorem follows_add {nodes : List Node} {added : List Authored} (sound : Sound ⟨none,inner,outer⟩)
    (renders : Renders nodes added)
    (free : ∀ span written, .strayEnd span written ∉ nodes)
    (read : complete inner.frame (outer.map Around.frame) cursor =
      complete (inner.frame.add nodes) (outer.map Around.frame) next) :
    Follows ⟨none,inner,outer⟩ cursor ⟨none,inner.add nodes added,outer⟩ next
      (levels ⟨none,inner,outer⟩) added := by
  refine ⟨⟨sound.inner.add renders free,sound.outer,by simp⟩,?_,?_,read⟩
  · simp [levels,Around.level_add]
  · simp only [ancestry,Option.toList_none,List.map_nil,List.flatMap_cons,Around.chain_add,extend_nil]
    rw [extend_append _ _ _ inner.chain_ne_nil]

theorem follows_skip {state : State} (sound : state.Sound) (cursor next : Cursor)
    (passed : ∀ frame outer, complete frame outer cursor = complete frame outer next) :
    Follows state cursor state next state.levels [] := by
  refine ⟨sound,rfl,(extend_nil _).symm,?_⟩
  unfold resume
  split
  · exact passed _ _
  · exact passed _ _

theorem move_of_declaration (openTags : List TagName) {cursor : Cursor} {rest : List Char}
    (written : cursor.rest = '<' :: '!' :: rest) :
    move openTags cursor.skipWhite = moveAtDeclaration cursor := by
  rw [skipWhite_of_bracket written]
  unfold move
  rw [written]
  rfl

theorem move_of_doctype (openTags : List TagName) {cursor : Cursor} {length : Nat}
    (found : doctypeLength? cursor.rest = some length) :
    move openTags cursor.skipWhite = .skip (cursor.advance length) true := by
  have doctype := found
  unfold doctypeLength? at doctype
  split at doctype
  next rest written =>
    have other : commentLength? cursor.rest = none := by
      rw [written]
      cases rest with
      | nil => rfl
      | cons c rest =>
        have first : '-' ≠ c := by
          rintro rfl
          contradiction
        simp [commentLength?,Text.dropPrefix?,first]
    rw [move_of_declaration openTags written,moveAtDeclaration,other,found]
  · contradiction

theorem move_of_comment (openTags : List TagName) (cursor : Cursor) (length : Nat)
    (found : commentLength? cursor.rest = some length) :
    move openTags cursor.skipWhite =
      .leaf (.comment ⟨cursor.offset,(cursor.advance length).offset⟩) (cursor.advance length) := by
  have comment := found
  unfold commentLength? at comment
  split at comment
  · contradiction
  next inner opening =>
    have written : cursor.rest = '<' :: '!' :: ('-' :: '-' :: inner) :=
      eq_append_of_dropPrefix? _ _ _ opening
    rw [move_of_declaration openTags written,moveAtDeclaration,found]

theorem follows_comment {state : State} (sound : state.Sound) {cursor : Cursor} {length : Nat}
    (found : commentLength? cursor.rest = some length) :
    ∃ after : State, after.void.isSome = state.void.isSome ∧
      Follows state cursor after (cursor.advance length) state.levels [] := by
  have node (span : Span) : Renders [.comment span] [] := .comment .nil
  obtain ⟨void,inner,outer⟩ := state
  cases void with
  | none =>
    refine ⟨_,?_,follows_add sound (node _) (by simp)
      (complete_leaf (move_of_comment _ cursor length found))⟩
    rfl
  | some frame =>
    obtain ⟨single,never,nodes⟩ := sound.void frame rfl
    refine ⟨⟨some (frame.add [.comment ⟨cursor.offset,(cursor.advance length).offset⟩]),inner,outer⟩,
      rfl,⟨sound.inner,sound.outer,?_⟩,rfl,(extend_nil _).symm,
      complete_leaf (move_of_comment _ cursor length found)⟩
    rintro _ ⟨⟩
    exact ⟨single,never,nodes.append (node _)⟩

theorem follows_raw (sound : state.Sound) (opened : Opens cursor tag inside) (kind : tag.isRaw = true)
    (ended : RawEnds tag inside next)
    (traced : opened? (.ofChars tag.name) state.levels = some found) :
    ∃ after : State, after.void = none ∧ Follows state cursor after next found [.raw tag] := by
  obtain ⟨inner,outer,reached,moved⟩ := reachTag sound opened traced
  unfold StartTag.isRaw at kind
  rw [moveAtElement,if_pos kind] at moved
  rw [← reached.levels]
  suffices added : ∃ nodes, Renders nodes [.raw tag] ∧ (∀ span written, .strayEnd span written ∉ nodes) ∧
      complete inner.frame (outer.map Around.frame) cursor =
        complete (inner.frame.add nodes) (outer.map Around.frame) next by
    obtain ⟨nodes,renders,free,read⟩ := added
    exact ⟨_,rfl,reached.trans (follows_add reached.sound renders free read)⟩
  unfold RawEnds at ended
  split at ended
  next closing =>
    rw [if_pos closing] at moved
    subst ended
    refine ⟨[],.skipped .nil,by simp,?_⟩
    rw [Frame.add_nil]
    exact complete_skip moved
  next paired =>
    obtain ⟨endTag,ended⟩ := ended
    rw [if_neg paired] at moved
    dsimp only at moved
    rw [ended] at moved
    exact ⟨_,.raw .nil,by simp,complete_leaf moved⟩

theorem moveAtElement_of_not_raw (here after : Cursor) {tag : StartTag} (kind : tag.isRaw = false) :
    moveAtElement here tag (.ofChars tag.name) after =
      if tag.selfClosing then .leaf (.element ⟨here.offset,after.offset⟩ tag [] none) after
      else .descend tag (.ofChars tag.name) after := by
  unfold StartTag.isRaw at kind
  simp only [moveAtElement,kind,Bool.false_eq_true,if_false]

theorem follows_leaf (sound : state.Sound) (opened : Opens cursor tag inside)
    (kind : tag.isRaw = false) (single : tag.isSingle = true)
    (traced : opened? (.ofChars tag.name) state.levels = some found) :
    ∃ after : State, (after.void.isSome = true → tag.selfClosing = false) ∧
      Follows state cursor after inside found [.leaf tag] := by
  obtain ⟨inner,outer,reached,moved⟩ := reachTag sound opened traced
  rw [moveAtElement_of_not_raw cursor inside kind] at moved
  rw [← reached.levels]
  cases closing : tag.selfClosing with
  | true =>
    rw [if_pos closing] at moved
    have start : cursor.offset = tag.span.start := by
      rw [(of_readStartTag? opened.read).2.1]
    rw [start] at moved
    refine ⟨_,?_,reached.trans (follows_add reached.sound (.leaf single .nil .nil) (by simp)
      (complete_leaf moved))⟩
    simp
  | false =>
    rw [if_neg (by simp [closing])] at moved
    refine ⟨⟨some ⟨tag,[]⟩,inner,outer⟩,by simp,reached.trans ⟨⟨reached.sound.inner,
      reached.sound.outer,?_⟩,rfl,?_,complete_descend moved⟩⟩
    · rintro _ ⟨⟩
      exact ⟨closing,by simpa [StartTag.isSingle,closing] using single,.nil⟩
    · simp [ancestry,extend_nil]

theorem follows_open (sound : state.Sound) (opened : Opens cursor tag inside)
    (kind : tag.isRaw = false) (paired : tag.isSingle = false)
    (traced : opened? (.ofChars tag.name) state.levels = some found) :
    ∃ after : State, after.void = none ∧ after.Sound ∧
      after.levels = ⟨.ofChars tag.name,[]⟩ :: found ∧
      after.ancestry = (tag,[]) :: state.ancestry ∧ state.resume cursor = after.resume inside := by
  obtain ⟨inner,outer,reached,moved⟩ := reachTag sound opened traced
  have closing : tag.selfClosing = false := (Bool.or_eq_false_iff.mp paired).1
  rw [moveAtElement_of_not_raw cursor inside kind,if_neg (by simp [closing])] at moved
  have before := reached.ancestry
  rw [extend_nil] at before
  refine ⟨⟨none,⟨⟨tag,[]⟩,.whole []⟩,inner :: outer⟩,rfl,⟨⟨.whole .nil,paired,?_⟩,?_,?_⟩,?_,?_,?_⟩
  · simp [Pending.names]
  · exact List.forall_mem_cons.mpr ⟨reached.sound.inner,reached.sound.outer⟩
  · simp
  · rw [← reached.levels]
    rfl
  · rw [← before]
    simp [ancestry,extend_nil,Around.chain,Pending.chain]
  · exact reached.resume.trans (complete_descend moved)

/-- The end tag of the innermost written element is read, and the element is in the one around it. -/
structure Leaves (before : State) (cursor : Cursor) (after : State) (stop : Cursor)
    (levels : List Level) (tag : StartTag) (children : List Authored)
    (ancestors : List (StartTag × List Authored)) : Prop where
  void : after.void = none
  sound : after.Sound
  levels : after.levels = levels
  ancestry : after.ancestry = extend [.element tag children ⟨cursor.offset,stop.offset⟩] ancestors
  resume : before.resume cursor = after.resume stop

variable {after : Cursor} {children : List Authored} {ancestors : List (StartTag × List Authored)}

theorem leaves_of_whole (sound : Sound ⟨none,inner,outer⟩) (closed : Closes cursor (.ofChars tag.name) after)
    (whole : inner.content.names = [])
    (reached : ancestry ⟨none,inner,outer⟩ = (tag,children) :: ancestors) (around : ancestors ≠ []) :
    ∃ result, Leaves ⟨none,inner,outer⟩ cursor result after (outer.map Around.level) tag children
      ancestors := by
  obtain ⟨frame,content⟩ := inner
  cases content with
  | early _ _ _ => simp [Pending.names] at whole
  | whole done =>
    simp only [ancestry,Option.toList_none,List.map_nil,extend_nil,List.flatMap_cons,Around.chain,
      Pending.chain,List.reverse_singleton,List.singleton_append,List.cons.injEq,Prod.mk.injEq] at reached
    obtain ⟨⟨rfl,rfl⟩,rfl⟩ := reached
    cases outer with
    | nil => exact absurd rfl around
    | cons next rest =>
      obtain ⟨below,above⟩ := List.forall_mem_cons.mp sound.outer
      have node : Renders [frame.close after.offset (some ⟨cursor.offset,after.offset⟩)]
          [.element frame.tag done ⟨cursor.offset,after.offset⟩] :=
        @Renders.closed frame.tag ⟨cursor.offset,after.offset⟩ frame.nodes done [] []
          sound.inner.paired sound.inner.rendered.renders .nil
      have moved : move (openTags frame (next.frame :: rest.map Around.frame)) cursor.skipWhite =
          .close after := by
        rw [closed.skipWhite]
        exact closed.move_of_head _
      have completed := complete_close moved
      rw [closed.skipWhite] at completed
      refine ⟨⟨none,next.add _ _,rest⟩,rfl,⟨below.add node (by simp [Frame.close]),above,by simp⟩,
        ?_,?_,completed⟩
      · simp [levels,Around.level_add]
      · simp only [ancestry,Option.toList_none,List.map_nil,List.flatMap_cons,Around.chain_add,
          extend_nil]
        rw [extend_append _ _ _ next.chain_ne_nil]

theorem leaves_of_early (sound : Sound ⟨none,inner,outer⟩) (closed : Closes cursor (.ofChars tag.name) after)
    {first : TagName} {early : List TagName} (names : inner.content.names.reverse = first :: early)
    (free : first ∉ inner.frame.name :: early ++ outer.map (·.frame.name))
    (reached : ancestry ⟨none,inner,outer⟩ = (tag,children) :: ancestors) :
    ∃ result, Leaves ⟨none,inner,outer⟩ cursor result after
      (⟨inner.frame.name,early⟩ :: outer.map Around.level) tag children ancestors := by
  obtain ⟨last,below,chained,chain,nonempty,left,lastNames⟩ :=
    inner.content.chain_leave inner.frame.tag ⟨cursor.offset,after.offset⟩ (by
      intro none
      simp [none] at names)
  simp only [ancestry,Option.toList_none,List.map_nil,extend_nil,List.flatMap_cons,Around.chain,chain,
    List.cons_append,List.cons.injEq,Prod.mk.injEq] at reached
  obtain ⟨⟨rfl,rfl⟩,rfl⟩ := reached
  rw [lastNames,List.reverse_append,List.reverse_singleton,List.singleton_append,
    List.cons.injEq] at names
  obtain ⟨rfl,others⟩ := names
  simp only [List.cons_append,List.mem_cons,List.mem_append,not_or] at free
  obtain ⟨notOpen,notEarly,notAround⟩ := free
  obtain ⟨written,named,moved⟩ := closed.move_of_not_mem inner.frame.name
    ((outer.map Around.frame).map Frame.name)
    (sound.inner.known _ (by simp [lastNames])) (by
      rw [List.map_map]
      exact not_or.mpr ⟨notOpen,notAround⟩ ∘ List.mem_cons.mp)
  have stray : move (openTags inner.frame (outer.map Around.frame)) cursor.skipWhite =
      .leaf (.strayEnd ⟨cursor.offset,after.offset⟩ written) after := by
    rw [closed.skipWhite]
    exact moved
  refine ⟨⟨none,⟨inner.frame.add [.strayEnd ⟨cursor.offset,after.offset⟩ written],
    inner.content.leave ⟨cursor.offset,after.offset⟩⟩,outer⟩,rfl,⟨⟨?_,sound.inner.paired,?_⟩,
    sound.outer,by simp⟩,?_,?_,?_⟩
  · apply sound.inner.rendered.leave
    · rw [lastNames,named]
    · rw [named]
      simpa [← others] using notEarly
  · intro name member
    exact sound.inner.known name (by simp [lastNames,member])
  · simp [levels,Around.level,others]
  · simp only [ancestry,Option.toList_none,List.map_nil,extend_nil,List.flatMap_cons,Around.chain]
    rw [Frame.tag_add,left,extend_append _ _ _ nonempty]
  · exact complete_leaf stray

theorem ancestry_ne_nil (state : State) : state.ancestry ≠ [] := by
  have some := state.inner.chain_ne_nil
  unfold ancestry
  rw [List.flatMap_cons,extend_append _ _ _ some]
  cases chain : state.inner.chain with
  | nil => contradiction
  | cons _ _ => simp [extend]

theorem exists_leaves (sound : state.Sound) (paired : tag.isSingle = false)
    (closed : Closes cursor (.ofChars tag.name) after)
    (reached : state.ancestry = (tag,children) :: ancestors) (around : ancestors ≠ [])
    (voids : state.void.isSome = true → endsVoid children = true)
    (traced : closed? (endsVoid children) state.levels = some found) :
    ∃ result, Leaves state cursor result after found tag children ancestors := by
  obtain ⟨void,inner,outer⟩ := state
  rw [levels,List.map_cons,Around.level] at traced
  cases names : inner.content.names.reverse with
  | nil =>
    rw [names] at traced
    cases traced
    have whole : inner.content.names = [] := List.reverse_eq_nil_iff.mp names
    have own : inner.frame.tag = tag := by
      obtain ⟨frame,content⟩ := inner
      cases content with
      | early _ _ _ => simp [Pending.names] at whole
      | whole _ => exact congrArg Prod.fst (List.cons.inj reached).1
    obtain ⟨⟨_,top,rest⟩,rfl,settled⟩ := settle _ sound cursor closed.skipWhite (by
      intro frame present
      refine closed.move_of_inside _ _ ?_ ?_
      · exact TagName.ne_of_neverClosed (sound.void frame present).2.1
          (Bool.or_eq_false_iff.mp paired).2
      · simp [openTags,Frame.name,own])
    have same := settled.levels
    simp only [levels,List.map_cons,List.cons.injEq] at same
    obtain ⟨result,leaves⟩ := leaves_of_whole settled.sound closed (by
      have early := congrArg Level.early same.1
      simpa [Around.level,whole] using early) (by rw [settled.ancestry,extend_nil,reached]) around
    exact ⟨result,{ leaves with
      levels := leaves.levels.trans same.2, resume := settled.resume.trans leaves.resume }⟩
  | cons first early =>
    rw [names,closed?] at traced
    split at traced
    · contradiction
    next free =>
      cases traced
      simp only [Bool.or_eq_true,List.contains_iff_mem,not_or,List.map_map] at free
      cases void with
      | some _ => exact absurd (voids rfl) free.1
      | none => exact leaves_of_early sound closed names free.2 reached

theorem endsVoid_cons (node : Authored) (nodes : List Authored) (void : endsVoid nodes = true) :
    endsVoid (node :: nodes) = true := by
  cases nodes with
  | nil => contradiction
  | cons next rest => exact void

theorem follows_written {cursor : Cursor}
    (written : Written cursor nodes stop) (state : State) (found : List Level) (sound : state.Sound)
    (traced : traceAll? state.levels nodes = some found) :
    ∃ after : State, Follows state cursor after stop found nodes ∧
      (after.void.isSome = true → endsVoid nodes = true ∨ nodes = [] ∧ state.void.isSome = true) := by
  induction written generalizing state found with
  | done =>
    cases traced
    exact ⟨state,.refl sound _,fun some => .inr ⟨rfl,some⟩⟩
  | @text cursor stop nodes _ ih =>
    obtain ⟨after,follows,voids⟩ := ih state found sound traced
    exact ⟨after,(follows_skip sound cursor _ (complete_text · · cursor)).trans follows,voids⟩
  | @doctype cursor stop nodes length doctype _ ih =>
    obtain ⟨after,follows,voids⟩ := ih state found sound traced
    have passed frame outer : complete frame outer cursor = complete frame outer _ :=
      complete_skip (move_of_doctype _ doctype)
    exact ⟨after,(follows_skip sound cursor _ passed).trans follows,voids⟩
  | @comment cursor stop nodes length comment _ ih =>
    obtain ⟨next,same,passed⟩ := follows_comment sound comment
    obtain ⟨after,follows,voids⟩ := ih next found passed.sound (by rw [passed.levels]; exact traced)
    refine ⟨after,passed.trans follows,?_⟩
    rwa [← same]
  | @raw cursor inside next stop tag nodes opened kind ended _ ih =>
    obtain ⟨levels,here,later⟩ := Option.bind_eq_some_iff.mp traced
    obtain ⟨middle,none,passed⟩ := follows_raw sound opened kind ended here
    obtain ⟨after,follows,voids⟩ := ih middle found passed.sound (by rw [passed.levels]; exact later)
    refine ⟨after,passed.trans follows,fun some => .inl ?_⟩
    rcases voids some with void | ⟨_,open_⟩
    · exact endsVoid_cons _ _ void
    · simp [none] at open_
  | @leaf cursor inside stop tag nodes opened kind single _ ih =>
    obtain ⟨levels,here,later⟩ := Option.bind_eq_some_iff.mp traced
    obtain ⟨middle,slash,passed⟩ := follows_leaf sound opened kind single here
    obtain ⟨after,follows,voids⟩ := ih middle found passed.sound (by rw [passed.levels]; exact later)
    refine ⟨after,passed.trans follows,fun some => .inl ?_⟩
    rcases voids some with void | ⟨rfl,open_⟩
    · exact endsVoid_cons _ _ void
    · simp [endsVoid,slash open_]
  | @element cursor inside finish after stop tag children nodes opened kind paired _ closed _ below ih =>
    obtain ⟨levels,here,later⟩ := Option.bind_eq_some_iff.mp traced
    obtain ⟨around,entered,inner⟩ := Option.bind_eq_some_iff.mp here
    obtain ⟨content,walked,left⟩ := Option.bind_eq_some_iff.mp inner
    obtain ⟨start,none,opening,opens,ancestry,resume⟩ :=
      follows_open sound opened kind paired entered
    obtain ⟨ending,read,voids⟩ := below start content opening (by rw [opens]; exact walked)
    have reached : ending.ancestry = (tag,children) :: state.ancestry := by
      rw [read.ancestry,ancestry,extend,List.nil_append]
    obtain ⟨middle,leaves⟩ := exists_leaves read.sound paired closed reached
      state.ancestry_ne_nil (by
        intro some
        rcases voids some with void | ⟨_,open_⟩
        · exact void
        · simp [none] at open_) (by rw [read.levels]; exact left)
    have passed : Follows state cursor middle after levels [.element tag children ⟨_,_⟩] :=
      ⟨leaves.sound,leaves.levels,leaves.ancestry,(resume.trans read.resume).trans leaves.resume⟩
    obtain ⟨last,follows,more⟩ := ih middle found leaves.sound (by rw [leaves.levels]; exact later)
    refine ⟨last,passed.trans follows,fun some => .inl ?_⟩
    rcases more some with void | ⟨_,open_⟩
    · exact endsVoid_cons _ _ void
    · simp [leaves.void] at open_

theorem inner_of_chain {inner : Around} {outer : List Around} {tag : StartTag}
    (reached : (inner :: outer).flatMap Around.chain = [(tag,nodes)]) :
    inner.frame.tag = tag ∧ inner.content = .whole nodes ∧ outer = [] := by
  obtain ⟨frame,content⟩ := inner
  rw [List.flatMap_cons] at reached
  cases content with
  | whole done =>
    simp only [Around.chain,Pending.chain,List.reverse_singleton,List.singleton_append,List.cons.injEq,
      Prod.mk.injEq] at reached
    obtain ⟨⟨rfl,rfl⟩,none⟩ := reached
    cases outer with
    | nil => exact ⟨rfl,rfl,rfl⟩
    | cons next rest =>
      rw [List.flatMap_cons,List.append_eq_nil_iff] at none
      exact absurd none.1 next.chain_ne_nil
  | early _ next deeper =>
    have width := congrArg List.length reached
    have some := List.length_pos_iff.mpr (deeper.chain_ne_nil next)
    simp [Around.chain,Pending.chain] at width
    omega

end State

/-- An element whose content was written so that every end tag finds its element is read to its
own end tag, and its nodes hold the content. -/
theorem finish_of_written {tag : StartTag} {inside after : Cursor}
    (paired : tag.isSingle = false) (written : Written inside nodes stop)
    (closed : Closes stop (.ofChars tag.name) after)
    (recoverable : Recoverable (.ofChars tag.name) nodes) :
    ∃ read, Renders read nodes ∧ (⟨tag,[]⟩ : Frame).finish [] inside =
      ((⟨tag,read⟩ : Frame).close after.offset (some ⟨stop.offset,after.offset⟩),after) := by
  obtain ⟨found,traced⟩ := Option.isSome_iff_exists.mp recoverable
  have sound : State.Sound ⟨none,⟨⟨tag,[]⟩,.whole []⟩,[]⟩ :=
    ⟨⟨.whole .nil,paired,by simp [Pending.names]⟩,by simp,by simp⟩
  obtain ⟨ending,follows,_⟩ := State.follows_written written _ found sound traced
  obtain ⟨void,inner,outer⟩ := ending
  have reached : extend _ ((inner :: outer).flatMap Around.chain) = [(tag,nodes)] := follows.ancestry
  obtain ⟨done,chain⟩ := exists_of_extend_eq_singleton reached
  obtain ⟨own,_,_⟩ := State.inner_of_chain chain
  -- a void element at the very end is closed by the end tag of the element around it
  obtain ⟨⟨_,top,rest⟩,rfl,settled⟩ := State.settle _ follows.sound stop closed.skipWhite (by
    intro frame present
    refine closed.move_of_inside _ _ ?_ ?_
    · exact TagName.ne_of_neverClosed (follows.sound.void frame present).2.1
        (Bool.or_eq_false_iff.mp paired).2
    · simp [openTags,Frame.name,own])
  have last : (top :: rest).flatMap Around.chain = [(tag,nodes)] := by
    have same := settled.ancestry.trans ((extend_nil _).trans follows.ancestry)
    simp only [State.ancestry,Option.toList_none,List.map_nil,extend_nil] at same
    exact same
  obtain ⟨⟨own,read⟩,content⟩ := top
  obtain ⟨same,rfl,rfl⟩ := State.inner_of_chain last
  have same : tag = own := same.symm
  subst same
  refine ⟨read,settled.sound.inner.rendered.renders,?_⟩
  have resumed : (⟨tag,[]⟩ : Frame).finish [] inside = (⟨tag,read⟩ : Frame).finish [] stop :=
    follows.resume.trans settled.resume
  have ended := content_eq [.ofChars tag.name] stop
  rw [closed.skipWhite,closed.move_of_head] at ended
  rw [resumed,Frame.finish,Frame.name,ended]
  simp

end VueScope.Markup
