import VueScope.Proofs.Markup.Layout

/-! Reading with the open elements in view. Each move of the reader does one thing to the stack
of open elements, and the node in which reading ends does not depend on when one looks. -/
namespace VueScope.Markup

open Text

theorem readContent_eq_of_fuel {fuel : Nat} (more : Nat) (openTags : List TagName) (cursor : Cursor)
    (enough : cursor.rest.length < fuel) (others : cursor.rest.length < more) :
    readContent fuel openTags cursor = readContent more openTags cursor := by
  induction fuel generalizing more openTags cursor with
  | zero => contradiction
  | succ fuel ih =>
    cases more with
    | zero => contradiction
    | succ more =>
      have white := cursor.reaches_skipWhite.length_le
      have forward := forward_move openTags cursor.skipWhite
      simp only [readContent]
      cases moved : move openTags cursor.skipWhite with
      | stop => rfl
      | close _ => rfl
      | skip next sound =>
        rw [moved] at forward
        have shorter := forward.2
        have same := ih more openTags next (by omega) (by omega)
        cases sound with
        | true => exact same
        | false => exact congrArg Content.unsound same
      | leaf node next =>
        rw [moved] at forward
        have shorter := forward.1.2
        exact congrArg (Content.cons node) (ih more openTags next (by omega) (by omega))
      | descend tag name after =>
        rw [moved] at forward
        have shorter := forward.1.2
        have inner := (laid_readContent more (name :: openTags) after).reached.length_le
        dsimp only
        rw [ih more (name :: openTags) after (by omega) (by omega)]
        rw [ih more openTags _ (by omega) (by omega)]

/-- What stands in the innermost open element from a place on, its end tag, and where it ends. -/
def content (openTags : List TagName) (cursor : Cursor) : List Node × Option Span × Cursor :=
  let read := readContent (cursor.rest.length + 1) openTags cursor
  (read.nodes,read.endTag,read.cursor)

theorem content_eq (openTags : List TagName) (cursor : Cursor) :
    content openTags cursor =
      match move openTags cursor.skipWhite with
      | .stop => ([],none,cursor.skipWhite)
      | .close after => ([],some ⟨cursor.skipWhite.offset,after.offset⟩,after)
      | .skip next _ => content openTags next
      | .leaf node next => (node :: (content openTags next).1,(content openTags next).2)
      | .descend tag name after =>
        let inner := content (name :: openTags) after
        let outer := content openTags inner.2.2
        (.element ⟨cursor.skipWhite.offset,inner.2.2.offset⟩ tag inner.1 inner.2.1 :: outer.1,outer.2) := by
  have white := cursor.reaches_skipWhite.length_le
  have forward := forward_move openTags cursor.skipWhite
  have enough (openTags : List TagName) (next : Cursor) (shorter : next.rest.length < cursor.rest.length) :
      readContent cursor.rest.length openTags next =
        readContent (next.rest.length + 1) openTags next :=
    readContent_eq_of_fuel _ openTags next shorter (Nat.lt_succ_self _)
  unfold content
  rw [readContent]
  dsimp only
  cases moved : move openTags cursor.skipWhite with
  | stop => rfl
  | close _ => rfl
  | skip next sound =>
    rw [moved] at forward
    have shorter := forward.2
    cases sound with
    | true =>
      dsimp only
      rw [enough openTags next (by omega)]
    | false =>
      dsimp only [Content.unsound]
      rw [enough openTags next (by omega)]
  | leaf node next =>
    rw [moved] at forward
    have shorter := forward.1.2
    dsimp only [Content.cons]
    rw [enough openTags next (by omega)]
  | descend tag name after =>
    rw [moved] at forward
    have shorter := forward.1.2
    have inner := (laid_readContent cursor.rest.length (name :: openTags) after).reached.length_le
    dsimp only
    rw [enough openTags _ (by omega),enough (name :: openTags) after (by omega)]

structure Frame where
  tag : StartTag
  nodes : List Node

namespace Frame

def name (frame : Frame) : TagName :=
  .ofChars frame.tag.name

def add (frame : Frame) (nodes : List Node) : Frame :=
  { frame with nodes := frame.nodes ++ nodes }

def close (frame : Frame) (stop : Nat) (endTag : Option Span) : Node :=
  .element ⟨frame.tag.span.start,stop⟩ frame.tag frame.nodes endTag

@[simp] theorem name_add (frame : Frame) (nodes : List Node) : (frame.add nodes).name = frame.name :=
  rfl

@[simp] theorem tag_add (frame : Frame) (nodes : List Node) : (frame.add nodes).tag = frame.tag :=
  rfl

@[simp] theorem add_add (frame : Frame) (first second : List Node) :
    (frame.add first).add second = frame.add (first ++ second) := by
  simp [add]

@[simp] theorem add_nil (frame : Frame) : frame.add [] = frame := by
  simp [add]

def finish (outer : List TagName) (frame : Frame) (cursor : Cursor) : Node × Cursor :=
  let (nodes,endTag,after) := content (frame.name :: outer) cursor
  ((frame.add nodes).close after.offset endTag,after)

end Frame

def complete (frame : Frame) : List Frame → Cursor → Node × Cursor
  | [], cursor => frame.finish [] cursor
  | next :: outer, cursor =>
    let (node,after) := frame.finish ((next :: outer).map Frame.name) cursor
    complete (next.add [node]) outer after

def openTags (frame : Frame) (outer : List Frame) : List TagName :=
  frame.name :: outer.map Frame.name

section Moves

variable {frame next : Frame} {outer : List Frame} {cursor after : Cursor}

theorem complete_congr (nodes : List Node)
    (same : content (openTags frame outer) cursor =
      (nodes ++ (content (openTags frame outer) after).1,(content (openTags frame outer) after).2)) :
    complete frame outer cursor = complete (frame.add nodes) outer after := by
  cases outer <;>
  · simp only [openTags,List.map_nil] at same
    simp only [complete,Frame.finish,Frame.name_add,Frame.add_add,same]

theorem complete_skip {sound : Bool}
    (moved : move (openTags frame outer) cursor.skipWhite = .skip after sound) :
    complete frame outer cursor = complete frame outer after := by
  have same := content_eq (openTags frame outer) cursor
  rw [moved] at same
  rw [complete_congr [] same,Frame.add_nil]

theorem complete_leaf {node : Node}
    (moved : move (openTags frame outer) cursor.skipWhite = .leaf node after) :
    complete frame outer cursor = complete (frame.add [node]) outer after := by
  have same := content_eq (openTags frame outer) cursor
  rw [moved] at same
  exact complete_congr [node] same

theorem complete_descend {tag : StartTag}
    (moved : move (openTags frame outer) cursor.skipWhite = .descend tag (.ofChars tag.name) after) :
    complete frame outer cursor = complete ⟨tag,[]⟩ (frame :: outer) after := by
  have same := content_eq (openTags frame outer) cursor
  have forward := forward_move (openTags frame outer) cursor.skipWhite
  rw [moved] at same forward
  have start : tag.span.start = cursor.skipWhite.offset := congrArg Span.start forward.2.1
  rw [complete_congr [_] same,← start]
  rfl

theorem complete_stop
    (moved : move (openTags frame (next :: outer)) cursor.skipWhite = .stop) :
    complete frame (next :: outer) cursor =
      complete (next.add [frame.close cursor.skipWhite.offset none]) outer cursor.skipWhite := by
  have same := content_eq (openTags frame (next :: outer)) cursor
  rw [moved] at same
  unfold openTags at same
  simp only [complete,Frame.finish]
  rw [same]
  simp [Frame.add]

theorem complete_close
    (moved : move (openTags frame (next :: outer)) cursor.skipWhite = .close after) :
    complete frame (next :: outer) cursor =
      complete (next.add [frame.close after.offset (some ⟨cursor.skipWhite.offset,after.offset⟩)]) outer
        after := by
  have same := content_eq (openTags frame (next :: outer)) cursor
  rw [moved] at same
  unfold openTags at same
  simp only [complete,Frame.finish]
  rw [same]
  simp [Frame.add]

end Moves

/-! Text between tags. -/

theorem numbered_plain (lead rest : List Char) (test : Char → Bool) (limit length : Nat)
    (plain : test '<' = false) (clean : ∀ c ∈ lead, c ≠ '<')
    (found : entityLength?.numbered lead.length ((rest.takeWhile test).take limit).length rest =
      some length) : ∀ c ∈ (lead ++ rest).take length, c ≠ '<' := by
  have digits : rest.take ((rest.takeWhile test).take limit).length =
      (rest.takeWhile test).take limit := by
    rw [List.length_take,← List.take_take,Cursor.take_takeWhile]
  have all : ∀ c ∈ (rest.takeWhile test).take limit, c ≠ '<' := by
    rintro _ member rfl
    rw [Cursor.test_of_mem_takeWhile (List.mem_of_mem_take member)] at plain
    contradiction
  unfold entityLength?.numbered at found
  split at found
  · contradiction
  · split at found
    next after ended =>
      cases found
      rw [Nat.add_assoc,List.take_length_add_append,List.take_add,digits,ended]
      intro c member
      simp only [List.mem_append,List.take_succ_cons,List.take_zero,List.mem_singleton] at member
      rcases member with first | middle | rfl
      · exact clean c first
      · exact all c middle
      · decide
    · cases found
      rw [List.take_length_add_append,digits]
      intro c member
      rcases List.mem_append.mp member with first | later
      · exact clean c first
      · exact all c later

theorem entityLength?_plain (text : List Char) (length : Nat)
    (found : entityLength? text = some length) : ∀ c ∈ text.take length, c ≠ '<' := by
  unfold entityLength? at found
  split at found
  next x rest =>
    split at found
    next hex =>
      have plain : x ≠ '<' := by
        rintro rfl
        contradiction
      exact numbered_plain ['&','#',x] rest _ 6 length rfl (by simp [plain]) found
    · exact numbered_plain ['&','#'] (x :: rest) _ 5 length rfl (by simp) found
  next rest _ => exact numbered_plain ['&'] rest _ 30 length rfl (by simp) found
  · contradiction

theorem move_of_text (openTags : List TagName) {here : Cursor} {c : Char} {rest : List Char}
    (written : here.rest = c :: rest) (plain : c ≠ '<') :
    ∃ count sound, move openTags here = .skip (here.advance count) sound ∧
      ∀ c ∈ here.rest.take count, c ≠ '<' := by
  have single : ∀ other ∈ here.rest.take 1, other ≠ '<' := by simp [written,plain]
  have bracket (more : List Char) (other : here.rest = '<' :: more) : False := by
    rw [written] at other
    exact plain (List.cons.inj other).1
  unfold move
  split
  next ended => simp [written] at ended
  next other => exact (bracket _ other).elim
  next other => exact (bracket _ other).elim
  next other => exact (bracket _ other).elim
  · exact ⟨1,false,rfl,single⟩
  · unfold moveAtReference
    split
    next length found => exact ⟨length,true,rfl,entityLength?_plain _ _ found⟩
    · exact ⟨1,false,rfl,single⟩
  · refine ⟨_,true,rfl,?_⟩
    intro other member
    rw [Cursor.take_takeWhile] at member
    have passed := Cursor.test_of_mem_takeWhile member
    simp only [Bool.and_eq_true,decide_eq_true_eq] at passed
    exact passed.1.1

theorem content_skipWhite (openTags : List TagName) (cursor : Cursor) :
    content openTags cursor.skipWhite = content openTags cursor := by
  rw [content_eq openTags cursor,content_eq openTags cursor.skipWhite,cursor.skipWhite_skipWhite]

theorem content_of_text (openTags : List TagName) (cursor : Cursor) :
    content openTags (cursor.skipWhile (· ≠ '<')) = content openTags cursor := by
  -- by induction on what is left of the text: every move in it takes at least one character
  induction bound : cursor.rest.length using Nat.strongRecOn generalizing cursor with
  | ind length ih =>
    subst bound
    have white : cursor.skipWhite.skipWhile (· ≠ '<') = cursor.skipWhile (· ≠ '<') := by
      apply Cursor.skipWhile_advance
      intro c member
      rw [Cursor.take_takeWhile] at member
      have passed := Cursor.test_of_mem_takeWhile member
      rw [decide_eq_true_eq]
      rintro rfl
      contradiction
    rw [← white,← content_skipWhite openTags cursor]
    have shorter := cursor.reaches_skipWhite.length_le
    have settled := cursor.skipWhite_skipWhite
    generalize cursor.skipWhite = here at *
    cases written : here.rest with
    | nil => rw [here.skipWhile_of_head _ (by simp [written])]
    | cons c rest =>
      by_cases bracket : c = '<'
      · rw [here.skipWhile_of_head _ (by simp [written,bracket])]
      · obtain ⟨count,sound,moved,plain⟩ := move_of_text openTags written bracket
        have forward := forward_move openTags here
        rw [moved] at forward
        have further := forward.2
        have next := ih _ (by omega) (here.advance count) rfl
        rw [here.skipWhile_advance _ count (by simpa using plain)] at next
        rw [next,content_eq openTags here,settled,moved]

theorem complete_text (frame : Frame) (outer : List Frame) (cursor : Cursor) :
    complete frame outer cursor = complete frame outer (cursor.skipWhile (· ≠ '<')) := by
  rw [complete_congr [] (content_of_text (openTags frame outer) cursor).symm,Frame.add_nil]

end VueScope.Markup
