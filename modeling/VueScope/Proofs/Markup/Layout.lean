import VueScope.Markup.Renest
import VueScope.Proofs.Markup.Cursor

/-! The layout of markup. Nodes follow one another, and an element holds its attributes and
its content in the order written. The reader lays nodes out so, and nesting them as their
author did keeps it. -/
namespace VueScope.Markup

def contentStop (span : Span) (endTag : Option Span) : Nat :=
  (endTag.map Span.start).getD span.stop

/-- A node whose parts follow one another, at every depth. -/
inductive Node.Orderly : Node → Prop
  | element {span tag children endTag}
      (attributes : Follow span.start tag.span.stop (tag.attributes.flatMap Attribute.spans))
      (content : Follow tag.span.stop (contentStop span endTag) (children.map Node.span))
      (closed : contentStop span endTag ≤ span.stop)
      (below : ∀ child ∈ children, child.Orderly) :
      Orderly (.element span tag children endTag)
  | raw {kind span tag endTag} : Orderly (.raw kind span tag endTag)
  | comment {span} : Orderly (.comment span)
  | strayEnd {span name} : Orderly (.strayEnd span name)

structure Laid (lower upper : Nat) (nodes : List Node) : Prop where
  follow : Follow lower upper (nodes.map Node.span)
  orderly : ∀ node ∈ nodes, node.Orderly

namespace Laid

variable {lower middle upper : Nat} {node : Node} {first second : List Node}

theorem nil (ordered : lower ≤ upper) : Laid lower upper [] :=
  ⟨ordered,fun _ member => absurd member (by simp)⟩

theorem cons (before : lower ≤ node.span.start) (width : node.span.start ≤ node.span.stop)
    (own : node.Orderly) (after : Laid node.span.stop upper first) : Laid lower upper (node :: first) :=
  ⟨⟨before,width,after.follow⟩,List.forall_mem_cons.mpr ⟨own,after.orderly⟩⟩

theorem append_iff : Laid lower upper (first ++ second) ↔
    ∃ middle, Laid lower middle first ∧ Laid middle upper second := by
  constructor
  · rintro ⟨follow,orderly⟩
    rw [List.map_append] at follow
    obtain ⟨middle,before,after⟩ := Follow.append_iff.mp follow
    obtain ⟨early,late⟩ := List.forall_mem_append.mp orderly
    exact ⟨middle,⟨before,early⟩,⟨after,late⟩⟩
  · rintro ⟨middle,before,after⟩
    refine ⟨?_,List.forall_mem_append.mpr ⟨before.orderly,after.orderly⟩⟩
    rw [List.map_append]
    exact before.follow.append after.follow

theorem of_cons (laid : Laid lower upper (node :: first)) :
    lower ≤ node.span.start ∧ node.span.start ≤ node.span.stop ∧ node.Orderly ∧
      Laid node.span.stop upper first :=
  ⟨laid.follow.1,laid.follow.2.1,laid.orderly node List.mem_cons_self,laid.follow.2.2,
    fun other member => laid.orderly other (List.mem_cons_of_mem _ member)⟩

theorem from_le (laid : Laid middle upper first) (before : lower ≤ middle) : Laid lower upper first :=
  ⟨laid.follow.from_le before,laid.orderly⟩

end Laid

variable (text : List Char) (openTags : List TagName)

theorem commentLength?_pos (length : Nat)
    (found : commentLength? text = some length) : 0 < length := by
  have scanned (dashes start : Nat) (rest : List Char)
      (found : commentLength?.close dashes start rest = some length) : 0 < length := by
    fun_induction commentLength?.close dashes start rest with
    | case1 => contradiction
    | case2 _ _ _ ih => exact ih found
    | case3 =>
      cases found
      omega
    | case4 _ _ _ _ ih => exact ih found
    | case5 _ _ _ _ _ _ ih => exact ih found
  unfold commentLength? at found
  split at found
  · contradiction
  · exact scanned _ _ _ found

theorem doctypeLength?_pos (length : Nat)
    (found : doctypeLength? text = some length) : 0 < length := by
  unfold doctypeLength? at found
  split at found
  · split at found
    · contradiction
    · dsimp only at found
      split at found
      · contradiction
      · cases found
        omega
  · contradiction

theorem entityLength?_pos (length : Nat)
    (found : entityLength? text = some length) : 0 < length := by
  have numbered (lead digits : Nat) (rest : List Char)
      (found : entityLength?.numbered lead digits rest = some length) : 0 < length := by
    unfold entityLength?.numbered at found
    split at found
    · contradiction
    · split at found
      · cases found
        omega
      · cases found
        omega
  unfold entityLength? at found
  split at found
  · split at found
    · exact numbered _ _ _ found
    · exact numbered _ _ _ found
  · exact numbered _ _ _ found
  · contradiction

/-- What a move can be. It goes on in the text, and what it reads takes up the text that it passes. -/
inductive Move.Made (here : Cursor) : Move → Prop
  | stop : Made here .stop
  | close {after} (passed : here.Passes after) : Made here (.close after)
  | skip {next sound} (passed : here.Passes next) : Made here (.skip next sound)
  | comment {next} (passed : here.Passes next) : Made here (.leaf (.comment ⟨here.offset,next.offset⟩) next)
  | strayEnd {name next} (passed : here.Passes next) :
      Made here (.leaf (.strayEnd ⟨here.offset,next.offset⟩ name) next)
  | raw {kind tag endTag next} (passed : here.Passes next) :
      Made here (.leaf (.raw kind ⟨here.offset,next.offset⟩ tag endTag) next)
  | single {tag next} (read : readStartTag? here = some (tag,.ofChars tag.name,next))
      (closing : tag.selfClosing = true) :
      Made here (.leaf (.element ⟨here.offset,next.offset⟩ tag [] none) next)
  | descend {tag after} (read : readStartTag? here = some (tag,.ofChars tag.name,after))
      (unclosed : tag.selfClosing = false) : Made here (.descend tag (.ofChars tag.name) after)

theorem made_moveAtDeclaration {here : Cursor} {c : Char} {rest : List Char}
    (written : here.rest = c :: rest) : (moveAtDeclaration here).Made here := by
  unfold moveAtDeclaration
  split
  next length found => exact .comment (here.passes_advance length (commentLength?_pos _ _ found) c rest written)
  · split
    next length found => exact .skip (here.passes_advance length (doctypeLength?_pos _ _ found) c rest written)
    · exact .skip (here.passes_advance 1 Nat.one_pos c rest written)

theorem made_moveAtReference {here : Cursor} {c : Char} {rest : List Char}
    (written : here.rest = c :: rest) : (moveAtReference here).Made here := by
  unfold moveAtReference
  split
  next length found => exact .skip (here.passes_advance length (entityLength?_pos _ _ found) c rest written)
  · exact .skip (here.passes_advance 1 Nat.one_pos c rest written)

theorem made_moveAtEndTag (here : Cursor) (name : List Char) (c : Char)
    (rest : List Char) (written : here.rest = c :: rest) : (moveAtEndTag openTags here name).Made here := by
  unfold moveAtEndTag
  split
  · exact .stop
  · split
    · exact .skip (here.passes_advance 2 Nat.two_pos c rest written)
    next closing tag after read =>
      have passed := (of_readEndTag? read).1
      split
      · exact .close passed
      · split
        · exact .skip passed
        · exact .strayEnd passed

theorem made_moveAtElement {here after : Cursor} {tag : StartTag} {name : TagName}
    (read : readStartTag? here = some (tag,name,after)) : (moveAtElement here tag name after).Made here := by
  obtain ⟨passed,_,rfl,_⟩ := of_readStartTag? read
  unfold moveAtElement
  split
  · split
    · exact .skip passed
    · dsimp only
      have body := after.reaches_advance (rawTextLength (TagName.ofChars tag.name).name after.rest)
      split
      · exact .skip (passed.reaches body)
      next endTag next ended => exact .raw (passed.reaches (body.trans (of_readRawEnd? ended).1))
  · split
    next closing => exact .single read closing
    next unclosed => exact .descend read (Bool.eq_false_iff.mpr unclosed)

theorem made_move (here : Cursor) : (move openTags here).Made here := by
  unfold move
  split
  · exact .stop
  next rest written => exact made_moveAtDeclaration written
  next rest written => exact made_moveAtEndTag openTags here _ _ _ written
  next rest written =>
    unfold moveAtStartTag
    split
    · exact .stop
    · split
      · exact .skip (here.passes_advance 1 Nat.one_pos _ _ written)
      next tag name after read => exact made_moveAtElement read
  next rest written => exact .skip (here.passes_advance 1 Nat.one_pos _ _ written)
  next rest written => exact made_moveAtReference written
  next some _ _ noTag noEnd noReference =>
    -- a run of text takes at least its first character
    obtain ⟨c,rest,written⟩ := List.exists_cons_of_ne_nil some
    apply Move.Made.skip
    apply here.passes_advance _ ?_ c rest written
    have plain : c ≠ '<' ∧ c ≠ '>' ∧ c ≠ '&' := by
      refine ⟨?_,?_,?_⟩ <;> rintro rfl
      · exact noTag rest written
      · exact noEnd rest written
      · exact noReference rest written
    rw [written,List.takeWhile_cons,if_pos (by simp [plain])]
    exact Nat.succ_pos _

/-- What every move keeps: what it reads is laid out in the text that it passes. -/
def Move.Forward (here : Cursor) : Move → Prop
  | stop => True
  | close after => here.Passes after
  | skip next _ => here.Passes next
  | leaf node next => here.Passes next ∧ node.span = ⟨here.offset,next.offset⟩ ∧ node.Orderly
  | descend tag _ after =>
    here.Passes after ∧ tag.span = ⟨here.offset,after.offset⟩ ∧
      Follow here.offset after.offset (tag.attributes.flatMap Attribute.spans)

theorem forward_move (here : Cursor) : (move openTags here).Forward here := by
  have made := made_move openTags here
  generalize move openTags here = moved at made ⊢
  cases made with
  | stop => trivial
  | close passed => exact passed
  | skip passed => exact passed
  | comment passed => exact ⟨passed,rfl,.comment⟩
  | strayEnd passed => exact ⟨passed,rfl,.strayEnd⟩
  | raw passed => exact ⟨passed,rfl,.raw⟩
  | single read _ =>
    obtain ⟨passed,span,_,follow⟩ := of_readStartTag? read
    refine ⟨passed,rfl,.element ?_ ?_ (Nat.le_refl _) nofun⟩
    · rw [span]
      exact follow
    · rw [span]
      exact Nat.le_refl _
  | descend read _ =>
    obtain ⟨passed,span,_,follow⟩ := of_readStartTag? read
    exact ⟨passed,span,follow⟩

/-- What reading gives: nodes laid out from the cursor on, up to the end tag if there is one
and else to the place where reading stopped. -/
structure Content.Laid (cursor : Cursor) (content : Content) : Prop where
  reached : cursor.Reaches content.cursor
  laid : Markup.Laid cursor.offset (contentStop ⟨cursor.offset,content.cursor.offset⟩ content.endTag)
    content.nodes
  closed : contentStop ⟨cursor.offset,content.cursor.offset⟩ content.endTag ≤ content.cursor.offset

namespace Content.Laid

variable {before here : Cursor} {content : Content}

theorem from_reaches (earlier : before.Reaches here) (read : Content.Laid here content) :
    Content.Laid before content :=
  ⟨earlier.trans read.reached,read.laid.from_le earlier.offset_le,read.closed⟩

theorem cons (node : Node) (earlier : before.Reaches here)
    (span : node.span = ⟨before.offset,here.offset⟩) (own : node.Orderly)
    (read : Content.Laid here content) : Content.Laid before (content.cons node) := by
  refine ⟨earlier.trans read.reached,.cons ?_ ?_ own ?_,read.closed⟩
  · exact Nat.le_of_eq (congrArg Span.start span).symm
  · rw [span]
    exact earlier.offset_le
  · rw [span]
    exact read.laid

theorem sound (read : Content.Laid here content) (sound : Bool) :
    Content.Laid here { content with sound } :=
  ⟨read.reached,read.laid,read.closed⟩

end Content.Laid

theorem laid_readContent (fuel : Nat) (openTags : List TagName) (cursor : Cursor) :
    Content.Laid cursor (readContent fuel openTags cursor) := by
  induction fuel generalizing openTags cursor with
  | zero => exact ⟨.refl cursor,.nil (Nat.le_refl _),Nat.le_refl _⟩
  | succ fuel ih =>
    have white := cursor.reaches_skipWhite
    have forward := forward_move openTags cursor.skipWhite
    apply Content.Laid.from_reaches white
    rw [readContent]
    generalize cursor.skipWhite = here at forward
    dsimp only
    cases moved : move openTags here with
    | stop => exact ⟨.refl here,.nil (Nat.le_refl _),Nat.le_refl _⟩
    | close after =>
      rw [moved] at forward
      exact ⟨forward.1,.nil (Nat.le_refl _),forward.1.offset_le⟩
    | skip next sound =>
      rw [moved] at forward
      cases sound with
      | true => exact (ih openTags next).from_reaches forward.1
      | false => exact ((ih openTags next).sound false).from_reaches forward.1
    | leaf node next =>
      rw [moved] at forward
      exact (ih openTags next).cons node forward.1.1 forward.2.1 forward.2.2
    | descend tag name after =>
      rw [moved] at forward
      obtain ⟨passed,span,attributes⟩ := forward
      have inner := ih (name :: openTags) after
      have outer := ih openTags (readContent fuel (name :: openTags) after).cursor
      refine (outer.cons (.element ⟨_,_⟩ tag _ _) (passed.1.trans inner.reached) rfl
        (.element ?_ ?_ ?_ inner.laid.orderly)).sound _
      · rw [span]
        exact attributes
      · rw [span]
        exact inner.laid.follow
      · exact inner.closed

theorem laid_read : ∃ stop, Laid 0 stop (read text).nodes :=
  ⟨_,(laid_readContent (text.length + 1) [] ⟨0,text⟩).laid⟩

theorem eq_append_of_untilStrayEnd? {name : List Char} {siblings : List Node} (adopted : List Node)
    {after : List Node} {close : Span} (found : untilStrayEnd? name siblings = some (adopted,close,after)) :
    ∃ written, siblings = adopted ++ .strayEnd close written :: after := by
  induction siblings generalizing adopted with
  | nil => contradiction
  | cons node rest ih =>
    have later (shift : List Node × Span × List Node → List Node × Span × List Node)
        (shifts : ∀ parts, shift parts = (node :: parts.1,parts.2))
        (found : (untilStrayEnd? name rest).map shift = some (adopted,close,after)) :
        ∃ written, node :: rest = adopted ++ .strayEnd close written :: after := by
      obtain ⟨⟨before,span,behind⟩,inside,same⟩ := Option.map_eq_some_iff.mp found
      rw [shifts] at same
      cases same
      obtain ⟨written,parts⟩ := ih before inside
      exact ⟨written,by rw [parts,List.cons_append]⟩
    simp only [untilStrayEnd?] at found
    split at found
    next span written =>
      split at found
      · cases found
        exact ⟨written,rfl⟩
      · exact later _ (fun _ => rfl) found
    · exact later _ (fun _ => rfl) found

theorem renestWithin_of_none (fuel : Nat) (span : Span) {tag : StartTag} (children : List Node)
    {rest : List Node} {endTag : Option Span} (alone : writtenEnd? tag endTag rest = none) :
    renestWithin (fuel + 1) (.element span tag children endTag :: rest) =
      .element span tag (renestWithin fuel children) endTag :: renestWithin fuel rest := by
  simp only [renestWithin,alone]

theorem renestWithin_of_some (fuel : Nat) (span : Span) {close : Span} {tag : StartTag}
    (children : List Node) {rest adopted after : List Node} {endTag : Option Span}
    (found : writtenEnd? tag endTag rest = some (adopted,close,after)) :
    renestWithin (fuel + 1) (.element span tag children endTag :: rest) =
      .element ⟨span.start,close.stop⟩ tag (renestWithin fuel (children ++ adopted)) (some close) ::
        renestWithin fuel after := by
  simp only [renestWithin,found]

theorem of_writtenEnd? {tag : StartTag} {endTag : Option Span} {siblings adopted after : List Node}
    {close : Span} (found : writtenEnd? tag endTag siblings = some (adopted,close,after)) :
    endTag = none ∧ ∃ written, siblings = adopted ++ .strayEnd close written :: after := by
  unfold writtenEnd? at found
  split at found
  · contradiction
  next unclosed =>
    simp only [Bool.or_eq_true,not_or,Option.not_isSome_iff_eq_none] at unclosed
    exact ⟨unclosed.1.2,eq_append_of_untilStrayEnd? adopted found⟩

/-- What nesting nodes as their author did can make of them. -/
inductive Renested : List Node → List Node → Prop
  | same {nodes : List Node} : Renested nodes nodes
  | kept {node : Node} {rest rest' : List Node} (later : Renested rest rest') :
      Renested (node :: rest) (node :: rest')
  | within {span : Span} {tag : StartTag} {endTag : Option Span} {children children' rest rest' : List Node}
      (inner : Renested children children') (later : Renested rest rest') :
      Renested (.element span tag children endTag :: rest) (.element span tag children' endTag :: rest')
  | taking {span close : Span} {tag : StartTag} {written : List Char}
      {children adopted nested after after' : List Node}
      (found : writtenEnd? tag none (adopted ++ .strayEnd close written :: after) =
        some (adopted,close,after))
      (inner : Renested (children ++ adopted) nested) (later : Renested after after') :
      Renested (.element span tag children none :: (adopted ++ .strayEnd close written :: after))
        (.element ⟨span.start,close.stop⟩ tag nested (some close) :: after')

theorem renested (fuel : Nat) (nodes : List Node) : Renested nodes (renestWithin fuel nodes) := by
  induction fuel generalizing nodes with
  | zero => exact .same
  | succ fuel ih =>
    cases nodes with
    | nil => exact .same
    | cons node siblings =>
      cases node with
      | element span tag children endTag =>
        cases found : writtenEnd? tag endTag siblings with
        | none =>
          rw [renestWithin_of_none fuel span children found]
          exact .within (ih children) (ih siblings)
        | some parts =>
          obtain ⟨adopted,close,after⟩ := parts
          rw [renestWithin_of_some fuel span children found]
          obtain ⟨rfl,written,rfl⟩ := of_writtenEnd? found
          exact .taking found (ih (children ++ adopted)) (ih after)
      | raw _ _ _ _ => exact .kept (ih siblings)
      | comment _ => exact .kept (ih siblings)
      | strayEnd _ _ => exact .kept (ih siblings)

/-- An element that takes back siblings reaches to the end tag behind them. -/
theorem Renested.laid {nodes others : List Node} (renested : Renested nodes others) {lower upper : Nat}
    (laid : Laid lower upper nodes) : Laid lower upper others := by
  induction renested generalizing lower upper with
  | same => exact laid
  | kept _ later =>
    obtain ⟨before,width,own,behind⟩ := laid.of_cons
    exact .cons before width own (later behind)
  | within _ _ inner later =>
    obtain ⟨before,width,⟨attributes,content,closed,below⟩,behind⟩ := laid.of_cons
    have nested := inner ⟨content,below⟩
    exact .cons before width (.element attributes nested.follow closed nested.orderly) (later behind)
  | @taking span close tag written children adopted nested after after' _ _ _ inner later =>
    obtain ⟨before,width,⟨attributes,content,closed,below⟩,behind⟩ := laid.of_cons
    obtain ⟨middle,taken,rest⟩ := Laid.append_iff.mp behind
    obtain ⟨upTo,wide,_,last⟩ := rest.of_cons
    have whole : Laid tag.span.stop close.start (children ++ adopted) :=
      Laid.append_iff.mpr ⟨_,⟨content,below⟩,taken.follow.to_le upTo,taken.orderly⟩
    have nested := inner whole
    refine .cons before ?_ (.element attributes nested.follow wide nested.orderly) (later last)
    exact Nat.le_trans (Nat.le_trans attributes.le whole.follow.le) wide

theorem laid_renest {lower upper : Nat} {nodes : List Node} (laid : Laid lower upper nodes) :
    Laid lower upper (renest nodes) :=
  (renested _ nodes).laid laid

end VueScope.Markup
