import VueScope.Proofs.Component.Nesting
import VueScope.Proofs.Markup.Opened
import VueScope.Proofs.Template.Disjoint

/-! The spans of a template tree. Children follow one another behind the start tag of their parent and
do not reach out of it, whatever end tag closed them. -/
namespace VueScope.Text

theorem dropPrefix?_eq_none_iff (pattern text : List Char) :
    dropPrefix? pattern text = none ↔ ¬pattern <+: text := by
  constructor
  · rintro none ⟨rest,rfl⟩
    rw [dropPrefix?_append] at none
    contradiction
  · intro other
    cases found : dropPrefix? pattern text with
    | none => rfl
    | some rest => exact absurd ⟨rest,(eq_append_of_dropPrefix? pattern text rest found).symm⟩ other

theorem breakOn?_of_breakOn? {pattern text : List Char} (before : List Char)
    {after : List Char} (more : List Char) (found : breakOn? pattern text = some (before,after)) :
    breakOn? pattern (before ++ pattern ++ more) = some (before,more) := by
  induction text generalizing before with
  | nil =>
    obtain ⟨rest,dropped,same⟩ := Option.map_eq_some_iff.mp found
    cases same
    cases pattern with
    | nil => cases more <;> rfl
    | cons => contradiction
  | cons c cs ih =>
    rw [breakOn?] at found
    split at found
    next rest dropped =>
      cases found
      have first := dropPrefix?_append pattern more
      cases parts : pattern ++ more with
      | nil =>
        rw [parts] at first
        rw [List.nil_append,parts,breakOn?,first,Option.map_some]
      | cons =>
        rw [parts] at first
        rw [List.nil_append,parts,breakOn?,first]
    next other =>
      obtain ⟨⟨lead,rest⟩,later,same⟩ := Option.map_eq_some_iff.mp found
      cases same
      rw [dropPrefix?_eq_none_iff,eq_append_of_breakOn? lead later] at other
      -- an earlier occurrence would end before this one, and so not reach into what follows
      have still : dropPrefix? pattern (c :: (lead ++ pattern ++ more)) = none := by
        rw [dropPrefix?_eq_none_iff]
        intro earlier
        have short : pattern <+: c :: (lead ++ pattern) := by
          refine List.prefix_of_prefix_length_le earlier ⟨more,by simp⟩ ?_
          simp only [List.length_cons,List.length_append]
          omega
        exact other (short.trans ⟨after,by simp⟩)
      rw [List.cons_append,List.cons_append,breakOn?,still,ih lead later]
      rfl

end VueScope.Text

namespace VueScope.Markup.Piece

open Text

/-- The braces that end an interpolation are the nearest ones, whatever follows. -/
def Nearest : Piece → Prop
  | text _ => True
  | interpolation body => ∀ more, find? closing (body ++ closing ++ more) = some body.length

theorem nearest_splitUpTo (count : Nat) (content : List Char) :
    ∀ piece ∈ splitUpTo count content, piece.Nearest := by
  induction count generalizing content with
  | zero => simp [splitUpTo,Nearest]
  | succ count ih =>
    rw [splitUpTo]
    split
    · simp [Nearest]
    next before body rest found =>
      refine List.forall_mem_cons.mpr ⟨trivial,List.forall_mem_cons.mpr ⟨?_,ih rest⟩⟩
      intro more
      obtain ⟨after,_,closed⟩ := breaks_of_firstInterpolation? found
      rw [find?,breakOn?_of_breakOn? body more closed]
      rfl

end VueScope.Markup.Piece

namespace VueScope.Markup

/-- An element at some depth of the nodes has a start tag and starts at an offset. -/
inductive HasTag : List Node → Nat → StartTag → Prop
  | top {nodes span tag children endTag} (member : .element span tag children endTag ∈ nodes) :
      HasTag nodes span.start tag
  | under {nodes span tag children endTag start inner}
      (member : .element span tag children endTag ∈ nodes) (deeper : HasTag children start inner) :
      HasTag nodes start inner

theorem Node.Opened.hasTag {asked : Nat → StartTag → Prop} {node : Node} (opened : node.Opened asked)
    {nodes : List Node} (member : node ∈ nodes) :
    node.Opened fun start tag => HasTag nodes start tag ∧ asked start tag := by
  induction opened generalizing nodes with
  | element own alone _ ih =>
    refine .element ⟨.top member,own⟩ alone fun child inside => (ih child inside inside).imp ?_
    intro start tag ⟨deeper,asked⟩
    exact ⟨.under member deeper,asked⟩
  | raw => exact .raw
  | comment => exact .comment
  | strayEnd => exact .strayEnd

/-- A start tag takes up text from where its element starts. -/
def TakesUp (text : List Char) (start : Nat) (tag : StartTag) : Prop :=
  Text.charOffset text start < Text.charOffset text tag.span.stop

theorem TagAt.takesUp {text : List Char} {start : Nat} {tag : StartTag}
    (read : TagAt ⟨0,mask text⟩ start tag) : TakesUp text start tag := by
  obtain ⟨opening,inside,reached,rfl,read⟩ := read
  obtain ⟨passed,span,_⟩ := of_readStartTag? read
  have ends := endsTag_readStartTag? read
  have boundary := offset_of_endsTag reached ends
  rw [TakesUp,span]
  apply Text.charOffset_lt_of_lt
  rw [← boundary]
  exact passed.offset_lt

variable [Recovery]

def OpensTags (text : List Char) : Prop :=
  ∀ nodes, Recovery.markup (mask text) = some nodes → ∀ node ∈ nodes, node.Opened (TakesUp text)

theorem opened_readFile {text : List Char} (opens : OpensTags text) :
    ∀ node ∈ (readFile (mask text)).nodes,
      node.Opened fun start tag => HasTag (readFile (mask text)).nodes start tag ∧ TakesUp text start tag := by
  have own (node : Node) (member : node ∈ (read (mask text)).nodes) : node.Opened (TakesUp text) :=
    (opened_read (mask text) node member).imp fun _ _ => TagAt.takesUp
  have all : ∀ node ∈ (readFile (mask text)).nodes, node.Opened (TakesUp text) := by
    unfold readFile
    dsimp only
    split
    · exact own
    · split
      next nodes recovered => exact opens nodes recovered
      · exact own
  exact fun node member => (all node member).hasTag member

end VueScope.Markup

namespace VueScope.Template

open Text

namespace Node

def start : Node → Nat
  | .element _ start _ _ _ => start
  | .text _ offset => offset
  | .interpolation _ offset => offset

/-- Where a node ends. An interpolation ends with the braces that are nearest to its start. -/
def stop (text : List Char) : Node → Nat
  | .element _ _ stop _ _ => stop
  | .text content offset => offset + content.length
  | .interpolation _ offset =>
    offset + 4 + ((find? Markup.Piece.closing (text.drop (offset + 2))).getD 0)

end Node

/-- Nodes between two offsets that take up text one behind the other. -/
structure Arranged (text : List Char) (lower upper : Nat) (nodes : List Node) : Prop where
  ordered : lower ≤ upper
  inside : ∀ node ∈ nodes, lower ≤ node.start ∧ node.start < node.stop text ∧ node.stop text ≤ upper
  apart : nodes.Pairwise fun first second => first.stop text ≤ second.start

def TagBetween (file : List Markup.Node) (text : List Char) (start inside : Nat) (tag : List Char)
    (props : List ElementProp) : Prop :=
  ∃ opening written, Markup.HasTag file opening written ∧ start = charOffset text opening ∧
    inside = charOffset text written.span.stop ∧ tag = written.name ∧
    props = written.attributes.map (propOf text)

/-- A node whose span is what is written of it, at every depth. The children of an element stand
between its start tag and its end. -/
inductive Node.Spanned (file : List Markup.Node) (text : List Char) : Node → Prop
  | element {tag start inside stop props children} (opened : TagBetween file text start inside tag props)
      (room : start < inside) (content : Arranged text inside stop children)
      (below : ∀ child ∈ children, child.Spanned file text) :
      Spanned file text (.element tag start stop props children)
  | text {content offset} (written : slice text offset (offset + content.length) = content) :
      Spanned file text (.text content offset)
  | interpolation {content offset} (body : List Char) (trimmed : content.content = trim body)
      (written : slice text offset ((Node.interpolation content offset).stop text) =
        Markup.Piece.opening ++ body ++ Markup.Piece.closing) :
      Spanned file text (.interpolation content offset)

namespace Arranged

variable {text : List Char} {lower middle upper : Nat} {first second : List Node}

theorem nil (ordered : lower ≤ upper) : Arranged text lower upper [] :=
  ⟨ordered,nofun,.nil⟩

theorem singleton (node : Node) (before : lower ≤ node.start) (room : node.start < node.stop text)
    (after : node.stop text ≤ upper) : Arranged text lower upper [node] := by
  refine ⟨by omega,?_,List.pairwise_singleton _ _⟩
  intro other member
  cases List.mem_singleton.mp member
  exact ⟨before,room,after⟩

theorem append (before : Arranged text lower middle first) (after : Arranged text middle upper second) :
    Arranged text lower upper (first ++ second) := by
  refine ⟨Nat.le_trans before.ordered after.ordered,?_,?_⟩
  · intro node member
    rcases List.mem_append.mp member with early | late
    · have bounds := before.inside node early
      exact ⟨bounds.1,bounds.2.1,Nat.le_trans bounds.2.2 after.ordered⟩
    · have bounds := after.inside node late
      exact ⟨Nat.le_trans before.ordered bounds.1,bounds.2⟩
  · refine List.pairwise_append.mpr ⟨before.apart,after.apart,?_⟩
    intro early here late there
    exact Nat.le_trans (before.inside early here).2.2 (after.inside late there).1

theorem widen {left right : Nat} (arranged : Arranged text lower upper first) (before : left ≤ lower)
    (after : upper ≤ right) : Arranged text left right first := by
  refine ⟨Nat.le_trans before (Nat.le_trans arranged.ordered after),?_,arranged.apart⟩
  intro node member
  have bounds := arranged.inside node member
  exact ⟨Nat.le_trans before bounds.1,bounds.2.1,Nat.le_trans bounds.2.2 after⟩

end Arranged

theorem stop_interpolation (text body : List Char) (content : Expression) (offset : Nat)
    (nearest : (Markup.Piece.interpolation body).Nearest)
    (stands : StandsAt text (Markup.Piece.source (.interpolation body)) offset) :
    (Node.interpolation content offset).stop text =
      offset + (Markup.Piece.source (.interpolation body)).length := by
  obtain ⟨before,after,rfl,place⟩ := stands
  rw [Int.ofNat_inj] at place
  have behind : (before ++ Markup.Piece.source (.interpolation body) ++ after).drop (offset + 2) =
      body ++ Markup.Piece.closing ++ after := by
    rw [place,List.append_assoc,← List.drop_drop,List.drop_left]
    rfl
  rw [Node.stop,behind,nearest after,Option.getD_some]
  simp only [Markup.Piece.source,Markup.Piece.opening,Markup.Piece.closing,List.length_append,
    List.length_cons,List.length_nil]
  omega

variable {file : List Markup.Node}

theorem arranged_nodesOfPieces (text : List Char) (offset : Nat) (pieces : List Markup.Piece)
    (nearest : ∀ piece ∈ pieces, piece.Nearest)
    (stands : StandsAt text (pieces.flatMap Markup.Piece.source) offset) :
    Arranged text offset (offset + (pieces.flatMap Markup.Piece.source).length)
        (nodesOfPieces offset pieces) ∧
      ∀ node ∈ nodesOfPieces offset pieces, node.Spanned file text := by
  induction pieces generalizing offset with
  | nil => exact ⟨.nil (Nat.le_refl _),nofun⟩
  | cons piece rest ih =>
    obtain ⟨own,others⟩ := List.forall_mem_cons.mp nearest
    rw [List.flatMap_cons] at stands
    have first := stands.front
    have later := stands.back
    rw [← Int.natCast_add] at later
    obtain ⟨arranged,spanned⟩ := ih _ others later
    rw [List.flatMap_cons,List.length_append,← Nat.add_assoc]
    unfold nodesOfPieces
    cases piece with
    | text content =>
      dsimp only
      split
      · exact ⟨arranged.widen (Nat.le_add_right _ _) (Nat.le_refl _),spanned⟩
      next solid =>
        have some : 0 < content.length := by
          rw [List.length_pos_iff]
          rintro rfl
          exact solid rfl
        have own : Arranged text offset (offset + content.length) [.text content offset] :=
          .singleton _ (Nat.le_refl _) (Nat.lt_add_of_pos_right some) (Nat.le_refl _)
        exact ⟨own.append arranged,List.forall_mem_cons.mpr ⟨.text first.slice_eq,spanned⟩⟩
    | interpolation body =>
      have stops := stop_interpolation text body
        ⟨trim body,((offset + 2 + (body.length - (trimLeft body).length) : Nat) : Int),false⟩ offset own
        first
      have room : 0 < (Markup.Piece.source (.interpolation body)).length := Nat.succ_pos _
      refine ⟨Arranged.append (.singleton _ (Nat.le_refl _) ?_ (Nat.le_of_eq stops)) arranged,
        List.forall_mem_cons.mpr ⟨.interpolation body rfl ?_,spanned⟩⟩
      · rw [stops]
        exact Nat.lt_add_of_pos_right room
      · rw [stops]
        exact first.slice_eq

theorem arranged_nodesOfGap (text : List Char) (start stop : Nat) (ordered : start ≤ stop) :
    Arranged text (charOffset text start) (charOffset text stop) (nodesOfGap text start stop) ∧
      ∀ node ∈ nodesOfGap text start stop, node.Spanned file text := by
  have further := charOffset_mono text ordered
  unfold nodesOfGap
  split
  · exact ⟨.nil further,nofun⟩
  · have stands := standsAt_sliceBytes text ⟨start,stop⟩
    rw [← Markup.Piece.source_splitUpTo (sliceBytes text ⟨start,stop⟩).1.length
      (sliceBytes text ⟨start,stop⟩).1] at stands
    obtain ⟨arranged,spanned⟩ :=
      arranged_nodesOfPieces text _ _ (Markup.Piece.nearest_splitUpTo _ _) stands
    rw [Markup.Piece.source_splitUpTo] at arranged
    exact ⟨arranged.widen (Nat.le_refl _) (sliceBytes_between text ⟨start,stop⟩ ordered),spanned⟩

/-- The tree of a markup node stands where the node does. -/
def ArrangedInside (file : List Markup.Node) (text : List Char) (markup : Markup.Node) : Prop :=
  markup.span.start ≤ markup.span.stop →
    Arranged text (charOffset text markup.span.start) (charOffset text markup.span.stop)
        (nodeOf? text markup).toList ∧
      ∀ node ∈ (nodeOf? text markup).toList, node.Spanned file text

theorem arranged_nodesOf (text : List Char) (start : Nat) {stop : Nat} {markup : List Markup.Node}
    (follow : Markup.Follow start stop (markup.map Markup.Node.span))
    (inside : ∀ node ∈ markup, ArrangedInside file text node) :
    Arranged text (charOffset text start) (charOffset text stop) (nodesOf text start stop markup) ∧
      ∀ node ∈ nodesOf text start stop markup, node.Spanned file text := by
  induction markup generalizing start with
  | nil => exact arranged_nodesOfGap text start stop follow
  | cons node siblings ih =>
    obtain ⟨before,width,after⟩ := follow
    obtain ⟨own,others⟩ := List.forall_mem_cons.mp inside
    obtain ⟨gap,plain⟩ := arranged_nodesOfGap text start node.span.start before
    obtain ⟨here,spanned⟩ := own width
    obtain ⟨later,behind⟩ := ih node.span.stop after others
    rw [nodesOf]
    exact ⟨(gap.append here).append later,List.forall_mem_append.mpr
      ⟨List.forall_mem_append.mpr ⟨plain,spanned⟩,behind⟩⟩

theorem arrangedInside_of_none (text : List Char) (markup : Markup.Node)
    (none : nodeOf? text markup = none) : ArrangedInside file text markup := by
  intro width
  rw [none]
  exact ⟨.nil (charOffset_mono text width),nofun⟩

theorem arrangedInside_of_orderly {text : List Char} {markup : Markup.Node} (orderly : markup.Orderly)
    (opened : markup.Opened fun start tag => Markup.HasTag file start tag ∧ Markup.TakesUp text start tag) :
    ArrangedInside file text markup := by
  induction orderly with
  | @element span tag children endTag attributes content closed below ih =>
    cases opened with
    | element own alone opened =>
      intro _
      obtain ⟨tagged,room⟩ := own
      have between : TagBetween file text (charOffset text span.start) (charOffset text tag.span.stop)
          tag.name (tag.attributes.map (propOf text)) := ⟨_,_,tagged,rfl,rfl,rfl,rfl⟩
      have further := charOffset_mono text content.le
      have last := charOffset_mono text closed
      obtain ⟨arranged,spanned⟩ := arranged_nodesOf text _ content
        fun child member => ih child member (opened child member)
      rw [nodeOf?,Option.toList_some,contentSpan_eq span tag endTag content.le]
      refine ⟨.singleton _ (Nat.le_refl _) (Nat.lt_of_lt_of_le room (Nat.le_trans further last))
        (Nat.le_refl _),List.forall_mem_singleton.mpr ?_⟩
      split
      · exact .element between room (.nil (Nat.le_trans further last)) (List.forall_mem_nil _)
      · exact .element between room (arranged.widen (Nat.le_refl _) last) spanned
  | raw
  | comment
  | strayEnd => exact arrangedInside_of_none text _ rfl

end VueScope.Template

namespace VueScope.Component

open Text Template

theorem blockOf_between (text : List Char) (type : String) {span : Markup.Span} {tag : Markup.StartTag}
    {endTag : Option Markup.Span} (ordered : tag.span.stop ≤ Markup.contentStop span endTag) :
    (blockOf text type span tag endTag).start = charOffset text tag.span.stop ∧
      (blockOf text type span tag endTag).stop = charOffset text (Markup.contentStop span endTag) := by
  have further := charOffset_mono text ordered
  have inside := charOffset_le_length text (Markup.contentStop span endTag)
  unfold blockOf
  rw [contentSpan_eq span tag endTag ordered]
  constructor
  · rfl
  · dsimp only [sliceBytes,slice]
    rw [List.length_take,List.length_drop]
    omega

/-- The nodes of a template take up text one behind the other, inside its block. So do the children
of each element, between its start tag and its end, wherever that end comes from. This is asked of the
nodes that are read behind a fault: they follow each other, and their start tags take up text. -/
theorem template_spans_are_nested [Recovery] (ordered : Recovery.InOrder) (filename : String)
    (text : List Char) (opens : Markup.OpensTags text) (parsed : Parsed) (template : TemplateBlock)
    (tree : List Node) (split : parse filename text = .ok parsed)
    (present : parsed.descriptor.template = some template) (built : template.tree = some tree) :
    Arranged text template.block.start template.block.stop tree ∧
      ∀ node ∈ tree, node.Spanned (Markup.readFile (Markup.mask text)).nodes text := by
  obtain ⟨span,tag,children,endTag,member,_,rfl⟩ := exists_template_element split present
  obtain ⟨stop,laid⟩ := Markup.laid_readFile ordered (Markup.mask text)
  have opened := Markup.opened_readFile opens _ member
  cases laid.orderly _ member with
  | element attributes content closed below =>
    cases opened with
    | element own alone opened =>
      obtain ⟨starts,stops⟩ := blockOf_between text "template" content.le
      have nested := Markup.laid_renest ⟨content,below⟩
      have still := Markup.opened_renestWithin _ (Markup.Node.sizeAll children) children opened
      have arranged := arranged_nodesOf text _ nested.follow fun node inside =>
        arrangedInside_of_orderly (nested.orderly node inside) (still node inside)
      rw [← starts,← stops] at arranged
      dsimp only [templateOf] at built
      rw [contentSpan_eq span tag endTag content.le] at built
      split at built
      · cases built
        split
        · exact ⟨.nil arranged.1.ordered,nofun⟩
        · exact arranged
      · contradiction

/-- The second item closes the first one early, and the first one ends behind it. -/
theorem items_stay_in_their_spans :
    let _ := Recovery.leading
    let text := "<template>é<li>\x7b\x7b a \x7d\x7d<li>b</li></li></template>".toList
    ∃ parsed template tree, parse "a.vue" text = .ok parsed ∧
      parsed.descriptor.template = some template ∧ template.tree = some tree ∧
      tree.map (fun node => (node.start,node.stop text)) = [(10,11),(11,37)] ∧
      Arranged text template.block.start template.block.stop tree ∧
      ∀ node ∈ tree, node.Spanned (Markup.readFile (Markup.mask text)).nodes text := by
  rw [String.toList_ofList]
  intro _ text
  have viewed : ((parse "a.vue" text).toOption.bind fun parsed =>
      parsed.descriptor.template.bind fun template => template.tree.map fun tree =>
        tree.map fun node => (node.start,node.stop text)) = some [(10,11),(11,37)] := by
    decide +kernel
  obtain ⟨parsed,template,split,present,seen⟩ := exists_of_template viewed
  obtain ⟨tree,built,spans⟩ := Option.map_eq_some_iff.mp seen
  exact ⟨parsed,template,tree,split,present,built,spans,template_spans_are_nested Recovery.inOrder_leading
    "a.vue" text nofun parsed template tree split present built⟩

end VueScope.Component
