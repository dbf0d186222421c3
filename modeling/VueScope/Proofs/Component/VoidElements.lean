import VueScope.Proofs.Component.Nesting
import VueScope.Proofs.Markup.Opened
import VueScope.Proofs.Markup.Trailing
import VueScope.Proofs.Template.Disjoint

/-! The void elements of a template. They hold no elements, but they hold the text behind their tag,
up to the next tag. -/
namespace VueScope.Markup

/-- The stretches of text that a void element holds behind its tag, and where it ends. -/
inductive Holds (tag : StartTag) (inside : Cursor) : List Span → Cursor → Prop
  | alone (closing : tag.selfClosing = true) : Holds tag inside [] inside
  | trailing {outer stretches last} (unclosed : tag.selfClosing = false)
      (trails : Trails (.ofChars tag.name :: outer) inside.offset inside stretches last) :
      Holds tag inside stretches last

def heldStretches (span : Span) (tag : StartTag) (children : List Node) (endTag : Option Span) :
    List Span :=
  if tag.selfClosing then []
  else stretchesAround tag.span.stop (contentStop span endTag) (children.map Node.span)

structure VoidRead (origin : Cursor) (span : Span) (tag : StartTag) (children : List Node)
    (endTag : Option Span) : Prop where
  marks : ∀ child ∈ children, child.isMark = true
  ordered : tag.span.stop ≤ contentStop span endTag
  held : ∃ opening inside last, origin.Reaches opening ∧ opening.offset = span.start ∧
    readStartTag? opening = some (tag,.ofChars tag.name,inside) ∧
    Holds tag inside (heldStretches span tag children endTag) last ∧ last.offset = span.stop

inductive Node.VoidsRead (origin : Cursor) : Node → Prop
  | element {span tag children endTag}
      (own : neverClosed tag.name = true → VoidRead origin span tag children endTag)
      (below : ∀ child ∈ children, child.VoidsRead origin) :
      VoidsRead origin (.element span tag children endTag)
  | raw {kind span tag endTag} : VoidsRead origin (.raw kind span tag endTag)
  | comment {span} : VoidsRead origin (.comment span)
  | strayEnd {span name} : VoidsRead origin (.strayEnd span name)

section Reading

variable {origin : Cursor}

theorem voidsRead_of_leaf {here next : Cursor} {node : Node} {openTags : List TagName}
    (reached : origin.Reaches here) (moved : move openTags here = .leaf node next) :
    node.VoidsRead origin := by
  have reads := reads_move openTags here
  rw [moved] at reads
  cases opened_move reached moved with
  | element own alone below =>
    obtain ⟨read,closing,rfl,rfl⟩ := reads
    obtain ⟨_,span,_⟩ := of_readStartTag? read
    cases alone closing
    refine .element (fun _ => ⟨List.forall_mem_nil _,Nat.le_refl _,?_⟩) (List.forall_mem_nil _)
    refine ⟨here,next,next,reached,by rw [span],read,?_,by rw [span]⟩
    rw [heldStretches,if_pos closing]
    exact .alone closing
  | raw => exact .raw
  | comment => exact .comment
  | strayEnd => exact .strayEnd

theorem voidRead_of_descend {here after : Cursor} {tag : StartTag} (openTags : List TagName)
    (reached : origin.Reaches here) (read : readStartTag? here = some (tag,.ofChars tag.name,after))
    (unclosed : tag.selfClosing = false) (void : neverClosed tag.name = true) :
    let inner := content (.ofChars tag.name :: openTags) after
    VoidRead origin ⟨here.offset,inner.2.2.offset⟩ tag inner.1 inner.2.1 := by
  intro inner
  have trail := trailRead_of_isVoid openTags
    (TagName.isVoid_of_neverClosed void) after after.offset
  have laid := laid_readContent (after.rest.length + 1) (.ofChars tag.name :: openTags) after
  obtain ⟨_,span,_⟩ := of_readStartTag? read
  have stop : tag.span.stop = after.offset := by rw [span]
  refine ⟨trail.marks,?_,here,after,inner.2.2,reached,rfl,read,?_,rfl⟩
  · rw [stop]
    exact laid.laid.follow.le
  · rw [heldStretches,if_neg (by simp [unclosed]),stop]
    exact .trailing unclosed trail.trails

theorem voidsRead_content (openTags : List TagName) (cursor : Cursor) (reached : origin.Reaches cursor) :
    ∀ node ∈ (content openTags cursor).1, node.VoidsRead origin := by
  refine forall_content voidsRead_of_leaf ?_ openTags cursor reached
  intro openTags here after tag reached read unclosed inner below
  exact .element (voidRead_of_descend openTags reached read unclosed) below

end Reading

theorem Renested.eq_of_marks {nodes others : List Node} (renested : Renested nodes others)
    (marks : ∀ node ∈ nodes, node.isMark = true) : others = nodes := by
  induction renested with
  | same => rfl
  | kept _ later => rw [later (List.forall_mem_cons.mp marks).2]
  | within
  | taking => cases (List.forall_mem_cons.mp marks).1

theorem voidsRead_renestWithin (origin : Cursor) (fuel : Nat) (nodes : List Node)
    (read : ∀ node ∈ nodes, node.VoidsRead origin) :
    ∀ node ∈ renestWithin fuel nodes, node.VoidsRead origin := by
  refine Renested.forall_mem ?_ ?_ ?_ (renested fuel nodes) read
  · rintro span tag children endTag ⟨own,below⟩
    exact below
  · rintro span tag children endTag nodes ⟨own,below⟩ renested inner
    refine .element ?_ inner
    intro void
    -- it holds no elements, so there is nothing to nest in it
    rw [renested.eq_of_marks (own void).marks]
    exact own void
  · rintro span close tag children endTag siblings parts nodes ⟨own,below⟩ found inner
    refine .element ?_ inner
    intro void
    -- no end tag is looked for, so it takes back nothing
    simp [writtenEnd?,void] at found

end VueScope.Markup

namespace VueScope.Template

open Text

def Node.isElement : Node → Bool
  | .element _ _ _ _ _ => true
  | .text _ _ => false
  | .interpolation _ _ => false

theorem isElement_nodesOfGap (text : List Char) (start stop : Nat) :
    ∀ node ∈ nodesOfGap text start stop, node.isElement = false := by
  apply nodesOfGap_induction fun nodes => ∀ node ∈ nodes, node.isElement = false
  · exact List.forall_mem_nil _
  · intro _ _ _ others
    exact List.forall_mem_cons.mpr ⟨rfl,others⟩
  · intro _ _ _ others
    exact List.forall_mem_cons.mpr ⟨rfl,others⟩

theorem nodesOfPieces_eq_nil_iff (offset : Nat) (pieces : List Markup.Piece) :
    nodesOfPieces offset pieces = [] ↔ isBlank (pieces.flatMap Markup.Piece.source) = true := by
  induction pieces generalizing offset with
  | nil => simp [nodesOfPieces,isBlank]
  | cons piece rest ih =>
    have parts : isBlank ((piece :: rest).flatMap Markup.Piece.source) =
        (isBlank piece.source && isBlank (rest.flatMap Markup.Piece.source)) := by
      rw [List.flatMap_cons,isBlank,List.all_append]
      rfl
    rw [parts,Bool.and_eq_true,← ih (offset + piece.source.length)]
    cases piece with
    | text content =>
      simp only [nodesOfPieces,Markup.Piece.source]
      split
      next blank => simp [blank]
      next solid => simp [solid]
    | interpolation body =>
      have solid : isBlank (Markup.Piece.source (.interpolation body)) = false := rfl
      simp [nodesOfPieces,solid]

theorem nodesOfGap_eq_nil_iff (text : List Char) (start stop : Nat) :
    nodesOfGap text start stop = [] ↔ isBlank (sliceBytes text ⟨start,stop⟩).1 = true := by
  unfold nodesOfGap
  split
  next empty =>
    have none := Nat.sub_eq_zero_of_le (charOffset_mono text empty)
    simp [sliceBytes,slice,none,isBlank]
  · dsimp only
    rw [nodesOfPieces_eq_nil_iff,Markup.Piece.split,Markup.Piece.source_splitUpTo]

theorem nodesOf_of_marks (text : List Char) (start stop : Nat) (markup : List Markup.Node)
    (marks : ∀ node ∈ markup, node.isMark = true) :
    nodesOf text start stop markup =
      (Markup.stretchesAround start stop (markup.map Markup.Node.span)).flatMap fun stretch =>
        nodesOfGap text stretch.start stretch.stop := by
  induction markup generalizing start with
  | nil => simp [nodesOf,Markup.stretchesAround]
  | cons node rest ih =>
    obtain ⟨mark,others⟩ := List.forall_mem_cons.mp marks
    have none : nodeOf? text node = none := by
      cases node with
      | element _ _ _ _ => contradiction
      | raw _ _ _ _ => contradiction
      | comment _ => rfl
      | strayEnd _ _ => rfl
    rw [nodesOf,none,ih _ others,List.map_cons,Markup.stretchesAround,List.flatMap_cons]
    simp

variable {markup : List Markup.Node}

theorem mem_nodesOf {text : List Char} {start stop : Nat} {node : Node} (element : node.isElement = true)
    (member : node ∈ nodesOf text start stop markup) :
    ∃ origin ∈ markup, nodeOf? text origin = some node := by
  have apart (first last : Nat) (inside : node ∈ nodesOfGap text first last) : False := by
    rw [isElement_nodesOfGap text first last node inside] at element
    contradiction
  induction markup generalizing start with
  | nil => exact (apart _ _ member).elim
  | cons origin rest ih =>
    rw [nodesOf,List.mem_append,List.mem_append] at member
    rcases member with (gap | here) | later
    · exact (apart _ _ gap).elim
    · exact ⟨origin,List.mem_cons_self,Option.mem_toList.mp here⟩
    · obtain ⟨found,among,built⟩ := ih later
      exact ⟨found,List.mem_cons_of_mem _ among,built⟩

def Node.BuiltOf (origin : Markup.Cursor) (text : List Char) (node : Node) : Prop :=
  ∃ markup, markup.VoidsRead origin ∧ nodeOf? text markup = some node

section Built

variable {origin : Markup.Cursor} {text : List Char}

theorem builtOf_of_mem {start stop : Nat} (read : ∀ node ∈ markup, node.VoidsRead origin) :
    ∀ node ∈ nodesOf text start stop markup, node.isElement = true → node.BuiltOf origin text := by
  intro node member element
  obtain ⟨found,among,built⟩ := mem_nodesOf element member
  exact ⟨found,read found among,built⟩

theorem builtOf_of_within {tree : List Node} {around : List (List ElementProp)} {node : Node}
    (top : ∀ node ∈ tree, node.isElement = true → node.BuiltOf origin text)
    (place : Within tree around node) (element : node.isElement = true) :
    node.BuiltOf origin text := by
  induction place with
  | top member => exact top _ member element
  | under _ member ih =>
    obtain ⟨parent,read,built⟩ := ih rfl
    cases read with
    | element _ below =>
      cases built
      split at member
      · contradiction
      · exact builtOf_of_mem below _ member element
    | raw => contradiction
    | comment => contradiction
    | strayEnd => contradiction

theorem nodeOf?_of_voidRead {span : Markup.Span} {tag : Markup.StartTag} {children : List Markup.Node}
    {endTag : Option Markup.Span} (read : Markup.VoidRead origin span tag children endTag) :
    nodeOf? text (.element span tag children endTag) =
      some (.element tag.name (charOffset text span.start) (charOffset text span.stop)
        (tag.attributes.map (propOf text))
        ((Markup.heldStretches span tag children endTag).flatMap fun stretch =>
          nodesOfGap text stretch.start stretch.stop)) := by
  rw [nodeOf?,Markup.heldStretches,contentSpan_eq span tag endTag read.ordered]
  split
  · rfl
  · rw [nodesOf_of_marks text _ _ children read.marks]

end Built

def voidsAtTop (nodes : List Node) : List (Nat × Nat × Nat) :=
  nodes.filterMap fun
    | .element tag start stop _ children =>
      if Markup.neverClosed tag then some (start,stop,children.length) else none
    | .text _ _ => none
    | .interpolation _ _ => none

theorem exists_of_mem_voidsAtTop {nodes : List Node} {start stop count : Nat}
    (member : (start,stop,count) ∈ voidsAtTop nodes) :
    ∃ tag props children, Within nodes [] (.element tag start stop props children) ∧
      Markup.neverClosed tag = true ∧ children.length = count := by
  obtain ⟨node,among,shown⟩ := List.mem_filterMap.mp member
  cases node with
  | element tag first last props children =>
    dsimp only at shown
    split at shown
    next void =>
      cases shown
      exact ⟨tag,props,children,.top among,void,rfl⟩
    · contradiction
  | text _ _ => contradiction
  | interpolation _ _ => contradiction

end VueScope.Template

namespace VueScope.Component

open Text Template

/-- A void element holds no elements. It holds just the text behind its tag, up to the next tag of an
element, and so it holds nothing only where its tag is closed or that text is blank. The faults of the
markup, if it has any, have to be passed over. -/
theorem void_elements_hold_trailing_text [Recovery] (filename : String) (text : List Char)
    (parsed : Parsed) (template : TemplateBlock) (tree : List Node) (around : List (List ElementProp))
    (tag : List Char) (start stop : Nat) (props : List ElementProp) (children : List Node)
    (passed : Markup.PassesFaults text) (split : parse filename text = .ok parsed)
    (present : parsed.descriptor.template = some template) (built : template.tree = some tree)
    (place : Within tree around (.element tag start stop props children))
    (void : Markup.neverClosed tag = true) :
    (∀ child ∈ children, child.isElement = false) ∧
    ∃ written opening inside stretches last, (⟨0,Markup.mask text⟩ : Markup.Cursor).Reaches opening ∧
      Markup.readStartTag? opening = some (written,.ofChars tag,inside) ∧
      start = charOffset text opening.offset ∧ props = written.attributes.map (propOf text) ∧
      Markup.Holds written inside stretches last ∧ stop = charOffset text last.offset ∧
      children = stretches.flatMap (fun stretch => nodesOfGap text stretch.start stretch.stop) ∧
      (children = [] ↔ ∀ stretch ∈ stretches, isBlank (sliceBytes text stretch).1 = true) := by
  obtain ⟨span,outer,content,endTag,member,_,rfl⟩ := exists_template_element split present
  rw [passed] at member
  -- nesting the elements anew may move a void element, but what it holds is still what was read
  have top : ∀ node ∈ tree, node.isElement = true → node.BuiltOf ⟨0,Markup.mask text⟩ text := by
    cases Markup.voidsRead_content [] ⟨0,Markup.mask text⟩ (.refl _) _ member with
    | element _ below =>
      dsimp only [templateOf] at built
      split at built
      · cases built
        split
        · exact List.forall_mem_nil _
        · exact builtOf_of_mem (Markup.voidsRead_renestWithin _ _ _ below)
      · contradiction
  obtain ⟨markup,read,same⟩ := builtOf_of_within top place rfl
  cases read with
  | @element span written nodes close own _ =>
    have named : written.name = tag := by
      cases same
      rfl
    have read := own (named.symm ▸ void)
    rw [nodeOf?_of_voidRead read] at same
    cases same
    obtain ⟨opening,inside,last,reached,begins,found,holds,ends⟩ := read.held
    refine ⟨?_,written,opening,inside,_,last,reached,found,by rw [begins],rfl,holds,by rw [ends],rfl,?_⟩
    · intro child among
      obtain ⟨stretch,_,inside⟩ := List.mem_flatMap.mp among
      exact isElement_nodesOfGap text _ _ child inside
    · simp only [List.flatMap_eq_nil_iff,nodesOfGap_eq_nil_iff]
  | raw => contradiction
  | comment => contradiction
  | strayEnd => contradiction

/-- The rule ends at the paragraph, and neither the comment nor the lost end tag ends it. -/
theorem rule_holds_trailing_text :
    let text := "<template>é<HR>\x7b\x7b a \x7d\x7d<!-- b -->c</i> <p></p></template>".toList
    ∃ parsed template tree tag props children, parse "a.vue" text = .ok parsed ∧
      parsed.descriptor.template = some template ∧ template.tree = some tree ∧
      Within tree [] (.element tag 11 38 props children) ∧ Markup.neverClosed tag = true ∧
      children.length = 2 ∧ (∀ child ∈ children, child.isElement = false) ∧
      ∃ stretches : List Markup.Span, children =
          stretches.flatMap (fun stretch => nodesOfGap text stretch.start stretch.stop) ∧
        (children = [] ↔ ∀ stretch ∈ stretches, isBlank (sliceBytes text stretch).1 = true) := by
  intro text
  have viewed : ((parse "a.vue" text).toOption.bind fun parsed =>
      parsed.descriptor.template.bind fun template => template.tree.map voidsAtTop) =
      some [(11,38,2)] := by
    decide +kernel
  obtain ⟨parsed,template,split,present,seen⟩ := exists_of_template viewed
  obtain ⟨tree,built,voids⟩ := Option.map_eq_some_iff.mp seen
  obtain ⟨tag,props,children,place,void,count⟩ :=
    exists_of_mem_voidsAtTop (voids.symm ▸ List.mem_singleton_self _)
  obtain ⟨plain,_,_,_,stretches,_,_,_,_,_,_,_,held,blank⟩ :=
    void_elements_hold_trailing_text "a.vue" text parsed template tree [] tag 11 38 props children
      (Markup.passesFaults_of_none rfl) split present built place void
  exact ⟨parsed,template,tree,tag,props,children,split,present,built,place,void,count,plain,stretches,held,
    blank⟩

/-- The text behind an image is in the image, and the loop of the image hides a name there. -/
theorem image_hides_name_behind_it :
    let text := "<template><img v-for='x in xs'>\x7b\x7b x \x7d\x7d</template>".toList
    ∃ parsed template tree tag props children, parse "a.vue" text = .ok parsed ∧
      parsed.descriptor.template = some template ∧ template.tree = some tree ∧
      Within tree [] (.element tag 10 38 props children) ∧ Markup.neverClosed tag = true ∧
      children.length = 1 ∧ (sites tree).map (fun site =>
        (site.expression.content,decide (site.Binds "x"))) = [("xs".toList,false),("x".toList,true)] := by
  intro text
  have viewed : ((parse "a.vue" text).toOption.bind fun parsed =>
      parsed.descriptor.template.bind fun template => template.tree.map fun tree =>
        (voidsAtTop tree,(sites tree).map fun site =>
          (site.expression.content,decide (site.Binds "x")))) =
      some ([(10,38,1)],[("xs".toList,false),("x".toList,true)]) := by
    decide +kernel
  obtain ⟨parsed,template,split,present,seen⟩ := exists_of_template viewed
  obtain ⟨tree,built,shown⟩ := Option.map_eq_some_iff.mp seen
  have voids : voidsAtTop tree = [(10,38,1)] := congrArg Prod.fst shown
  obtain ⟨tag,props,children,place,void,count⟩ :=
    exists_of_mem_voidsAtTop (voids.symm ▸ List.mem_singleton_self _)
  exact ⟨parsed,template,tree,tag,props,children,split,present,built,place,void,count,
    congrArg Prod.snd shown⟩

end VueScope.Component
