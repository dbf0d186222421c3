import VueScope.Proofs.Component.Template
import VueScope.Proofs.Recovery
import VueScope.Proofs.Template.Nesting

/-! A component's template nests as its author wrote it, if every end tag finds its element. -/
namespace VueScope.Markup

open Text

def EndsTag (cursor after : Cursor) : Prop :=
  ∃ last, cursor.Reaches last ∧ last.rest = '>' :: after.rest ∧ after.offset = last.offset + 1

theorem EndsTag.after {first second after : Cursor} (reached : first.Reaches second)
    (ends : EndsTag second after) : EndsTag first after := by
  obtain ⟨last,further,written,counted⟩ := ends
  exact ⟨last,reached.trans further,written,counted⟩

theorem AttributesRead.endsTag {cursor after : Cursor} {attributes : List Attribute}
    (read : AttributesRead cursor attributes after) : EndsTag cursor after := by
  have bracket : '>'.utf8Size = 1 := by decide
  induction read with
  | @ended cursor _ written =>
    refine .after cursor.reaches_skipWhite ⟨_,.refl _,?_,?_⟩
    · simp [Cursor.advance,written]
    · simp [Cursor.advance,written,byteLength,bracket]
  | @closed cursor _ written =>
    refine .after cursor.reaches_skipWhite ⟨_,Cursor.reaches_advance _ 1,?_,?_⟩
    · simp [Cursor.advance,written]
    · simp [Cursor.advance,written,byteLength,bracket,Nat.add_assoc]
  | @more cursor attr next _ _ one _ ih =>
    exact ih.after (cursor.reaches_skipWhite.trans (of_readAttribute? one).1)

theorem endsTag_readStartTag? {cursor after : Cursor} {tag : StartTag} {name : TagName}
    (read : readStartTag? cursor = some (tag,name,after)) : EndsTag cursor after := by
  obtain ⟨_,_,_,named,attributes⟩ := exists_of_readStartTag? read
  exact attributes.endsTag.after named

theorem offset_of_endsTag {text : List Char} {cursor after : Cursor}
    (reached : (⟨0,mask text⟩ : Cursor).Reaches cursor) (ends : EndsTag cursor after) :
    after.offset = byteLength (text.take (charOffset text after.offset)) := by
  obtain ⟨last,further,written,counted⟩ := ends
  obtain ⟨taken,parts,offset⟩ := reached.trans further
  rw [written] at parts
  obtain ⟨front,back,rfl,same⟩ :=
    exists_split_of_masks (masks_mask text) taken after.rest '>' (by decide) parts
  have place : after.offset = byteLength front := by
    rw [same,byteLength_append,counted,offset,Nat.zero_add]
    rfl
  rw [place,charOffset_append,List.take_left]

/-- What a move reads of an element starts with a start tag here. -/
def Move.Reads (here : Cursor) : Move → Prop
  | descend tag name after => readStartTag? here = some (tag,name,after) ∧ tag.selfClosing = false
  | leaf (.element span tag _ endTag) next =>
    readStartTag? here = some (tag,.ofChars tag.name,next) ∧ tag.selfClosing = true ∧
      span = tag.span ∧ endTag = none
  | _ => True

theorem reads_move (openTags : List TagName) (here : Cursor) : (move openTags here).Reads here := by
  have made := made_move openTags here
  generalize move openTags here = moved at made ⊢
  cases made with
  | single read closing => exact ⟨read,closing,(of_readStartTag? read).2.1.symm,rfl⟩
  | descend read unclosed => exact ⟨read,unclosed⟩
  | _ => trivial

/-- An element whose start tag is read at a place, and which is read to its end. -/
structure ReadAt (opening inside : Cursor) (span : Span) (tag : StartTag) (children : List Node)
    (endTag : Option Span) : Prop where
  start : readStartTag? opening = some (tag,.ofChars tag.name,inside)
  single : tag.selfClosing = true → span = tag.span ∧ endTag = none
  paired : tag.selfClosing = false →
    .element span tag children endTag = ((⟨tag,[]⟩ : Frame).finish [] inside).1

theorem exists_readAt (cursor : Cursor) {span : Span} {tag : StartTag} {children : List Node}
    {endTag : Option Span} (member : .element span tag children endTag ∈ (content [] cursor).1) :
    ∃ opening inside, cursor.Reaches opening ∧ ReadAt opening inside span tag children endTag := by
  induction bound : cursor.rest.length using Nat.strongRecOn generalizing cursor with
  | ind length ih =>
    subst bound
    have white := cursor.reaches_skipWhite
    have forward := forward_move [] cursor.skipWhite
    have reads := reads_move [] cursor.skipWhite
    have shorter := white.length_le
    -- the element is the one read here, or it is read from a later place
    have later (next : Cursor) (passed : cursor.skipWhite.Passes next)
        (member : .element span tag children endTag ∈ (content [] next).1) :
        ∃ opening inside, cursor.Reaches opening ∧ ReadAt opening inside span tag children endTag := by
      obtain ⟨opening,inside,reached,found⟩ := ih next.rest.length
        (Nat.lt_of_lt_of_le passed.2 shorter) next member rfl
      exact ⟨opening,inside,(white.trans passed.1).trans reached,found⟩
    rw [content_eq] at member
    cases moved : move [] cursor.skipWhite with
    | stop
    | close _ =>
      rw [moved] at member
      contradiction
    | skip next _ =>
      rw [moved] at member forward
      exact later next forward member
    | leaf node next =>
      rw [moved] at member forward reads
      rcases List.mem_cons.mp member with rfl | behind
      · obtain ⟨start,closing,same,ended⟩ := reads
        refine ⟨_,next,white,start,fun _ => ⟨same,ended⟩,?_⟩
        simp [closing]
      · exact later next forward.1 behind
    | descend other name after =>
      rw [moved] at member forward reads
      have named := (of_readStartTag? reads.1).2.2.1
      subst named
      have inner := (laid_readContent (after.rest.length + 1) [.ofChars other.name] after).reached
      rcases List.mem_cons.mp member with same | behind
      · have start : other.span.start = cursor.skipWhite.offset := congrArg Span.start forward.2.1
        rw [← start] at same
        cases same
        refine ⟨_,after,white,reads.1,?_,fun _ => rfl⟩
        simp [reads.2]
      · exact later _ (forward.1.reaches inner) behind

end VueScope.Markup

namespace VueScope.Component

open Text Template
open Markup (Cursor Authored Written Closes Recoverable)

theorem tree_of_selfClosing {text : List Char} {span : Markup.Span} {tag : Markup.StartTag}
    {children : List Markup.Node} {endTag : Option Markup.Span} (closing : tag.selfClosing = true)
    (markup : isMarkup (templateOf text span tag children endTag).block.lang = true) :
    (templateOf text span tag children endTag).tree = some [] := by
  unfold templateOf at markup ⊢
  dsimp only at markup ⊢
  rw [if_pos markup,if_pos closing]

theorem tree_templateOf {text : List Char} {span : Markup.Span} {tag : Markup.StartTag}
    {children : List Markup.Node} {endTag : Option Markup.Span} (open_ : tag.selfClosing = false)
    (markup : isMarkup (templateOf text span tag children endTag).block.lang = true) :
    (templateOf text span tag children endTag).tree =
      some (nodesOf text (contentSpan span tag endTag).start (contentSpan span tag endTag).stop
        (Markup.renest children)) := by
  unfold templateOf at markup ⊢
  dsimp only at markup ⊢
  rw [if_pos markup,if_neg (by simp [open_])]

theorem content_of_selfClosing (text : List Char) (tag : Markup.StartTag)
    (children : List Markup.Node) :
    (templateOf text tag.span tag children none).block.content = [] := by
  simp [templateOf,blockOf,contentSpan,sliceBytes,slice]

/-- A template nests as its author wrote it. Between its start tag and its end tag stand elements
whose tags pair up, and the tree has these elements, each in the element whose tags stand around
it, if every end tag that is read late still finds its element and faults are passed over. -/
theorem written_nesting_is_kept [Recovery] (filename : String) (text : List Char) (parsed : Parsed)
    (template : TemplateBlock) (inside stop after : Cursor) (nodes : List Authored)
    (passed : Markup.PassesFaults text) (split : parse filename text = .ok parsed)
    (present : parsed.descriptor.template = some template)
    (markup : isMarkup template.block.lang = true) (empty : template.block.content = [] → nodes = [])
    (reached : (⟨0,Markup.mask text⟩ : Cursor).Reaches inside)
    (starts : inside.offset = byteLength (text.take template.block.start))
    (written : Written inside nodes stop) (closed : Closes stop (.ofChars "template".toList) after)
    (recoverable : Recoverable (.ofChars "template".toList) nodes) :
    ∃ tree, template.tree = some tree ∧ Shows text tree nodes := by
  obtain ⟨span,tag,children,endTag,member,named,rfl⟩ := exists_template_element split present
  rw [passed] at member
  obtain ⟨opening,behind,before,read⟩ :=
    Markup.exists_readAt ⟨0,Markup.mask text⟩ member
  obtain ⟨passed,tagged,_⟩ := Markup.of_readStartTag? read.start
  -- the block starts behind the start tag that was read
  have start : (templateOf text span tag children endTag).block.start =
      charOffset text behind.offset := by
    rw [← show tag.span.stop = behind.offset from congrArg Markup.Span.stop tagged]
    rfl
  have same : inside = behind := by
    apply reached.eq_of_offset (before.trans passed.1)
    rw [starts,start]
    exact (Markup.offset_of_endsTag before
      (Markup.endsTag_readStartTag? read.start)).symm
  subst same
  cases closing : tag.selfClosing with
  | true =>
    refine ⟨_,tree_of_selfClosing closing markup,?_⟩
    obtain ⟨rfl,rfl⟩ := read.single closing
    rw [empty (content_of_selfClosing text tag children)]
    exact .nil
  | false =>
    have paired : tag.isSingle = false := by
      rw [Markup.StartTag.isSingle,closing,named]
      decide
    rw [← named] at closed recoverable
    obtain ⟨below,renders,ended⟩ :=
      Markup.finish_of_written paired written closed recoverable
    have whole := read.paired closing
    rw [ended] at whole
    cases whole
    exact ⟨_,tree_templateOf closing markup,
      shows_renest text _ _ renders⟩

/-- A row in a cell closes the cell and the row around it early. -/
theorem nested_cells_are_kept :
    let text := "<template><tr><td><tr><td>a</td></tr></td></tr></template>".toList
    let tag (name : String) (start stop : Nat) : Markup.StartTag := ⟨⟨start,stop⟩,name.toList,[],false⟩
    ∃ parsed template tree, parse "a.vue" text = .ok parsed ∧
      parsed.descriptor.template = some template ∧ template.tree = some tree ∧
      Shows text tree [.element (tag "tr" 10 14) [.element (tag "td" 14 18) [.element (tag "tr" 18 22)
        [.element (tag "td" 22 26) [] ⟨27,32⟩] ⟨32,37⟩] ⟨37,42⟩] ⟨42,47⟩] := by
  rw [String.toList_ofList]
  intro text tag
  let place (count : Nat) : Cursor := ⟨count,text.drop count⟩
  have masked : Markup.mask text = text := by decide +kernel
  have reached : (⟨0,Markup.mask text⟩ : Cursor).Reaches (place 10) := by
    rw [masked]
    exact Cursor.reaches_advance ⟨0,text⟩ 10
  have written : Written (place 10) [.element (tag "tr" 10 14) [.element (tag "td" 14 18)
      [.element (tag "tr" 18 22) [.element (tag "td" 22 26) [] ⟨27,32⟩] ⟨32,37⟩] ⟨37,42⟩] ⟨42,47⟩]
      (place 47) := by
    refine @Written.element _ (place 14) (place 42) (place 47) _ _ _ _ (by decide +kernel) rfl rfl ?_
      (by decide +kernel) .done
    refine @Written.element _ (place 18) (place 37) (place 42) _ _ _ _ (by decide +kernel) rfl rfl ?_
      (by decide +kernel) .done
    refine @Written.element _ (place 22) (place 32) (place 37) _ _ _ _ (by decide +kernel) rfl rfl ?_
      (by decide +kernel) .done
    exact @Written.element _ (place 26) (place 27) (place 32) _ _ _ _ (by decide +kernel) rfl rfl
      (.text .done) (by decide +kernel) .done
  have viewed : ((parse "a.vue" text).toOption.bind fun parsed =>
      parsed.descriptor.template.bind fun template =>
        some (template.block.start,template.block.lang,template.block.content.length)) =
      some (10,none,37) := by decide +kernel
  obtain ⟨parsed,template,split,present,seen⟩ := exists_of_template viewed
  simp only [Option.some.injEq,Prod.mk.injEq] at seen
  obtain ⟨starts,markup,length⟩ := seen
  have filled : template.block.content ≠ [] := by
    intro none
    simp [none] at length
  obtain ⟨tree,built,shows⟩ := written_nesting_is_kept "a.vue" text parsed template (place 10) (place 47)
    (place 58) _ (Markup.passesFaults_of_none rfl) split present (by rw [markup]; rfl)
    (absurd · filled) reached (by rw [starts]; rfl) written (by decide +kernel) (by decide)
  exact ⟨parsed,template,tree,split,present,built,shows⟩

/-- Of three list items in one another, the first ends with the end tag of the second. -/
theorem third_item_leaves_the_second :
    let text := "<template><li><li><li></li></li></li></template>".toList
    let tag (start stop : Nat) : Markup.StartTag := ⟨⟨start,stop⟩,"li".toList,[],false⟩
    let place (count : Nat) : Cursor := ⟨count,text.drop count⟩
    let nodes : List Authored :=
      [.element (tag 10 14) [.element (tag 14 18) [.element (tag 18 22) [] ⟨22,27⟩] ⟨27,32⟩] ⟨32,37⟩]
    (⟨0,Markup.mask text⟩ : Cursor).Reaches (place 10) ∧ Written (place 10) nodes (place 37) ∧
      Closes (place 37) (.ofChars "template".toList) (place 48) ∧
      ∃ parsed template tree, parse "a.vue" text = .ok parsed ∧
        parsed.descriptor.template = some template ∧ template.block.start = 10 ∧
        template.tree = some tree ∧ ¬Shows text tree nodes := by
  rw [String.toList_ofList]
  intro text tag place nodes
  have masked : Markup.mask text = text := by decide +kernel
  have reached : (⟨0,Markup.mask text⟩ : Cursor).Reaches (place 10) := by
    rw [masked]
    exact Cursor.reaches_advance ⟨0,text⟩ 10
  have written : Written (place 10) nodes (place 37) := by
    refine @Written.element _ (place 14) (place 32) (place 37) _ _ _ _ (by decide +kernel) rfl rfl ?_
      (by decide +kernel) .done
    refine @Written.element _ (place 18) (place 27) (place 32) _ _ _ _ (by decide +kernel) rfl rfl ?_
      (by decide +kernel) .done
    exact @Written.element _ (place 22) (place 22) (place 27) _ _ _ _ (by decide +kernel) rfl rfl .done
      (by decide +kernel) .done
  have viewed : ((parse "a.vue" text).toOption.bind fun parsed =>
      parsed.descriptor.template.bind fun template => template.tree.map fun tree =>
        (template.block.start,elementEnds tree)) = some (10,[32]) := by decide +kernel
  obtain ⟨parsed,template,split,present,seen⟩ := exists_of_template viewed
  obtain ⟨tree,built,same⟩ := Option.map_eq_some_iff.mp seen
  simp only [Prod.mk.injEq] at same
  obtain ⟨starts,ends⟩ := same
  refine ⟨reached,written,by decide +kernel,parsed,template,tree,split,present,starts,built,?_⟩
  intro shows
  have last := shows.end_mem_elementEnds
  rw [ends] at last
  have offset : charOffset text 37 = 37 := by decide +kernel
  simp [offset] at last

end VueScope.Component
