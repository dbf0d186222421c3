import VueScope.Proofs.Component.Template
import VueScope.Proofs.Template.Bounded
import VueScope.Proofs.Template.LoopParts
import VueScope.Proofs.Template.Scope

/-! The blocks of a component, and all texts and expressions of its template, are parts of its
file. -/
namespace VueScope.Template

open Text

def Directive.parts (directive : Directive) : List Expression :=
  directive.argument.toList ++ directive.expression.toList ++ directive.loop.toList.flatMap Loop.parts

def Node.parts : Node → List (List Char × Int)
  | .text content offset => [(content,offset)]
  | .interpolation content _ => [(content.content,content.offset)]
  | .element _ _ _ props _ =>
    ((directives props).flatMap Directive.parts).map fun part => (part.content,part.offset)

theorem Directive.Anchored.parts {text : List Char} {directive : Directive}
    (anchored : directive.Anchored text) : ∀ part ∈ directive.parts, part.Anchored text := by
  intro part member
  rcases List.mem_append.mp member with single | split
  · rcases List.mem_append.mp single with argument | expression
    · exact anchored.argument part (Option.mem_toList.mp argument)
    · exact anchored.expression part (Option.mem_toList.mp expression)
  · obtain ⟨loop,found,inside⟩ := List.mem_flatMap.mp split
    obtain ⟨expression,written,parsed⟩ := anchored.split loop (Option.mem_toList.mp found)
    obtain ⟨_,stands,_⟩ := (Loop.lined_parts parsed).inside part inside
    have placed := StandsAt.within (anchored.expression expression written) stands
    rwa [Int.add_comm,Int.sub_add_cancel] at placed

namespace Node

variable {text : List Char} {nodes : List Node} {node : Node} {around : List (List ElementProp)}

theorem Anchored.parts (anchored : node.Anchored text) :
    ∀ part ∈ node.parts, StandsAt text part.1 part.2 := by
  cases node with
  | text content offset => exact List.forall_mem_singleton.mpr anchored
  | interpolation content offset => exact List.forall_mem_singleton.mpr anchored
  | element tag start stop props children =>
    intro part member
    obtain ⟨expression,inside,rfl⟩ := List.mem_map.mp member
    obtain ⟨directive,carried,written⟩ := List.mem_flatMap.mp inside
    exact (anchored.1 directive carried).parts expression written

theorem AnchoredAll.of_mem (anchored : AnchoredAll text nodes) (member : node ∈ nodes) :
    node.Anchored text := by
  obtain ⟨before,after,rfl⟩ := List.append_of_mem member
  exact ((anchoredAll_append text before _).mp anchored).2.1

theorem AnchoredAll.within (anchored : AnchoredAll text nodes) (place : Within nodes around node) :
    node.Anchored text := by
  induction place with
  | top member => exact anchored.of_mem member
  | under _ member ih => exact AnchoredAll.of_mem ih.2 member

end Node

end VueScope.Template

namespace VueScope.Component

open Text Template

def Descriptor.Anchored (text : List Char) (descriptor : Descriptor) : Prop :=
  ∀ template, descriptor.template = some template → ∀ nodes, template.tree = some nodes →
    Template.Node.AnchoredAll text nodes

section

variable [Recovery] {filename : String} {text : List Char} {parsed : Parsed} {nodes : List Template.Node}

theorem anchored_parse (split : parse filename text = .ok parsed) : parsed.descriptor.Anchored text := by
  intro template present nodes tree
  obtain ⟨span,tag,children,endTag,_,rfl | rfl⟩ := exists_nodesOf_of_tree split present tree
  · trivial
  · exact anchored_nodesOf text _ _ _

theorem bounded_parse (passed : Markup.PassesFaults text)
    (split : parse filename text = .ok parsed)
    (tree : parsed.descriptor.tree? = some nodes) :
    ∀ part ∈ scannedInAll [] nodes, part.expression.Bounded text := by
  obtain ⟨template,present,built⟩ := Option.bind_eq_some_iff.mp tree
  obtain ⟨span,tag,children,endTag,member,rfl | rfl⟩ := exists_nodesOf_of_tree split present built
  · simp [scannedInAll]
  · rw [passed] at member
    cases Markup.jointed_read text _ member with
    | element _ _ below =>
      exact bounded_nodesOf text [] _ _ _ (Markup.opened_renestWithin _ _ children below)

end

def Descriptor.blocks (descriptor : Descriptor) : List Block :=
  (descriptor.template.map TemplateBlock.block).toList ++ descriptor.script.toList ++
    descriptor.scriptSetup.toList ++ descriptor.styles ++ descriptor.customBlocks

/-- A block that is what stands between the tags of some element. -/
def Block.Built (text : List Char) (block : Block) : Prop :=
  ∃ type span tag endTag, block = blockOf text type span tag endTag

theorem Block.Built.anchored {text : List Char} {block : Block} (built : block.Built text) :
    StandsAt text block.content block.start ∧ block.stop = block.start + block.content.length := by
  obtain ⟨type,span,tag,endTag,rfl⟩ := built
  exact ⟨standsAt_sliceBytes text _,rfl⟩

/-- The blocks that a node may add. -/
def blocksIn (text : List Char) (node : Markup.Node) : List Block :=
  ((templateIn? text node).map TemplateBlock.block).toList ++ (scriptBlock? text node).toList ++
    (styleIn? text node).toList ++ (customIn? text node).toList

theorem built_blocksIn (text : List Char) (node : Markup.Node) :
    ∀ block ∈ blocksIn text node, block.Built text := by
  have added (type span tag endTag) : (blockOf text type span tag endTag).Built text :=
    ⟨type,span,tag,endTag,rfl⟩
  unfold blocksIn
  cases node with
  | raw kind span tag endTag => cases kind <;> exact List.forall_mem_singleton.mpr (added _ _ _ _)
  | element span tag children endTag =>
    simp only [templateIn?,scriptBlock?,styleIn?,customIn?]
    split <;> split <;> simp_all [templateOf]
  | comment _ => exact List.forall_mem_nil _
  | strayEnd _ _ => exact List.forall_mem_nil _

theorem built_addNode (text : List Char) (found : Descriptor × List Diagnostic) (node : Markup.Node)
    (built : ∀ block ∈ found.1.blocks, block.Built text) :
    ∀ block ∈ (addNode text found node).1.blocks, block.Built text := by
  have added := built_blocksIn text node
  rw [addNode_eq]
  intro block member
  have known : block ∈ found.1.blocks ∨ block ∈ blocksIn text node := by
    simp only [Descriptor.blocks,Descriptor.extend,blocksIn,scriptIn?,List.mem_append,Option.mem_toList,
      Option.map_eq_some_iff,Option.or_eq_some_iff,Option.filter_eq_some_iff] at member ⊢
    grind
  exact known.elim (built block) (added block)

theorem built_foldl (text : List Char) (nodes : List Markup.Node)
    (found : Descriptor × List Diagnostic) (built : ∀ block ∈ found.1.blocks, block.Built text) :
    ∀ block ∈ (nodes.foldl (addNode text) found).1.blocks, block.Built text := by
  induction nodes generalizing found with
  | nil => exact built
  | cons node rest ih => exact ih _ (built_addNode text found node built)

section

variable [Recovery]

theorem built_parse {filename : String} {text : List Char} {parsed : Parsed}
    (split : parse filename text = .ok parsed) :
    ∀ block ∈ parsed.descriptor.blocks, block.Built text := by
  rw [descriptor_parse split]
  exact built_foldl text _ (Descriptor.empty filename,[]) (List.forall_mem_nil _)

/-- All blocks of a component, and all texts and expressions anywhere in its template, stand in the
file at their offsets. -/
theorem blocks_and_parts_stand_in_the_text (filename : String) (text : List Char) (parsed : Parsed)
    (split : parse filename text = .ok parsed) :
    (∀ block ∈ parsed.descriptor.blocks,
      StandsAt text block.content block.start ∧ block.stop = block.start + block.content.length) ∧
    ∀ template tree, parsed.descriptor.template = some template → template.tree = some tree →
      ∀ around node, Within tree around node → ∀ part ∈ node.parts, StandsAt text part.1 part.2 := by
  constructor
  · intro block member
    exact (built_parse split block member).anchored
  · intro template tree present built around node place
    have anchored := anchored_parse split template present tree built
    exact (anchored.within place).parts

end

/-- White space is cut off, brackets and parentheses are left out, and the offsets count code
points. -/
theorem accented_parts_stand_in_the_text :
    let text := ("<!--é--><template>ü\x7b\x7b  ö \x7d\x7d<p :[k].x='b' v-for='(v, i) in vs'/></template>" ++
      "<style>ä</style>").toList
    ∃ parsed template tree, parse "a.vue" text = .ok parsed ∧
      parsed.descriptor.template = some template ∧ template.tree = some tree ∧
      parsed.descriptor.blocks.map (fun block => (block.start,block.stop)) = [(18,63),(81,82)] ∧
      tree.map Node.parts = [[("ü".toList,18)],[("ö".toList,23)],
        [("k".toList,32),("b".toList,38),("(v, i) in vs".toList,48),("v".toList,49),("i".toList,52),
          ("vs".toList,58)]] ∧
      (∀ block ∈ parsed.descriptor.blocks,
        StandsAt text block.content block.start ∧ block.stop = block.start + block.content.length) ∧
      ∀ node ∈ tree, ∀ part ∈ node.parts, StandsAt text part.1 part.2 := by
  rw [String.toList_append,String.toList_ofList,String.toList_ofList]
  intro text
  have viewed : ((parse "a.vue" text).toOption.bind fun parsed =>
      parsed.descriptor.template.bind fun template => template.tree.map fun tree =>
        (parsed.descriptor.blocks.map fun block => (block.start,block.stop),tree.map Node.parts)) =
      some ([(18,63),(81,82)],[[("ü".toList,18)],[("ö".toList,23)],
        [("k".toList,32),("b".toList,38),("(v, i) in vs".toList,48),("v".toList,49),("i".toList,52),
          ("vs".toList,58)]]) := by
    decide +kernel
  obtain ⟨parsed,succeeded,seen⟩ := Option.bind_eq_some_iff.mp viewed
  obtain ⟨template,present,seen⟩ := Option.bind_eq_some_iff.mp seen
  obtain ⟨tree,built,shown⟩ := Option.map_eq_some_iff.mp seen
  have split := eq_ok_of_toOption succeeded
  obtain ⟨blocks,parts⟩ := blocks_and_parts_stand_in_the_text "a.vue" text parsed split
  refine ⟨parsed,template,tree,split,present,built,congrArg Prod.fst shown,congrArg Prod.snd shown,
    blocks,?_⟩
  intro node member
  exact parts template tree present built [] node (.top member)

end VueScope.Component
