import VueScope.Component.Descriptor

/-! What one top-level node adds to a component. The first block of a sole kind stays and a further one is
reported, and styles and custom blocks go behind the others. -/
namespace VueScope.Component

open Text Template

/-- The blocks of which a component has one at most. -/
inductive SoleKind where
  | template
  | script (setup : Bool)
deriving DecidableEq

def SoleKind.duplicate : SoleKind → Nat → Diagnostic
  | template => .duplicateTemplate
  | script true => .duplicateScriptSetup
  | script false => .duplicateScript

def templateIn? (text : List Char) : Markup.Node → Option TemplateBlock
  | .element span tag children endTag =>
    if tag.name = "template".toList then some (templateOf text span tag children endTag) else none
  | .raw _ _ _ _ => none
  | .comment _ => none
  | .strayEnd _ _ => none

def scriptBlock? (text : List Char) : Markup.Node → Option Block
  | .raw .script span tag endTag => some (blockOf text "script" span tag (some endTag))
  | .raw .style _ _ _ => none
  | .element _ _ _ _ => none
  | .comment _ => none
  | .strayEnd _ _ => none

def scriptIn? (text : List Char) (setup : Bool) (node : Markup.Node) : Option Block :=
  (scriptBlock? text node).filter fun block => block.setup = setup

def styleIn? (text : List Char) : Markup.Node → Option Block
  | .raw .style span tag endTag => some (blockOf text "style" span tag (some endTag))
  | .raw .script _ _ _ => none
  | .element _ _ _ _ => none
  | .comment _ => none
  | .strayEnd _ _ => none

/-- The custom block that a top-level node is: an element of any name but a template's. -/
def customIn? (text : List Char) : Markup.Node → Option Block
  | .element span tag _ endTag =>
    if tag.name = "template".toList || tag.name.isEmpty then none
    else some (blockOf text (String.ofList tag.name) span tag endTag)
  | .raw _ _ _ _ => none
  | .comment _ => none
  | .strayEnd _ _ => none

def soleKind? (text : List Char) (node : Markup.Node) : Option SoleKind :=
  ((templateIn? text node).map fun _ => SoleKind.template).or
    ((scriptBlock? text node).map fun block => .script block.setup)

def isBlock : Markup.Node → Bool
  | .element _ tag _ _ => !tag.name.isEmpty
  | .raw _ _ _ _ => true
  | .comment _ => false
  | .strayEnd _ _ => false

def loopFaults (text : List Char) (node : Markup.Node) : List Diagnostic :=
  (badLoopsAll (((templateIn? text node).bind TemplateBlock.tree).getD [])).map .invalidLoop

/-- What is wrong with a node: that a block of its kind is taken already, or else its loops. -/
def faultsAt (text : List Char) (taken : SoleKind → Bool) (node : Markup.Node) : List Diagnostic :=
  match soleKind? text node with
  | none => []
  | some kind =>
    if taken kind then [kind.duplicate (charOffset text node.span.start)] else loopFaults text node

namespace Descriptor

def holds (descriptor : Descriptor) : SoleKind → Bool
  | .template => descriptor.template.isSome
  | .script true => descriptor.scriptSetup.isSome
  | .script false => descriptor.script.isSome

def extend (text : List Char) (before : Descriptor) (node : Markup.Node) : Descriptor where
  filename := before.filename
  template := before.template.or (templateIn? text node)
  script := before.script.or (scriptIn? text false node)
  scriptSetup := before.scriptSetup.or (scriptIn? text true node)
  styles := before.styles ++ (styleIn? text node).toList
  customBlocks := before.customBlocks ++ (customIn? text node).toList

end Descriptor

section

variable (text : List Char) (found : Descriptor × List Diagnostic) (span : Markup.Span)
  (tag : Markup.StartTag)

theorem addNode_script (endTag : Markup.Span) :
    let node := Markup.Node.raw .script span tag endTag
    addNode text found node = (found.1.extend text node,found.2 ++ faultsAt text found.1.holds node) := by
  obtain ⟨⟨filename,template,script,scriptSetup,styles,customBlocks⟩,faults⟩ := found
  simp only [addNode,faultsAt,soleKind?,Descriptor.extend,templateIn?,scriptIn?,scriptBlock?,styleIn?,
    customIn?,loopFaults,Option.filter,Option.map_none,Option.none_or,Option.map_some,Option.or_none,
    Option.toList_none,List.append_nil]
  generalize blockOf text "script" span tag (some endTag) = block
  obtain ⟨_,_,_,_,_,_,setup⟩ := block
  cases setup with
  | true => cases scriptSetup <;> simp [Descriptor.holds,SoleKind.duplicate,badLoopsAll]
  | false => cases script <;> simp [Descriptor.holds,SoleKind.duplicate,badLoopsAll]

theorem addNode_element (children : List Markup.Node) (endTag : Option Markup.Span) :
    let node := Markup.Node.element span tag children endTag
    addNode text found node = (found.1.extend text node,found.2 ++ faultsAt text found.1.holds node) := by
  obtain ⟨⟨filename,template,script,scriptSetup,styles,customBlocks⟩,faults⟩ := found
  simp only [addNode,faultsAt,soleKind?,Descriptor.extend,templateIn?,scriptIn?,scriptBlock?,styleIn?,
    customIn?,loopFaults,Option.filter_none,Option.map_none,Option.or_none,Option.toList_none,
    List.append_nil]
  by_cases named : tag.name = "template".toList
  · simp only [if_pos named,decide_eq_true named,Bool.true_or,if_true,Option.map_some,Option.toList_none,
      List.append_nil,Descriptor.holds]
    cases template <;> rfl
  · simp only [if_neg named,decide_eq_false named,Bool.false_or,Option.map_none,Option.or_none,
      List.append_nil]
    cases tag.name.isEmpty <;> simp

end

theorem addNode_eq (text : List Char) (found : Descriptor × List Diagnostic) (node : Markup.Node) :
    addNode text found node = (found.1.extend text node,found.2 ++ faultsAt text found.1.holds node) := by
  cases node with
  | raw kind span tag endTag =>
    cases kind with
    | script => exact addNode_script text found span tag endTag
    | style =>
      simp only [addNode,faultsAt,soleKind?,Descriptor.extend,templateIn?,scriptIn?,scriptBlock?,styleIn?,
        customIn?,Option.filter_none,Option.map_none,Option.or_none,Option.toList_some,Option.toList_none,
        List.append_nil]
  | element span tag children endTag => exact addNode_element text found span tag children endTag
  | comment _
  | strayEnd _ _ =>
    simp only [addNode,faultsAt,soleKind?,Descriptor.extend,templateIn?,scriptIn?,scriptBlock?,styleIn?,
      customIn?,Option.filter_none,Option.map_none,Option.or_none,Option.toList_none,List.append_nil]

theorem hasBlocks_extend (text : List Char) (before : Descriptor) (node : Markup.Node) :
    (before.extend text node).hasBlocks = (before.hasBlocks || isBlock node) := by
  simp only [Descriptor.hasBlocks,Descriptor.extend,Option.isSome_or]
  cases node with
  | raw kind span tag endTag =>
    cases kind with
    | script =>
      cases setup : (blockOf text "script" span tag (some endTag)).setup <;>
        simp [scriptIn?,scriptBlock?,Option.filter,setup,isBlock]
    | style => simp [styleIn?,isBlock]
  | element span tag children endTag =>
    by_cases named : tag.name = "template".toList
    · simp [templateIn?,named,isBlock]
    · simp only [templateIn?,scriptIn?,scriptBlock?,styleIn?,customIn?,isBlock,if_neg named,
        decide_eq_false named]
      cases tag.name.isEmpty <;> simp
  | comment _
  | strayEnd _ _ => simp [templateIn?,scriptIn?,scriptBlock?,styleIn?,customIn?,isBlock]

theorem faultsAt_of_not_isBlock (text : List Char) (taken : SoleKind → Bool) (node : Markup.Node)
    (other : isBlock node = false) : faultsAt text taken node = [] := by
  cases node with
  | element span tag children endTag =>
    have unnamed : tag.name ≠ "template".toList := by
      intro same
      rw [isBlock,same] at other
      contradiction
    simp only [faultsAt,soleKind?,templateIn?,scriptBlock?,if_neg unnamed,Option.map_none,Option.or_none]
  | raw => contradiction
  | comment => rfl
  | strayEnd => rfl

theorem unchanged_of_no_blocks (text : List Char) (found : Descriptor × List Diagnostic)
    (node : Markup.Node) (none : (addNode text found node).1.hasBlocks = false) :
    found.1.hasBlocks = false ∧ (addNode text found node).2 = found.2 := by
  rw [addNode_eq] at none ⊢
  obtain ⟨before,other⟩ := Bool.or_eq_false_iff.mp ((hasBlocks_extend text found.1 node).symm.trans none)
  rw [faultsAt_of_not_isBlock text _ node other]
  exact ⟨before,List.append_nil _⟩

theorem diagnostics_of_no_blocks (text : List Char) (nodes : List Markup.Node)
    (found : Descriptor × List Diagnostic)
    (none : (nodes.foldl (addNode text) found).1.hasBlocks = false) :
    found.1.hasBlocks = false ∧ (nodes.foldl (addNode text) found).2 = found.2 := by
  induction nodes generalizing found with
  | nil => exact ⟨none,rfl⟩
  | cons node rest ih =>
    obtain ⟨before,later⟩ := ih (addNode text found node) none
    obtain ⟨first,same⟩ := unchanged_of_no_blocks text found node before
    exact ⟨first,later.trans same⟩

theorem assemble_eq (filename : String) (text : List Char) (reading : Markup.Reading) :
    assemble filename text reading =
      let found := reading.nodes.foldl (addNode text) (Descriptor.empty filename,[])
      if !reading.sound && !found.1.hasBlocks then .error (.noUsableBlock filename text)
      else .ok ⟨found.1,found.2,reading.sound⟩ := by
  unfold assemble
  dsimp only
  cases blocks : (reading.nodes.foldl (addNode text) (Descriptor.empty filename,[])).1.hasBlocks with
  | true => simp only [Bool.not_true,Bool.and_false]
  | false =>
    have quiet := (diagnostics_of_no_blocks text reading.nodes (Descriptor.empty filename,[]) blocks).2
    rw [quiet,List.isEmpty_nil,Bool.not_true,Bool.false_or]

end VueScope.Component
