import VueScope.Proofs.Component.Description
import VueScope.Proofs.Recovery
import VueScope.Proofs.Template.Shift

/-! A component behind a preamble has the blocks that it has without one, further behind. -/
namespace VueScope.Component

open Text

def Block.shift (amount : Nat) (block : Block) : Block :=
  { block with start := block.start + amount, stop := block.stop + amount }

def TemplateBlock.shift (amount : Nat) (template : TemplateBlock) : TemplateBlock :=
  ⟨template.block.shift amount,template.tree.map (Template.Node.shiftAll amount)⟩

def Descriptor.shift (amount : Nat) (descriptor : Descriptor) : Descriptor :=
  ⟨descriptor.filename,descriptor.template.map (TemplateBlock.shift amount),
    descriptor.script.map (Block.shift amount),descriptor.scriptSetup.map (Block.shift amount),
    descriptor.styles.map (Block.shift amount),descriptor.customBlocks.map (Block.shift amount)⟩

section Blocks

variable (lead text : List Char)

end Blocks

end VueScope.Component
