import VueScope.Markup.Reader
import VueScope.Markup.Renest

/-! Reading markup further behind. The reader looks at what follows a place and not at the bytes
before it, so the same characters read from a later offset give the same nodes, further behind. -/
namespace VueScope.Markup

open Text

def Span.shift (amount : Nat) (span : Span) : Span :=
  ⟨span.start + amount,span.stop + amount⟩

def Attribute.shift (amount : Nat) (attr : Attribute) : Attribute :=
  ⟨attr.name.shift amount,attr.value.map (Span.shift amount)⟩

def StartTag.shift (amount : Nat) (tag : StartTag) : StartTag :=
  ⟨tag.span.shift amount,tag.name,tag.attributes.map (Attribute.shift amount),tag.selfClosing⟩

namespace Node

mutual

def shift (amount : Nat) : Node → Node
  | element span tag children endTag =>
    element (span.shift amount) (tag.shift amount) (shiftAll amount children)
      (endTag.map (Span.shift amount))
  | raw kind span tag endTag => raw kind (span.shift amount) (tag.shift amount) (endTag.shift amount)
  | comment span => comment (span.shift amount)
  | strayEnd span name => strayEnd (span.shift amount) name

def shiftAll (amount : Nat) : List Node → List Node
  | [] => []
  | node :: rest => shift amount node :: shiftAll amount rest

end

theorem shiftAll_append (amount : Nat) (first second : List Node) :
    shiftAll amount (first ++ second) = shiftAll amount first ++ shiftAll amount second := by
  induction first with
  | nil => rfl
  | cons node rest ih => rw [List.cons_append,shiftAll,shiftAll,ih,List.cons_append]

theorem span_shift (amount : Nat) (node : Node) : (node.shift amount).span = node.span.shift amount := by
  cases node <;> rfl

mutual

theorem size_shift (amount : Nat) : (node : Node) → (node.shift amount).size = node.size
  | element _ _ children _ => by rw [shift,size,size,sizeAll_shift amount children]
  | raw _ _ _ _ => rfl
  | comment _ => rfl
  | strayEnd _ _ => rfl

theorem sizeAll_shift (amount : Nat) : (nodes : List Node) →
    sizeAll (shiftAll amount nodes) = sizeAll nodes
  | [] => rfl
  | node :: rest => by
    rw [shiftAll,sizeAll,sizeAll,size_shift amount node,sizeAll_shift amount rest]

end

end Node

namespace Cursor

def shift (amount : Nat) (cursor : Cursor) : Cursor :=
  ⟨cursor.offset + amount,cursor.rest⟩

variable (amount : Nat) (cursor : Cursor)

end Cursor

section Tags

variable (amount : Nat) (cursor : Cursor)

end Tags

def Move.shift (amount : Nat) : Move → Move
  | stop => stop
  | close after => close (after.shift amount)
  | skip next sound => skip (next.shift amount) sound
  | leaf node next => leaf (node.shift amount) (next.shift amount)
  | descend tag name after => descend (tag.shift amount) name (after.shift amount)

section Moves

variable (amount : Nat) (openTags : List TagName) (here : Cursor)

end Moves

def Content.shift (amount : Nat) (content : Content) : Content :=
  ⟨Node.shiftAll amount content.nodes,content.endTag.map (Span.shift amount),
    content.cursor.shift amount,content.sound⟩

section Nesting

variable (amount : Nat)

end Nesting

end VueScope.Markup
