import VueScope.Proofs.Script.Parts
import VueScope.Proofs.Script.ValueSeams

/-! The layout of a script's tree. Only constructs have parts, and no more of a sort than their kind
allows. -/
namespace VueScope.Script

/-- Kinds that nothing can be below of. -/
def Kind.isBare (kind : Kind) : Bool :=
  !kind.isNamed || kind.isComment || kind.isAtom

namespace Node

def counts (counted : Counted) (part : Node) : Bool :=
  part.kind ≠ .comment && counted part.kind part.field

/-- A node that has parts is a construct, and keeps the limits of its kind. -/
structure LaidOut (node : Node) : Prop where
  construct : node.children ≠ [] →
    node.kind.isNamed = true ∧ node.kind ≠ .comment ∧ node.kind.isName = false
  free : node.kind = .comment → node.field = none
  atom : node.kind.isAtom = true → node.children = []
  limits : ∀ limit ∈ node.kind.limits, node.children.countP (counts limit.1) ≤ limit.2

variable {node part : Node} {counted : Counted}

theorem isBare_of_not_counts (few : part.counts .solid = false) : part.kind.isBare = true := by
  rw [counts] at few
  generalize part.kind = kind at few ⊢
  cases kind <;> first
    | rfl
    | contradiction

namespace LaidOut

theorem children_eq_nil (laid : part.LaidOut) (bare : part.kind.isBare = true) : part.children = [] := by
  by_contra filled
  obtain ⟨named,solid,_⟩ := laid.construct filled
  have divisible : part.kind.isAtom = false := Bool.eq_false_iff.mpr fun atom => filled (laid.atom atom)
  rw [Kind.isBare,named,divisible] at bare
  revert solid bare
  cases part.kind <;> decide

theorem eq_of_isBare (laid : part.LaidOut) (bare : part.kind.isBare = true) {inner : Node}
    (among : inner ∈ part.preorder) : inner = part := by
  rcases (mem_preorder_iff _ _).mp among with rfl | ⟨_,inside,_⟩
  · rfl
  · rw [laid.children_eq_nil bare] at inside
    contradiction

theorem not_counts (laid : node.LaidOut) (limit : (counted,0) ∈ node.kind.limits)
    (inside : part ∈ node.children) : part.counts counted = false := by
  have none := laid.limits _ limit
  rw [Nat.le_zero,List.countP_eq_zero] at none
  exact Bool.eq_false_iff.mpr (none part inside)

theorem filter_eq (laid : node.LaidOut) (limit : (counted,1) ∈ node.kind.limits) (test : Node → Bool)
    (within : ∀ part ∈ node.children, test part = true → part.counts counted = true) :
    node.children.filter test = (node.children.find? test).toList := by
  have few := (List.countP_mono_left within).trans (laid.limits _ limit)
  rw [List.countP_eq_length_filter] at few
  rw [← List.head?_filter]
  generalize node.children.filter test = found at few ⊢
  cases found with
  | nil => rfl
  | cons first rest =>
    cases rest with
    | nil => rfl
    | cons => simp at few

end LaidOut

end Node

namespace Shape

theorem countP_locateAll (counted : Counted) (start : Nat) (text : List Char) (shapes : List Shape) :
    (locateAll start text shapes).countP (Node.counts counted) = shapes.countP (counts counted) := by
  induction shapes generalizing start text with
  | nil => rfl
  | cons shape later ih =>
    rw [locateAll,List.countP_append,ih,List.countP_cons,Nat.add_comm]
    congr 1
    cases shape <;> simp [locate?,counts,Node.counts,kind?,role?]

theorem Built.laidOut {shape : Shape} (built : shape.Built) {start : Nat} {text : List Char} {found : Node}
    (located : locate? start text shape = some found) : ∀ node ∈ found.preorder, node.LaidOut := by
  induction built generalizing start text found with
  | blank => contradiction
  | leaf free =>
    cases located
    intro node among
    rcases (Node.mem_preorder_iff _ _).mp among with rfl | ⟨part,inside,_⟩
    · exact ⟨fun filled => absurd rfl filled,free,fun _ => rfl,fun _ _ => Nat.zero_le _⟩
    · contradiction
  | @node kind role children composed below ih =>
    cases located
    intro node among
    rcases (Node.mem_preorder_iff _ _).mp among with rfl | ⟨part,inside,deeper⟩
    · exact ⟨fun _ => ⟨composed.named,composed.solid,composed.noName⟩,
        fun comment => absurd comment composed.solid,
        fun atom => absurd atom (Bool.eq_false_iff.mp composed.divisible),fun limit member =>
          (countP_locateAll limit.1 _ _ _).trans_le (composed.limits limit member)⟩
    · obtain ⟨_,shape,_,rfl,placed⟩ := exists_of_mem_locateAll inside
      exact ih shape (by simp) placed node deeper

end Shape

theorem laidOut_of_parse? {dialect : Dialect} {source : List Char} {root : Node}
    (parsed : parse? dialect source = some root) : ∀ node ∈ root.preorder, node.LaidOut := by
  unfold parse? at parsed
  split at parsed
  next ran =>
    have built := (Edged.taken rfl [] ran).built
    exact (Shape.Built.node (Shape.settled_of_not_isSpecial rfl _).toComposed built).laidOut parsed
  · contradiction

end VueScope.Script
