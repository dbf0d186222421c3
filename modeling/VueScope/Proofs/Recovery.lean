import VueScope.Proofs.Markup.Layout
import VueScope.Proofs.Markup.Preamble
import VueScope.Proofs.Script.Located

/-! Parsers keep to some laws behind a syntax error too: a node holds the text it spans, nodes follow
each other inside their parents, and a preamble moves what is read behind it as a whole. -/
namespace VueScope.Script.Node

/-- The parts of every node of the tree follow each other inside the node. -/
def Ordered (root : Node) : Prop :=
  ∀ node ∈ root.preorder, (∀ part ∈ node.children, node.start ≤ part.start ∧ part.stop ≤ node.stop) ∧
    node.children.Pairwise fun first second => first.stop ≤ second.start

theorem Ordered.freeIdentifiers {node : Node} (ordered : node.Ordered) (bound : List String) :
    (∀ name ∈ node.freeIdentifiers bound, node.start ≤ name.start ∧ name.stop ≤ node.stop) ∧
      (node.freeIdentifiers bound).Pairwise fun first second => first.stop ≤ second.start := by
  induction node using byParts generalizing bound with
  | step node ih =>
    rw [freeIdentifiers_eq]
    split
    · split <;> simp
    · obtain ⟨inside,apart⟩ := ordered node (mem_preorder_self node)
      have among := node.valueParts_sublist
      have below (part : Node) (value : part ∈ node.valueParts) :=
        ih part (among.subset value)
          (fun other under => ordered other (preorder_subset node part (among.subset value) under))
          (node.localNames ++ bound)
      constructor
      · intro name member
        obtain ⟨part,value,free⟩ := List.mem_flatMap.mp member
        have outer := inside part (among.subset value)
        have inner := (below part value).1 name free
        omega
      · refine List.pairwise_flatMap.mpr
          ⟨fun part value => (below part value).2,(apart.sublist among).imp_of_mem ?_⟩
        intro first second here there before early inFirst late inSecond
        have left := (below first here).1 early inFirst
        have right := (below second there).1 late inSecond
        omega

end VueScope.Script.Node

namespace VueScope.Recovery

open Text

section Laws

variable [Recovery]

def HoldsText : Prop :=
  ∀ dialect text, ∀ node ∈ (Recovery.script dialect text).preorder,
    StandsAt text node.text node.start ∧ node.stop = node.start + node.text.length

structure InOrder : Prop where
  script : ∀ dialect text, (Recovery.script dialect text).Ordered
  markup : ∀ text nodes, Recovery.markup text = some nodes → ∃ stop, Markup.Laid 0 stop nodes

end Laws

/-- The word at the front of a text, as a node. -/
def leadingWord (text : List Char) : Script.Node :=
  let word := text.takeWhile isWordChar
  ⟨.identifier,none,0,word.length,word,[]⟩

/-- A recovery that keeps the word at the front of a script. -/
@[reducible] def leading : Recovery where
  script _ text :=
    ⟨.program,none,0,text.length,text,[leadingWord text].filter fun name => !name.text.isEmpty⟩
  markup _ := none

theorem mem_leading {dialect : Script.Dialect} {text : List Char} {node : Script.Node}
    (member : node ∈ (leading.script dialect text).preorder) :
    node = leading.script dialect text ∨ node = leadingWord text ∧ node.text ≠ [] := by
  refine ((Script.Node.mem_preorder_iff _ _).mp member).imp_right ?_
  rintro ⟨part,child,below⟩
  obtain ⟨only,filled⟩ := List.mem_filter.mp child
  obtain rfl := List.mem_singleton.mp only
  obtain rfl := List.mem_singleton.mp below
  rw [Bool.not_eq_true',List.isEmpty_eq_false_iff] at filled
  exact ⟨rfl,filled⟩

theorem holdsText_leading : @HoldsText leading := by
  intro dialect text node member
  rcases mem_leading member with rfl | ⟨rfl,_⟩
  · exact ⟨⟨[],[],(List.append_nil text).symm,rfl⟩,(Nat.zero_add _).symm⟩
  · exact ⟨⟨[],_,List.takeWhile_append_dropWhile.symm,rfl⟩,(Nat.zero_add _).symm⟩

theorem inOrder_leading : @InOrder leading := by
  refine @InOrder.mk leading (fun dialect text node member => ?_) fun _ _ found => by contradiction
  rcases mem_leading member with rfl | ⟨rfl,_⟩
  · refine ⟨fun part child => ?_,List.Pairwise.filter _ (List.pairwise_singleton _ (leadingWord text))⟩
    obtain rfl := List.mem_singleton.mp (List.mem_filter.mp child).1
    exact ⟨Nat.le_refl _,(List.takeWhile_prefix _).length_le⟩
  · exact ⟨List.forall_mem_nil _,.nil⟩

end VueScope.Recovery

namespace VueScope.Markup

open Text

variable [Recovery]

/-- The faults of a file, if it has any, are only passed over. -/
def PassesFaults (text : List Char) : Prop :=
  readFile (mask text) = read (mask text)

theorem passesFaults_of_none {text : List Char} (none : Recovery.markup (mask text) = none) :
    PassesFaults text := by
  unfold PassesFaults readFile
  rw [none]
  exact ite_self _

theorem laid_readFile (ordered : Recovery.InOrder) (text : List Char) :
    ∃ stop, Laid 0 stop (readFile text).nodes := by
  unfold readFile
  dsimp only
  split
  · exact laid_read text
  · split
    next nodes recovered => exact ordered.markup text nodes recovered
    · exact laid_read text

end VueScope.Markup
