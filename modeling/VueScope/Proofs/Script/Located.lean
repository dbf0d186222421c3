import VueScope.Proofs.Script.Parts
import VueScope.Proofs.Script.StatementEdges

/-! Where the names of a script stand. A tree is located by adding up widths; since shapes
cover the text, every name of the tree is found in the source at the offset of its node, as a whole
word. No name is part of another, so walking down a tree gives its names in the order of the source. -/
namespace VueScope.Script

open Text

variable {field : Option Field}

namespace Node

/-- A node that is a name of the source, and stands where it says. -/
structure Names (source : List Char) (node : Node) : Prop where
  bounded : Bounded source node.text node.start
  stop_eq : node.stop = node.start + node.text.length
  isName : IsName node.text

theorem preorderAll_append (first second : List Node) :
    preorderAll (first ++ second) = preorderAll first ++ preorderAll second := by
  induction first with
  | nil => rfl
  | cons node rest ih => simp [preorderAll,ih]

def NamesApart (first second : Node) : Prop :=
  first.kind.isName = true → second.kind.isName = true → first.stop ≤ second.start

structure Located (source : List Char) (start stop : Nat) (nodes : List Node) : Prop where
  inside : ∀ node ∈ preorderAll nodes, start ≤ node.start ∧ node.stop ≤ stop
  names : ∀ node ∈ preorderAll nodes, node.kind.isName = true → node.Names source
  apart : (preorderAll nodes).Pairwise NamesApart

namespace Located

variable {source : List Char} {start middle stop : Nat}

theorem nil : Located source start stop [] :=
  ⟨List.forall_mem_nil _,List.forall_mem_nil _,.nil⟩

theorem append {first second : List Node} (left : Located source start middle first)
    (right : Located source middle stop second) (ordered : start ≤ middle ∧ middle ≤ stop) :
    Located source start stop (first ++ second) := by
  refine ⟨?_,?_,?_⟩ <;> rw [preorderAll_append]
  · refine List.forall_mem_append.mpr ⟨fun node early => ?_,fun node late => ?_⟩
    · exact ⟨(left.inside node early).1,(left.inside node early).2.trans ordered.2⟩
    · exact ⟨ordered.1.trans (right.inside node late).1,(right.inside node late).2⟩
  · exact List.forall_mem_append.mpr ⟨left.names,right.names⟩
  · refine List.pairwise_append.mpr ⟨left.apart,right.apart,fun node early other late _ _ => ?_⟩
    exact Nat.le_trans (left.inside node early).2 (right.inside other late).1

theorem construct {text : List Char} {kind : Kind} {children : List Node} (unnamed : kind.isName = false)
    (below : Located source start stop children) :
    Located source start stop [⟨kind,field,start,stop,text,children⟩] := by
  refine ⟨?_,?_,?_⟩ <;> simp only [preorderAll,preorder,List.append_nil]
  · exact List.forall_mem_cons.mpr ⟨⟨Nat.le_refl _,Nat.le_refl _⟩,below.inside⟩
  · exact List.forall_mem_cons.mpr ⟨fun named => absurd named (by simp [unnamed]),below.names⟩
  · exact List.pairwise_cons.mpr ⟨fun _ _ named => absurd named (by simp [unnamed]),below.apart⟩

theorem leaf {width : Nat} {kind : Kind} (named : kind.isName = true →
      WholeName (source.take start) (source.drop start) width) :
    Located source start (start + width)
      [⟨kind,field,start,start + width,(source.drop start).take width,[]⟩] := by
  refine ⟨?_,?_,?_⟩ <;> simp only [preorderAll,preorder,List.append_nil,List.forall_mem_singleton]
  · exact ⟨Nat.le_refl _,Nat.le_refl _⟩
  · intro isName
    obtain ⟨fits,name,front,back⟩ := named isName
    -- past the end of the source nothing is left to be a name
    have inside : start ≤ source.length := by
      by_contra outside
      have none : source.drop start = [] := List.drop_eq_nil_of_le (by omega)
      exact name.nonempty (by simp [none])
    refine ⟨⟨source.take start,(source.drop start).drop width,?_,?_,?_,back⟩,?_,name⟩
    · rw [List.append_assoc,List.take_append_drop,List.take_append_drop]
    · rw [List.length_take,Nat.min_eq_left inside]
    · rw [← List.take_append_drop width (source.drop start)] at front
      exact front.front
    · simp only [List.length_take,Nat.min_eq_left fits]
  · exact List.pairwise_singleton _ _

end Located

end Node

namespace Shape

open Node

mutual

theorem located_locate? (source : List Char) (start : Nat) : (shape : Shape) → shape.Built →
    Spaced (source.take start) (source.drop start) shape →
    Located source start (start + shape.width) (locate? start (source.drop start) shape).toList
  | blank _, _, _ => .nil
  | leaf _ _ _, _, spaced => .leaf spaced.1
  | node _ _ children, built, spaced => by
    cases built with
    | node composed below =>
      exact .construct composed.noName (located_locateAll source start children below spaced.2)

theorem located_locateAll (source : List Char) (start : Nat) : (shapes : List Shape) →
    (∀ shape ∈ shapes, shape.Built) → SpacedAll (source.take start) (source.drop start) shapes →
    Located source start (start + widthAll shapes) (locateAll start (source.drop start) shapes)
  | [], _, _ => .nil
  | shape :: later, built, spaced => by
    obtain ⟨own,others⟩ := List.forall_mem_cons.mp built
    have after := spaced.2
    rw [← List.take_add,List.drop_drop] at after
    rw [locateAll,List.drop_drop,widthAll,← Nat.add_assoc]
    exact (located_locate? source start shape own spaced.1).append
      (located_locateAll source (start + shape.width) later others after) (by omega)

end

end Shape

variable {dialect : Dialect} {root : Node}

section

variable {source : List Char} (parsed : parse? dialect source = some root)
include parsed

theorem kind_of_parse? : root.kind = .program := by
  unfold parse? at parsed
  split at parsed
  · cases parsed
    rfl
  · contradiction

theorem located_of_parse? :
    Node.Located source root.start root.stop [root] := by
  unfold parse? at parsed
  split at parsed
  next shapes rest ran =>
    cases parsed
    have fits : Fits .any [] source shapes rest := Edged.taken rfl [] ran
    exact Shape.located_locate? source 0 (.node .program none shapes)
      (.node (Shape.settled_of_not_isSpecial rfl _).toComposed fits.built)
      ⟨by simp,fits.spaced fun _ => Seam.nil_left source⟩
  · contradiction

theorem names_of_parse? {node : Node}
    (member : node ∈ root.preorder)
    (named : node.kind.isName = true) : node.Names source :=
  (located_of_parse? parsed).names node (by simpa [Node.preorderAll] using member) named

theorem ne_empty_of_parse? {node : Node}
    (member : node ∈ root.preorder)
    (named : node.kind.isName = true) : node.name ≠ "" := by
  intro empty
  apply (names_of_parse? parsed member named).isName.nonempty
  rw [← String.toList_ofList (l := node.text)]
  exact congrArg String.toList empty

theorem namesApart_of_parse? : root.preorder.Pairwise Node.NamesApart := by
  simpa [Node.preorderAll] using (located_of_parse? parsed).apart

end

namespace Node

variable {node : Node}

/-- The names of a tree, in the order in which it is walked. -/
def names (node : Node) : List Node :=
  node.preorder.filter (·.kind.isName)

theorem singleton_sublist_names (isName : node.kind.isName = true) : [node].Sublist node.names :=
  List.singleton_sublist.mpr (List.mem_filter.mpr ⟨mem_preorder_self node,isName⟩)

theorem flatMap_sublist_names {collect : Node → List Node} {parts : List Node}
    (among : parts.Sublist node.children) (below : ∀ part ∈ parts, (collect part).Sublist part.names) :
    (parts.flatMap collect).Sublist node.names := by
  have own := (List.sublist_cons_self node (node.children.flatMap preorder)).filter (·.kind.isName)
  rw [List.filter_flatMap,← preorder_eq] at own
  exact ((List.Sublist.flatMap_right parts below).trans (among.flatMap names)).trans own

theorem freeIdentifiers_sublist (bound : List String) (node : Node) :
    (node.freeIdentifiers bound).Sublist node.names := by
  induction node using byParts generalizing bound with
  | step node ih =>
    rw [freeIdentifiers_eq]
    split
    next isName =>
      split
      · exact List.nil_sublist _
      · exact singleton_sublist_names (by rcases isName with kind | kind <;> rw [kind])
    next =>
      exact flatMap_sublist_names node.valueParts_sublist fun part inside =>
        ih part (node.valueParts_sublist.subset inside) _

theorem boundIdentifiers_sublist (node : Node) : node.boundIdentifiers.Sublist node.names := by
  induction node using byParts with
  | step node ih =>
    rw [boundIdentifiers_eq]
    split
    next isName => exact singleton_sublist_names (by rcases isName with kind | kind <;> rw [kind])
    next =>
      exact flatMap_sublist_names node.binderParts_sublist fun part inside =>
        ih part (node.binderParts_sublist.subset inside)

theorem mem_of_freeIdentifiers (bound : List String) (node found : Node)
    (member : found ∈ freeIdentifiers bound node) : found ∈ node.preorder ∧ found.kind.isName = true :=
  List.mem_filter.mp ((freeIdentifiers_sublist bound node).subset member)

end Node

end VueScope.Script
