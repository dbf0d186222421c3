import Mathlib.Data.List.Basic
import Mathlib.Tactic.ByContra
import VueScope.SyntaxFault

/-! The two searches for faults in a syntax tree. One gives the first fault, the other the outermost ones.
Both leave out what claims no error, and where trees claim errors just if they hold one, that changes nothing. -/
namespace VueScope.FaultTree

def children : FaultTree → List FaultTree
  | node _ _ _ _ _ _ _ children => children

mutual

/-- The nodes of a tree in the order of the text, each with the nodes around it. -/
def lineages (around : List FaultTree) : FaultTree → List (List FaultTree × FaultTree)
  | tree@(node _ _ _ _ _ _ _ children) => (around,tree) :: lineagesIn (tree :: around) children

def lineagesIn (around : List FaultTree) : List FaultTree → List (List FaultTree × FaultTree)
  | [] => []
  | tree :: rest => lineages around tree ++ lineagesIn around rest

end

def nodes (tree : FaultTree) : List FaultTree :=
  (tree.lineages []).map Prod.snd

def IsOutermost (place : List FaultTree × FaultTree) : Prop :=
  place.2.isFault = true ∧ ∀ outer ∈ place.1, outer.isFault = false

instance (place : List FaultTree × FaultTree) : Decidable (IsOutermost place) := by
  unfold IsOutermost
  infer_instance

/-- The faults that stand in no other fault, in the order of the text. -/
def outerFaults (tree : FaultTree) : List FaultTree :=
  ((tree.lineages []).filter (IsOutermost ·)).map Prod.snd

/-- Every node claims an error just if it is a fault or one of its children claims an error. -/
def Consistent (tree : FaultTree) : Prop :=
  ∀ inner ∈ tree.nodes, inner.hasError = true ↔
    inner.isFault = true ∨ ∃ child ∈ inner.children, child.hasError = true

instance (tree : FaultTree) : Decidable tree.Consistent := by
  unfold Consistent
  infer_instance

/-- What is reported about a fault of the markup. -/
def report (text : List Char) (fault : FaultTree) : String × Nat :=
  (if fault.isUnexpected then "Invalid markup" else "Missing '" ++ fault.type ++ "'",
    Text.charOffset text fault.start)

theorem findSome?_congr {α β : Type} {items : List α} {choose choose' : α → Option β}
    (same : ∀ item ∈ items, choose item = choose' item) : items.findSome? choose = items.findSome? choose' := by
  induction items with
  | nil => rfl
  | cons item rest ih =>
    rw [List.findSome?_cons,List.findSome?_cons,same item List.mem_cons_self,
      ih fun item inside => same item (List.mem_cons_of_mem _ inside)]

theorem byChildren {motive : FaultTree → Prop}
    (step : ∀ tree, (∀ child ∈ tree.children, motive child) → motive tree) (tree : FaultTree) : motive tree :=
  step tree fun child _ => byChildren step child
termination_by sizeOf tree
decreasing_by
  rename_i inside
  cases tree
  have smaller := List.sizeOf_lt_of_mem inside
  simp only [children,node.sizeOf_spec] at smaller ⊢
  omega

theorem lineages_eq (around : List FaultTree) (tree : FaultTree) :
    tree.lineages around = (around,tree) :: tree.children.flatMap (lineages (tree :: around)) := by
  have all (around trees : List FaultTree) : lineagesIn around trees = trees.flatMap (lineages around) := by
    induction trees with
    | nil => rfl
    | cons tree rest ih => rw [lineagesIn,ih,List.flatMap_cons]
  cases tree
  rw [lineages,all]
  rfl

theorem first?_eq (tree : FaultTree) : tree.first? =
    if !tree.hasError then none
    else if tree.isFault then some tree else some ((tree.children.findSome? first?).getD tree) := by
  have all (trees : List FaultTree) : firstIn? trees = trees.findSome? first? := by
    induction trees with
    | nil => rfl
    | cons tree rest ih =>
      rw [firstIn?,List.findSome?_cons,ih]
      cases first? tree <;> rfl
  cases tree
  rw [first?,all]
  rfl

theorem outermost_eq (tree : FaultTree) : tree.outermost =
    if !tree.hasError then []
    else if tree.isFault then [tree] else tree.children.flatMap outermost := by
  have all (trees : List FaultTree) : outermostIn trees = trees.flatMap outermost := by
    induction trees with
    | nil => rfl
    | cons tree rest ih => rw [outermostIn,ih,List.flatMap_cons]
  cases tree
  rw [outermost,all]
  rfl

theorem map_snd_lineages (around : List FaultTree) (tree : FaultTree) :
    (tree.lineages around).map Prod.snd = tree.nodes := by
  induction tree using byChildren generalizing around with
  | step tree ih =>
    rw [nodes,lineages_eq,lineages_eq [],List.map_cons,List.map_cons,List.map_flatMap,List.map_flatMap]
    congr 1
    apply List.flatMap_congr
    intro child inside
    rw [ih child inside,ih child inside]

theorem nodes_eq (tree : FaultTree) : tree.nodes = tree :: tree.children.flatMap nodes := by
  rw [nodes,lineages_eq,List.map_cons,List.map_flatMap]
  congr 1
  exact List.flatMap_congr fun child _ => map_snd_lineages _ child

variable {around : List FaultTree}

theorem subset_of_mem_lineages {tree : FaultTree} {place : List FaultTree × FaultTree}
    (inside : place ∈ tree.lineages around) : around ⊆ place.1 := by
  induction tree using byChildren generalizing around with
  | step tree ih =>
    rw [lineages_eq] at inside
    rcases List.mem_cons.mp inside with rfl | deeper
    · exact List.Subset.refl _
    · obtain ⟨child,below,among⟩ := List.mem_flatMap.mp deeper
      exact List.Subset.trans (List.subset_cons_self _ _) (ih child below among)

theorem first?_eq_none_iff (tree : FaultTree) : tree.first? = none ↔ tree.hasError = false := by
  rw [first?_eq]
  split
  next silent => exact iff_of_true rfl (by simpa using silent)
  next loud =>
    refine iff_of_false ?_ (by simpa using loud)
    split <;> exact Option.some_ne_none _

namespace Consistent

variable {tree : FaultTree} (consistent : tree.Consistent)
include consistent

theorem hasError_iff : tree.hasError = true ↔
    tree.isFault = true ∨ ∃ child ∈ tree.children, child.hasError = true :=
  consistent tree (by rw [nodes_eq]; exact List.mem_cons_self)

theorem child {child : FaultTree} (inside : child ∈ tree.children) : child.Consistent := by
  intro inner below
  apply consistent
  rw [nodes_eq]
  exact List.mem_cons_of_mem _ (List.mem_flatMap.mpr ⟨child,inside,below⟩)

theorem isFault_eq_false (silent : tree.hasError = false) {inner : FaultTree} (below : inner ∈ tree.nodes) :
    inner.isFault = false := by
  induction tree using byChildren with
  | step tree ih =>
    have nowhere := mt consistent.hasError_iff.mpr (by simp [silent])
    rw [not_or,Bool.not_eq_true] at nowhere
    rw [nodes_eq] at below
    rcases List.mem_cons.mp below with rfl | deeper
    · exact nowhere.1
    · obtain ⟨child,inside,among⟩ := List.mem_flatMap.mp deeper
      have quiet : child.hasError = false := by
        by_contra loud
        exact nowhere.2 ⟨child,inside,by simpa using loud⟩
      exact ih child inside (consistent.child inside) quiet among

theorem exists_findSome? (loud : tree.hasError = true) (sound : tree.isFault = false) :
    ∃ found, tree.children.findSome? first? = some found := by
  obtain fault | ⟨child,inside,claims⟩ := consistent.hasError_iff.mp loud
  · simp [sound] at fault
  · apply Option.ne_none_iff_exists'.mp
    intro none
    have quiet := (first?_eq_none_iff child).mp (List.findSome?_eq_none_iff.mp none child inside)
    simp [claims] at quiet

theorem first?_eq_find? : tree.first? = tree.nodes.find? isFault := by
  induction tree using byChildren with
  | step tree ih =>
    rw [first?_eq]
    split
    next silent =>
      symm
      rw [List.find?_eq_none]
      intro inner below
      simp [consistent.isFault_eq_false (by simpa using silent) below]
    next loud =>
      rw [nodes_eq,List.find?_cons,List.find?_flatMap]
      split
      next fault => rw [fault]
      next sound =>
        have sound : tree.isFault = false := by simpa using sound
        have same : tree.children.findSome? (fun child => child.nodes.find? isFault) =
            tree.children.findSome? first? :=
          findSome?_congr fun child inside => (ih child inside (consistent.child inside)).symm
        obtain ⟨found,some⟩ := consistent.exists_findSome? (by simpa using loud) sound
        rw [sound,same,some]
        rfl

theorem first?_eq_head? : tree.first? = tree.outermost.head? := by
  induction tree using byChildren with
  | step tree ih =>
    rw [first?_eq,outermost_eq]
    split
    · rfl
    next loud =>
      split
      · rfl
      next sound =>
        have same : tree.children.findSome? (fun child => child.outermost.head?) =
            tree.children.findSome? first? :=
          findSome?_congr fun child inside => (ih child inside (consistent.child inside)).symm
        obtain ⟨found,some⟩ := consistent.exists_findSome? (by simpa using loud) (by simpa using sound)
        rw [List.head?_flatMap,same,some]
        rfl

theorem outermost_eq_map (clear : ∀ outer ∈ around, outer.isFault = false) :
    tree.outermost = ((tree.lineages around).filter (IsOutermost ·)).map Prod.snd := by
  induction tree using byChildren generalizing around with
  | step tree ih =>
    rw [outermost_eq]
    split
    next silent =>
      symm
      rw [List.map_eq_nil_iff,List.filter_eq_nil_iff]
      intro place inside
      have below : place.2 ∈ tree.nodes := map_snd_lineages around tree ▸ List.mem_map_of_mem inside
      simp [IsOutermost,consistent.isFault_eq_false (by simpa using silent) below]
    next =>
      rw [lineages_eq]
      split
      next fault =>
        -- nothing that stands in a fault is outermost
        have none : (tree.children.flatMap (lineages (tree :: around))).filter (IsOutermost ·) = [] := by
          rw [List.filter_eq_nil_iff]
          intro place deeper
          obtain ⟨child,_,among⟩ := List.mem_flatMap.mp deeper
          have outer := subset_of_mem_lineages among List.mem_cons_self
          intro alone
          rw [(of_decide_eq_true alone).2 tree outer] at fault
          contradiction
        have kept : IsOutermost (around,tree) := ⟨fault,clear⟩
        rw [List.filter_cons_of_pos (by simpa using kept),none]
        rfl
      next sound =>
        have sound : tree.isFault = false := by simpa using sound
        rw [List.filter_cons_of_neg (by simp [IsOutermost,sound]),List.filter_flatMap,List.map_flatMap]
        apply List.flatMap_congr
        intro child inside
        exact ih child inside (consistent.child inside) (List.forall_mem_cons.mpr ⟨sound,clear⟩)

end Consistent

/-- The two searches for faults agree. Where trees claim errors just if they hold one, the faults reported
for markup are the outermost ones in the order of the text, the first fault is the first one in that order,
and it is the first that is reported. In any tree there is a first fault just if the tree claims an error. -/
theorem fault_searches_agree (tree : FaultTree) :
    (tree.Consistent → ∀ text,
      tree.markupFaults text = tree.outerFaults.map (report text) ∧
      tree.first? = tree.nodes.find? isFault ∧
      (tree.first? = none ↔ tree.markupFaults text = []) ∧
      ∀ found, tree.first? = some found → (tree.markupFaults text).head? = some (report text found)) ∧
    (tree.first? = none ↔ tree.hasError = false) := by
  refine ⟨fun consistent text => ?_,first?_eq_none_iff tree⟩
  have reported : tree.markupFaults text = tree.outermost.map (report text) := rfl
  have collected : tree.outermost = tree.outerFaults := consistent.outermost_eq_map (List.forall_mem_nil _)
  refine ⟨by rw [reported,collected],consistent.first?_eq_find?,?_,?_⟩
  · rw [consistent.first?_eq_head?,List.head?_eq_none_iff,reported,List.map_eq_nil_iff]
  · intro found first
    rw [reported,List.head?_map,← consistent.first?_eq_head?,first]
    rfl

/-- An error with a missing token inside it is reported once, and before a missing token after it. -/
theorem nested_fault_is_reported_once :
    let missing : FaultTree := node ">" true true 4 4 0 4 []
    let tree := node "document" true false 0 9 0 0
      [node "text" false false 0 1 0 0 [],node "ERROR" true false 2 5 0 2 [missing],
        node "element" true false 6 9 0 6 [missing]]
    tree.Consistent ∧ tree.markupFaults "a <b <c d".toList = [("Invalid markup",2),("Missing '>'",4)] ∧
      tree.outerFaults.length = 2 ∧ tree.first? = some (node "ERROR" true false 2 5 0 2 [missing]) := by
  intro missing tree
  have consistent : tree.Consistent := by decide
  obtain ⟨agree,_⟩ := fault_searches_agree tree
  obtain ⟨reported,first,_⟩ := agree consistent "a <b <c d".toList
  exact ⟨consistent,reported.trans (by decide),rfl,first.trans rfl⟩

end VueScope.FaultTree
