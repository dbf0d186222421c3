import Mathlib.Data.List.Flatten
import Mathlib.Data.List.Forall2
import VueScope.Script.FreeIdentifiers

/-! Going through the parts of a node: induction over a tree, and the walks over lists of parts said
by what they pick. -/
namespace VueScope.Script

section Related

variable {α β γ : Type} {R : α → β → Prop} {items : List α} {items' : List β}

theorem map_eq_of_forall₂ {image : α → γ} {image' : β → γ}
    (same : ∀ item item', R item item' → image' item' = image item)
    (related : List.Forall₂ R items items') : items'.map image' = items.map image := by
  induction related with
  | nil => rfl
  | cons head _ ih => rw [List.map_cons,List.map_cons,same _ _ head,ih]

theorem filterMap_eq_of_forall₂ {choose : α → Option γ} {choose' : β → Option γ}
    (same : ∀ item item', R item item' → choose' item' = choose item)
    (related : List.Forall₂ R items items') : items'.filterMap choose' = items.filterMap choose := by
  induction related with
  | nil => rfl
  | cons head _ ih => rw [List.filterMap_cons,List.filterMap_cons,same _ _ head,ih]

theorem flatMap_eq_of_forall₂ {list : α → List γ} {list' : β → List γ}
    (same : ∀ item item', R item item' → list' item' = list item)
    (related : List.Forall₂ R items items') : items'.flatMap list' = items.flatMap list := by
  induction related with
  | nil => rfl
  | cons head _ ih => rw [List.flatMap_cons,List.flatMap_cons,same _ _ head,ih]

end Related

variable {node : Node}

namespace Node

theorem sizeOf_lt_of_mem_children {part : Node} (inside : part ∈ node.children) :
    sizeOf part < sizeOf node := by
  obtain ⟨kind,field,start,stop,text,children⟩ := node
  have smaller := List.sizeOf_lt_of_mem inside
  simp only [Node.mk.sizeOf_spec] at smaller ⊢
  omega

/-- What holds of a node whenever it holds of its parts holds of every node. -/
theorem byParts {motive : Node → Prop}
    (step : ∀ node, (∀ part ∈ node.children, motive part) → motive node) (node : Node) : motive node :=
  step node fun part _ => byParts step part
termination_by sizeOf node
decreasing_by exact sizeOf_lt_of_mem_children ‹_›

theorem mem_preorder_iff (node found : Node) :
    found ∈ node.preorder ↔ found = node ∨ ∃ part ∈ node.children, found ∈ part.preorder := by
  have below (nodes : List Node) :
      found ∈ preorderAll nodes ↔ ∃ part ∈ nodes, found ∈ part.preorder := by
    induction nodes with
    | nil => simp [preorderAll]
    | cons node rest ih => simp [preorderAll,ih]
  obtain ⟨kind,field,start,stop,text,children⟩ := node
  rw [preorder,List.mem_cons,below]

theorem preorder_eq (node : Node) : node.preorder = node :: node.children.flatMap preorder := by
  have all (nodes : List Node) : preorderAll nodes = nodes.flatMap preorder := by
    induction nodes with
    | nil => rfl
    | cons node rest ih => rw [preorderAll,ih,List.flatMap_cons]
  obtain ⟨kind,field,start,stop,text,children⟩ := node
  rw [preorder,all]

theorem mem_preorder_self (node : Node) : node ∈ node.preorder :=
  (mem_preorder_iff _ _).mpr (.inl rfl)

theorem preorder_subset (node part : Node) (inside : part ∈ node.children) : part.preorder ⊆ node.preorder :=
  fun _ below => (mem_preorder_iff _ _).mpr (.inr ⟨part,inside,below⟩)

theorem preorder_subset_of_named {part : Node} (inside : part ∈ node.namedChildren) :
    part.preorder ⊆ node.preorder :=
  preorder_subset node part (List.mem_filter.mp inside).1

theorem mem_preorder_trans {scope found : Node} (among : scope ∈ node.preorder)
    (around : found ∈ scope.preorder) : found ∈ node.preorder := by
  induction node using byParts with
  | step node ih =>
    rcases (mem_preorder_iff _ _).mp among with rfl | ⟨part,inside,below⟩
    · exact around
    · exact (mem_preorder_iff _ _).mpr (.inr ⟨part,inside,ih part inside below⟩)

theorem firstUnwrapped?_eq (nodes : List Node) :
    firstUnwrapped? nodes = ((nodes.filter fun part => part.kind.isNamed).head?).map unwrapped := by
  induction nodes with
  | nil => rfl
  | cons node rest ih =>
    rw [firstUnwrapped?,List.filter_cons]
    split
    next named => rfl
    next => exact ih

theorem unwrapped_eq (node : Node) :
    node.unwrapped =
      if node.kind.isTransparent then (node.namedChildren.head?.map unwrapped).getD node else node := by
  obtain ⟨kind,field,start,stop,text,children⟩ := node
  rw [unwrapped,firstUnwrapped?_eq]
  rfl

theorem unwrapped_of_not_isTransparent (bare : node.kind.isTransparent = false) :
    node.unwrapped = node := by
  rw [unwrapped_eq,bare]
  rfl

theorem unwrapped_unwrapped (node : Node) : node.unwrapped.unwrapped = node.unwrapped := by
  induction node using byParts with
  | step node ih =>
    by_cases transparent : node.kind.isTransparent = true
    · cases first : node.namedChildren.head? with
      | none => simp [unwrapped_eq node,transparent,first]
      | some part =>
        have inside := (List.mem_filter.mp (List.mem_of_mem_head? first)).1
        have same : node.unwrapped = part.unwrapped := by simp [unwrapped_eq node,transparent,first]
        rw [same,ih part inside]
    · rw [unwrapped_of_not_isTransparent (Bool.eq_false_iff.mpr transparent),
        unwrapped_of_not_isTransparent (Bool.eq_false_iff.mpr transparent)]

theorem unwrapped_mem_preorder (node : Node) : node.unwrapped ∈ node.preorder := by
  induction node using byParts with
  | step node ih =>
    rw [unwrapped_eq]
    split
    · cases first : node.namedChildren.head? with
      | none => exact mem_preorder_self node
      | some part =>
        have inside := (List.mem_filter.mp (List.mem_of_mem_head? first)).1
        exact preorder_subset node part inside (ih part inside)
    · exact mem_preorder_self node

theorem kind_unwrapped_of_callee? {name : String} (calls : node.callee? = some name) :
    node.unwrapped.kind = .callExpression := by
  simp only [callee?] at calls
  split at calls
  next call => exact call
  next => contradiction

/-- The parts of a pattern that may bind names. Keys, default values and types are none. -/
def binderParts (node : Node) : List Node :=
  match node.kind with
  | .identifier => []
  | .shorthandPattern => []
  | .pairPattern => (node.child? .value).toList
  | .objectAssignmentPattern => (node.child? .left).toList
  | .assignmentPattern => (node.child? .left).toList
  | .requiredParameter => (node.child? .pattern).toList
  | .optionalParameter => (node.child? .pattern).toList
  | kind => if kind.bindsNothing then [] else node.namedChildren

/-- The parts in which a name may refer to something outside: of a property chain its base, of a
function its body, of types and comments nothing. -/
def valueParts (node : Node) : List Node :=
  match node.kind with
  | .identifier => []
  | .shorthandProperty => []
  | .ascription => []
  | .typeArguments => []
  | .comment => []
  | .memberExpression => (node.child? .object).toList
  | kind => if kind.isFunction then (node.child? .body).toList else node.namedChildren

def localNames (node : Node) : List String :=
  if node.kind.isFunction then node.parameterNames else []

theorem boundInPart_eq (field : Field) (nodes : List Node) :
    boundInPart field nodes =
      (nodes.find? fun part => part.field = some field).toList.flatMap boundIdentifiers := by
  induction nodes with
  | nil => rfl
  | cons node rest ih =>
    rw [boundInPart,List.find?_cons]
    by_cases plays : node.field = some field
    · simp [plays]
    · simpa [plays] using ih

theorem boundInAll_eq (nodes : List Node) :
    boundInAll nodes = (nodes.filter fun part => part.kind.isNamed).flatMap boundIdentifiers := by
  induction nodes with
  | nil => rfl
  | cons node rest ih =>
    rw [boundInAll,List.filter_cons,ih]
    split <;> simp

theorem boundIdentifiers_eq (node : Node) :
    node.boundIdentifiers =
      if node.kind = .identifier ∨ node.kind = .shorthandPattern then [node]
      else node.binderParts.flatMap boundIdentifiers := by
  obtain ⟨kind,field,start,stop,text,children⟩ := node
  rw [boundIdentifiers.eq_def]
  simp only [boundInPart_eq,boundInAll_eq]
  cases kind <;> rfl

theorem freeInPart_eq (bound : List String) (field : Field) (nodes : List Node) :
    freeInPart bound field nodes =
      (nodes.find? fun part => part.field = some field).toList.flatMap (freeIdentifiers bound) := by
  induction nodes with
  | nil => rfl
  | cons node rest ih =>
    rw [freeInPart,List.find?_cons]
    by_cases plays : node.field = some field
    · simp [plays]
    · simpa [plays] using ih

theorem freeInAll_eq (bound : List String) (nodes : List Node) :
    freeInAll bound nodes =
      (nodes.filter fun part => part.kind.isNamed).flatMap (freeIdentifiers bound) := by
  induction nodes with
  | nil => rfl
  | cons node rest ih =>
    rw [freeInAll,List.filter_cons,ih]
    split <;> simp

theorem freeIdentifiers_eq (bound : List String) (node : Node) :
    node.freeIdentifiers bound =
      if node.kind = .identifier ∨ node.kind = .shorthandProperty then
        if bound.contains node.name then [] else [node]
      else node.valueParts.flatMap (freeIdentifiers (node.localNames ++ bound)) := by
  obtain ⟨kind,field,start,stop,text,children⟩ := node
  rw [freeIdentifiers.eq_def]
  simp only [freeInPart_eq,freeInAll_eq]
  cases kind <;> rfl

theorem toList_child?_sublist (node : Node) (field : Field) :
    (node.child? field).toList.Sublist node.children := by
  cases found : node.child? field with
  | none => exact List.nil_sublist _
  | some part => exact List.singleton_sublist.mpr (List.mem_of_find?_eq_some found)

theorem binderParts_sublist (node : Node) : node.binderParts.Sublist node.children := by
  unfold binderParts
  split
  case h_8 =>
    split
    · exact List.nil_sublist _
    · exact List.filter_sublist
  all_goals first
    | exact List.nil_sublist _
    | exact node.toList_child?_sublist _

theorem valueParts_sublist (node : Node) : node.valueParts.Sublist node.children := by
  unfold valueParts
  split
  case h_7 =>
    split
    · exact node.toList_child?_sublist _
    · exact List.filter_sublist
  all_goals first
    | exact List.nil_sublist _
    | exact node.toList_child?_sublist _

theorem isStatic_eq (node : Node) :
    node.isStatic =
      match node.kind with
      | .parenthesized => allStatic node.children
      | .ternary => allStatic node.children
      | .sequence => allStatic node.children
      | .unary => partStatic .argument node.children
      | .binary => partStatic .left node.children && partStatic .right node.children
      | .templateString => substitutionsStatic node.children
      | other => other.isConstant := by
  obtain ⟨kind,field,start,stop,text,children⟩ := node
  cases kind <;> exact isStatic.eq_def _

theorem substitutionsStatic_cons (node : Node) (rest : List Node) :
    substitutionsStatic (node :: rest) =
      ((node.kind ≠ .templateSubstitution || firstStatic node.children) && substitutionsStatic rest) := by
  cases node
  rfl

/-- Nodes that cannot be told apart by asking whether they are made of literals. -/
structure LikeStatic (node other : Node) : Prop where
  field : other.field = node.field
  named : other.kind.isNamed = node.kind.isNamed
  kind : other.kind = .templateSubstitution ↔ node.kind = .templateSubstitution
  whole : other.isStatic = node.isStatic
  first : node.kind = .templateSubstitution →
    firstStatic other.children = firstStatic node.children

section Static

variable {other : Node} {nodes others : List Node}

section

variable (same : List.Forall₂ LikeStatic nodes others)
include same

theorem allStatic_eq :
    allStatic others = allStatic nodes := by
  induction same with
  | nil => rfl
  | cons like _ ih => rw [allStatic,allStatic,like.named,like.whole,ih]

theorem partStatic_eq (field : Field) :
    partStatic field others = partStatic field nodes := by
  induction same with
  | nil => rfl
  | cons like _ ih => rw [partStatic,partStatic,like.field,like.whole,ih]

theorem firstStatic_eq :
    firstStatic others = firstStatic nodes := by
  induction same with
  | nil => rfl
  | cons like _ ih => rw [firstStatic,firstStatic,like.named,like.whole,ih]

theorem substitutionsStatic_eq :
    substitutionsStatic others = substitutionsStatic nodes := by
  induction same with
  | nil => rfl
  | @cons node _ _ _ like _ ih =>
    rw [substitutionsStatic_cons,substitutionsStatic_cons,ih]
    by_cases kind : node.kind = .templateSubstitution
    · rw [like.kind.mpr kind,kind,like.first kind]
    · simp [kind,mt like.kind.mp kind]

end

theorem isStatic_of_forall₂ (kind : other.kind = node.kind)
    (parts : List.Forall₂ LikeStatic node.children other.children) : other.isStatic = node.isStatic := by
  rw [isStatic_eq,isStatic_eq,kind,allStatic_eq parts,partStatic_eq parts,partStatic_eq parts,
    partStatic_eq parts,substitutionsStatic_eq parts]

end Static

mutual

def decideEq : (node other : Node) → Decidable (node = other)
  | ⟨kind,field,start,stop,text,children⟩, ⟨kind',field',start',stop',text',children'⟩ =>
    match decideEqAll children children' with
    | isTrue same =>
      decidable_of_iff (kind = kind' ∧ field = field' ∧ start = start' ∧ stop = stop' ∧ text = text')
        (by simp [same])
    | isFalse different => isFalse fun same => different (congrArg Node.children same)

def decideEqAll : (nodes others : List Node) → Decidable (nodes = others)
  | [], [] => isTrue rfl
  | [], _ :: _ => isFalse nofun
  | _ :: _, [] => isFalse nofun
  | node :: rest, other :: others =>
    match decideEq node other, decideEqAll rest others with
    | isTrue same, isTrue sameRest => isTrue (by rw [same,sameRest])
    | isFalse different, _ => isFalse fun same => different (List.cons.inj same).1
    | _, isFalse different => isFalse fun same => different (List.cons.inj same).2

end

instance : DecidableEq Node := decideEq

end Node

end VueScope.Script
