import VueScope.Proofs.Script.Located

/-! The names that patterns bind, said by the forms that a pattern can have. Whatever a pattern
binds is among the names that are collected from it. -/
namespace VueScope.Script.Node

/-- The patterns right below a pattern. Keys and default values are none. -/
def patternParts (node : Node) : List Node :=
  match node.kind with
  | .objectPattern => node.namedChildren
  | .arrayPattern => node.namedChildren
  | .restPattern => node.namedChildren
  | .pairPattern => (node.child? .value).toList
  | .assignmentPattern => (node.child? .left).toList
  | .objectAssignmentPattern => (node.child? .left).toList
  | _ => []

/-- A pattern is a name that it binds, or has a part that binds the name. -/
inductive Binds : Node → String → Prop
  | name {node : Node} (kind : node.kind = .identifier ∨ node.kind = .shorthandPattern) :
      Binds node node.name
  | part {node part : Node} {name : String} (member : part ∈ node.patternParts)
      (bound : Binds part name) : Binds node name

variable {name : String}

theorem Binds.eq_name {node : Node} (bound : node.Binds name)
    (kind : node.kind = .identifier) : node.name = name := by
  cases bound with
  | name _ => rfl
  | part member _ => simp [patternParts,kind] at member

def namesWithin : Nat → Node → List String
  | 0, _ => []
  | depth + 1, node =>
    (if node.kind = .identifier || node.kind = .shorthandPattern then [node.name] else []) ++
      node.patternParts.flatMap (namesWithin depth)

theorem binds_of_mem_namesWithin {depth : Nat} (node : Node)
    (member : name ∈ namesWithin depth node) : node.Binds name := by
  induction depth generalizing node with
  | zero => contradiction
  | succ depth ih =>
    rcases List.mem_append.mp member with own | below
    · split at own
      next kind =>
        rw [List.mem_singleton.mp own]
        exact .name (by simpa using kind)
      · contradiction
    · obtain ⟨part,inside,found⟩ := List.mem_flatMap.mp below
      exact .part inside (ih part found)

theorem mem_binderParts {node part : Node} (member : part ∈ node.patternParts) :
    (node.kind ≠ .identifier ∧ node.kind ≠ .shorthandPattern) ∧ part ∈ node.binderParts := by
  unfold patternParts at member
  unfold binderParts
  split at member
  case h_7 => contradiction
  all_goals
    next kind =>
      rw [kind]
      exact ⟨by decide,member⟩

theorem mem_boundNames {pattern : Node} (bound : pattern.Binds name) :
    name ∈ pattern.boundNames := by
  induction bound with
  | @name node kind =>
    rw [boundNames,boundIdentifiers_eq,if_pos kind]
    exact List.mem_singleton.mpr rfl
  | @part node part name member _ ih =>
    obtain ⟨noName,inside⟩ := mem_binderParts member
    rw [boundNames,boundIdentifiers_eq,if_neg (not_or.mpr noName),List.map_flatMap]
    exact List.mem_flatMap.mpr ⟨part,inside,ih⟩

theorem ne_empty_of_mem_boundNames {dialect : Dialect} {source : List Char} {root pattern : Node}
    (parsed : parse? dialect source = some root)
    (below : pattern.preorder ⊆ root.preorder) (member : name ∈ pattern.boundNames) : name ≠ "" := by
  obtain ⟨found,inside,rfl⟩ := List.mem_map.mp member
  obtain ⟨within,named⟩ := List.mem_filter.mp ((boundIdentifiers_sublist pattern).subset inside)
  exact ne_empty_of_parse? parsed (below within) named

end VueScope.Script.Node
