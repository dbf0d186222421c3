import VueScope.Proofs.Component.Template
import VueScope.Proofs.Template.Binders

/-! Names that are bound around an expression can be passed into the walk over it or be tested after the
walk. Only the framework's own names are not tested, so these must not be passed. -/
namespace VueScope.Script.Node

/-- Names that are passed into the walk besides others are left out of what it gives. -/
theorem freeIdentifiers_of_joined (node : Node) (all bound hidden : List String)
    (joined : ∀ name, name ∈ all ↔ name ∈ bound ∨ name ∈ hidden) :
    node.freeIdentifiers all =
      (node.freeIdentifiers bound).filter fun found => found.name ∉ hidden := by
  induction node using byParts generalizing all bound with
  | step node ih =>
    rw [freeIdentifiers_eq all,freeIdentifiers_eq bound]
    split
    · by_cases early : node.name ∈ bound <;> by_cases late : node.name ∈ hidden <;>
        simp [joined,early,late]
    · -- a function's parameters join the names on both sides
      rw [List.filter_flatMap]
      refine List.flatMap_congr fun part inside =>
        ih part ((valueParts_sublist _).subset inside) _ _ fun name => ?_
      simp only [List.mem_append,joined,or_assoc]

end VueScope.Script.Node

namespace VueScope.Template

open Component

variable (identifiers : Identifiers)

/-- Names with a dollar sign that no script declares are the framework's. -/
def isReserved (name : String) : Bool :=
  name.toList.head? = some '$' && !identifiers.contains name

theorem categoryOf?_eq (name : String) (scope : List String) :
    categoryOf? identifiers name scope =
      if name ∉ scope.filter (!isReserved identifiers ·) then categoryOf? identifiers name [] else none := by
  unfold categoryOf?
  rw [← isReserved]
  cases own : isReserved identifiers name <;> by_cases inside : name ∈ scope <;> simp [inside,own]

section

variable [Recovery]

/-- What is marked in an expression if some names are passed into the walk and some are tested after it. -/
def marked (passed tested : List String) (expression : Expression) :
    List Candidate :=
  if Text.isBlank expression.content then []
  else
    ((ExpressionTree.read expression.content).references passed).filterMap fun reference =>
      (categoryOf? identifiers reference.name tested).map fun category =>
        ⟨reference.name,expression.offset + reference.offset,category⟩

theorem candidates_eq_marked (scanned : Scanned) :
    scanned.candidates identifiers = marked identifiers [] scanned.scope scanned.expression := by
  unfold Scanned.candidates Scanned.occurrences marked
  split
  · rfl
  · rw [List.filterMap_map]
    rfl

theorem marked_eq {identifiers : Identifiers} {scope passed : List String}
    (tested : ∀ name, categoryOf? identifiers name scope =
      if name ∉ passed then categoryOf? identifiers name [] else none) (expression : Expression) :
    marked identifiers [] scope expression = marked identifiers passed [] expression := by
  unfold marked
  split
  · rfl
  · unfold ExpressionTree.references
    rw [Script.Node.freeIdentifiers_of_joined _ passed [] passed (by simp),List.filterMap_map,
      List.filterMap_map,List.filterMap_filter]
    refine List.filterMap_congr fun found _ => ?_
    simp only [Function.comp_def,tested,decide_eq_true_eq]
    split <;> rfl

theorem scope_is_tested_or_passed :
    (∀ (tree : Script.Node) (bound hidden : List String), tree.freeIdentifiers (bound ∪ hidden) =
      (tree.freeIdentifiers bound).filter fun found => found.name ∉ hidden) ∧
    ∀ (identifiers : Identifiers) (nodes : List Node), candidates identifiers nodes =
      (scannedInAll [] nodes).flatMap fun scanned =>
        marked identifiers (scanned.scope.filter (!isReserved identifiers ·)) [] scanned.expression := by
  refine ⟨fun tree bound hidden => tree.freeIdentifiers_of_joined _ _ _ fun name => List.mem_union_iff,
    fun identifiers nodes => ?_⟩
  rw [candidates_eq_flatMap]
  refine List.flatMap_congr fun scanned _ => ?_
  rw [candidates_eq_marked,marked_eq fun name => categoryOf?_eq identifiers name scanned.scope]

end

/-- A loop variable that has the name of a handler of the framework is marked as the handler. Were the scope
passed into the walk, it would not be. -/
theorem loop_variable_is_marked_as_handler :
    let text := "<template><p v-for='$emit in 3'>\x7b\x7b $emit \x7d\x7d</p></template>".toList
    ∃ parsed template tree, parse "a.vue" text = .ok parsed ∧
      parsed.descriptor.template = some template ∧ template.tree = some tree ∧
      (scannedInAll [] tree).flatMap (fun scanned => marked ∅ scanned.scope [] scanned.expression) = [] ∧
      candidates ∅ tree = [⟨"$emit",35,.emits⟩] := by
  rw [String.toList_ofList]
  intro text
  have viewed : ((parse "a.vue" text).toOption.bind fun parsed =>
      parsed.descriptor.template.bind fun template => template.tree.map fun tree =>
        ((scannedInAll [] tree).flatMap fun scanned => marked ∅ scanned.scope [] scanned.expression,
          candidates ∅ tree)) = some ([],[⟨"$emit",35,.emits⟩]) := by
    decide +kernel
  obtain ⟨parsed,template,split,present,seen⟩ := exists_of_template viewed
  obtain ⟨tree,built,shown⟩ := Option.map_eq_some_iff.mp seen
  obtain ⟨passed,tested⟩ := Prod.mk.inj shown
  exact ⟨parsed,template,tree,split,present,built,passed,tested⟩

end VueScope.Template
