import Mathlib.Data.List.Forall2
import VueScope.Proofs.Component.Shift
import VueScope.Proofs.Setup.Completeness

/-! Where its blocks stand does not matter to whether a component compiles, and neither to its
bindings. -/
namespace VueScope.Setup

open Script Component

namespace MacroContext

variable (types : TypeDeclarations) (start other : Nat)

variable (declared : Declared)

theorem foldlM_toOption {α : Type} {first second : Declared → α → Except CompileFailure Declared}
    {nodes others : List α}
    (alike : List.Forall₂ (fun node other => ∀ declared,
      (first declared node).toOption = (second declared other).toOption) nodes others)
    (declared : Declared) :
    (nodes.foldlM first declared).toOption = (others.foldlM second declared).toOption := by
  induction alike generalizing declared with
  | nil => rfl
  | @cons node other _ _ same _ ih =>
    have step := same declared
    rw [List.foldlM_cons,List.foldlM_cons]
    cases one : first declared node with
    | error _ =>
      cases two : second declared other with
      | error _ => rfl
      | ok _ =>
        rw [one,two] at step
        contradiction
    | ok next =>
      cases two : second declared other with
      | error _ =>
        rw [one,two] at step
        contradiction
      | ok after =>
        rw [one,two] at step
        cases step
        exact ih next

end MacroContext

end VueScope.Setup
