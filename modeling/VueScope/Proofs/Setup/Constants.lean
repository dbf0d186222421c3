import VueScope.Proofs.Script.Parts
import VueScope.Setup.Declarations

/-! How the value of a constant decides its kind of binding. -/
namespace VueScope.Setup

open Script

variable (producers : Producers)

theorem firstNeverRef_eq (nodes : List Node) :
    firstNeverRef producers nodes =
      ((nodes.filter fun part => part.kind.isNamed).head?.map (neverRef producers)).getD false := by
  induction nodes with
  | nil => rfl
  | cons node rest ih =>
    rw [firstNeverRef,List.filter_cons]
    split
    · rfl
    · exact ih

theorem lastNeverRef_eq (nodes : List Node) :
    lastNeverRef producers nodes =
      ((nodes.filter fun part => part.kind.isNamed).getLast?.map (neverRef producers)).getD false := by
  induction nodes with
  | nil => rfl
  | cons node rest ih =>
    rw [lastNeverRef,List.filter_cons]
    split
    next later =>
      rw [ih]
      split
      · have some : rest.filter (fun part => part.kind.isNamed) ≠ [] := by
          simpa [List.filter_eq_nil_iff] using later
        rw [List.getLast?_cons_of_ne_nil some]
      · rfl
    next last =>
      have none : rest.filter (fun part => part.kind.isNamed) = [] := by
        simpa [List.filter_eq_nil_iff] using last
      rw [none]
      split
      next named => simp [named]
      next unnamed => simp [unnamed]

theorem neverRef_eq (node : Node) :
    neverRef producers node =
      if node.kind.isTransparent then (node.namedChildren.head?.map (neverRef producers)).getD false
      else if node.kind = .sequence then
        (node.namedChildren.getLast?.map (neverRef producers)).getD false
      else producers.makesReactive node || isFresh node.kind || node.kind.isLiteral := by
  obtain ⟨kind,field,start,stop,text,children⟩ := node
  rw [neverRef,firstNeverRef_eq,lastNeverRef_eq]
  rfl

theorem constBinding_of_call {value : Node}
    (call : value.kind = .callExpression) :
    constBinding producers value =
      if producers.makesReactive value then .setupReactiveConst
      else if value.callsAny constantMacros then
        if declaresProps value then .setupReactiveConst else .setupConst
      else if value.callsAny producers.refs then .setupRef
      else .setupMaybeRef := by
  have changing : value.isStatic = false := by simp [Node.isStatic_eq,call,Kind.isConstant]
  have mayBeRef : neverRef producers value = producers.makesReactive value := by
    simp [neverRef_eq,call,Kind.isTransparent,isFresh,Kind.isLiteral,Kind.isConstant]
  unfold constBinding
  rw [changing,mayBeRef]
  cases producers.makesReactive value <;> simp

theorem declaratorBindings_of_declaresLiteral {declarator : Node}
    (literal : declaresLiteral declarator = true) :
    (declaratorBindings producers true declarator).map (fun (name,_) => (name,.literalConst)) =
      declaratorBindings producers true declarator := by
  simp only [declaresLiteral,Bool.and_eq_true,Option.any_eq_true,decide_eq_true_eq] at literal
  obtain ⟨⟨target,named,isName⟩,value,given,static⟩ := literal
  simp [declaratorBindings,named,given,isName,nameBinding,constBinding,static]

/-- What the declarators of a declaration are together never decides what one of them binds. -/
@[simp] theorem jointBindings_eq (isConst : Bool) (declarators : List Node) :
    jointBindings producers isConst declarators =
      (declarators.map (declaratorBindings producers isConst)).flatten := by
  unfold jointBindings
  dsimp only
  split
  next literal =>
    obtain ⟨rfl,all⟩ := (Bool.and_eq_true _ _).mp literal
    rw [List.map_flatten,List.map_map]
    congr 1
    exact List.map_congr_left fun declarator member =>
      declaratorBindings_of_declaresLiteral producers (List.all_eq_true.mp all declarator member)
  next => rfl

end VueScope.Setup
