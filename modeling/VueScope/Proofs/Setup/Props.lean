import VueScope.Proofs.Identifiers.OrderedMap
import VueScope.Proofs.Setup.TopLevel
import VueScope.Setup.Declarations

/-! The props that a setup script takes apart. An accepted script declares its props once, so
what the pattern of that declaration lists is still declared at the end of the script. -/
namespace VueScope.Setup

open Script

/-- An entry of a pattern that takes one prop, under a local name. The prop of a pair needs a key
that is spelled out. -/
def TakesProp (element : Node) (name : String) : Prop :=
  (element.kind = .shorthandPattern ∧ element.name = name) ∨
  (element.kind = .objectAssignmentPattern ∧ ∃ left ∈ element.child? .left, left.name = name) ∨
  (element.kind = .pairPattern ∧
    (∃ key ∈ element.child? .key, ∃ prop ∈ key.keyName?, prop ≠ "") ∧
    ∃ value ∈ element.child? .value,
      (value.kind = .identifier ∧ value.name = name) ∨
      (value.kind = .assignmentPattern ∧
        ∃ left ∈ value.child? .left, left.kind = .identifier ∧ left.name = name))

instance (element : Node) (name : String) : Decidable (TakesProp element name) := by
  unfold TakesProp
  infer_instance

def restNames (pattern : Node) : List String :=
  (pattern.namedChildren.filter fun element => element.kind = .restPattern).flatMap Node.boundNames

/-- The names that props are taken apart into: one for each prop, and the last name below `...` for
the props that are left. -/
def ListsProp (pattern : Node) (name : String) : Prop :=
  pattern.kind = .objectPattern ∧
    ((∃ element ∈ pattern.namedChildren, TakesProp element name) ∨
      (restNames pattern).getLast? = some name)

instance (pattern : Node) (name : String) : Decidable (ListsProp pattern name) := by
  unfold ListsProp
  infer_instance

/-- A declarator whose value declares the props. -/
def TakesProps (declarator : Node) : Prop :=
  ∃ value ∈ declarator.child? .value, declaresProps value.unwrapped = true

instance (declarator : Node) : Decidable (TakesProps declarator) := by
  unfold TakesProps
  infer_instance

variable {after : Declared} {target : Option Node}

namespace Declared

variable (declared : Declared) (pattern element : Node) (name : String)

theorem entry?_of_takesProp (takes : TakesProp element name) :
    ∃ prop, entry? element = some (name,prop) := by
  rcases takes with ⟨kind,named⟩ | ⟨kind,left,written,named⟩ |
    ⟨kind,⟨key,held,prop,spelled,some⟩,value,written,form⟩
  · exact ⟨element.name,by simp [ entry?,kind,named]⟩
  · exact ⟨left.name,by simp [ entry?,kind,Option.mem_def.mp written,named]⟩
  · refine ⟨prop,?_⟩
    have key : (element.child? .key).bind Node.keyName? = Option.some prop := by
      rw [Option.mem_def.mp held]
      exact spelled
    rcases form with ⟨isName,named⟩ | ⟨assigned,left,part,isName,named⟩
    · simp [ entry?,kind,key,Option.mem_def.mp written,isName,some,named]
    · simp [ entry?,kind,key,Option.mem_def.mp written,assigned,Option.mem_def.mp part,isName,some,named]

theorem takesProp_of_entry? (prop : String) (found : entry? element = some (name,prop)) :
    TakesProp element name := by
  unfold entry? at found
  split at found
  next kind => exact .inl ⟨kind,(Prod.mk.inj (Option.some.inj found)).1⟩
  next kind =>
    obtain ⟨left,written,same⟩ := Option.map_eq_some_iff.mp found
    exact .inr (.inl ⟨kind,left,written,(Prod.mk.inj same).1⟩)
  next kind =>
    refine .inr (.inr ⟨kind,?_⟩)
    dsimp only at found
    split at found
    next target chosen =>
      split at found
      next spelled =>
        rw [Bool.and_eq_true,decide_eq_true_eq,decide_eq_true_eq] at spelled
        obtain ⟨some,isName⟩ := spelled
        cases found
        constructor
        · cases key : (element.child? .key).bind Node.keyName? with
          | none => simp [key] at some
          | some prop =>
            obtain ⟨written,held,named⟩ := Option.bind_eq_some_iff.mp key
            exact ⟨written,held,prop,named,by simpa [key] using some⟩
        · split at chosen
          next value given =>
            split at chosen
            next assigned => exact ⟨value,given,.inr ⟨assigned,target,chosen,isName,rfl⟩⟩
            next =>
              cases chosen
              exact ⟨target,given,.inl ⟨isName,rfl⟩⟩
          next => contradiction
      next => contradiction
    next => contradiction
  next => contradiction

theorem kind_of_takesProp (takes : TakesProp element name) : element.kind ≠ .restPattern := by
  rcases takes with ⟨kind,_⟩ | ⟨kind,_⟩ | ⟨kind,_⟩ <;> simp [kind]

def takeApart (declared : Declared) (element : Node) : Declared :=
  if element.kind = .restPattern then
    { declared with rest := element.boundNames.getLast?.or declared.rest }
  else
    match entry? element with
    | some (localName,key) =>
      { declared with destructured := declared.destructured.insert localName key }
    | none => declared

theorem destructure_eq :
    declared.destructure pattern = pattern.namedChildren.foldl takeApart declared :=
  rfl

theorem hasProps_takeApart : (declared.takeApart element).hasProps = declared.hasProps := by
  unfold takeApart
  split
  · rfl
  · split <;> rfl

theorem contains_takeApart
    (taken : declared.destructured.contains name = true ∨ TakesProp element name) :
    (declared.takeApart element).destructured.contains name = true := by
  unfold takeApart
  split
  next rest =>
    exact taken.resolve_right fun takes => kind_of_takesProp element name takes rest
  · split
    next localName key entry =>
      rw [OrderedMap.contains,OrderedMap.get?_insert]
      split
      · rfl
      next other =>
        refine taken.resolve_right fun takes => ?_
        obtain ⟨prop,found⟩ := entry?_of_takesProp element name takes
        rw [found] at entry
        cases entry
        exact other rfl
    next nothing =>
      refine taken.resolve_right fun takes => ?_
      obtain ⟨prop,found⟩ := entry?_of_takesProp element name takes
      rw [found] at nothing
      contradiction

theorem rest_takeApart :
    (declared.takeApart element).rest =
      if element.kind = .restPattern then element.boundNames.getLast?.or declared.rest
      else declared.rest := by
  unfold takeApart
  split
  · rfl
  · split <;> rfl

theorem hasProps_destructure : (declared.destructure pattern).hasProps = declared.hasProps := by
  rw [destructure_eq]
  induction pattern.namedChildren generalizing declared with
  | nil => rfl
  | cons element rest ih => rw [List.foldl_cons,ih,hasProps_takeApart]

theorem contains_destructure (member : element ∈ pattern.namedChildren)
    (takes : TakesProp element name) :
    (declared.destructure pattern).destructured.contains name = true := by
  have kept (elements : List Node) (declared : Declared)
      (taken : declared.destructured.contains name = true ∨
        ∃ element ∈ elements, TakesProp element name) :
      (elements.foldl takeApart declared).destructured.contains name = true := by
    induction elements generalizing declared with
    | nil => simpa using taken
    | cons first rest ih =>
      rw [List.foldl_cons]
      apply ih
      simp only [List.mem_cons,exists_eq_or_imp,← or_assoc] at taken
      exact taken.imp_left (contains_takeApart declared first name)
  exact kept pattern.namedChildren declared (.inr ⟨element,member,takes⟩)

theorem rest_destructure :
    (declared.destructure pattern).rest = (restNames pattern).getLast?.or declared.rest := by
  rw [destructure_eq,restNames]
  induction pattern.namedChildren generalizing declared with
  | nil => simp
  | cons element later ih =>
    rw [List.foldl_cons,ih,rest_takeApart]
    split
    next kind => simp [kind,List.getLast?_append,Option.or_assoc]
    next kind => simp [kind]

def withProps (declared : Declared) (keys : List String) : Declared :=
  { declared with hasProps := true, propKeys := declared.propKeys ++ keys }

def taken (declared : Declared) : Option Node → Declared
  | some pattern => if pattern.kind = .objectPattern then declared.destructure pattern else declared
  | none => declared

theorem hasProps_taken (target : Option Node) :
    (declared.taken target).hasProps = declared.hasProps := by
  unfold taken
  split
  · split
    · exact hasProps_destructure declared _
    · rfl
  · rfl

/-- Before the props are declared, nothing takes those that are left. -/
def Fresh (declared : Declared) : Prop :=
  declared.hasProps = false → declared.rest = none

/-- Once the props are declared, what they are taken apart into stays as it is. -/
structure Keeps (before after : Declared) : Prop where
  fresh : before.Fresh → after.Fresh
  given : before.hasProps = true → after.hasProps = true ∧
    after.destructured = before.destructured ∧ after.rest = before.rest

theorem Keeps.of_same {before : Declared} (props : after.hasProps = before.hasProps)
    (destructured : after.destructured = before.destructured) (rest : after.rest = before.rest) :
    Keeps before after where
  fresh fresh := by
    unfold Fresh
    rw [props,rest]
    exact fresh
  given given := ⟨props.trans given,destructured,rest⟩

theorem Keeps.refl : Keeps declared declared :=
  .of_same rfl rfl rfl

theorem Keeps.trans {first second third : Declared} (before : Keeps first second)
    (after : Keeps second third) : Keeps first third where
  fresh fresh := after.fresh (before.fresh fresh)
  given given := by
    obtain ⟨stillGiven,destructured,rest⟩ := before.given given
    obtain ⟨finallyGiven,destructured',rest'⟩ := after.given stillGiven
    exact ⟨finallyGiven,destructured'.trans destructured,rest'.trans rest⟩

section Fold

variable (step : Declared → Node → Except CompileFailure Declared)
  (kept : ∀ before node after, step before node = .ok after → Keeps before after)

include kept

theorem keeps_foldlM (nodes : List Node) (start final : Declared)
    (ran : nodes.foldlM step start = .ok final) : Keeps start final := by
  induction nodes generalizing start with
  | nil =>
    cases ran
    exact .refl _
  | cons node rest ih =>
    rw [List.foldlM_cons] at ran
    cases first : step start node with
    | error failure =>
      rw [first] at ran
      contradiction
    | ok next =>
      rw [first] at ran
      exact (kept start node next first).trans (ih next ran)

theorem exists_step_of_foldlM (nodes : List Node) (start final : Declared) (node : Node)
    (ran : nodes.foldlM step start = .ok final) (member : node ∈ nodes) :
    ∃ before after, Keeps start before ∧ step before node = .ok after ∧ Keeps after final := by
  induction nodes generalizing start with
  | nil => contradiction
  | cons head rest ih =>
    rw [List.foldlM_cons] at ran
    cases first : step start head with
    | error failure =>
      rw [first] at ran
      contradiction
    | ok next =>
      rw [first] at ran
      rcases List.mem_cons.mp member with rfl | later
      · exact ⟨start,next,.refl start,first,keeps_foldlM step kept rest next final ran⟩
      · obtain ⟨before,after,earlier,accepted,kept'⟩ := ih next ran later
        exact ⟨before,after,(kept start head next first).trans earlier,accepted,kept'⟩

end Fold

end Declared

namespace MacroContext

open Declared

variable {context : MacroContext}

theorem declareProps_eq_ok {declared : Declared} {call : Node}
    (accepted : context.declareProps declared call target = .ok after) :
    declared.hasProps = false ∧
      after = (declared.withProps (context.propKeys call)).taken target := by
  unfold declareProps at accepted
  split at accepted
  · contradiction
  next fresh =>
    split at accepted
    · contradiction
    · refine ⟨by simpa using fresh,?_⟩
      split at accepted <;> exact (Except.ok.inj accepted).symm

theorem keeps_declareProps {before : Declared} {call : Node}
    (accepted : context.declareProps before call target = .ok after) : Keeps before after := by
  obtain ⟨first,result⟩ := declareProps_eq_ok accepted
  have declared : after.hasProps = true := by
    rw [result,hasProps_taken]
    rfl
  refine ⟨fun _ missing => ?_,fun given => ?_⟩
  · rw [declared] at missing
    contradiction
  · rw [first] at given
    contradiction

theorem keeps_apply {before after : Declared} {expression : Node} {target : Option Node}
    (accepted : context.apply before expression target = .ok after) : Keeps before after := by
  unfold apply at accepted
  split at accepted
  · cases accepted
    exact .refl before
  · split at accepted
    · split at accepted
      · split at accepted
        · exact keeps_declareProps accepted
        · contradiction
      · contradiction
    · split at accepted
      · exact keeps_declareProps accepted
      · split at accepted
        · split at accepted
          · contradiction
          · cases accepted
            exact .of_same rfl rfl rfl
        · split at accepted
          · dsimp only at accepted
            split at accepted
            · contradiction
            · cases accepted
              exact .of_same rfl rfl rfl
          · cases accepted
            exact .refl before

theorem keeps_ofDeclarator (before : Declared) (declarator : Node) (after : Declared)
    (accepted : context.ofDeclarator before declarator = .ok after) : Keeps before after := by
  unfold ofDeclarator at accepted
  split at accepted
  · exact keeps_apply accepted
  · cases accepted
    exact .refl before

theorem keeps_ofStatement (before : Declared) (statement : Node) (after : Declared)
    (accepted : context.ofStatement before statement = .ok after) : Keeps before after := by
  unfold ofStatement at accepted
  split at accepted
  · split at accepted
    · cases accepted
      exact .refl before
    · contradiction
  · split at accepted
    · split at accepted
      · exact keeps_apply accepted
      · cases accepted
        exact .refl before
    · split at accepted
      · exact keeps_foldlM _ keeps_ofDeclarator statement.declarators before after accepted
      · cases accepted
        exact .refl before

theorem declareProps_of_apply {before : Declared} {expression : Node}
    (declares : declaresProps expression = true)
    (accepted : context.apply before expression target = .ok after) :
    ∃ call, context.declareProps before call target = .ok after := by
  unfold declaresProps Node.calls at declares
  unfold apply at accepted
  rw [Bool.or_eq_true,Bool.and_eq_true,decide_eq_true_eq,decide_eq_true_eq] at declares
  rcases declares with props | ⟨defaults,first⟩
  · rw [props] at accepted
    exact ⟨expression,accepted⟩
  · rw [defaults] at accepted
    cases passed : expression.callArguments.head? with
    | none =>
      rw [passed] at first
      contradiction
    | some call =>
      rw [passed,Option.any_some] at first
      dsimp only at accepted
      rw [if_pos rfl,passed] at accepted
      dsimp only at accepted
      rw [Node.calls,if_pos first] at accepted
      exact ⟨call.unwrapped,accepted⟩

theorem exists_declarator_step {root declarator target : Node} {final : Declared}
    (ran : context.ofScript root = .ok final) (declares : DeclaresTarget root declarator target) :
    ∃ before after : Declared, before.Fresh ∧ context.ofDeclarator before declarator = .ok after ∧
      Keeps after final := by
  obtain ⟨statement,member,kind,declaration,listed⟩ := declares.exists_declaration
  obtain ⟨before,after,earlier,accepted,later⟩ := exists_step_of_foldlM _ keeps_ofStatement
    root.namedChildren Declared.nothing final statement ran member
  have steps : statement.declarators.foldlM (context.ofDeclarator ·) before = .ok after := by
    unfold ofStatement at accepted
    rw [if_neg (by rcases kind with kind | kind <;> simp [kind]),
      if_neg (by rcases kind with kind | kind <;> simp [kind]),if_pos declaration] at accepted
    exact accepted
  obtain ⟨first,second,earlier',step,later'⟩ := exists_step_of_foldlM _ keeps_ofDeclarator
    statement.declarators before after declarator steps listed
  have fresh : Declared.nothing.Fresh := fun _ => rfl
  exact ⟨first,second,(earlier.trans earlier').fresh fresh,step,later'.trans later⟩

theorem declared_of_takesProps {root declarator target : Node} {final : Declared}
    (ran : context.ofScript root = .ok final) (declares : DeclaresTarget root declarator target)
    (props : TakesProps declarator) (pattern : target.kind = .objectPattern) :
    (∀ element ∈ target.namedChildren, ∀ name, TakesProp element name →
      final.destructured.contains name = true) ∧
    final.rest = (restNames target).getLast? := by
  obtain ⟨before,after,fresh,step,kept⟩ := exists_declarator_step ran declares
  obtain ⟨value,written,declaration⟩ := props
  rw [ofDeclarator,Option.mem_def.mp written,declares.target] at step
  obtain ⟨call,accepted⟩ := declareProps_of_apply declaration step
  obtain ⟨first,result⟩ := declareProps_eq_ok accepted
  rw [Declared.taken,if_pos pattern] at result
  -- props are declared once, so nothing later in the script takes them apart again
  have still : after.hasProps = true := by
    rw [result,hasProps_destructure]
    rfl
  obtain ⟨_,sameProps,sameRest⟩ := kept.given still
  constructor
  · intro element member name takes
    rw [sameProps,result]
    exact contains_destructure _ target element name member takes
  · rw [sameRest,result,rest_destructure]
    exact (congrArg _ (fresh first)).trans Option.or_none

end MacroContext

end VueScope.Setup
