import Mathlib.Data.List.Induction
import VueScope.Proofs.Setup.Completeness

/-! When a component with a setup script compiles, and which fault is reported otherwise. The macros
are read with flags that say what was declared before; the flags say just what the statements before
contain, so a fault can be told from the script alone. -/
namespace VueScope.Setup

open Script Component

/-- A place at the top of a setup script that may be at fault. -/
inductive Site where
  | exported (statement : Node)
  /-- A statement that is an expression, or the value of a variable. -/
  | evaluated (value : Node) (target : Option Node)

namespace Site

def value? : Site → Option Node
  | exported _ => none
  | evaluated value _ => some value

def ofDeclarator (declarator : Node) : List Site :=
  ((declarator.child? .value).map fun value =>
    evaluated value.unwrapped (declarator.child? .name)).toList

def ofStatement (statement : Node) : List Site :=
  if statement.kind = .exportStatement then [exported statement]
  else if statement.kind = .expressionStatement then
    (statement.namedChildren.head?.map fun expression => evaluated expression.unwrapped none).toList
  else if statement.isVariableDeclaration then statement.declarators.flatMap ofDeclarator
  else []

def ofScript (root : Node) : List Site :=
  root.namedChildren.flatMap ofStatement

end Site

variable (start : Nat) (sites : List Site) (value : Node)

/-- The call that declares the props, bare or with defaults. -/
def propsCall? : Option Node :=
  if value.calls Macro.props then some value
  else if value.calls Macro.defaults then
    (value.callArguments.head?.filter fun first => first.calls Macro.props).map Node.unwrapped
  else none

/-- The model that a call declares: its first argument if that is a text, but not an empty one. -/
def model? : Option String :=
  if value.calls Macro.model then
    let given := value.callArguments.head?.bind fun first => first.unwrapped.stringValue?
    some ((given.filter (· ≠ "")).getD "modelValue")
  else none

def values : List Node :=
  sites.filterMap Site.value?

/-- Whether `withDefaults` is called on something else than the props. -/
def LacksProps : Prop :=
  value.calls Macro.defaults = true ∧
    ∀ first ∈ value.callArguments.head?, first.calls Macro.props = false

/-- An interface or an alias that is exported, or a clause `export type`. -/
def ExportsType (statement : Node) : Prop :=
  (∃ declaration ∈ statement.child? .declaration,
    declaration.kind = .interfaceDeclaration ∨ declaration.kind = .typeAliasDeclaration) ∨
  (statement.child? .declaration = none ∧ ∃ token ∈ statement.children, token.kind = .typeKeyword)

/-- The fault of a place, after the places before it. A script starts at an offset of its file. -/
inductive Fault (start : Nat) (before : List Site) : Site → CompileFailure → Prop
  | exports {statement : Node} (noType : ¬ExportsType statement) :
      Fault start before (.exported statement) (.exportInSetup (start + statement.start))
  | defaults {value : Node} {target : Option Node} (lacks : LacksProps value) :
      Fault start before (.evaluated value target) (.defaultsWithoutProps (start + value.start))
  | secondProps {value call : Node} {target : Option Node} (declares : propsCall? value = some call)
      (again : ∃ earlier ∈ values before, (propsCall? earlier).isSome = true) :
      Fault start before (.evaluated value target) (.duplicateProps (start + call.start))
  | typedAndValued {value call : Node} {target : Option Node} (declares : propsCall? value = some call)
      (first : ∀ earlier ∈ values before, propsCall? earlier = none)
      (valued : call.callArguments ≠ []) (typed : (call.child? .typeArguments).isSome = true) :
      Fault start before (.evaluated value target) (.propsTypedAndValued (start + call.start))
  | secondEmits {value : Node} {target : Option Node} (calls : value.calls Macro.emits = true)
      (again : ∃ earlier ∈ values before, earlier.calls Macro.emits = true) :
      Fault start before (.evaluated value target) (.duplicateEmits (start + value.start))
  | secondModel {value : Node} {target : Option Node} {name : String}
      (declares : model? value = some name)
      (again : ∃ earlier ∈ values before, model? earlier = some name) :
      Fault start before (.evaluated value target) (.duplicateModel name (start + value.start))

/-- The flags say what the places before contain. -/
structure Reflects (before : List Site) (declared : Declared) : Prop where
  props : declared.hasProps = true ↔ ∃ earlier ∈ values before, (propsCall? earlier).isSome = true
  emits : declared.hasEmits = true ↔ ∃ earlier ∈ values before, earlier.calls Macro.emits = true
  models : ∀ name, name ∈ declared.models ↔ ∃ earlier ∈ values before, model? earlier = some name

namespace MacroContext

variable (context : MacroContext)

def atSite (declared : Declared) : Site → Except CompileFailure Declared
  | .exported statement =>
    if exportsTypes statement then .ok declared
    else .error (.exportInSetup (context.offset statement))
  | .evaluated value target => context.apply declared value target

theorem foldlM_flatMap (sites : Node → List Site) (nodes : List Node) (declared : Declared) :
    (nodes.flatMap sites).foldlM context.atSite declared =
      nodes.foldlM (fun declared node => (sites node).foldlM context.atSite declared) declared := by
  induction nodes generalizing declared with
  | nil => rfl
  | cons node rest ih =>
    rw [List.flatMap_cons,List.foldlM_append,List.foldlM_cons]
    congr 1
    funext after
    exact ih after

theorem ofDeclarator_eq (declared : Declared) (declarator : Node) :
    context.ofDeclarator declared declarator =
      (Site.ofDeclarator declarator).foldlM context.atSite declared := by
  unfold ofDeclarator Site.ofDeclarator
  cases declarator.child? .value with
  | none => rfl
  | some value => simp [atSite]

theorem ofStatement_eq (declared : Declared) (statement : Node) :
    context.ofStatement declared statement =
      (Site.ofStatement statement).foldlM context.atSite declared := by
  unfold ofStatement Site.ofStatement
  split
  · simp [atSite]
  · split
    · cases statement.namedChildren.head? with
      | none => rfl
      | some expression => simp [atSite]
    · split
      · rw [foldlM_flatMap]
        congr 1
        funext declared declarator
        exact ofDeclarator_eq context declared declarator
      · rfl

theorem ofScript_eq (root : Node) :
    context.ofScript root = (Site.ofScript root).foldlM context.atSite Declared.nothing := by
  rw [ofScript,Site.ofScript,foldlM_flatMap]
  congr 1
  funext declared statement
  exact ofStatement_eq context declared statement

variable {context}

theorem flags_destructure (declared : Declared) (pattern : Node) :
    (declared.destructure pattern).hasEmits = declared.hasEmits ∧
      (declared.destructure pattern).models = declared.models := by
  have kept (declared : Declared) (element : Node) :
      (declared.takeApart element).hasEmits = declared.hasEmits ∧
        (declared.takeApart element).models = declared.models := by
    unfold Declared.takeApart
    split
    · exact ⟨rfl,rfl⟩
    · split <;> exact ⟨rfl,rfl⟩
  rw [Declared.destructure_eq]
  induction pattern.namedChildren generalizing declared with
  | nil => exact ⟨rfl,rfl⟩
  | cons element rest ih =>
    obtain ⟨emits,models⟩ := ih (declared.takeApart element)
    exact ⟨emits.trans (kept declared element).1,models.trans (kept declared element).2⟩

theorem declareProps_eq (declared : Declared) (call : Node) (target : Option Node) :
    (declared.hasProps = true ∧ context.declareProps declared call target =
      .error (.duplicateProps (context.offset call))) ∨
    (declared.hasProps = false ∧ call.callArguments ≠ [] ∧
      (call.child? .typeArguments).isSome = true ∧ context.declareProps declared call target =
        .error (.propsTypedAndValued (context.offset call))) ∨
    (declared.hasProps = false ∧ ¬(call.callArguments ≠ [] ∧
      (call.child? .typeArguments).isSome = true) ∧ ∃ after : Declared,
        context.declareProps declared call target = .ok after ∧ after.hasProps = true ∧
        after.hasEmits = declared.hasEmits ∧ after.models = declared.models) := by
  unfold declareProps
  split
  next given => exact .inl ⟨given,rfl⟩
  next missing =>
    have missing : declared.hasProps = false := by simpa using missing
    split
    next both =>
      have both : call.callArguments ≠ [] ∧ (call.child? .typeArguments).isSome = true := by
        simpa using both
      exact .inr (.inl ⟨missing,both.1,both.2,rfl⟩)
    next single =>
      have single : ¬(call.callArguments ≠ [] ∧ (call.child? .typeArguments).isSome = true) := by
        simpa using single
      refine .inr (.inr ⟨missing,single,?_⟩)
      cases target with
      | none => exact ⟨_,rfl,rfl,rfl,rfl⟩
      | some pattern =>
        dsimp only
        split
        · refine ⟨_,rfl,?_,?_⟩
          · rw [Declared.hasProps_destructure]
          · exact flags_destructure _ pattern
        · exact ⟨_,rfl,rfl,rfl,rfl⟩

end MacroContext

theorem Reflects.nothing : Reflects [] Declared.nothing := by
  constructor <;> simp [Declared.nothing,values]

variable {declared : Declared} {before : List Site} {component : Descriptor} {setup : Block}

theorem Reflects.snoc {site : Site} {after : Declared} (reflects : Reflects before declared)
    (props : after.hasProps = true ↔ declared.hasProps = true ∨
      ∃ value ∈ site.value?, (propsCall? value).isSome = true)
    (emits : after.hasEmits = true ↔ declared.hasEmits = true ∨
      ∃ value ∈ site.value?, value.calls Macro.emits = true)
    (models : ∀ name, name ∈ after.models ↔ name ∈ declared.models ∨
      ∃ value ∈ site.value?, model? value = some name) : Reflects (before ++ [site]) after := by
  have joined (holds : Node → Prop) : (∃ value ∈ values (before ++ [site]), holds value) ↔
      (∃ value ∈ values before, holds value) ∨ ∃ value ∈ site.value?, holds value := by
    have last : values [site] = site.value?.toList := by
      cases found : site.value? <;> simp [values,found]
    rw [values,List.filterMap_append,← values,← values,last]
    simp [or_and_right,exists_or]
  constructor
  · rw [joined,props,reflects.props]
  · rw [joined,emits,reflects.emits]
  · intro name
    rw [joined,models,reflects.models]

theorem exportsTypes_iff (statement : Node) :
    MacroContext.exportsTypes statement = true ↔ ExportsType statement := by
  unfold MacroContext.exportsTypes ExportsType
  cases statement.child? .declaration with
  | none => simp [Node.hasToken]
  | some declaration => simp [isTypeDeclaration]

theorem model?_eq :
    model? value = if value.calls Macro.model then some (MacroContext.modelName value) else none := by
  unfold model? MacroContext.modelName
  cases value.callArguments.head? with
  | none => rfl
  | some first =>
    cases named : first.unwrapped.stringValue? with
    | none => simp [named,Macro.defaultModel]
    | some name =>
      by_cases empty : name = "" <;> simp [named,empty,Macro.defaultModel,Option.filter]

structure Effect (value : Node) (lacks : Prop) (props : Option Node) (emits : Bool)
    (model : Option String) : Prop where
  lacks : LacksProps value ↔ lacks
  props : propsCall? value = props
  emits : value.calls Macro.emits = emits
  model : model? value = model

theorem apply_cases (context : MacroContext) (declared : Declared) (value : Node)
    (target : Option Node) :
    (Effect value True none false none ∧ context.apply declared value target =
      .error (.defaultsWithoutProps (context.offset value))) ∨
    (∃ call, Effect value False (some call) false none ∧
      context.apply declared value target = context.declareProps declared call target) ∨
    (Effect value False none true none ∧ context.apply declared value target =
      if declared.hasEmits then .error (.duplicateEmits (context.offset value))
      else .ok { declared with hasEmits := true }) ∨
    (∃ name, Effect value False none false (some name) ∧ context.apply declared value target =
      if declared.models.contains name then .error (.duplicateModel name (context.offset value))
      else .ok { declared with models := declared.models ++ [name] }) ∨
    (Effect value False none false none ∧ context.apply declared value target = .ok declared) := by
  have different : Macro.props ≠ Macro.defaults ∧ Macro.emits ≠ Macro.defaults ∧
      Macro.model ≠ Macro.defaults ∧ Macro.emits ≠ Macro.props ∧ Macro.model ≠ Macro.props ∧
      Macro.model ≠ Macro.emits := by decide
  obtain ⟨props,emits,model,emits',model',model''⟩ := different
  unfold MacroContext.apply
  cases callee : value.callee? with
  | none =>
    refine .inr (.inr (.inr (.inr ⟨?_,rfl⟩)))
    constructor <;> simp [LacksProps,propsCall?,model?_eq,Node.calls,callee]
  | some name =>
    dsimp only
    split
    next defaults =>
      subst defaults
      have otherwise (missing : ∀ first ∈ value.callArguments.head?, first.calls Macro.props = false) :
          Effect value True none false none := by
        constructor
        · simpa [LacksProps,Node.calls,callee] using missing
        · cases passed : value.callArguments.head? with
          | none => simp [propsCall?,Node.calls,callee,passed,props.symm]
          | some first =>
            have other : first.callee? ≠ some Macro.props := by
              simpa [Node.calls] using missing first passed
            simp [propsCall?,Node.calls,callee,passed,props.symm,other]
        · simp [Node.calls,callee,emits.symm]
        · simp [model?_eq,Node.calls,callee,model.symm]
      cases passed : value.callArguments.head? with
      | none => exact .inl ⟨otherwise (by simp [passed]),rfl⟩
      | some first =>
        dsimp only
        split
        next calls =>
          refine .inr (.inl ⟨first.unwrapped,?_,rfl⟩)
          have callee' : first.callee? = some Macro.props := by simpa [Node.calls] using calls
          constructor <;> simp [LacksProps,propsCall?,model?_eq,Node.calls,callee,passed,callee',emits.symm,
            props.symm,model.symm]
        next calls => exact .inl ⟨otherwise (by simp [passed,calls]),rfl⟩
    next noDefaults =>
      split
      next isProps =>
        refine .inr (.inl ⟨value,?_,rfl⟩)
        constructor <;> simp [LacksProps,propsCall?,model?_eq,Node.calls,callee,isProps,props,emits'.symm,
          model'.symm]
      next noProps =>
        split
        next isEmits =>
          refine .inr (.inr (.inl ⟨?_,rfl⟩))
          constructor <;> simp [LacksProps,propsCall?,model?_eq,Node.calls,callee,isEmits,emits,emits',
            model''.symm]
        next noEmits =>
          split
          next isModel =>
            refine .inr (.inr (.inr (.inl ⟨MacroContext.modelName value,?_,rfl⟩)))
            constructor <;> simp [LacksProps,propsCall?,model?_eq,Node.calls,callee,isModel,model,model',
              model'']
          next noModel =>
            refine .inr (.inr (.inr (.inr ⟨?_,rfl⟩)))
            constructor <;> simp [LacksProps,propsCall?,model?_eq,Node.calls,callee,noDefaults,noProps,
              noEmits,noModel]

theorem fault_evaluated_iff (before : List Site) (value : Node) (target : Option Node)
    (failure : CompileFailure) :
    Fault start before (.evaluated value target) failure ↔
      (LacksProps value ∧ .defaultsWithoutProps (start + value.start) = failure) ∨
      (∃ call, propsCall? value = some call ∧
        (∃ earlier ∈ values before, (propsCall? earlier).isSome = true) ∧
          .duplicateProps (start + call.start) = failure) ∨
      (∃ call, propsCall? value = some call ∧
        (¬∃ earlier ∈ values before, (propsCall? earlier).isSome = true) ∧
        (call.callArguments ≠ [] ∧ (call.child? .typeArguments).isSome = true) ∧
          .propsTypedAndValued (start + call.start) = failure) ∨
      (value.calls Macro.emits = true ∧
        (∃ earlier ∈ values before, earlier.calls Macro.emits = true) ∧
          .duplicateEmits (start + value.start) = failure) ∨
      ∃ name, model? value = some name ∧ (∃ earlier ∈ values before, model? earlier = some name) ∧
        .duplicateModel name (start + value.start) = failure := by
  have none : (¬∃ earlier ∈ values before, (propsCall? earlier).isSome = true) ↔
      ∀ earlier ∈ values before, propsCall? earlier = none := by simp
  rw [none]
  constructor
  · intro fault
    cases fault with
    | defaults lacks => exact .inl ⟨lacks,rfl⟩
    | secondProps declares again => exact .inr (.inl ⟨_,declares,again,rfl⟩)
    | typedAndValued declares first valued typed =>
      exact .inr (.inr (.inl ⟨_,declares,first,⟨valued,typed⟩,rfl⟩))
    | secondEmits calls again => exact .inr (.inr (.inr (.inl ⟨calls,again,rfl⟩)))
    | secondModel declares again => exact .inr (.inr (.inr (.inr ⟨_,declares,again,rfl⟩)))
  · rintro (⟨lacks,rfl⟩ | ⟨_,declares,again,rfl⟩ | ⟨_,declares,first,⟨valued,typed⟩,rfl⟩ |
      ⟨calls,again,rfl⟩ | ⟨_,declares,again,rfl⟩)
    · exact .defaults lacks
    · exact .secondProps declares again
    · exact .typedAndValued declares first valued typed
    · exact .secondEmits calls again
    · exact .secondModel declares again

theorem atSite_eq_error_iff {context : MacroContext} (reflects : Reflects before declared) (site : Site)
    (failure : CompileFailure) :
    context.atSite declared site = .error failure ↔ Fault context.start before site failure := by
  cases site with
  | exported statement =>
    have only : Fault context.start before (.exported statement) failure ↔
        ¬ExportsType statement ∧ .exportInSetup (context.start + statement.start) = failure := by
      constructor
      · rintro ⟨noType⟩
        exact ⟨noType,rfl⟩
      · rintro ⟨noType,rfl⟩
        exact .exports noType
    rw [only,← exportsTypes_iff,MacroContext.atSite]
    split
    next type => simp [type]
    next other => simp [other,MacroContext.offset]
  | evaluated value target =>
    rw [MacroContext.atSite,fault_evaluated_iff,← reflects.props,← reflects.emits]
    simp only [← reflects.models]
    rcases apply_cases context declared value target with ⟨effect,ran⟩ | ⟨call,effect,ran⟩ |
      ⟨effect,ran⟩ | ⟨name,effect,ran⟩ | ⟨effect,ran⟩
    · simp [effect.lacks,effect.props,effect.emits,effect.model,ran,MacroContext.offset]
    · rw [ran]
      rcases context.declareProps_eq declared call target with ⟨given,failed⟩ |
        ⟨missing,valued,typed,failed⟩ | ⟨missing,single,after,declares,_⟩
      · simp [effect.lacks,effect.props,effect.emits,effect.model,given,failed,MacroContext.offset]
      · simp [effect.lacks,effect.props,effect.emits,effect.model,missing,valued,typed,failed,
          MacroContext.offset]
      · simp [effect.lacks,effect.props,effect.emits,effect.model,missing,single,declares]
    · rw [ran]
      split
      next given => simp [effect.lacks,effect.props,effect.emits,effect.model,given,MacroContext.offset]
      next missing => simp [effect.lacks,effect.props,effect.emits,effect.model,missing]
    · rw [ran]
      split
      next given =>
        have given : name ∈ declared.models := by simpa using given
        simp [effect.lacks,effect.props,effect.emits,effect.model,given,MacroContext.offset]
      next missing =>
        have missing : name ∉ declared.models := by simpa using missing
        simp [effect.lacks,effect.props,effect.emits,effect.model,missing]
    · simp [effect.lacks,effect.props,effect.emits,effect.model,ran]

theorem Reflects.atSite {context : MacroContext} {after : Declared} (reflects : Reflects before declared)
    {site : Site} (accepted : context.atSite declared site = .ok after) :
    Reflects (before ++ [site]) after := by
  cases site with
  | exported statement =>
    rw [MacroContext.atSite] at accepted
    split at accepted
    · cases accepted
      apply reflects.snoc <;> simp [Site.value?]
    · contradiction
  | evaluated value target =>
    rw [MacroContext.atSite] at accepted
    rcases apply_cases context declared value target with ⟨effect,ran⟩ | ⟨call,effect,ran⟩ |
      ⟨effect,ran⟩ | ⟨name,effect,ran⟩ | ⟨effect,ran⟩
    · rw [ran] at accepted
      contradiction
    · rcases context.declareProps_eq declared call target with ⟨_,failed⟩ | ⟨_,_,_,failed⟩ |
        ⟨_,_,result,declares,given,sameEmits,sameModels⟩
      · rw [ran,failed] at accepted
        contradiction
      · rw [ran,failed] at accepted
        contradiction
      · rw [ran,declares] at accepted
        cases accepted
        apply reflects.snoc <;> simp [Site.value?,effect.props,effect.emits,effect.model,given,sameEmits,
          sameModels]
    · rw [ran] at accepted
      split at accepted
      · contradiction
      · cases accepted
        apply reflects.snoc <;> simp [Site.value?,effect.props,effect.emits,effect.model]
    · rw [ran] at accepted
      split at accepted
      · contradiction
      · cases accepted
        apply reflects.snoc
        · simp [Site.value?,effect.props]
        · simp [Site.value?,effect.emits]
        · intro other
          simp [Site.value?,effect.model,eq_comm (a := other)]
    · rw [ran] at accepted
      cases accepted
      apply reflects.snoc <;> simp [Site.value?,effect.props,effect.emits,effect.model]

/-- What holds at the start and is kept by every place that is accepted holds of a whole script. -/
theorem MacroContext.ofScript_induction {context : MacroContext} {motive : List Site → Declared → Prop}
    (nothing : motive [] Declared.nothing)
    (step : ∀ before site declared after, motive before declared →
      context.atSite declared site = .ok after → motive (before ++ [site]) after) {root : Node}
    (ran : context.ofScript root = .ok declared) : motive (Site.ofScript root) declared := by
  rw [MacroContext.ofScript_eq] at ran
  generalize Site.ofScript root = sites at ran ⊢
  induction sites using List.reverseRecOn generalizing declared with
  | nil =>
    cases ran
    exact nothing
  | append_singleton sites last ih =>
    rw [List.foldlM_append] at ran
    cases earlier : sites.foldlM context.atSite Declared.nothing with
    | error failure =>
      rw [earlier] at ran
      contradiction
    | ok middle =>
      simp only [earlier,List.foldlM_cons,List.foldlM_nil,bind_pure] at ran
      exact step sites last middle declared (ih earlier) ran

def Faultless : Prop :=
  ∀ before site after, sites = before ++ site :: after →
    ∀ failure, ¬Fault start before site failure

/-- The fault that is met first in source order. -/
def FirstFault (failure : CompileFailure) : Prop :=
  ∃ before site after, sites = before ++ site :: after ∧ Faultless start before ∧
    Fault start before site failure

theorem faultless_snoc_iff (last : Site) :
    Faultless start (sites ++ [last]) ↔
      Faultless start sites ∧ ∀ failure, ¬Fault start sites last failure := by
  constructor
  · intro faultless
    refine ⟨?_,faultless sites last [] rfl⟩
    rintro before site after rfl
    exact faultless before site (after ++ [last]) (by simp)
  · rintro ⟨faultless,sound⟩ before site after split
    rcases List.eq_nil_or_concat after with rfl | ⟨after,other,rfl⟩
    · obtain ⟨rfl,same⟩ := List.append_inj' split rfl
      cases same
      exact sound
    · have split : sites ++ [last] = (before ++ site :: after) ++ [other] := by simpa using split
      exact faultless before site after (List.append_inj' split rfl).1

namespace MacroContext

variable (context : MacroContext)

theorem exists_of_faultless (faultless : Faultless context.start sites) :
    ∃ declared, sites.foldlM context.atSite Declared.nothing = .ok declared ∧
      Reflects sites declared := by
  induction sites using List.reverseRecOn with
  | nil => exact ⟨Declared.nothing,rfl,Reflects.nothing⟩
  | append_singleton sites last ih =>
    obtain ⟨faultless,sound⟩ := (faultless_snoc_iff _ _ _).mp faultless
    obtain ⟨declared,ran,reflects⟩ := ih faultless
    cases accepted : context.atSite declared last with
    | error failure => exact absurd ((atSite_eq_error_iff reflects last failure).mp accepted) (sound failure)
    | ok after =>
      refine ⟨after,?_,reflects.atSite accepted⟩
      rw [List.foldlM_append,ran]
      simp [bind,Except.bind,accepted,pure,Except.pure]

theorem eq_error_of_firstFault {sites : List Site} {failure : CompileFailure}
    (first : FirstFault context.start sites failure) :
    sites.foldlM context.atSite Declared.nothing = .error failure := by
  obtain ⟨before,site,after,rfl,faultless,fault⟩ := first
  obtain ⟨declared,ran,reflects⟩ := context.exists_of_faultless before faultless
  rw [List.foldlM_append,ran]
  have failed := (atSite_eq_error_iff reflects site failure).mpr fault
  simp [bind,Except.bind,failed]

end MacroContext

theorem faultless_or_firstFault :
    Faultless start sites ∨ ∃ failure, FirstFault start sites failure := by
  induction sites using List.reverseRecOn with
  | nil =>
    left
    rintro before site after split
    simp at split
  | append_singleton sites last ih =>
    rcases ih with faultless | ⟨failure,before,site,after,rfl,faultless,fault⟩
    · by_cases sound : ∀ failure, ¬Fault start sites last failure
      · exact .inl ((faultless_snoc_iff _ _ _).mpr ⟨faultless,sound⟩)
      · obtain ⟨failure,fault⟩ := not_forall_not.mp sound
        exact .inr ⟨failure,sites,last,[],rfl,faultless,fault⟩
    · exact .inr ⟨failure,before,site,after ++ [last],by simp,faultless,fault⟩

theorem MacroContext.ofScript_eq_error_iff (context : MacroContext) (root : Node)
    (failure : CompileFailure) :
    context.ofScript root = .error failure ↔ FirstFault context.start (Site.ofScript root) failure := by
  rw [ofScript_eq]
  constructor
  · intro failed
    rcases faultless_or_firstFault context.start (Site.ofScript root) with faultless | ⟨other,first⟩
    · obtain ⟨declared,ran,_⟩ := context.exists_of_faultless _ faultless
      rw [ran] at failed
      contradiction
    · have same := failed.symm.trans (context.eq_error_of_firstFault first)
      cases same
      exact first
  · exact context.eq_error_of_firstFault

theorem MacroContext.exists_ofScript_iff (context : MacroContext) (root : Node) :
    (∃ declared, context.ofScript root = .ok declared) ↔
      Faultless context.start (Site.ofScript root) := by
  constructor
  · rintro ⟨declared,ran⟩
    rcases faultless_or_firstFault context.start (Site.ofScript root) with faultless | ⟨failure,first⟩
    · exact faultless
    · rw [(context.ofScript_eq_error_iff root failure).mpr first] at ran
      contradiction
  · intro faultless
    obtain ⟨declared,ran,_⟩ := context.exists_of_faultless _ faultless
    exact ⟨declared,(context.ofScript_eq root).trans ran⟩

/-- Places that go together in one script. -/
structure Orderly (sites : List Site) : Prop where
  exports : ∀ statement, .exported statement ∈ sites → ExportsType statement
  defaults : ∀ value ∈ values sites, ¬LacksProps value
  props : ((values sites).filterMap propsCall?).length ≤ 1
  single : ∀ call ∈ (values sites).filterMap propsCall?,
    call.callArguments = [] ∨ call.child? .typeArguments = none
  emits : ((values sites).filter fun value => value.calls Macro.emits).length ≤ 1
  models : ((values sites).filterMap model?).Nodup

theorem sound_evaluated_iff (before : List Site) (value : Node) (target : Option Node) :
    (∀ failure, ¬Fault start before (.evaluated value target) failure) ↔
      ¬LacksProps value ∧
      (∀ call, propsCall? value = some call → ∀ earlier ∈ values before, propsCall? earlier = none) ∧
      (∀ call, propsCall? value = some call →
        call.callArguments = [] ∨ call.child? .typeArguments = none) ∧
      (value.calls Macro.emits = true →
        ∀ earlier ∈ values before, earlier.calls Macro.emits = false) ∧
      ∀ name, model? value = some name → ∀ earlier ∈ values before, model? earlier ≠ some name := by
  constructor
  · intro sound
    have first (call : Node) (declares : propsCall? value = some call) :
        ∀ earlier ∈ values before, propsCall? earlier = none := by
      intro earlier member
      by_contra again
      exact sound _ (.secondProps declares ⟨earlier,member,Option.isSome_iff_ne_none.mpr again⟩)
    refine ⟨fun lacks => sound _ (.defaults lacks),first,?_,?_,?_⟩
    · intro call declares
      by_contra both
      obtain ⟨valued,typed⟩ := not_or.mp both
      exact sound _ (.typedAndValued declares (first call declares) valued
        (Option.isSome_iff_ne_none.mpr typed))
    · intro calls earlier member
      rw [Bool.eq_false_iff]
      exact fun again => sound _ (.secondEmits calls ⟨earlier,member,again⟩)
    · exact fun name declares earlier member again =>
        sound _ (.secondModel declares ⟨earlier,member,again⟩)
  · rintro ⟨defaults,first,single,emits,models⟩ failure fault
    cases fault with
    | defaults lacks => exact defaults lacks
    | secondProps declares again =>
      obtain ⟨earlier,member,given⟩ := again
      rw [first _ declares earlier member] at given
      contradiction
    | typedAndValued declares _ valued typed =>
      rcases single _ declares with empty | untyped
      · exact valued empty
      · rw [untyped] at typed
        contradiction
    | secondEmits calls again =>
      obtain ⟨earlier,member,given⟩ := again
      rw [emits calls earlier member] at given
      contradiction
    | secondModel declares again =>
      obtain ⟨earlier,member,given⟩ := again
      exact models _ declares earlier member given

theorem length_filterMap_snoc_le_one_iff {α : Type} (choose : Node → Option α) (nodes : List Node)
    (last : Node) :
    ((nodes ++ [last]).filterMap choose).length ≤ 1 ↔ (nodes.filterMap choose).length ≤ 1 ∧
      ∀ chosen, choose last = some chosen → ∀ node ∈ nodes, choose node = none := by
  rw [List.filterMap_append]
  cases found : choose last with
  | none => simp [found]
  | some chosen =>
    have short : (nodes.filterMap choose ++ [last].filterMap choose).length ≤ 1 ↔
        ∀ node ∈ nodes, choose node = none := by simp [found]
    rw [short]
    constructor
    · intro none
      rw [List.filterMap_eq_nil_iff.mpr none]
      exact ⟨Nat.zero_le 1,fun _ _ => none⟩
    · exact fun both => both.2 chosen rfl

theorem length_filter_snoc_le_one_iff (test : Node → Bool) (nodes : List Node) (last : Node) :
    ((nodes ++ [last]).filter test).length ≤ 1 ↔ (nodes.filter test).length ≤ 1 ∧
      (test last = true → ∀ node ∈ nodes, test node = false) := by
  have same := length_filterMap_snoc_le_one_iff (Option.guard test) nodes last
  simpa [List.filterMap_eq_filter,Option.guard_eq_some_iff,Option.guard_eq_none_iff] using same

theorem nodup_filterMap_snoc_iff {α : Type} (choose : Node → Option α) (nodes : List Node)
    (last : Node) :
    ((nodes ++ [last]).filterMap choose).Nodup ↔ (nodes.filterMap choose).Nodup ∧
      ∀ chosen, choose last = some chosen → ∀ node ∈ nodes, choose node ≠ some chosen := by
  rw [List.filterMap_append]
  cases found : choose last with
  | none => simp [found]
  | some chosen =>
    have fresh : chosen ∉ nodes.filterMap choose ↔ ∀ node ∈ nodes, choose node ≠ some chosen := by
      simp
    have only (holds : α → Prop) : (∀ other, some chosen = some other → holds other) ↔ holds chosen := by
      simp
    rw [only,← fresh,List.filterMap_cons_some found,List.filterMap_nil,
      List.perm_append_comm.nodup_iff,List.singleton_append,List.nodup_cons,and_comm]

theorem orderly_iff : Orderly sites ↔
    (∀ statement, .exported statement ∈ sites → ExportsType statement) ∧
    (∀ value ∈ values sites, ¬LacksProps value) ∧
    ((values sites).filterMap propsCall?).length ≤ 1 ∧
    (∀ value ∈ values sites, ∀ call, propsCall? value = some call →
      call.callArguments = [] ∨ call.child? .typeArguments = none) ∧
    ((values sites).filter fun value => value.calls Macro.emits).length ≤ 1 ∧
    ((values sites).filterMap model?).Nodup := by
  constructor
  · rintro ⟨exports,defaults,props,single,emits,models⟩
    exact ⟨exports,defaults,props,fun value member call declares =>
      single call (List.mem_filterMap.mpr ⟨value,member,declares⟩),emits,models⟩
  · rintro ⟨exports,defaults,props,single,emits,models⟩
    refine ⟨exports,defaults,props,fun call member => ?_,emits,models⟩
    obtain ⟨value,inside,declares⟩ := List.mem_filterMap.mp member
    exact single value inside call declares

theorem orderly_snoc_iff (last : Site) :
    Orderly (sites ++ [last]) ↔ Orderly sites ∧ ∀ failure, ¬Fault start sites last failure := by
  rw [orderly_iff,orderly_iff]
  cases last with
  | exported statement =>
    have same : values (sites ++ [.exported statement]) = values sites := by
      simp [values,Site.value?]
    have sound : (∀ failure, ¬Fault start sites (.exported statement) failure) ↔
        ExportsType statement := by
      constructor
      · intro sound
        by_contra noType
        exact sound _ (.exports noType)
      · rintro type failure ⟨noType⟩
        exact noType type
    rw [sound,same]
    simp only [List.mem_append,List.mem_singleton,Site.exported.injEq,or_imp,forall_and,forall_eq]
    tauto
  | evaluated value target =>
    have joined : values (sites ++ [.evaluated value target]) = values sites ++ [value] := by
      simp [values,Site.value?]
    rw [sound_evaluated_iff,joined,length_filterMap_snoc_le_one_iff,length_filter_snoc_le_one_iff,
      nodup_filterMap_snoc_iff]
    simp only [List.mem_append,List.mem_singleton,reduceCtorEq,or_false,or_imp,forall_and,forall_eq]
    tauto

theorem faultless_iff_orderly :
    Faultless start sites ↔ Orderly sites := by
  induction sites using List.reverseRecOn with
  | nil =>
    constructor
    · intro _
      constructor <;> simp [values]
    · intro _ before site after split
      simp at split
  | append_singleton sites last ih =>
    rw [faultless_snoc_iff,orderly_snoc_iff start,ih]

theorem sameLanguage_iff (first second : Option String) :
    sameLanguage first second = true ↔ first.getD "" = second.getD "" := by
  have given (lang : Option String) :
      (if lang = some "" then none else lang) = if lang.getD "" = "" then none else some (lang.getD "") := by
    cases lang with
    | none => rfl
    | some name => by_cases empty : name = "" <;> simp [empty]
  unfold sameLanguage
  simp only [given,decide_eq_true_eq]
  by_cases empty : first.getD "" = "" <;> by_cases empty' : second.getD "" = "" <;> simp [empty,empty',eq_comm]

/-- The plain script beside a setup script has its language and can be read. -/
def Accompanies (setup : Block) (plain : Block) : Prop :=
  plain.lang.getD "" = setup.lang.getD "" ∧
    (parse? (Dialect.ofLang setup.lang) plain.content).isSome = true

theorem compile_eq_compileSetup (block : component.scriptSetup = some setup)
    (accompanied : ∀ plain ∈ component.script, Accompanies setup plain) :
    ∃ plainRoot, component.script.mapM (parseBlock .plain setup.lang) = .ok plainRoot ∧
      compile component = compileSetup component.script setup := by
  cases script : component.script with
  | none => exact ⟨none,rfl,by simp [compile,block,script]⟩
  | some plain =>
    obtain ⟨language,readable⟩ := accompanied plain script
    obtain ⟨root,parsed⟩ := Option.isSome_iff_exists.mp readable
    refine ⟨some root,by simp [parseBlock,parsed],?_⟩
    simp [compile,block,script,(sameLanguage_iff _ _).mpr language]

theorem compileSetup_eq_error_iff {plain : Option Block} {plainRoot : Option Node} {root : Node}
    (plainRead : plain.mapM (parseBlock .plain setup.lang) = .ok plainRoot)
    (read : parse? (Dialect.ofLang setup.lang) setup.content = some root) (failure : CompileFailure) :
    compileSetup plain setup = .error failure ↔
      MacroContext.ofScript ⟨TypeDeclarations.ofScripts (plainRoot.toList ++ [root]),setup.start⟩ root =
        .error failure := by
  unfold compileSetup
  rw [plainRead]
  cases ran : MacroContext.ofScript
      ⟨TypeDeclarations.ofScripts (plainRoot.toList ++ [root]),setup.start⟩ root with
  | error _ => simp [bind,Except.bind,parseBlock,read,ran]
  | ok declared => simp [bind,Except.bind,pure,Except.pure,parseBlock,read,ran]

theorem accompanies_of_compile {compiled : Compiled} (block : component.scriptSetup = some setup)
    (accepted : compile component = .ok compiled) :
    ∀ plain ∈ component.script, Accompanies setup plain := by
  intro plain script
  rw [compile,block,Option.mem_def.mp script] at accepted
  dsimp only at accepted
  split at accepted
  next language =>
    obtain ⟨plainRoot,_,_,read,_⟩ := (compileSetup_eq_ok_iff _ _ _).mp accepted
    refine ⟨(sameLanguage_iff _ _).mp language,?_⟩
    cases parsed : parse? (Dialect.ofLang setup.lang) plain.content with
    | some root => rfl
    | none => simp [parseBlock,parsed] at read
  next => contradiction

/-- A component with a setup script compiles just when the plain script beside it has its language,
both can be read, and what is exported and declared at the top of the setup script goes together.
Where nothing but the last is amiss, the failure is the first fault in source order. -/
theorem compile_fails_at_the_first_fault (component : Descriptor) (setup : Block)
    (block : component.scriptSetup = some setup) :
    ((∃ compiled, compile component = .ok compiled) ↔
      (∀ plain ∈ component.script, Accompanies setup plain) ∧
        ∃ root, parse? (Dialect.ofLang setup.lang) setup.content = some root ∧
          Orderly (Site.ofScript root)) ∧
    ∀ root, (∀ plain ∈ component.script, Accompanies setup plain) →
      parse? (Dialect.ofLang setup.lang) setup.content = some root →
        ∀ failure, compile component = .error failure ↔
          FirstFault setup.start (Site.ofScript root) failure := by
  constructor
  · constructor
    · rintro ⟨compiled,accepted⟩
      obtain ⟨_,root,context,declared,parsed,ran,_⟩ := exists_of_compile block accepted
      refine ⟨accompanies_of_compile block accepted,root,parsed,?_⟩
      rw [← faultless_iff_orderly context.start]
      exact (context.exists_ofScript_iff root).mp ⟨declared,ran⟩
    · rintro ⟨accompanied,root,parsed,orderly⟩
      obtain ⟨plainRoot,plainRead,same⟩ := compile_eq_compileSetup block accompanied
      rw [← faultless_iff_orderly setup.start] at orderly
      obtain ⟨declared,ran⟩ := (MacroContext.exists_ofScript_iff
        ⟨TypeDeclarations.ofScripts (plainRoot.toList ++ [root]),setup.start⟩ root).mpr orderly
      rw [same]
      exact ⟨_,(compileSetup_eq_ok_iff _ _ _).mpr
        ⟨plainRoot,root,declared,plainRead,by simp [parseBlock,parsed],ran,rfl⟩⟩
  · intro root accompanied parsed failure
    obtain ⟨plainRoot,plainRead,same⟩ := compile_eq_compileSetup block accompanied
    rw [same,compileSetup_eq_error_iff plainRead parsed,MacroContext.ofScript_eq_error_iff]

def bothScripts (plain setup : Block) : Descriptor :=
  { Descriptor.empty "Card.vue" with script := some plain, scriptSetup := some setup }

theorem second_model_is_the_first_fault :
    let plain : Block := ⟨"script","export default \x7b\x7d".toList,8,25,∅,some "",false⟩
    let content := ("const größe = defineModel('size')\ndefineEmits(['a'])\n" ++
      "const [a] = [defineModel('size')], b = defineModel(`size`)\nexport default 1").toList
    let setup : Block := ⟨"script",content,50,178,∅,none,true⟩
    ∃ root, parse? (Dialect.ofLang setup.lang) setup.content = some root ∧
      Accompanies setup plain ∧
      compile (bothScripts plain setup) = .error (.duplicateModel "size" 142) ∧
      FirstFault 50 (Site.ofScript root) (.duplicateModel "size" 142) ∧
      ¬Orderly (Site.ofScript root) := by
  rw [String.toList_append]
  repeat rw [String.toList_ofList]
  intro plain content setup
  have parsed : (parse? (Dialect.ofLang setup.lang) setup.content).isSome = true := by
    decide +kernel
  have failed : compile (bothScripts plain setup) = .error (.duplicateModel "size" 142) := by
    decide +kernel
  have accompanies : Accompanies setup plain := ⟨rfl,by decide +kernel⟩
  have accompanied : ∀ other ∈ (bothScripts plain setup).script, Accompanies setup other := by
    rintro other ⟨⟩
    exact accompanies
  obtain ⟨root,parsed⟩ := Option.isSome_iff_exists.mp parsed
  obtain ⟨succeeds,fails⟩ := compile_fails_at_the_first_fault (bothScripts plain setup) setup rfl
  refine ⟨root,parsed,accompanies,failed,(fails root accompanied parsed _).mp failed,?_⟩
  intro orderly
  obtain ⟨compiled,accepted⟩ := succeeds.mpr ⟨accompanied,root,parsed,orderly⟩
  cases accepted.symm.trans failed

end VueScope.Setup
