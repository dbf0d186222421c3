import VueScope.Proofs.Script.Unplaced
import VueScope.Proofs.Setup.Constants
import VueScope.Proofs.Setup.Faults
import VueScope.Proofs.Setup.Shift
import VueScope.Proofs.Setup.TypeKeys

/-! The macros and the declarations of a script, and the options that it exports, do not depend on the
places of its nodes. -/
namespace VueScope.Setup

open Script Component Node

@[simp] theorem isTypeDeclaration_unplaced (node : Node) :
    isTypeDeclaration node.unplaced = isTypeDeclaration node := by
  simp [isTypeDeclaration]

@[simp] theorem declarationOf?_unplaced (node : Node) :
    declarationOf? node.unplaced = (declarationOf? node).map Node.unplaced := by
  unfold declarationOf?
  rw [kind_unplaced,child?_unplaced]
  split <;> rfl

theorem declared?_unplaced (node : Node) :
    TypeDeclarations.declared? node.unplaced =
      (TypeDeclarations.declared? node).map fun entry => (entry.1,entry.2.unplaced) := by
  unfold TypeDeclarations.declared?
  rw [declarationOf?_unplaced]
  cases declarationOf? node with
  | none => rfl
  | some declaration =>
    simp only [Option.map_some,isTypeDeclaration_unplaced,child?_unplaced]
    split
    next => cases declaration.child? .name <;> simp
    next => rfl

theorem signatureKeys_unplaced (nodes : List Node) :
    signatureKeys (nodes.map Node.unplaced) = signatureKeys nodes := by
  simp only [signatureKeys,List.filterMap_map,Function.comp_def,kind_unplaced,child?_unplaced,
    Option.bind_map,keyName?_unplaced]

section Keys

variable (named : String → List String)

theorem likeKeys_unplaced (node : Node) : LikeKeys named node node.unplaced ∧
    keysOfFirst named node.unplaced.children = keysOfFirst named node.children := by
  induction node using Node.byParts with
  | step node ih =>
    have parts : List.Forall₂ (LikeKeys named) node.children node.unplaced.children := by
      rw [children_unplaced]
      exact List.forall₂_map_right_iff.mpr (List.forall₂_same.mpr fun part inside => (ih part inside).1)
    have passed : keysOfArguments named node.unplaced.children = keysOfArguments named node.children := by
      rw [keysOfArguments_eq,keysOfArguments_eq,← Node.child?,← Node.child?,child?_unplaced]
      cases found : node.child? .typeArguments with
      | none => rfl
      | some list => exact (ih list (List.mem_of_find?_eq_some found)).2
    have written : genericName node.unplaced = genericName node := by
      simp [genericName,Function.comp_def]
    refine ⟨⟨by rw [kind_unplaced],?_⟩,keysOfFirst_congr named parts⟩
    rw [keysOfType_eq,keysOfType_eq,passed,keysOfParts_congr named parts,namedChildren_unplaced,
      signatureKeys_unplaced,kind_unplaced,name_unplaced,written]

theorem keysOfType_unplaced (node : Node) : keysOfType named node.unplaced = keysOfType named node :=
  (likeKeys_unplaced named node).1.whole

theorem bases_unplaced (node : Node) : bases node.unplaced = (bases node).map Node.unplaced := by
  simp [bases,List.filter_map,Function.comp_def,List.map_flatten]

theorem keysOfDeclaration_unplaced (node : Node) :
    keysOfDeclaration named node.unplaced = keysOfDeclaration named node := by
  unfold keysOfDeclaration
  simp only [kind_unplaced,child?_unplaced,bases_unplaced,List.foldl_map,keysOfType_unplaced]
  split
  next => cases node.child? .value <;> simp [keysOfType_unplaced]
  next => cases node.child? .body <;> simp [keysOfType_unplaced]

end Keys

theorem typeKeys_unplaced (entries : List (String × Node)) (node : Node) :
    typeKeys (OrderedMap.ofList (entries.map fun entry => (entry.1,entry.2.unplaced))) node.unplaced =
      typeKeys (OrderedMap.ofList entries) node := by
  have names := @keysOfName_congr (OrderedMap.ofList entries)
    (OrderedMap.ofList (entries.map fun entry => (entry.1,entry.2.unplaced))) fun named name => by
      rw [OrderedMap.get?_ofList_map,Option.map_map]
      exact Option.map_congr fun declaration _ => keysOfDeclaration_unplaced named declaration
  rw [typeKeys,OrderedMap.size_ofList_map,names,keysOfType_unplaced,typeKeys]

theorem entry?_unplaced (node : Node) : Declared.entry? node.unplaced = Declared.entry? node := by
  unfold Declared.entry?
  simp only [kind_unplaced,name_unplaced,child?_unplaced,Option.map_map,
    Function.comp_def,Option.bind_map,keyName?_unplaced]
  split
  next => rfl
  next => rfl
  next =>
    cases node.child? .value with
    | none => rfl
    | some value =>
      simp only [Option.map_some,kind_unplaced,child?_unplaced]
      by_cases assigned : value.kind = .assignmentPattern
      · cases value.child? .left <;> simp [assigned]
      · simp [assigned]
  next => rfl

namespace Declared

variable (declared : Declared)

theorem destructure_unplaced (pattern : Node) :
    declared.destructure pattern.unplaced = declared.destructure pattern := by
  simp only [destructure_eq,namedChildren_unplaced,List.foldl_map]
  congr 1
  funext declared element
  simp only [takeApart,kind_unplaced,boundNames_unplaced,entry?_unplaced]

end Declared

namespace MacroContext

variable (context : MacroContext)

theorem propKeys_relabeled (call : Node) (field : Option Field) :
    context.propKeys { call with field := field } = context.propKeys call := by
  simp only [propKeys,callArguments_relabeled]
  rfl

theorem modelName_relabeled (call : Node) (field : Option Field) :
    modelName { call with field := field } = modelName call := by
  simp only [modelName,callArguments_relabeled]

theorem modelName_unplaced (call : Node) : modelName call.unplaced = modelName call := by
  simp only [modelName,callArguments_unplaced,List.head?_map]
  cases call.callArguments.head? <;> simp

theorem exportsTypes_unplaced (statement : Node) :
    exportsTypes statement.unplaced = exportsTypes statement := by
  unfold exportsTypes
  rw [child?_unplaced,hasToken_unplaced]
  cases statement.child? .declaration <;> simp

theorem declareProps_relabeled (declared : Declared) (call : Node) (field : Option Field)
    (target : Option Node) :
    context.declareProps declared { call with field := field } target =
      context.declareProps declared call target := by
  simp only [declareProps,callArguments_relabeled,propKeys_relabeled]
  rfl

theorem apply_relabeled (declared : Declared) (value : Node) (field : Option Field)
    (target : Option Node) :
    context.apply declared { value with field := field } target =
      context.apply declared value target := by
  simp only [apply,callee?_relabeled,callArguments_relabeled,declareProps_relabeled,
    modelName_relabeled]
  rfl

variable {context} {other : MacroContext}
  (types : ∀ type : Node, typeKeys other.types type.unplaced = typeKeys context.types type)

include types

theorem propKeys_unplaced (call : Node) : other.propKeys call.unplaced = context.propKeys call := by
  unfold propKeys
  simp only [child?_unplaced,callArguments_unplaced,List.head?_map]
  cases call.child? .typeArguments with
  | none => cases call.callArguments.head? <;> simp
  | some list =>
    simp only [Option.map_some,namedChildren_unplaced,List.find?_map,Function.comp_def,
      kind_unplaced]
    cases list.namedChildren.find? fun child => child.kind ≠ .comment <;> simp [types]

theorem declareProps_unplaced (declared : Declared) (call : Node) (target : Option Node) :
    (other.declareProps declared call.unplaced (target.map Node.unplaced)).toOption =
      (context.declareProps declared call target).toOption := by
  unfold declareProps
  simp only [callArguments_unplaced,List.isEmpty_map,child?_unplaced,Option.isSome_map,
    propKeys_unplaced types]
  split
  next => rfl
  next =>
    split
    next => rfl
    next => cases target <;> simp [Declared.destructure_unplaced]

theorem apply_unplaced (declared : Declared) (value : Node) (target : Option Node) :
    (other.apply declared value.unplaced (target.map Node.unplaced)).toOption =
      (context.apply declared value target).toOption := by
  unfold apply
  simp only [callee?_unplaced,callArguments_unplaced,List.head?_map,modelName_unplaced]
  cases value.callee? with
  | none => rfl
  | some callee =>
    dsimp only
    split
    next =>
      cases value.callArguments.head? with
      | none => rfl
      | some first =>
        simp only [Option.map_some,calls_unplaced,unwrapped_unplaced]
        split
        next => exact declareProps_unplaced types declared first.unwrapped target
        next => rfl
    next =>
      split
      next => exact declareProps_unplaced types declared value target
      next =>
        split
        next => split <;> rfl
        next =>
          split
          next => split <;> rfl
          next => rfl

end MacroContext

namespace Site

def form : Site → Site
  | exported statement => exported statement.unplaced
  | evaluated value target => evaluated value.form (target.map Node.unplaced)

theorem atSite_form {context other : MacroContext}
    (types : ∀ type : Node, typeKeys other.types type.unplaced = typeKeys context.types type)
    (declared : Declared) (site : Site) :
    (other.atSite declared site.form).toOption = (context.atSite declared site).toOption := by
  cases site with
  | exported statement =>
    rw [form,MacroContext.atSite,MacroContext.atSite,MacroContext.exportsTypes_unplaced]
    split <;> rfl
  | evaluated value target =>
    rw [form,MacroContext.atSite,MacroContext.atSite,Node.form,MacroContext.apply_relabeled]
    exact MacroContext.apply_unplaced types declared value target

theorem form_ofDeclarator (declarator : Node) :
    (ofDeclarator declarator).map form =
      (((declarator.child? .value).map fun value => value.unwrapped.form).map fun value =>
        evaluated value ((declarator.child? .name).map Node.unplaced)).toList := by
  unfold ofDeclarator
  cases declarator.child? .value <;> rfl

theorem form_ofDeclarator_unplaced (declarator : Node) :
    (ofDeclarator declarator.unplaced).map form = (ofDeclarator declarator).map form := by
  rw [form_ofDeclarator,form_ofDeclarator,child?_unplaced,child?_unplaced,Option.map_map,
    Option.map_map]
  simp [Function.comp_def,unplaced_unplaced]

theorem form_ofStatement_unplaced (statement : Node) :
    (ofStatement statement.unplaced).map form = (ofStatement statement).map form := by
  unfold ofStatement
  simp only [kind_unplaced,isVariableDeclaration_unplaced,declarators_unplaced,
    namedChildren_unplaced,List.head?_map]
  split
  next => simp [form,unplaced_unplaced]
  next =>
    split
    next => cases statement.namedChildren.head? <;> simp [form]
    next =>
      split
      next =>
        rw [List.flatMap_map,List.map_flatMap,List.map_flatMap]
        exact List.flatMap_congr fun declarator _ => form_ofDeclarator_unplaced declarator
      next => rfl

end Site

section Values

variable (producers : Producers)

theorem makesReactive_unplaced (node : Node) :
    producers.makesReactive node.unplaced = producers.makesReactive node := by
  unfold Producers.makesReactive
  cases producers.reactive <;> simp

theorem makesReactive_form (node : Node) :
    producers.makesReactive node.form = producers.makesReactive node := by
  unfold Producers.makesReactive
  cases producers.reactive <;> simp

theorem neverRef_unplaced (node : Node) : neverRef producers node.unplaced = neverRef producers node := by
  induction node using Node.byParts with
  | step node ih =>
    have inner (part : Node) (inside : part ∈ node.namedChildren) :
        neverRef producers part.unplaced = neverRef producers part :=
      ih part (List.mem_filter.mp inside).1
    rw [neverRef_eq,neverRef_eq,kind_unplaced,namedChildren_unplaced,List.head?_map,
      List.getLast?_map,makesReactive_unplaced]
    split
    next =>
      cases first : node.namedChildren.head? with
      | none => rfl
      | some part => exact inner part (List.mem_of_mem_head? first)
    next =>
      split
      next =>
        cases last : node.namedChildren.getLast? with
        | none => rfl
        | some part => exact inner part (List.mem_of_getLast? last)
      next => rfl

theorem neverRef_form (node : Node) : neverRef producers node.form = neverRef producers node := by
  rw [← neverRef_unplaced producers node,neverRef_eq,neverRef_eq,makesReactive_form,
    makesReactive_unplaced]
  rfl

theorem declaresProps_form (node : Node) : declaresProps node.form = declaresProps node := by
  simp only [declaresProps,calls_form,callArguments_form,List.head?_map]
  cases node.callArguments.head? <;> simp

theorem constBinding_form (value : Node) :
    constBinding producers value.form = constBinding producers value := by
  simp only [constBinding,isStatic_form,makesReactive_form,callsAny_form,neverRef_form,
    declaresProps_form]

def bindingsOfParts (isConst : Bool) (target value : Option Node) : List (String × BindingKind) :=
  match target with
  | none => []
  | some target =>
    if target.kind = .identifier then [(target.name,nameBinding producers isConst value)]
    else if value.any declaresProps then []
    else target.boundNames.map (·,patternBinding isConst value)

theorem declaratorBindings_eq (isConst : Bool) (declarator : Node) :
    declaratorBindings producers isConst declarator =
      bindingsOfParts producers isConst ((declarator.child? .name).map Node.unplaced)
        ((declarator.child? .value).map fun value => value.unwrapped.form) := by
  have name (value : Option Node) :
      nameBinding producers isConst (value.map Node.form) = nameBinding producers isConst value := by
    cases value <;> simp [nameBinding,constBinding_form]
  have pattern (value : Option Node) :
      patternBinding isConst (value.map Node.form) = patternBinding isConst value := by
    cases value <;> simp [patternBinding]
  have props (value : Option Node) : (value.map Node.form).any declaresProps = value.any declaresProps := by
    cases value <;> simp [declaresProps_form]
  have inner : ((declarator.child? .value).map fun value => value.unwrapped.form) =
      ((declarator.child? .value).map Node.unwrapped).map Node.form := by
    rw [Option.map_map]
    rfl
  rw [inner]
  unfold declaratorBindings bindingsOfParts
  cases declarator.child? .name with
  | none => rfl
  | some target =>
    simp only [Option.map_some,kind_unplaced,name_unplaced,boundNames_unplaced,name,pattern,
      props]

theorem declarationBindings_unplaced (node : Node) :
    declarationBindings producers node.unplaced = declarationBindings producers node := by
  have each (isConst : Bool) (declarator : Node) :
      declaratorBindings producers isConst declarator.unplaced =
        declaratorBindings producers isConst declarator := by
    simp [declaratorBindings_eq,Function.comp_def,unplaced_unplaced]
  simp only [declarationBindings,jointBindings_eq,kind_unplaced,child?_unplaced,
    isVariableDeclaration_unplaced,declarationKind?_unplaced,declarators_unplaced,
    Option.map_map,List.map_map,Function.comp_def,name_unplaced,each]

end Values

end VueScope.Setup

namespace VueScope.Options

open Script Node

theorem objectOfExport?_unplaced (value : Node) :
    objectOfExport? value.unplaced = (objectOfExport? value).map Node.unplaced := by
  simp only [objectOfExport?,unwrapped_unplaced,kind_unplaced,calls_unplaced,
    callArguments_unplaced,List.head?_map]
  split
  next => rfl
  next =>
    split
    next =>
      cases value.unwrapped.callArguments.head? with
      | none => rfl
      | some first =>
        simp only [Option.map_some,unwrapped_unplaced,kind_unplaced]
        split <;> rfl
    next => rfl

theorem defaultValue?_unplaced (statement : Node) :
    defaultValue? statement.unplaced = (defaultValue? statement).map Node.unplaced := by
  simp only [defaultValue?,kind_unplaced,hasToken_unplaced,child?_unplaced]
  split <;> rfl

theorem value?_unplaced (member : Node) :
    value? member.unplaced = (value? member).map Node.unplaced := by
  simp only [value?,kind_unplaced,child?_unplaced]
  split
  next => cases member.child? .value <;> simp
  next => rfl

theorem function?_unplaced (member : Node) :
    function? member.unplaced = (function? member).map Node.unplaced := by
  simp only [function?,kind_unplaced,value?_unplaced]
  split
  next => rfl
  next =>
    cases value? member with
    | none => rfl
    | some value =>
      simp only [Option.map_some,isFunction_unplaced]
      split <;> rfl

theorem returnedBy_unplaced (statement : Node) :
    returnedBy statement.unplaced = (returnedBy statement).map Node.unplaced := by
  simp only [returnedBy,kind_unplaced,namedChildren_unplaced]
  split
  next => simp [List.filter_map,Function.comp_def]
  next => rfl

theorem returnedObjects_unplaced (function : Node) :
    returnedObjects function.unplaced = (returnedObjects function).map Node.unplaced := by
  simp only [returnedObjects,child?_unplaced]
  cases function.child? .body with
  | none => rfl
  | some body =>
    simp only [Option.map_some,kind_unplaced,namedChildren_unplaced,unwrapped_unplaced]
    split
    next => simp [List.map_flatten,Function.comp_def,returnedBy_unplaced]
    next => split <;> rfl

theorem bindingsOf_unplaced (key : String) (member : Node) :
    bindingsOf key member.unplaced = bindingsOf key member := by
  unfold bindingsOf
  rw [function?_unplaced,value?_unplaced]
  cases function? member <;> cases value? member <;>
    simp [returnedObjects_unplaced,Function.comp_def]

theorem bindings_unplaced (component : Node) : bindings component.unplaced = bindings component := by
  simp [bindings,Function.comp_def,bindingsOf_unplaced]

end VueScope.Options
