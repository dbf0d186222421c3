import Mathlib.Data.List.Basic
import VueScope.Proofs.Script.Parts
import VueScope.Script.Imports
import VueScope.Script.Members

/-! Trees without their places. What a script says about its names can be read from its tree when the
offsets are forgotten, so two texts whose trees differ in nothing else mean the same. -/
namespace VueScope.Script.Node

mutual

/-- The same tree with all offsets forgotten. -/
def unplaced : Node → Node
  | ⟨kind,field,_,_,text,children⟩ => ⟨kind,field,0,0,text,unplacedAll children⟩

def unplacedAll : List Node → List Node
  | [] => []
  | node :: rest => unplaced node :: unplacedAll rest

end

theorem unplacedAll_eq (nodes : List Node) : unplacedAll nodes = nodes.map unplaced := by
  induction nodes with
  | nil => rfl
  | cons node rest ih => rw [unplacedAll,ih,List.map_cons]

variable (node : Node) (field : Option Field)

@[simp] theorem kind_unplaced : node.unplaced.kind = node.kind := by
  cases node
  rfl

@[simp] theorem field_unplaced : node.unplaced.field = node.field := by
  cases node
  rfl

@[simp] theorem text_unplaced : node.unplaced.text = node.text := by
  cases node
  rfl

@[simp] theorem name_unplaced : node.unplaced.name = node.name := by
  rw [name,text_unplaced,name]

@[simp] theorem children_unplaced :
    node.unplaced.children = node.children.map unplaced := by
  cases node
  exact unplacedAll_eq _

@[simp] theorem namedChildren_unplaced :
    node.unplaced.namedChildren = node.namedChildren.map unplaced := by
  simp [namedChildren,List.filter_map,Function.comp_def]

@[simp] theorem child?_unplaced (field : Field) :
    node.unplaced.child? field = (node.child? field).map unplaced := by
  simp only [child?,children_unplaced,List.find?_map,Function.comp_def,field_unplaced]

@[simp] theorem hasToken_unplaced (kind : Kind) :
    node.unplaced.hasToken kind = node.hasToken kind := by
  simp [hasToken,List.any_map,Function.comp_def]

@[simp] theorem unwrapped_unplaced :
    node.unplaced.unwrapped = node.unwrapped.unplaced := by
  induction node using byParts with
  | step node ih =>
    rw [unwrapped_eq,unwrapped_eq,kind_unplaced,namedChildren_unplaced,List.head?_map]
    split
    next =>
      cases first : node.namedChildren.head? with
      | none => rfl
      | some part => exact ih part (List.mem_filter.mp (List.mem_of_mem_head? first)).1
    next => rfl

@[simp] theorem callee?_unplaced : node.unplaced.callee? = node.callee? := by
  simp only [callee?,unwrapped_unplaced,kind_unplaced,child?_unplaced]
  cases node.unwrapped.child? .function with
  | none => rfl
  | some function => simp

@[simp] theorem calls_unplaced (name : String) :
    node.unplaced.calls name = node.calls name := by
  rw [calls,callee?_unplaced,calls]

@[simp] theorem callArguments_unplaced :
    node.unplaced.callArguments = node.callArguments.map unplaced := by
  unfold callArguments
  rw [unwrapped_unplaced,child?_unplaced]
  cases node.unwrapped.child? .arguments with
  | none => rfl
  | some passed => simp [List.filter_map,Function.comp_def]

@[simp] theorem isFunction_unplaced : node.unplaced.isFunction = node.isFunction := by
  rw [isFunction,unwrapped_unplaced,kind_unplaced,isFunction]

@[simp] theorem stringValue?_unplaced :
    node.unplaced.stringValue? = node.stringValue? := by
  simp [stringValue?,unquoted,List.any_map,Function.comp_def]

@[simp] theorem keyName?_unplaced : node.unplaced.keyName? = node.keyName? := by
  simp [keyName?]

@[simp] theorem memberKey?_unplaced : node.unplaced.memberKey? = node.memberKey? := by
  simp only [memberKey?,kind_unplaced,child?_unplaced,Option.bind_map,Function.comp_def,keyName?_unplaced,
    name_unplaced]

@[simp] theorem keyedMembers_unplaced :
    node.unplaced.keyedMembers = node.keyedMembers.map fun entry => (entry.1,entry.2.unplaced) := by
  unfold keyedMembers
  rw [namedChildren_unplaced,List.filterMap_map,List.map_filterMap]
  congr 1
  funext member
  rw [Function.comp_apply,memberKey?_unplaced]
  cases member.memberKey? with
  | none => rfl
  | some key => by_cases empty : key = "" <;> simp [empty]

@[simp] theorem objectKeys_unplaced : node.unplaced.objectKeys = node.objectKeys := by
  simp [objectKeys]

@[simp] theorem listedKeys_unplaced : node.unplaced.listedKeys = node.listedKeys := by
  simp [listedKeys,stringElements,List.filterMap_map]

theorem likeStatic_unplaced : node.LikeStatic node.unplaced := by
  induction node using byParts with
  | step node ih =>
    have parts : List.Forall₂ LikeStatic node.children node.unplaced.children := by
      rw [children_unplaced]
      exact List.forall₂_map_right_iff.mpr (List.forall₂_same.mpr ih)
    exact ⟨field_unplaced node,by rw [kind_unplaced],by rw [kind_unplaced],
      isStatic_of_forall₂ (kind_unplaced node) parts,fun _ => firstStatic_eq parts⟩

theorem boundIdentifiers_unplaced :
    node.unplaced.boundIdentifiers = node.boundIdentifiers.map unplaced := by
  induction node using byParts with
  | step node ih =>
    have parts : node.unplaced.binderParts = node.binderParts.map unplaced := by
      unfold binderParts
      simp only [kind_unplaced,child?_unplaced,namedChildren_unplaced,Option.toList_map]
      split <;> first | rfl | split <;> rfl
    rw [boundIdentifiers_eq,boundIdentifiers_eq,kind_unplaced,parts]
    split
    · rfl
    · rw [List.flatMap_map,List.map_flatMap]
      exact List.flatMap_congr fun part inside => ih part (node.binderParts_sublist.subset inside)

@[simp] theorem boundNames_unplaced : node.unplaced.boundNames = node.boundNames := by
  simp [boundNames,boundIdentifiers_unplaced]

@[simp] theorem declarationKind?_unplaced :
    node.unplaced.declarationKind? = node.declarationKind? := by
  simp [declarationKind?,List.findSome?_map,Function.comp_def]

@[simp] theorem declarators_unplaced :
    node.unplaced.declarators = node.declarators.map unplaced := by
  simp [declarators,List.filter_map,Function.comp_def]

@[simp] theorem isVariableDeclaration_unplaced :
    node.unplaced.isVariableDeclaration = node.isVariableDeclaration := by
  rw [isVariableDeclaration,kind_unplaced,isVariableDeclaration]

@[simp] theorem importedNames?_unplaced :
    node.unplaced.importedNames? = node.importedNames? := by
  unfold importedNames?
  rw [child?_unplaced,child?_unplaced]
  cases node.child? .name with
  | none => rfl
  | some written => cases node.child? .aliasName <;> simp

theorem importsOfPart_unplaced (source : String) (isType : Bool) (node : Node) :
    node.unplaced.importsOfPart source isType = node.importsOfPart source isType := by
  simp [importsOfPart,List.filter_map,List.filterMap_map,Function.comp_def]

@[simp] theorem importsOfStatement_unplaced :
    node.unplaced.importsOfStatement = node.importsOfStatement := by
  simp [importsOfStatement,importSource?,Option.bind_map,Function.comp_def,List.filter_map,
    importsOfPart_unplaced]

theorem unplaced_unplaced : node.unplaced.unplaced = node.unplaced := by
  induction node using byParts with
  | step node ih =>
    obtain ⟨kind,field,start,stop,text,children⟩ := node
    simp only [unplaced,unplacedAll_eq,List.map_map]
    congr 1
    exact List.map_congr_left fun part inside => ih part inside

/-- A node apart from its place and from the part that it plays. -/
def form : Node :=
  { node.unplaced with field := none }

theorem form_of_unplaced {node other : Node} (same : other.unplaced = node.unplaced) :
    other.form = node.form := by
  rw [form,same,form]

@[simp] theorem form_unplaced : node.unplaced.form = node.form :=
  form_of_unplaced node.unplaced_unplaced

@[simp] theorem kind_form : node.form.kind = node.kind :=
  kind_unplaced node

@[simp] theorem namedChildren_form :
    node.form.namedChildren = node.namedChildren.map unplaced :=
  namedChildren_unplaced node

theorem unwrapped_of_form {node other : Node} (same : other.form = node.form) :
    other.unwrapped.form = node.unwrapped.form := by
  have kind : other.kind = node.kind := by simpa using congrArg kind same
  have parts : other.namedChildren.map unplaced = node.namedChildren.map unplaced := by
    simpa using congrArg namedChildren same
  have first := congrArg List.head? parts
  rw [List.head?_map,List.head?_map] at first
  rw [unwrapped_eq other,unwrapped_eq node,kind]
  split
  next =>
    cases mine : node.namedChildren.head? with
    | none =>
      rw [mine,Option.map_none,Option.map_eq_none_iff] at first
      rw [first]
      exact same
    | some part =>
      rw [mine,Option.map_some,Option.map_eq_some_iff] at first
      obtain ⟨part',found,alike⟩ := first
      rw [found]
      apply form_of_unplaced
      rw [Option.map_some,Option.getD_some,Option.map_some,Option.getD_some,← unwrapped_unplaced,alike,
        unwrapped_unplaced]
  next => exact same

theorem unwrapped_relabeled :
    (unwrapped { node with field := field }).kind = node.unwrapped.kind ∧
      (unwrapped { node with field := field }).children = node.unwrapped.children := by
  rw [unwrapped_eq,unwrapped_eq node]
  dsimp only [namedChildren]
  split
  next => cases (node.children.filter fun child => child.kind.isNamed).head? <;> exact ⟨rfl,rfl⟩
  next => exact ⟨rfl,rfl⟩

theorem callee?_relabeled :
    callee? { node with field := field } = node.callee? := by
  obtain ⟨kind,children⟩ := unwrapped_relabeled node field
  simp only [callee?,child?,kind,children]

theorem callArguments_relabeled :
    callArguments { node with field := field } = node.callArguments := by
  simp only [callArguments,child?,(unwrapped_relabeled node field).2]

@[simp] theorem callee?_form : node.form.callee? = node.callee? := by
  rw [form,callee?_relabeled,callee?_unplaced]

@[simp] theorem calls_form (name : String) : node.form.calls name = node.calls name := by
  rw [calls,callee?_form,calls]

@[simp] theorem callsAny_form (names : List String) :
    node.form.callsAny names = node.callsAny names := by
  rw [callsAny,callee?_form,callsAny]

@[simp] theorem callArguments_form :
    node.form.callArguments = node.callArguments.map unplaced := by
  rw [form,callArguments_relabeled,callArguments_unplaced]

@[simp] theorem isStatic_form : node.form.isStatic = node.isStatic := by
  rw [← node.likeStatic_unplaced.whole,isStatic_eq,isStatic_eq]
  rfl

end VueScope.Script.Node
