import VueScope.Proofs.Setup.FirstClaim

/-! The rules that give a name of a setup script its category, in their order. What the source says
plainly anywhere in the script comes before the events that are declared without a name, these come
before the kind of binding of a variable, and this before the props. -/
namespace VueScope.Setup

open Script

/-- A declaration at the top of a script. -/
inductive Declaring where
  | ofFunction (statement : Node)
  | ofVariable (statement declarator : Node)

namespace Declaring

def ofStatement (statement : Node) : List Declaring :=
  if statement.kind = .functionDeclaration ∨ statement.kind = .generatorFunctionDeclaration then
    [ofFunction statement]
  else if statement.isVariableDeclaration then statement.declarators.map (ofVariable statement)
  else []

def ofScript (root : Node) : List Declaring :=
  root.statements.flatMap ofStatement

def statement : Declaring → Node
  | ofFunction statement => statement
  | ofVariable statement _ => statement

def definition (place : Declaring) : String :=
  String.ofList (Text.trim place.statement.text)

def Names (name : String) : Declaring → Prop
  | ofFunction _ => False
  | ofVariable _ declarator =>
    ∃ target ∈ declarator.child? .name, target.kind = .identifier ∧ target.name = name

end Declaring

open Declaring (ofScript)

/-- Names that start with `use` and a capital letter and end in `Store`. -/
def IsStoreHook (name : String) : Prop :=
  ∃ capital middle, 'A' ≤ capital ∧ capital ≤ 'Z' ∧
    name.toList = "use".toList ++ capital :: (middle ++ "Store".toList)

/-- What the name of a function tells about what a call gives. -/
inductive Tells (imports : StoreImports) : String → Category → Prop
  | events : Tells imports "defineEmits" .emits
  | attributes : Tells imports "useAttrs" .passthrough
  | slots : Tells imports "useSlots" .passthrough
  | computed : Tells imports "computed" .computed
  | hook {callee : String} (hook : IsStoreHook callee) :
      Tells imports callee (imports.category callee)

/-- What a declaration says plainly of a name. -/
inductive Plainly (imports : StoreImports) : Declaring → String → Category → Prop
  | ofFunction {statement written : Node} (named : statement.child? .name = some written) :
      Plainly imports (.ofFunction statement) written.name .methods
  | ofCall {statement declarator target value : Node} {callee : String} {category : Category}
      (named : declarator.child? .name = some target) (isName : target.kind = .identifier)
      (given : declarator.child? .value = some value)
      (calls : value.unwrapped.callee? = some callee) (tells : Tells imports callee category) :
      Plainly imports (.ofVariable statement declarator) target.name category
  | ofStore {statement declarator target value : Node} {name : String}
      (named : declarator.child? .name = some target) (pattern : target.kind = .objectPattern)
      (given : declarator.child? .value = some value)
      (calls : value.unwrapped.callee? = some "storeToRefs") (bound : name ∈ target.boundNames) :
      Plainly imports (.ofVariable statement declarator) name (imports.category "storeToRefs")
  | ofClosure {statement declarator target value : Node}
      (named : declarator.child? .name = some target) (isName : target.kind = .identifier)
      (constant : statement.declarationKind? = some .const)
      (given : declarator.child? .value = some value) (isFunction : value.unwrapped.isFunction = true) :
      Plainly imports (.ofVariable statement declarator) target.name .methods

/-- A call of a name that no declarator takes as it is. -/
def CallsBare (node : Node) (callee : String) : Prop :=
  ∃ parent ∈ node.preorder, parent.kind ≠ .variableDeclarator ∧
    ∃ call ∈ parent.children, call.kind = .callExpression ∧ call.calls callee = true

def Earliest {α : Type} (holds : α → Prop) (items : List α) (item : α) : Prop :=
  ∃ before after, items = before ++ item :: after ∧ (∀ earlier ∈ before, ¬holds earlier) ∧ holds item

/-- The rules in their order. A rule applies where no rule before it does. -/
inductive ByRule (root : Node) (bindings : Bindings) (imports : StoreImports) (name : String) :
    Category → Prop
  | plain {place : Declaring} {category : Category}
      (first : Earliest (fun place => ∃ category, Plainly imports place name category)
        (ofScript root) place)
      (told : Plainly imports place name category) : ByRule root bindings imports name category
  | events
      (silent : ∀ place ∈ ofScript root, ∀ category, ¬Plainly imports place name category)
      (named : name = "emit") (bare : CallsBare root "defineEmits") :
      ByRule root bindings imports name .emits
  | binding {place : Declaring}
      (silent : ∀ place ∈ ofScript root, ∀ category, ¬Plainly imports place name category)
      (noEvents : ¬(name = "emit" ∧ CallsBare root "defineEmits"))
      (first : Earliest (Declaring.Names name) (ofScript root) place) :
      ByRule root bindings imports name
        (categoryOfBinding (bindings.get? name) place.definition)
  | props
      (silent : ∀ place ∈ ofScript root, ∀ category, ¬Plainly imports place name category)
      (noEvents : ¬(name = "emit" ∧ CallsBare root "defineEmits"))
      (noVariable : ∀ place ∈ ofScript root, ¬place.Names name)
      (prop : bindings.get? name = some .props ∨ bindings.get? name = some .propsAliased) :
      ByRule root bindings imports name .props

theorem find?_eq_some_iff_earliest {α : Type} {test : α → Bool} {holds : α → Prop} {items : List α}
    (item : α) (agree : ∀ item ∈ items, test item = true ↔ holds item) :
    items.find? test = some item ↔ Earliest holds items item := by
  rw [List.find?_eq_some_iff_append]
  constructor
  · intro ⟨passes,before,after,whole,fails⟩
    rw [whole] at agree
    refine ⟨before,after,whole,?_,(agree item (by simp)).mp passes⟩
    intro earlier member held
    have passed := (agree earlier (List.mem_append_left _ member)).mpr held
    simpa [passed] using fails earlier member
  · intro ⟨before,after,whole,fails,held⟩
    rw [whole] at agree
    refine ⟨(agree item (by simp)).mpr held,before,after,whole,?_⟩
    intro earlier member
    have failed := (agree earlier (List.mem_append_left _ member)).not.mpr (fails earlier member)
    simpa using failed

theorem isUpper_iff (c : Char) : c.isUpper = true ↔ 'A' ≤ c ∧ c ≤ 'Z' := by
  have bounds : c.isUpper = decide ('A' ≤ c ∧ c ≤ 'Z') := rfl
  rw [bounds,decide_eq_true_eq]

variable (root : Node) (bindings : Bindings) (imports : StoreImports) (callee name : String)

theorem isStoreHook_iff : isStoreHook name = true ↔ IsStoreHook name := by
  unfold isStoreHook IsStoreHook
  split
  next c rest found =>
    rw [Text.eq_append_of_dropPrefix? _ _ _ found,Bool.and_eq_true,isUpper_iff,
      List.isSuffixOf_iff_suffix]
    constructor
    · intro ⟨⟨low,high⟩,middle,ends⟩
      exact ⟨c,middle,low,high,by rw [ends]⟩
    · intro ⟨capital,middle,low,high,written⟩
      obtain ⟨same,ends⟩ := List.cons.inj (List.append_cancel_left written)
      rw [same]
      exact ⟨⟨low,high⟩,middle,ends.symm⟩
  next other =>
    refine iff_of_false Bool.false_ne_true ?_
    intro ⟨capital,middle,_,_,written⟩
    apply other capital (middle ++ "Store".toList)
    rw [written]
    exact Text.dropPrefix?_append _ _

theorem categoryOfCall?_eq_some_iff (category : Category) :
    categoryOfCall? imports callee = some category ↔ Tells imports callee category := by
  unfold categoryOfCall?
  constructor
  · intro told
    split at told
    next same =>
      cases told
      rw [same]
      exact .events
    split at told
    next same =>
      cases told
      rcases (by simpa using same : callee = "useAttrs" ∨ callee = "useSlots") with rfl | rfl
      · exact .attributes
      · exact .slots
    split at told
    next same =>
      cases told
      rw [same]
      exact .computed
    split at told
    next hook =>
      cases told
      exact .hook ((isStoreHook_iff callee).mp hook)
    next => contradiction
  · intro tells
    cases tells with
    | events => rfl
    | attributes => rfl
    | slots => rfl
    | computed => rfl
    | hook hook =>
      have hook := (isStoreHook_iff callee).mpr hook
      have other (known : String) (noHook : isStoreHook known = false) : callee ≠ known := by
        intro same
        rw [same,noHook] at hook
        contradiction
      simp [other Macro.emits (by decide),other "useAttrs" (by decide),other "useSlots" (by decide),
        other Library.computed (by decide),hook]

theorem anyBareCall_iff (root : Node) :
    anyBareCall callee root.kind root.children = true ↔ CallsBare root callee := by
  induction root using Node.byParts with
  | step node ih =>
    have here (part : Node) (inside : part ∈ node.children) : hasBareCall callee node.kind part = true ↔
        (node.kind ≠ .variableDeclarator ∧ part.kind = .callExpression ∧ part.calls callee = true) ∨
          CallsBare part callee := by
      rw [← ih part inside,and_comm]
      cases part
      simp [hasBareCall,and_comm]
    rw [anyBareCall_eq,List.any_eq_true]
    constructor
    · intro ⟨part,inside,found⟩
      rcases (here part inside).mp found with ⟨free,call⟩ | ⟨owner,within,rest⟩
      · exact ⟨node,(node.mem_preorder_iff node).mpr (.inl rfl),free,part,inside,call⟩
      · exact ⟨owner,(node.mem_preorder_iff owner).mpr (.inr ⟨part,inside,within⟩),rest⟩
    · intro ⟨owner,within,free,call,inside,calls⟩
      rcases (node.mem_preorder_iff owner).mp within with rfl | ⟨part,member,deeper⟩
      · exact ⟨call,inside,(here call inside).mpr (.inl ⟨free,calls⟩)⟩
      · exact ⟨part,member,(here part member).mpr (.inr ⟨owner,deeper,free,call,inside,calls⟩)⟩

def Declaring.verdict (imports : StoreImports) : Declaring → Verdict
  | ofFunction statement =>
    match statement.child? .name with
    | some written => .settled [written.name] .methods
    | none => .silent
  | ofVariable statement declarator =>
    Setup.verdict imports (statement.declarationKind? = some .const) declarator

theorem callee?_eq_none_of_isFunction (node : Node) (isFunction : node.isFunction = true) :
    node.callee? = none := by
  have other : node.unwrapped.kind ≠ .callExpression := by
    intro call
    rw [Node.isFunction,call] at isFunction
    contradiction
  simp [Node.callee?,other]

theorem plainly_of_verdict (statement declarator : Node) (names : List String) (name : String)
    (category : Category)
    (settled : verdict imports (statement.declarationKind? = some .const) declarator =
      .settled names category) (member : name ∈ names) :
    Plainly imports (.ofVariable statement declarator) name category := by
  unfold verdict at settled
  split at settled
  next => contradiction
  next target named =>
  dsimp only at settled
  split at settled
  next isName =>
    split at settled
    next category told =>
      cases settled
      obtain ⟨callee,calls,told⟩ := Option.bind_eq_some_iff.mp told
      obtain ⟨inner,inside,calls⟩ := Option.bind_eq_some_iff.mp calls
      obtain ⟨value,given,rfl⟩ := Option.map_eq_some_iff.mp inside
      rw [List.mem_singleton.mp member]
      exact .ofCall named isName given calls ((categoryOfCall?_eq_some_iff _ _ _).mp told)
    next =>
      split at settled
      next closure =>
        cases settled
        rw [Bool.and_eq_true,decide_eq_true_eq,Option.any_eq_true] at closure
        obtain ⟨constant,inner,inside,isFunction⟩ := closure
        obtain ⟨value,given,rfl⟩ := Option.map_eq_some_iff.mp inside
        rw [List.mem_singleton.mp member]
        exact .ofClosure named isName constant given isFunction
      next => contradiction
  next =>
    split at settled
    next store =>
      cases settled
      rw [Bool.and_eq_true,decide_eq_true_eq,decide_eq_true_eq] at store
      obtain ⟨inner,inside,calls⟩ := Option.bind_eq_some_iff.mp store.1
      obtain ⟨value,given,rfl⟩ := Option.map_eq_some_iff.mp inside
      exact .ofStore named store.2 given calls member
    next => contradiction

theorem plainly_iff (place : Declaring) (name : String) (category : Category) :
    Plainly imports place name category ↔
      ∃ names, place.verdict imports = .settled names category ∧ name ∈ names := by
  constructor
  · intro told
    cases told with
    | @ofFunction statement written named =>
      exact ⟨[written.name],by simp [Declaring.verdict,named],List.mem_singleton_self _⟩
    | @ofCall statement declarator target value callee category named isName given calls tells =>
      have told := (categoryOfCall?_eq_some_iff imports callee category).mpr tells
      exact ⟨[target.name],by simp [Declaring.verdict,verdict,named,isName,given,calls,told],
        List.mem_singleton_self _⟩
    | @ofStore statement declarator target value name named pattern given calls bound =>
      exact ⟨target.boundNames,
        by simp [Declaring.verdict,verdict,named,pattern,given,calls,storeToRefs],bound⟩
    | @ofClosure statement declarator target value named isName constant given isFunction =>
      have noCall := callee?_eq_none_of_isFunction _ isFunction
      exact ⟨[target.name],
        by simp [Declaring.verdict,verdict,named,isName,constant,given,isFunction,noCall],
        List.mem_singleton_self _⟩
  · intro ⟨names,settled,member⟩
    cases place with
    | ofFunction statement =>
      cases named : statement.child? .name with
      | none => simp [Declaring.verdict,named] at settled
      | some written =>
        simp only [Declaring.verdict,named,Verdict.settled.injEq] at settled
        obtain ⟨rfl,rfl⟩ := settled
        rw [List.mem_singleton.mp member]
        exact .ofFunction named
    | ofVariable statement declarator =>
      exact plainly_of_verdict imports statement declarator names name category settled member

theorem names_of_verdict (place : Declaring) (name : String)
    (waits : place.verdict imports = .open name) : place.Names name := by
  cases place with
  | ofFunction statement =>
    cases named : statement.child? .name <;> simp [Declaring.verdict,named] at waits
  | ofVariable statement declarator =>
    cases named : declarator.child? .name with
    | none => simp [Declaring.verdict,verdict,named] at waits
    | some target =>
      simp only [Declaring.verdict,verdict,named] at waits
      split at waits
      next isName =>
        split at waits
        next => contradiction
        next =>
          split at waits
          next => contradiction
          next => exact ⟨target,named,isName,Verdict.open.inj waits⟩
      next => split at waits <;> contradiction

theorem verdict_of_names (place : Declaring) (name : String) (names : place.Names name) :
    (∃ category, place.verdict imports = .settled [name] category) ∨
      place.verdict imports = .open name := by
  cases place with
  | ofFunction statement => exact names.elim
  | ofVariable statement declarator =>
    obtain ⟨target,named,isName,rfl⟩ := names
    simp only [Declaring.verdict,verdict,Option.mem_def.mp named,isName,if_true]
    split
    next category _ => exact .inl ⟨category,rfl⟩
    next =>
      split
      next => exact .inl ⟨.methods,rfl⟩
      next => exact .inr rfl

theorem verdict_eq_open_iff (place : Declaring) (name : String)
    (silent : ∀ category, ¬Plainly imports place name category) :
    place.verdict imports = .open name ↔ place.Names name := by
  refine ⟨names_of_verdict imports place name,fun names => ?_⟩
  rcases verdict_of_names imports place name names with ⟨category,settled⟩ | waits
  · exact absurd ((plainly_iff ..).mpr ⟨_,settled,List.mem_singleton_self name⟩) (silent category)
  · exact waits

def Verdict.category? (name : String) : Verdict → Option Category
  | settled names category => if name ∈ names then some category else none
  | _ => none

theorem category?_eq_some_iff (place : Declaring) (name : String) (category : Category) :
    (place.verdict imports).category? name = some category ↔ Plainly imports place name category := by
  rw [plainly_iff]
  cases place.verdict imports with
  | settled names given => simp [Verdict.category?,and_comm,and_assoc]
  | «open» other => simp [Verdict.category?]
  | silent => simp [Verdict.category?]

theorem category?_eq_none_iff (place : Declaring) (name : String) :
    (place.verdict imports).category? name = none ↔
      ∀ category, ¬Plainly imports place name category := by
  simp only [← category?_eq_some_iff,Option.eq_none_iff_forall_ne_some]

def Declaring.pending? (imports : StoreImports) (place : Declaring) : Option Pending :=
  match place.verdict imports with
  | .open name => some ⟨name,place.definition⟩
  | _ => none

namespace Progress

def read (imports : StoreImports) (progress : Progress) (place : Declaring) : Progress :=
  match place.verdict imports with
  | .settled names category =>
    { progress with
      collector := names.foldl (fun collector name => collector.add name category place.definition)
        progress.collector }
  | .open name => { progress with pending := progress.pending ++ [⟨name,place.definition⟩] }
  | .silent => progress

variable (imports : StoreImports) (progress : Progress)

theorem statement_eq (statement : Node) :
    progress.statement imports statement =
      (Declaring.ofStatement statement).foldl (read imports) progress := by
  unfold Progress.statement Declaring.ofStatement
  simp only [Bool.or_eq_true,decide_eq_true_eq]
  split
  next =>
    cases named : statement.child? .name <;>
      simp [read,Declaring.verdict,named,Declaring.definition,Declaring.statement]
  next =>
    split
    next =>
      rw [List.foldl_map]
      rfl
    next => rfl

theorem categoryOf?_read (place : Declaring) (name : String) :
    (progress.read imports place).collector.categoryOf? name =
      (progress.collector.categoryOf? name).or ((place.verdict imports).category? name) := by
  unfold read
  cases place.verdict imports with
  | settled names category =>
    refine (Collector.categoryOf?_foldl_add id (fun _ => category) (fun _ => place.definition)
      names progress.collector name).trans ?_
    cases found : names.find? fun other => id other = name with
    | none =>
      have absent : name ∉ names := fun member =>
        List.find?_eq_none.mp found name member (decide_eq_true rfl)
      simp [Verdict.category?,absent]
    | some other =>
      have same : other = name := by simpa using List.find?_some found
      have member : name ∈ names := same ▸ List.mem_of_find?_eq_some found
      simp [Verdict.category?,member]
  | «open» other => simp [Verdict.category?]
  | silent => simp [Verdict.category?]

theorem pending_read (place : Declaring) :
    (progress.read imports place).pending =
      progress.pending ++ (place.pending? imports).toList := by
  unfold read Declaring.pending?
  cases place.verdict imports <;> simp

theorem categoryOf?_foldl_read (places : List Declaring) (progress : Progress) (name : String) :
    (places.foldl (read imports) progress).collector.categoryOf? name =
      (progress.collector.categoryOf? name).or
        (places.findSome? fun place => (place.verdict imports).category? name) := by
  induction places generalizing progress with
  | nil => simp
  | cons place rest ih =>
    rw [List.foldl_cons,ih,categoryOf?_read,Option.or_assoc,List.findSome?_cons]
    cases (place.verdict imports).category? name <;> simp

theorem pending_foldl_read (places : List Declaring) (progress : Progress) :
    (places.foldl (read imports) progress).pending =
      progress.pending ++ places.filterMap (Declaring.pending? imports) := by
  induction places generalizing progress with
  | nil => simp
  | cons place rest ih =>
    rw [List.foldl_cons,ih,pending_read,List.append_assoc,List.filterMap_cons]
    cases place.pending? imports <;> simp

end Progress

theorem explicit_eq :
    explicit root imports = (ofScript root).foldl (Progress.read imports) ⟨∅,[]⟩ := by
  unfold explicit ofScript
  rw [List.foldl_flatMap]
  congr 1
  funext progress statement
  exact progress.statement_eq imports statement

theorem categoryOf?_explicit :
    (explicit root imports).collector.categoryOf? name =
      (ofScript root).findSome? fun place => (place.verdict imports).category? name := by
  rw [explicit_eq,Progress.categoryOf?_foldl_read]
  exact Option.none_or

theorem explicit_eq_none_iff :
    (explicit root imports).collector.categoryOf? name = none ↔
      ∀ place ∈ ofScript root, ∀ category, ¬Plainly imports place name category := by
  simp only [categoryOf?_explicit,List.findSome?_eq_none_iff,category?_eq_none_iff]

theorem explicit_eq_some_iff (category : Category) :
    (explicit root imports).collector.categoryOf? name = some category ↔
      ∃ place, Earliest (fun place => ∃ category, Plainly imports place name category)
        (ofScript root) place ∧ Plainly imports place name category := by
  rw [categoryOf?_explicit,List.findSome?_eq_some_iff]
  simp only [category?_eq_some_iff,category?_eq_none_iff]
  constructor
  · intro ⟨before,place,after,whole,told,silent⟩
    exact ⟨place,⟨before,after,whole,fun earlier member => not_exists.mpr (silent earlier member),
      category,told⟩,told⟩
  · intro ⟨place,⟨before,after,whole,silent,_⟩,told⟩
    exact ⟨before,place,after,whole,told,fun earlier member => not_exists.mp (silent earlier member)⟩

theorem pending_explicit :
    (explicit root imports).pending =
      (ofScript root).filterMap (Declaring.pending? imports) := by
  rw [explicit_eq,Progress.pending_foldl_read,List.nil_append]

theorem pending?_any_iff (place : Declaring) (name : String)
    (silent : ∀ category, ¬Plainly imports place name category) :
    (place.pending? imports).any (fun pending => pending.name = name) = true ↔
      place.Names name := by
  rw [← verdict_eq_open_iff imports place name silent]
  unfold Declaring.pending?
  cases place.verdict imports <;> simp

theorem bound?_explicit
    (silent : ∀ place ∈ ofScript root, ∀ category, ¬Plainly imports place name category) :
    (explicit root imports).bound? bindings name =
      ((ofScript root).find? fun place =>
        (place.pending? imports).any fun pending => pending.name = name).map fun place =>
          categoryOfBinding (bindings.get? name) place.definition := by
  rw [Progress.bound?,pending_explicit,List.find?_filterMap,Option.map_bind]
  cases found : (ofScript root).find? fun place =>
    (place.pending? imports).any fun pending => pending.name = name with
  | none => rfl
  | some place =>
    have silent := silent place (List.mem_of_find?_eq_some found)
    have names := (pending?_any_iff imports place name silent).mp
      (List.find?_some (p := fun place : Declaring =>
        (place.pending? imports).any fun pending => pending.name = name) found)
    simp [Declaring.pending?,(verdict_eq_open_iff imports place name silent).mpr names]

theorem bound?_eq_none_iff
    (silent : ∀ place ∈ ofScript root, ∀ category, ¬Plainly imports place name category) :
    (explicit root imports).bound? bindings name = none ↔
      ∀ place ∈ ofScript root, ¬place.Names name := by
  rw [bound?_explicit root bindings imports name silent,Option.map_eq_none_iff,List.find?_eq_none]
  exact forall₂_congr fun place member =>
    not_congr (pending?_any_iff imports place name (silent place member))

theorem bound?_eq_some_iff (category : Category)
    (silent : ∀ place ∈ ofScript root, ∀ category, ¬Plainly imports place name category) :
    (explicit root imports).bound? bindings name = some category ↔
      ∃ place, Earliest (Declaring.Names name) (ofScript root) place ∧
        categoryOfBinding (bindings.get? name) place.definition = category := by
  rw [bound?_explicit root bindings imports name silent,Option.map_eq_some_iff]
  exact exists_congr fun place => and_congr_left' (find?_eq_some_iff_earliest place
    fun place member => pending?_any_iff imports place name (silent place member))

theorem categoryOf?_classify_eq_some_iff (category : Category)
    (distinct : bindings.keys.Nodup) :
    (classify root bindings imports).categoryOf? name = some category ↔
      ByRule root bindings imports name category := by
  have bare : (anyBareCall Macro.emits root.kind root.children && implicitEmit = name) = true ↔
      name = "emit" ∧ CallsBare root "defineEmits" := by
    rw [Bool.and_eq_true,anyBareCall_iff _ root,decide_eq_true_eq,and_comm,eq_comm]
    rfl
  rw [categoryOf?_classify]
  simp only [Option.or_eq_some_iff,Option.or_eq_none_iff,explicit_eq_none_iff,explicit_eq_some_iff,
    Option.ite_none_right_eq_some,Option.some.injEq,ite_eq_right_iff,reduceCtorEq,imp_false,bare,
    isProp_iff bindings name distinct]
  constructor
  · rintro (((⟨place,first,told⟩ | ⟨silent,⟨named,bare⟩,rfl⟩) | ⟨⟨silent,noEvents⟩,bound⟩) |
      ⟨⟨⟨silent,noEvents⟩,unbound⟩,prop,rfl⟩)
    · exact .plain first told
    · exact .events silent named bare
    · obtain ⟨place,first,rfl⟩ :=
        (bound?_eq_some_iff root bindings imports name category silent).mp bound
      exact .binding silent noEvents first
    · exact .props silent noEvents ((bound?_eq_none_iff root bindings imports name silent).mp unbound)
        prop
  · intro rule
    cases rule with
    | plain first told => exact .inl (.inl (.inl ⟨_,first,told⟩))
    | events silent named bare => exact .inl (.inl (.inr ⟨silent,⟨named,bare⟩,rfl⟩))
    | binding silent noEvents first =>
      exact .inl (.inr ⟨⟨silent,noEvents⟩,
        (bound?_eq_some_iff root bindings imports name _ silent).mpr ⟨_,first,rfl⟩⟩)
    | props silent noEvents noVariable prop =>
      exact .inr ⟨⟨⟨silent,noEvents⟩,
        (bound?_eq_none_iff root bindings imports name silent).mpr noVariable⟩,prop,rfl⟩

/-- Every name of a setup script is in the category of the first rule that applies to it, and in none
where no rule does, whatever tree is read of the script. -/
theorem classified_in_step_order [Recovery] (content : List Char) (lang : Option String)
    (entries : List (String × BindingKind)) (imports : Option StoreImports) (name : String)
    (category : Category) :
    let root := tree (Dialect.ofLang lang) content
    let bindings := OrderedMap.ofList entries
    ((analyze content lang bindings imports).get category).contains name = true ↔
      ByRule root bindings (imports.getD (StoreImports.ofScript root)) name category := by
  intro root bindings
  rw [analyze,contains_get_classify]
  exact categoryOf?_classify_eq_some_iff root bindings _ name category
    (OrderedMap.nodup_keys_ofList entries)

end VueScope.Setup
