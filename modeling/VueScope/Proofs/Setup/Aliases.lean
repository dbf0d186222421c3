import VueScope.Analysis.File
import VueScope.Proofs.Setup.FirstClaim
import VueScope.Proofs.Setup.RenamedBindings
import VueScope.Proofs.Text.Words

/-! Under which name a function is imported does not matter to the categories of a setup script, with two
exceptions: the classifier knows `computed` and `storeToRefs` by these names only. -/
namespace VueScope.Setup

open Script Component

variable {name : String} {progress' progress : Progress} {inside : Option Field → Role}
  {component : Descriptor}

namespace Aliases

variable {names : Renaming} {node other : Node}

/-- A name that the classifier knows by the spelling of what its declarator calls. -/
def LostBy (names : Renaming) (declarator : Node) (name : String) : Prop :=
  (∃ value ∈ declarator.child? .value, value.unwrapped.calls names.function = true) ∧
    ∃ target ∈ declarator.child? .name,
      (names.function = Library.computed ∧ target.kind = .identifier ∧ target.name = name) ∨
        (names.function = storeToRefs ∧ target.kind = .objectPattern ∧ name ∈ target.boundNames)

def Lost (names : Renaming) (root : Node) (name : String) : Prop :=
  ∃ statement ∈ root.statements, statement.isVariableDeclaration = true ∧
    ∃ declarator ∈ statement.declarators, LostBy names declarator name

theorem categoryOfCall?_fresh {plain : Option Node} {root : Node} (admissible : Admissible names plain root)
    (imports : StoreImports) : categoryOfCall? imports names.fresh = none := by
  have untold := admissible.untold
  simp only [telling,List.mem_cons,List.not_mem_nil,or_false,not_or] at untold
  obtain ⟨_,emits,_,_,_,attributes,slots,computed,_⟩ := untold
  simp [categoryOfCall?,emits,attributes,slots,computed,admissible.noHook]

theorem categoryOfCall?_function {plain : Option Node} {root : Node}
    (admissible : Admissible names plain root) (imports : StoreImports)
    (noComputed : names.function ≠ Library.computed) : categoryOfCall? imports names.function = none := by
  have silent : ∀ name ∈ Library.reactivity ++ [storeToRefs], name ≠ Library.computed →
      name ≠ Macro.emits ∧ name ≠ "useAttrs" ∧ name ≠ "useSlots" ∧ isStoreHook name = false := by
    decide
  obtain ⟨emits,attributes,slots,noHook⟩ := silent _ admissible.known.mem noComputed
  simp [categoryOfCall?,emits,attributes,slots,noComputed,noHook]

theorem categoryOfCall?_spared {imports imports' : StoreImports}
    (same : ∀ name, names.Spares name → imports'.category name = imports.category name)
    (spared : names.Spares name) : categoryOfCall? imports' name = categoryOfCall? imports name := by
  unfold categoryOfCall?
  rw [same name spared]

/-- What is said of a target, from what its value calls and whether it is a function. -/
def judge (imports : StoreImports) (isConst : Bool) (callee : Option String) (isFunction : Bool)
    (target : Node) : Verdict :=
  if target.kind = .identifier then
    match callee.bind (categoryOfCall? imports) with
    | some category => .settled [target.name] category
    | none =>
      if isConst && isFunction then .settled [target.name] .methods else .open target.name
  else if callee = some storeToRefs && target.kind = .objectPattern then
    .settled target.boundNames (imports.category storeToRefs)
  else .silent

def calleeOf (declarator : Node) : Option String :=
  ((declarator.child? .value).map Node.unwrapped).bind Node.callee?

theorem verdict_eq (imports : StoreImports) (isConst : Bool) (declarator : Node) :
    verdict imports isConst declarator =
      ((declarator.child? .name).map (judge imports isConst (calleeOf declarator)
        (((declarator.child? .value).map Node.unwrapped).any Node.isFunction))).getD .silent := by
  unfold verdict
  cases declarator.child? .name <;> rfl

theorem calleeOf_alike (alike : names.AlikeDeclarator node other) (unwritten : Unwritten names node) :
    calleeOf other = (calleeOf node).map names.apply ∧ (∀ name ∈ calleeOf node, name ≠ names.fresh) ∧
      ((other.child? .value).map Node.unwrapped).any Node.isFunction =
        ((node.child? .value).map Node.unwrapped).any Node.isFunction := by
  unfold calleeOf
  rcases alikeDeclarator_value alike unwritten with ⟨none,none'⟩ | ⟨value,value',found,found',below,old⟩
  · simp [none,none']
  · obtain ⟨_,inner,_⟩ := below.unwrapped
    simp only [found,found',Option.bind_some,Option.any_some]
    refine ⟨below.callee?_value,fun name calls => old.callee? calls,?_⟩
    exact inner.test Kind.isFunction rfl

theorem judge_of_spares {imports imports' : StoreImports}
    (same : ∀ name, names.Spares name → imports'.category name = imports.category name)
    {callee : Option String} (spared : ∀ name ∈ callee, names.Spares name) (isConst isFunction : Bool)
    (target : Node) :
    judge imports' isConst callee isFunction target = judge imports isConst callee isFunction target := by
  have category : callee.bind (categoryOfCall? imports') = callee.bind (categoryOfCall? imports) := by
    cases callee with
    | none => rfl
    | some name => exact categoryOfCall?_spared same (spared name rfl)
  unfold judge
  rw [category]
  split
  · rfl
  · split
    next store =>
      rw [Bool.and_eq_true,decide_eq_true_eq] at store
      rw [same storeToRefs (spared storeToRefs store.1)]
    · rfl

theorem judge_of_function {plain : Option Node} {root : Node} (admissible : Admissible names plain root)
    (imports imports' : StoreImports) (isConst isFunction : Bool) (target : Node) :
    judge imports' isConst (some names.fresh) isFunction target =
      judge imports isConst (some names.function) isFunction target ∨
    (names.function = Library.computed ∧ target.kind = .identifier ∨
      names.function = storeToRefs ∧ target.kind = .objectPattern) := by
  have noStore : names.fresh ≠ storeToRefs := by
    intro store
    apply admissible.untold
    rw [store]
    decide
  unfold judge
  simp only [Option.bind_some,categoryOfCall?_fresh admissible,Option.some.injEq,noStore,decide_false,
    Bool.false_and,Bool.false_eq_true,if_false]
  split
  next isName =>
    by_cases computed : names.function = Library.computed
    · exact .inr (.inl ⟨computed,isName⟩)
    · rw [categoryOfCall?_function admissible imports computed]
      exact .inl rfl
  next =>
    split
    next store =>
      rw [Bool.and_eq_true,decide_eq_true_eq,decide_eq_true_eq] at store
      exact .inr (.inr store)
    · exact .inl rfl

theorem names_judge (imports : StoreImports) (isConst isFunction : Bool) (callee : Option String)
    (target : Node) :
    (target.kind = .identifier → (judge imports isConst callee isFunction target).names = [target.name]) ∧
      (target.kind ≠ .identifier → (judge imports isConst callee isFunction target).names ⊆
        target.boundNames) := by
  unfold judge
  constructor
  · intro isName
    rw [if_pos isName]
    split
    · rfl
    · split <;> rfl
  · intro isPattern
    rw [if_neg isPattern]
    split
    · exact List.Subset.refl _
    · exact List.nil_subset _

theorem judge_target (imports : StoreImports) (isConst isFunction : Bool) (callee : Option String)
    (alike : names.Alike .pattern node other) (like : names.Like .pattern node other) :
    judge imports isConst callee isFunction other = judge imports isConst callee isFunction node := by
  unfold judge
  rw [like.kind,alike.boundNames (.inl rfl)]
  split
  next isName => rw [alike.name_of_kept rfl isName]
  · rfl

theorem verdict_alike {plain : Option Node} {root : Node} {imports imports' : StoreImports}
    (admissible : Admissible names plain root)
    (same : ∀ name, names.Spares name → imports'.category name = imports.category name)
    (alike : names.AlikeDeclarator node other) (unwritten : Unwritten names node) (isConst : Bool) :
    verdict imports' isConst other = verdict imports isConst node ∨
      (∀ name ∈ (verdict imports isConst node).names, LostBy names node name) ∧
        ∀ name ∈ (verdict imports' isConst other).names, LostBy names node name := by
  obtain ⟨callee,old,isFunction⟩ := calleeOf_alike alike unwritten
  rw [verdict_eq,verdict_eq,callee,isFunction]
  rcases alike.2.2.child? .name with ⟨none,none'⟩ | ⟨target,target',found,found',below,below'⟩
  · rw [none,none']
    exact .inl rfl
  rw [found,found',Option.map_some,Option.map_some,Option.getD_some,Option.getD_some,
    judge_target imports' isConst _ _ below below']
  generalize ((node.child? .value).map Node.unwrapped).any Node.isFunction = isFunction
  by_cases calls : calleeOf node = some names.function
  · have renamed : (calleeOf node).map names.apply = some names.fresh := by
      simp [calls,Renaming.apply]
    rw [renamed,calls]
    rcases judge_of_function admissible imports imports' isConst isFunction target with kept | lost
    · exact .inl kept
    · have value : ∃ value ∈ node.child? .value, value.unwrapped.calls names.function = true := by
        unfold calleeOf at calls
        cases passed : node.child? .value with
        | none => simp [passed] at calls
        | some value => exact ⟨value,rfl,by simpa [passed,Node.calls] using calls⟩
      have each (imports : StoreImports) (callee : Option String) :
          ∀ name ∈ (judge imports isConst callee isFunction target).names, LostBy names node name := by
        obtain ⟨single,several⟩ := names_judge imports isConst isFunction callee target
        intro name member
        refine ⟨value,target,found,?_⟩
        rcases lost with ⟨computed,isName⟩ | ⟨store,isPattern⟩
        · rw [single isName,List.mem_singleton] at member
          exact .inl ⟨computed,isName,member.symm⟩
        · exact .inr ⟨store,isPattern,several (by simp [isPattern]) member⟩
      exact .inr ⟨each _ _,each _ _⟩
  · have spared : ∀ name ∈ calleeOf node, names.Spares name := by
      intro name called
      refine ⟨?_,old name called⟩
      rintro rfl
      exact calls called
    have kept : (calleeOf node).map names.apply = calleeOf node := by
      cases called : calleeOf node with
      | none => rfl
      | some name => simp [Renaming.apply,(spared name called).1]
    rw [kept]
    exact .inl (judge_of_spares same spared isConst isFunction target)

def mentionsProps (definition : String) : Bool :=
  (Text.find? Macro.props.toList definition.toList).isSome

/-- The kind of binding and the mention decide alone. -/
def boundCategory (kind : Option BindingKind) (mentions : Bool) : Category :=
  categoryOfBinding kind (if mentions then Macro.props else "")

theorem categoryOfBinding_eq (kind : Option BindingKind) (definition : String) :
    categoryOfBinding kind definition = boundCategory kind (mentionsProps definition) := by
  have both (mentions : Bool) : mentionsProps (if mentions then Macro.props else "") = mentions := by
    cases mentions <;> decide
  have same := both (mentionsProps definition)
  unfold mentionsProps at same
  unfold boundCategory categoryOfBinding mentionsProps
  rw [same]

/-- What is known of a name so far: its category, and whether the declarations that leave it open
mention the props. -/
def view (name : String) (progress : Progress) : Option Category × List Bool :=
  (progress.collector.categoryOf? name,
    (progress.pending.filter fun pending => pending.name = name).map fun pending =>
      mentionsProps pending.definition)

theorem bound?_eq (progress : Progress) (bindings : Bindings) (name : String) :
    progress.bound? bindings name =
      (view name progress).2.head?.map (boundCategory (bindings.get? name)) := by
  rw [Progress.bound?,view,List.head?_map,List.head?_filter,Option.map_map]
  cases found : progress.pending.find? fun pending => pending.name = name with
  | none => rfl
  | some pending =>
    have named : pending.name = name := by simpa using List.find?_some found
    simp [categoryOfBinding_eq,named]

def take (definition : String) (progress : Progress) : Verdict → Progress
  | .settled names category =>
    { progress with
      collector := names.foldl (fun collector name => collector.add name category definition)
        progress.collector }
  | .open name => { progress with pending := progress.pending ++ [⟨name,definition⟩] }
  | .silent => progress

theorem declarator_eq_take (imports : StoreImports) (isConst : Bool) (definition : String)
    (progress : Progress) (declarator : Node) :
    progress.declarator imports isConst definition declarator =
      take definition progress (verdict imports isConst declarator) := by
  unfold Progress.declarator take
  cases verdict imports isConst declarator <;> rfl

theorem view_take {definition definition' : String} (seen : view name progress' = view name progress)
    (mentions : mentionsProps definition' = mentionsProps definition) (verdict : Verdict) :
    view name (take definition' progress' verdict) = view name (take definition progress verdict) := by
  obtain ⟨filed,left⟩ := Prod.mk.inj seen
  cases verdict with
  | settled names category =>
    refine Prod.ext ?_ left
    have each (definition : String) (collector : Collector) :=
      Collector.categoryOf?_foldl_add id (fun _ => category) (fun _ => definition) names collector name
    exact ((each _ _).trans (by rw [filed])).trans (each _ _).symm
  | «open» own =>
    refine Prod.ext filed ?_
    simp only [view,take,List.filter_append,List.map_append,left]
    congr 1
    by_cases same : own = name <;> simp [same,mentions]
  | silent => exact seen

theorem view_take_of_notMem {verdict : Verdict} (other : name ∉ verdict.names) (definition : String)
    (progress : Progress) : view name (take definition progress verdict) = view name progress := by
  cases verdict with
  | settled names category =>
    refine Prod.ext ?_ rfl
    refine (Collector.categoryOf?_foldl_add id (fun _ => category) (fun _ => definition) names _
      name).trans ?_
    have none : names.find? (fun own => decide (id own = name)) = none := by
      rw [List.find?_eq_none]
      intro own member same
      exact other (by simpa [Verdict.names] using (of_decide_eq_true same) ▸ member)
    rw [none]
    exact Option.or_none
  | «open» own =>
    have apart : own ≠ name := by
      rintro rfl
      exact other List.mem_cons_self
    simp [view,take,apart]
  | silent => rfl

def mentions (statement : Node) : Bool :=
  mentionsProps (String.ofList (Text.trim statement.text))

theorem mentionsProps_iff (definition : String) :
    mentionsProps definition = true ↔ Macro.props.toList <:+: definition.toList := by
  rw [mentionsProps,Text.find?,Option.isSome_map,Text.isSome_breakOn?_iff]

theorem mentions_iff (statement : Node) :
    mentions statement = true ↔ Macro.props.toList <:+: statement.text := by
  have solid : Macro.props.toList.all (fun c => !Text.isSpace c) = true := by decide
  rw [mentions,mentionsProps_iff,String.toList_ofList]
  exact Text.infix_trim_iff _ _ (by decide) fun c member =>
    (Bool.not_eq_true' _).mp (List.all_eq_true.mp solid c member)

/-- Two statements are written in the same words, but for the name of the function and the new one. -/
structure SameWords (names : Renaming) (node other : Node) : Prop where
  kept : ∀ word, Text.HoldsWord node.text word → Text.HoldsWord other.text word ∨ word = names.function.toList
  given : ∀ word, Text.HoldsWord other.text word → Text.HoldsWord node.text word ∨ word = names.fresh.toList

theorem mentions_of_sameWords (known : IsKnown names) (quiet : mentionsProps names.fresh = false)
    (same : SameWords names node other) : mentions other = mentions node := by
  have word : Macro.props.toList.all Text.isWordChar = true := by decide
  have silent : ∀ name ∈ Library.reactivity ++ [storeToRefs], mentionsProps name = false := by decide
  have moves {first second : Node} {name : String} (quiet : mentionsProps name = false)
      (words : ∀ word, Text.HoldsWord first.text word → Text.HoldsWord second.text word ∨ word = name.toList)
      (mentioned : mentions first = true) : mentions second = true := by
    rw [mentions_iff] at mentioned ⊢
    obtain ⟨whole,held,inside⟩ := Text.exists_holdsWord (List.all_eq_true.mp word) mentioned
    rcases words whole held with ⟨outer,rest,text,_⟩ | rfl
    · exact inside.trans ⟨outer,rest,text⟩
    · rw [← mentionsProps_iff,quiet] at inside
      contradiction
  rw [Bool.eq_iff_iff]
  exact ⟨moves quiet same.given,moves (silent _ known.mem) same.kept⟩

section Statements

variable {plain : Option Node} {root : Node} {imports imports' : StoreImports}
  (admissible : Admissible names plain root)
  (same : ∀ name, names.Spares name → imports'.category name = imports.category name)
include admissible same

theorem view_declarator {definition definition' : String} (alike : names.AlikeDeclarator node other)
    (unwritten : Unwritten names node) (kept : ¬LostBy names node name)
    (seen : view name progress' = view name progress)
    (mentions : mentionsProps definition' = mentionsProps definition) (isConst : Bool) :
    view name (progress'.declarator imports' isConst definition' other) =
      view name (progress.declarator imports isConst definition node) := by
  rw [declarator_eq_take,declarator_eq_take]
  rcases verdict_alike admissible same alike unwritten isConst with equal | ⟨lost,lost'⟩
  · rw [equal]
    exact view_take seen mentions _
  · rw [view_take_of_notMem (fun member => kept (lost' name member)),
      view_take_of_notMem (fun member => kept (lost name member))]
    exact seen

theorem view_statement (alike : names.AlikeStatement node other) (unwritten : Unwritten names node)
    (kept : node.isVariableDeclaration = true → ∀ declarator ∈ node.declarators,
      ¬LostBy names declarator name) (seen : view name progress' = view name progress)
    (sameMention : mentions other = mentions node) :
    view name (progress'.statement imports' other) = view name (progress.statement imports node) := by
  have kind : other.isVariableDeclaration = node.isVariableDeclaration := by
    rw [Node.isVariableDeclaration,Node.isVariableDeclaration,alike.1]
  unfold Progress.statement
  dsimp only
  rw [alike.1,kind]
  split
  next isFunction =>
    have noVariable : node.isVariableDeclaration = false := by
      unfold Node.isVariableDeclaration
      cases found : node.kind <;> simp_all
    have noImport : node.kind ≠ .importStatement := by
      intro isImport
      simp [isImport] at isFunction
    have named := declaredName_eq alike noVariable noImport
    cases written : node.child? .name with
    | none =>
      rw [written,Option.map_none,Option.map_eq_none_iff] at named
      rw [named]
      exact seen
    | some label =>
      rw [written,Option.map_some,Option.map_eq_some_iff] at named
      obtain ⟨label',written',sameName⟩ := named
      rw [written']
      dsimp only
      rw [sameName]
      exact view_take seen sameMention (.settled [label.name] .methods)
  next =>
    split
    next declares =>
      rw [alike.declarationKind? declares]
      have members := (List.forall₂_and_left node.declarators other.declarators).mpr
        ⟨fun part member => member,alike.declarators declares⟩
      refine List.rel_foldl (P := fun progress progress' => view name progress' = view name progress)
        (R := fun part part' => part ∈ node.declarators ∧ names.AlikeDeclarator part part')
        ?_ seen members
      rintro before before' seen part part' ⟨member,below⟩
      have inside := (List.mem_filter.mp (List.mem_filter.mp member).1).1
      exact view_declarator admissible same below (unwritten.part inside) (kept declares part member)
        seen sameMention _
    · exact seen

theorem view_explicit (alike : names.AlikeScript root other) (kept : ¬Lost names root name)
    (sameMentions : other.statements.map mentions = root.statements.map mentions) :
    view name (explicit other imports') = view name (explicit root imports) := by
  have statements : List.Forall₂ (fun statement statement' => statement ∈ root.statements ∧
      names.AlikeStatement statement statement') root.statements other.statements := by
    refine (List.forall₂_and_left _ _).mpr ⟨fun _ => id,List.rel_filter ?_ alike.named⟩
    intro _ _ below
    simp [below.1]
  have step (statement : Node) (member : statement ∈ root.statements) :
      Unwritten names statement ∧ (statement.isVariableDeclaration = true →
        ∀ declarator ∈ statement.declarators, ¬LostBy names declarator name) := by
    have inside := (List.mem_filter.mp (List.mem_filter.mp member).1).1
    refine ⟨fun part below => admissible.unwritten part (Node.preorder_subset root statement inside below),?_⟩
    exact fun declares declarator listed lost => kept ⟨statement,member,declares,declarator,listed,lost⟩
  have run {nodes others : List Node} (statements : List.Forall₂ (fun statement statement' =>
      statement ∈ root.statements ∧ names.AlikeStatement statement statement') nodes others)
      (sameMentions : others.map mentions = nodes.map mentions) (progress progress' : Progress)
      (seen : view name progress' = view name progress) :
      view name (others.foldl (Progress.statement imports') progress') =
        view name (nodes.foldl (Progress.statement imports) progress) := by
    induction statements generalizing progress progress' with
    | nil => exact seen
    | @cons statement statement' _ _ below _ ih =>
      obtain ⟨first,rest⟩ := List.cons.inj sameMentions
      obtain ⟨unwritten,kept⟩ := step statement below.1
      exact ih rest _ _ (view_statement admissible same below.2 unwritten kept seen first)
  exact run statements sameMentions _ _ rfl

end Statements

def isBareCall (callee : String) (parent : Kind) (node : Node) : Bool :=
  node.kind = .callExpression && node.called? = some callee && parent ≠ .variableDeclarator

theorem hasBareCall_eq (callee : String) (parent : Kind) (node : Node) :
    hasBareCall callee parent node =
      (isBareCall callee parent node || anyBareCall callee node.kind node.children) := by
  have direct (isCall : node.kind = .callExpression) : node.callee? = node.called? := by
    have own : node.unwrapped = node := by
      rw [Node.unwrapped_of_not_isTransparent]
      simp [isCall,Kind.isTransparent]
    rw [Node.callee?_eq,own,if_pos isCall]
  have same : (node.kind = .callExpression && node.calls callee && parent ≠ .variableDeclarator) =
      isBareCall callee parent node := by
    unfold isBareCall Node.calls
    by_cases isCall : node.kind = .callExpression
    · rw [direct isCall]
    · simp [isCall]
  rw [← same]
  cases node
  rw [hasBareCall]

theorem anyBareCall_of_leaves {callee : String} {parent : Kind} {nodes : List Node}
    (leaves : ∀ node ∈ nodes, node.children = []) : anyBareCall callee parent nodes = false := by
  rw [anyBareCall_eq,List.any_eq_false]
  intro node member
  have leaf := leaves node member
  simp [hasBareCall_eq,isBareCall,Node.called?,Node.child?,leaf,anyBareCall]

theorem anyBareCall_congr {callee : String} {parent : Kind} {nodes others : List Node}
    (alike : List.Forall₂ (fun node other =>
      hasBareCall callee parent other = hasBareCall callee parent node) nodes others) :
    anyBareCall callee parent others = anyBareCall callee parent nodes := by
  rw [anyBareCall_eq,anyBareCall_eq]
  induction alike with
  | nil => rfl
  | cons same _ ih => rw [List.any_cons,List.any_cons,same,ih]

section BareCalls

variable {callee : String} (spared : names.Spares callee)
include spared

theorem isBareCall_alike (kind : other.kind = node.kind) (parts : names.AlikeParts inside node other)
    (parent : Kind) : isBareCall callee parent other = isBareCall callee parent node := by
  unfold isBareCall
  rw [kind]
  rcases parts.called?_cases with same | ⟨old,new⟩
  · rw [same]
  · simp [old,new,spared.1.symm,spared.2.symm]

theorem hasBareCall_alike {role : Role} (alike : names.Alike role node other) (parent : Kind) :
    hasBareCall callee parent other = hasBareCall callee parent node := by
  induction node using Node.byParts generalizing role other parent with
  | step node ih =>
    rw [hasBareCall_eq,hasBareCall_eq]
    cases alike.change with
    | same like _ =>
      rw [isBareCall_alike spared like.kind like.parts,like.kind]
      congr 1
      exact anyBareCall_congr (like.parts.member.imp fun part _ below => ih part below.1 below.2 _)
    | expanded form =>
      have entry := Renaming.expanded_of_isExpanded form
      simp [isBareCall,entry.kind,entry.kind',entry.single,anyBareCall,
        anyBareCall_of_leaves entry.leaves]
    | renamed _ old new =>
      simp [isBareCall,old.kind,new.kind,anyBareCall_of_leaves old.leaves,
        anyBareCall_of_leaves new.leaves]

theorem hasBareCall_parts (kind : other.kind = node.kind) (parts : names.AlikeParts inside node other)
    (parent : Kind) : hasBareCall callee parent other = hasBareCall callee parent node := by
  rw [hasBareCall_eq,hasBareCall_eq,isBareCall_alike spared kind parts,kind]
  congr 1
  exact anyBareCall_congr (parts.imp fun _ _ below => hasBareCall_alike spared below _)

theorem hasBareCall_statement (alike : names.AlikeStatement node other) (parent : Kind) :
    hasBareCall callee parent other = hasBareCall callee parent node := by
  obtain ⟨kind,_,parts⟩ := alike
  split at parts
  next declares =>
    have noCall : node.kind ≠ .callExpression := by
      intro isCall
      simp [Node.isVariableDeclaration,isCall] at declares
    simp only [hasBareCall_eq,isBareCall,kind,noCall,decide_false,Bool.false_and,Bool.false_or]
    exact anyBareCall_congr (parts.imp fun _ _ below => hasBareCall_parts spared below.1 below.2.2 _)
  · exact hasBareCall_parts spared kind parts parent

theorem anyBareCall_script {root : Node} (alike : names.AlikeScript root other) (parent : Kind) :
    anyBareCall callee parent other.children = anyBareCall callee parent root.children :=
  anyBareCall_congr (alike.imp fun _ _ below => hasBareCall_statement spared below _)

end BareCalls

theorem isProp_eq (plain : Option Node) (root : Node) (declared : Declared) (name : String) :
    isProp (collect plain root declared) name =
      (((collect plain root declared).get? name).map isPropKind).getD false := by
  have distinct : (collect plain root declared).keys.Nodup := by
    apply OrderedMap.nodup_keys_foldl_insert
    cases plain with
    | none => exact List.nodup_nil
    | some node =>
      simp only [Option.map_some,Option.getD_some,optionBindings]
      split
      · exact OrderedMap.nodup_keys_ofList _
      · exact List.nodup_nil
  rw [Bool.eq_iff_iff,isProp_iff _ name distinct]
  cases (collect plain root declared).get? name <;> simp [isPropKind]

theorem target_of_open {imports : StoreImports} {isConst : Bool} {declarator : Node}
    (opened : verdict imports isConst declarator = .open name) :
    ∃ target ∈ declarator.child? .name, target.kind = .identifier ∧ target.name = name := by
  rw [verdict_eq] at opened
  cases found : declarator.child? .name with
  | none =>
    rw [found] at opened
    contradiction
  | some target =>
    rw [found,Option.map_some,Option.getD_some] at opened
    by_cases isName : target.kind = .identifier
    · have named := congrArg Verdict.names opened
      rw [(names_judge imports isConst _ _ target).1 isName] at named
      exact ⟨target,rfl,isName,List.singleton_inj.mp named⟩
    · rw [judge,if_neg isName] at opened
      split at opened <;> contradiction

theorem mem_setupBindings_of_pending (producers : Producers) (root : Node) (imports : StoreImports) :
    ∀ pending ∈ (explicit root imports).pending,
      pending.name ∈ (setupBindings producers root).map Prod.fst := by
  refine List.foldlRecOn (motive := fun progress : Progress => ∀ pending ∈ progress.pending,
    pending.name ∈ (setupBindings producers root).map Prod.fst) _ _ (by simp) ?_
  intro progress kept statement member
  unfold Progress.statement
  dsimp only
  split
  · split <;> exact kept
  · split
    next declaration =>
      refine List.foldlRecOn (motive := fun progress : Progress => ∀ pending ∈ progress.pending,
        pending.name ∈ (setupBindings producers root).map Prod.fst) _ _ kept ?_
      intro progress kept declarator listed pending held
      rw [declarator_eq_take] at held
      cases told : verdict imports (statement.declarationKind? = some .const) declarator with
      | settled _ _
      | silent =>
        rw [told] at held
        exact kept pending held
      | «open» own =>
        rw [told,take,List.mem_append,List.mem_singleton] at held
        rcases held with before | rfl
        · exact kept pending before
        · obtain ⟨target,named,isName,rfl⟩ := target_of_open told
          obtain ⟨part,form⟩ := List.mem_filter.mp listed
          have declares : DeclaresTarget root declarator target :=
            ⟨⟨statement,(List.mem_filter.mp member).1,
              by simpa [Node.isVariableDeclaration] using declaration,part⟩,by simpa using form,named⟩
          exact mem_setupBindings_of_target declares (.name (.inl isName)) (.inl isName)
    · exact kept

theorem categoryOf?_classify_alike {plain : Option Node} {root : Node}
    (admissible : Admissible names plain root) (alike : names.AlikeScript root other)
    (sameMentions : other.statements.map mentions = root.statements.map mentions)
    (spared : names.Spares name) (kept : ¬Lost names root name) (kind : other.kind = root.kind)
    (declared : Declared) :
    (classify other (collect plain other declared) (StoreImports.ofScript other)).categoryOf? name =
      (classify root (collect plain root declared) (StoreImports.ofScript root)).categoryOf? name := by
  have seen := view_explicit admissible (fun _ spared => alike.category_eq spared) alike kept sameMentions
  obtain ⟨filed,left⟩ := Prod.mk.inj seen
  have bound : (explicit other (StoreImports.ofScript other)).bound? (collect plain other declared) name =
      (explicit root (StoreImports.ofScript root)).bound? (collect plain root declared) name := by
    rw [bound?_eq,bound?_eq,seen]
    cases first : (view name (explicit root (StoreImports.ofScript root))).2.head? with
    | none => rw [Option.map_none,Option.map_none]
    | some mention =>
      obtain ⟨pending,held,_⟩ := List.mem_map.mp (List.mem_of_head? first)
      obtain ⟨member,named⟩ := List.mem_filter.mp held
      have declares := mem_setupBindings_of_pending (Producers.ofScripts (plain.toList ++ [root])) root _
        pending member
      rw [of_decide_eq_true named] at declares
      rw [get?_collect_of_declared admissible alike declared declares]
  rw [categoryOf?_classify,categoryOf?_classify,filed,bound,isProp_eq,isProp_eq,
    isProp_collect admissible alike declared spared,
    kind,anyBareCall_script (admissible.sparesMacros Macro.emits (by simp)) alike]

theorem compile_alike {setup setup' : Block} {compiled : Compiled} {plain : Option Node} {root root' : Node}
    (block : component.scriptSetup = some setup) (accepted : compile component = .ok compiled)
    (beside : component.script.mapM (parseBlock .plain setup.lang) = .ok plain)
    (parsed : parse? (Dialect.ofLang setup.lang) setup.content = some root)
    (parsed' : parse? (Dialect.ofLang setup.lang) setup'.content = some root')
    (sameLang : setup'.lang = setup.lang) (alike : names.AlikeScript root root')
    (admissible : Admissible names plain root) :
    ∃ declared compiled', compiled.bindings = collect plain root declared ∧
      compile { component with scriptSetup := some setup' } = .ok compiled' ∧
      compiled'.bindings = collect plain root' declared := by
  have accompanied := accompanies_of_compile block accepted
  have accompanied' : ∀ plain ∈ component.script, Accompanies setup' plain := by
    intro other script
    unfold Accompanies
    rw [sameLang]
    exact accompanied other script
  obtain ⟨_,_,same⟩ := compile_eq_compileSetup block accompanied
  let component' : Descriptor := { component with scriptSetup := some setup' }
  have block' : component'.scriptSetup = some setup' := rfl
  obtain ⟨_,_,same'⟩ := compile_eq_compileSetup block' accompanied'
  rw [same] at accepted
  obtain ⟨plainRoot,read,declared,beside',read',ran,rfl⟩ := (compileSetup_eq_ok_iff _ _ _).mp accepted
  rw [beside] at beside'
  cases beside'
  rw [parseBlock,parsed] at read'
  cases read'
  have ran' : (MacroContext.ofScript ⟨TypeDeclarations.ofScripts (plain.toList ++ [root']),setup'.start⟩
      root').toOption = (MacroContext.ofScript
        ⟨TypeDeclarations.ofScripts (plain.toList ++ [root]),setup.start⟩ root).toOption :=
    alike.ofScript admissible.sparesMacros (alike.types plain.toList)
  rw [ran] at ran'
  have accepted' := (compileSetup_eq_ok_iff component.script setup' _).mpr
    ⟨plain,root',declared,by rw [sameLang,beside],by rw [parseBlock,sameLang,parsed'],
      eq_ok_of_toOption ran',rfl⟩
  exact ⟨declared,_,rfl,same'.trans accepted',rfl⟩

theorem classify_eq_ok_iff [Recovery] {setup : Block} {identifiers : Identifiers}
    (block : component.scriptSetup = some setup) :
    Analysis.classify component = .ok identifiers ↔
      ∃ compiled, compile component = .ok compiled ∧
        analyze setup.content setup.lang compiled.bindings none = identifiers := by
  cases compiles : compile component <;>
    simp [Analysis.classify,block,compiles,Except.mapError,bind,Except.bind,pure,Except.pure]

/-- Under which name a function of the framework is imported does not matter to the names of a setup
script, but for those that the classifier knows by the spelling of `computed` and `storeToRefs`. -/
theorem aliases_keep_categories [Recovery] (component : Descriptor) (setup setup' : Block)
    (identifiers : Identifiers) (names : Renaming) (plain : Option Node) (root root' : Node)
    (block : component.scriptSetup = some setup)
    (accepted : Analysis.classify component = .ok identifiers)
    (beside : component.script.mapM (parseBlock .plain setup.lang) = .ok plain)
    (parsed : parse? (Dialect.ofLang setup.lang) setup.content = some root)
    (parsed' : parse? (Dialect.ofLang setup.lang) setup'.content = some root')
    (sameLang : setup'.lang = setup.lang) (alike : names.AlikeScript root root')
    (admissible : Admissible names plain root)
    (mentioned : root'.statements.map mentions = root.statements.map mentions ∨
      mentionsProps names.fresh = false ∧ List.Forall₂ (SameWords names) root.statements root'.statements) :
    ∃ identifiers',
      Analysis.classify { component with scriptSetup := some setup' } = .ok identifiers' ∧
        ∀ name, names.Spares name → ¬Lost names root name →
          identifiers'.categoryOf? name = identifiers.categoryOf? name := by
  obtain ⟨compiled,compiles,rfl⟩ := (classify_eq_ok_iff block).mp accepted
  obtain ⟨declared,compiled',bindings,compiles',bindings'⟩ :=
    compile_alike block compiles beside parsed parsed' sameLang alike admissible
  refine ⟨_,(classify_eq_ok_iff rfl).mpr ⟨compiled',compiles',rfl⟩,fun name spared kept => ?_⟩
  have kind : root'.kind = root.kind := (kind_of_parse? parsed').trans (kind_of_parse? parsed).symm
  have sameMentions : root'.statements.map mentions = root.statements.map mentions :=
    mentioned.elim id fun ⟨quiet,words⟩ =>
      map_eq_of_forall₂ (fun _ _ => mentions_of_sameWords admissible.known quiet) words
  rw [analyze,analyze,sameLang,tree,tree,parsed,parsed',bindings,bindings']
  exact categoryOf?_classify_alike admissible alike sameMentions spared kept kind declared

instance (names : Renaming) (declarator : Node) (name : String) :
    Decidable (LostBy names declarator name) := by
  unfold LostBy
  infer_instance

instance (names : Renaming) (root : Node) (name : String) : Decidable (Lost names root name) := by
  unfold Lost
  infer_instance

instance (names : Renaming) (name : String) : Decidable (names.Spares name) := by
  unfold Renaming.Spares
  infer_instance

instance (names : Renaming) (root : Node) : Decidable (Admissible names none root) :=
  decidable_of_iff
    (((names.library = Library.vue ∧ names.function ∈ Library.reactivity) ∨
        (names.library = Library.pinia ∧ names.function = storeToRefs)) ∧
      own names ∈ root.imports ∧
      (∀ entry ∈ root.imports, entry.localName = names.function → entry = own names) ∧
      (∀ entry ∈ root.imports, entry.localName ≠ names.fresh) ∧
      (∀ part ∈ root.preorder, part.kind = .identifier → part.name ≠ names.fresh) ∧
      names.fresh ∉ telling ∧ isStoreHook names.fresh = false)
    ⟨fun all => ⟨all.1,all.2.1,all.2.2.1,all.2.2.2.1,all.2.2.2.2.1,all.2.2.2.2.2.1,all.2.2.2.2.2.2⟩,
      fun given => ⟨given.known,given.imported,given.single,given.unused,given.unwritten,given.untold,
        given.noHook⟩⟩

/-- The second of two setup scripts is the first with a function imported under a new name. -/
def IsAliased (names : Renaming) (content content' : List Char) : Prop :=
  ∃ root root', parse? (Dialect.ofLang none) content = some root ∧
    parse? (Dialect.ofLang none) content' = some root' ∧ names.AlikeScript root root' ∧
    Admissible names none root ∧ root'.statements.map mentions = root.statements.map mentions

theorem isAliased_of_test {content content' : List Char}
    (shown : ((parse? (Dialect.ofLang none) content).bind fun root =>
      (parse? (Dialect.ofLang none) content').map fun root' =>
        decide (names.AlikeScript root root' ∧ Admissible names none root ∧
          root'.statements.map mentions = root.statements.map mentions)) = some true) :
    IsAliased names content content' := by
  obtain ⟨root,parsed,shown⟩ := Option.bind_eq_some_iff.mp shown
  obtain ⟨root',parsed',shown⟩ := Option.map_eq_some_iff.mp shown
  exact ⟨root,root',parsed,parsed',of_decide_eq_true shown⟩

/-- A ref that is made under another name, and an object that the function is put into. -/
theorem alias_of_ref_keeps_categories :
    let names : Renaming := ⟨"vue","ref","r"⟩
    let content := ("import \x7b ref, computed \x7d from 'vue'\nconst n = ref(0)\n" ++
      "const double = computed(() => n.value * 2)\nconst box = \x7b ref, n \x7d").toList
    let content' := ("import \x7b ref as r, computed \x7d from 'vue'\nconst n = r(0)\n" ++
      "const double = computed(() => n.value * 2)\nconst box = \x7b ref: r, n \x7d").toList
    IsAliased names content content' ∧ ∃ before after,
      Analysis.classify (setupOnly none content) = .ok before ∧
      Analysis.classify (setupOnly none content') = .ok after ∧
      (∀ name ∈ ["n","double","box"], after.categoryOf? name = before.categoryOf? name) ∧
      before.categoryOf? "n" = some .ref ∧ before.categoryOf? "double" = some .computed := by
  -- lists of characters are evaluated faster than strings
  repeat rw [String.toList_append]
  repeat rw [String.toList_ofList]
  intro names content content'
  have aliased : IsAliased names content content' := isAliased_of_test (by decide +kernel)
  have ran : (Analysis.classify (setupOnly none content)).toOption.map (fun before =>
      (before.categoryOf? "n",before.categoryOf? "double")) = some (some .ref,some .computed) := by
    decide +kernel
  have kept : ∀ root ∈ parse? (Dialect.ofLang none) content, ∀ name ∈ ["n","double","box"],
      names.Spares name ∧ ¬Lost names root name := by
    decide +kernel
  -- from here on the texts do not matter
  clear_value content content'
  refine ⟨aliased,?_⟩
  obtain ⟨root,root',parsed,parsed',alike,admissible,sameMentions⟩ := aliased
  obtain ⟨before,succeeded,seen⟩ := Option.map_eq_some_iff.mp ran
  have accepted := eq_ok_of_toOption succeeded
  obtain ⟨after,accepted',same⟩ := aliases_keep_categories (setupOnly none content) _
    ⟨"script",content',0,content'.length,∅,none,true⟩ before names none root root' rfl accepted rfl
    parsed parsed' rfl alike admissible (.inl sameMentions)
  obtain ⟨ref,computed⟩ := Prod.mk.inj seen
  refine ⟨before,after,accepted,accepted',fun name listed => ?_,ref,computed⟩
  obtain ⟨spared,notLost⟩ := kept root parsed name listed
  exact same name spared notLost

/-- A computed value is taken for a ref under another name, and what is taken from a store for
nothing. -/
theorem alias_of_computed_changes_category :
    let content := "import \x7b computed \x7d from 'vue'\nconst x = computed(() => 1)".toList
    let content' := "import \x7b computed as c \x7d from 'vue'\nconst x = c(() => 1)".toList
    let store := ("import \x7b storeToRefs \x7d from 'pinia'\n" ++
      "const \x7b a \x7d = storeToRefs(useCart())").toList
    let store' := ("import \x7b storeToRefs as s \x7d from 'pinia'\n" ++
      "const \x7b a \x7d = s(useCart())").toList
    let category (content : List Char) (name : String) : Option (Option Category) :=
      (Analysis.classify (setupOnly none content)).toOption.map fun found => found.categoryOf? name
    (IsAliased ⟨"vue","computed","c"⟩ content content' ∧ category content "x" = some (some .computed) ∧
      category content' "x" = some (some .ref)) ∧
    (IsAliased ⟨"pinia","storeToRefs","s"⟩ store store' ∧ category store "a" = some (some .pinia) ∧
      category store' "a" = some none) := by
  repeat rw [String.toList_append]
  repeat rw [String.toList_ofList]
  intro content content' store store' category
  refine ⟨⟨?_,by decide +kernel,by decide +kernel⟩,?_,by decide +kernel,by decide +kernel⟩
  · exact isAliased_of_test (by decide +kernel)
  · exact isAliased_of_test (by decide +kernel)

end Aliases

end VueScope.Setup
