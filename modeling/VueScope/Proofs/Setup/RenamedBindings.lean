import VueScope.Proofs.Setup.Constants
import VueScope.Proofs.Setup.RenamedMacros
import VueScope.Setup.Classify

/-! Names are bound alike whatever name a function of the framework is imported by: the new name is
looked up among the imports wherever the old one was. -/
namespace VueScope.Setup

open Script Component

variable {name : String}

namespace Aliases

variable {names : Renaming} {node other : Node}

/-- The functions of reactivity, and the one that takes a store apart. -/
def IsKnown (names : Renaming) : Prop :=
  (names.library = Library.vue ∧ names.function ∈ Library.reactivity) ∨
    (names.library = Library.pinia ∧ names.function = storeToRefs)

/-- Names that mean something to the classifier by themselves. -/
def telling : List String :=
  [Macro.props,Macro.emits,Macro.defaults,Macro.model,Macro.slots,"useAttrs","useSlots",
    Library.computed,storeToRefs]

def own (names : Renaming) : Import :=
  ⟨names.function,names.function,names.library,false,.listed⟩

/-- What is asked of a script and of the plain script beside it: the setup script imports the function,
no other import has its name, and the new name is in use nowhere and tells nothing. -/
structure Admissible (names : Renaming) (plain : Option Node) (root : Node) : Prop where
  known : IsKnown names
  imported : own names ∈ root.imports
  single : ∀ entry ∈ (plain.map Node.imports).getD [] ++ root.imports,
    entry.localName = names.function → entry = own names
  unused : ∀ entry ∈ (plain.map Node.imports).getD [] ++ root.imports, entry.localName ≠ names.fresh
  unwritten : ∀ part ∈ root.preorder, part.kind = .identifier → part.name ≠ names.fresh
  untold : names.fresh ∉ telling
  noHook : isStoreHook names.fresh = false

theorem IsKnown.mem (known : IsKnown names) :
    names.function ∈ Library.reactivity ++ [storeToRefs] := by
  rcases known with ⟨_,member⟩ | ⟨_,store⟩
  · exact List.mem_append_left _ member
  · simp [store]

section Admissible

variable {plain : Option Node} {root : Node} (admissible : Admissible names plain root)
include admissible

theorem Admissible.spares (tells : name ∈ telling) (other : names.function ≠ name) : names.Spares name := by
  refine ⟨other.symm,?_⟩
  rintro rfl
  exact admissible.untold tells

theorem Admissible.sparesMacros : names.SparesMacros := by
  have apart : ∀ name ∈ [Macro.props,Macro.emits,Macro.defaults,Macro.model,Macro.slots],
      name ∈ telling ∧ name ∉ Library.reactivity ++ [storeToRefs] := by decide
  intro name isMacro
  obtain ⟨tells,absent⟩ := apart name isMacro
  refine admissible.spares tells ?_
  rintro rfl
  exact absent admissible.known.mem

end Admissible

theorem apply_eq_iff {first second : String} (old : first ≠ names.fresh) (old' : second ≠ names.fresh) :
    names.apply first = names.apply second ↔ first = second := by
  unfold Renaming.apply
  constructor
  · intro same
    split at same
    next isFunction =>
      split at same
      next isFunction' => rw [isFunction,isFunction']
      next => exact absurd same.symm old'
    next =>
      split at same
      next => exact absurd same old
      next => exact same
  · rintro rfl
    rfl

theorem apply_eq_iff_of_spares {known : String} (spared : names.Spares known) :
    names.apply name = known ↔ name = known := by
  unfold Renaming.apply
  split
  next isFunction =>
    rw [isFunction]
    exact ⟨fun same => absurd same.symm spared.2,fun same => absurd same.symm spared.1⟩
  next => rfl

/-- The new name stands nowhere in a node. -/
def Unwritten (names : Renaming) (node : Node) : Prop :=
  ∀ part ∈ node.preorder, part.kind = .identifier → part.name ≠ names.fresh

theorem Unwritten.part (unwritten : Unwritten names node) {part : Node} (inside : part ∈ node.children) :
    Unwritten names part :=
  fun inner member => unwritten inner (Node.preorder_subset node part inside member)

theorem Unwritten.child? (unwritten : Unwritten names node) {part : Node} {field : Field}
    (found : node.child? field = some part) : Unwritten names part :=
  unwritten.part (List.mem_of_find?_eq_some found)

theorem Unwritten.unwrapped (unwritten : Unwritten names node) : Unwritten names node.unwrapped := by
  induction node using Node.byParts with
  | step node ih =>
    rw [Node.unwrapped_eq]
    split
    · cases first : node.namedChildren.head? with
      | none => exact unwritten
      | some part =>
        have inside := (List.mem_filter.mp (List.mem_of_head? first)).1
        exact ih part inside (unwritten.part inside)
    · exact unwritten

theorem Unwritten.callee? (unwritten : Unwritten names node) (calls : node.callee? = some name) :
    name ≠ names.fresh := by
  unfold Node.callee? at calls
  dsimp only at calls
  split at calls
  · split at calls
    next function found =>
      split at calls
      next isName =>
        cases calls
        have below := unwritten.unwrapped.child? found
        apply below function _ isName
        cases function
        rw [Node.preorder]
        exact List.mem_cons_self
      · contradiction
    · contradiction
  · contradiction

theorem spares_constantMacros (spared : names.SparesMacros) :
    ∀ name ∈ constantMacros, names.Spares name := by
  have macros : ∀ name ∈ constantMacros,
      name ∈ [Macro.props,Macro.emits,Macro.defaults,Macro.model,Macro.slots] := by decide
  exact fun name member => spared name (macros name member)

theorem declaresProps_alike {role : Role} (alike : names.Alike role node other)
    (spared : names.SparesMacros) : declaresProps other = declaresProps node := by
  have first : (other.callArguments.head?.any fun first => first.calls Macro.props) =
      node.callArguments.head?.any fun first => first.calls Macro.props := by
    rcases alike.firstArgument with ⟨none,none'⟩ | ⟨_,_,_,_,given,given',_,below,_⟩
    · rw [none,none']
    · rw [given,given']
      exact below.calls_eq (spared Macro.props (by simp))
  rw [declaresProps,declaresProps,first,alike.calls_eq (spared Macro.props (by simp)),
    alike.calls_eq (spared Macro.defaults (by simp))]

theorem alikeDeclarator_value (same : names.AlikeDeclarator node other)
    (unwritten : Unwritten names node) :
    ((node.child? .value).map Node.unwrapped = none ∧
      (other.child? .value).map Node.unwrapped = none) ∨ ∃ value value',
        (node.child? .value).map Node.unwrapped = some value ∧
        (other.child? .value).map Node.unwrapped = some value' ∧
        names.Alike .value value value' ∧ Unwritten names value := by
  rcases same.2.2.child? .value with ⟨none,none'⟩ | ⟨part,part',found,found',below,_⟩
  · simp [none,none']
  · obtain ⟨role,inner,isValue,_⟩ := below.unwrapped
    rw [isValue rfl] at inner
    exact .inr ⟨part.unwrapped,part'.unwrapped,by simp [found],by simp [found'],inner,
      (unwritten.child? found).unwrapped⟩

theorem declaredName_eq (same : names.AlikeStatement node other)
    (noVariable : node.isVariableDeclaration = false) (noImport : node.kind ≠ .importStatement) :
    (other.child? .name).map Node.name = (node.child? .name).map Node.name := by
  have fixed : names.inStatement node (some .name) = .fixed := by
    simp [Renaming.inStatement,noImport]
  rcases (same.parts noVariable).child? .name with ⟨none,none'⟩ | ⟨part,part',found,found',_,below⟩
  · rw [none,none']
  · rw [fixed] at below
    rw [found,found',Option.map_some,Option.map_some,
      below.name_of_label (by simpa using List.find?_some found) (.inr rfl)]

structure AlikeProducers (names : Renaming) (producers producers' : Producers) : Prop where
  reactive : producers'.reactive = producers.reactive.map names.apply
  unused : ∀ name ∈ producers.reactive, name ≠ names.fresh
  refs : ∃ locals : List String, producers.refs = locals ++ [Macro.model] ∧
    producers'.refs = locals.map names.apply ++ [Macro.model] ∧ ∀ name ∈ locals, name ≠ names.fresh

section Values

variable {producers producers' : Producers} (alike : AlikeProducers names producers producers')
include alike

section

variable (value : names.Alike .value node other) (unwritten : Unwritten names node)
include value unwritten

theorem makesReactive_eq :
    producers'.makesReactive other = producers.makesReactive node := by
  unfold Producers.makesReactive Node.calls
  rw [alike.reactive,value.callee?_value]
  cases found : producers.reactive with
  | none => rfl
  | some localName =>
    cases calls : node.callee? with
    | none => rfl
    | some name =>
      have unused := alike.unused localName found
      simp [apply_eq_iff (unwritten.callee? calls) unused]

theorem callsAny_refs_eq
    (spared : names.Spares Macro.model) :
    other.callsAny producers'.refs = node.callsAny producers.refs := by
  obtain ⟨locals,refs,refs',unused⟩ := alike.refs
  unfold Node.callsAny
  rw [refs,refs',value.callee?_value]
  cases calls : node.callee? with
  | none => rfl
  | some name =>
    have old := unwritten.callee? calls
    have same : (∃ localName ∈ locals, names.apply localName = names.apply name) ↔ name ∈ locals := by
      constructor
      · rintro ⟨localName,member,same⟩
        rwa [← (apply_eq_iff (unused localName member) old).mp same]
      · exact fun member => ⟨name,member,rfl⟩
    simp [same,apply_eq_iff_of_spares spared]

theorem neverRef_alike :
    neverRef producers' other = neverRef producers node := by
  induction node using Node.byParts generalizing other with
  | step node ih =>
    have inner (wraps : node.kind.isTransparent = true ∨ node.kind = .sequence) :
        List.Forall₂ (fun part part' => neverRef producers' part' = neverRef producers part)
          node.namedChildren other.namedChildren := by
      have noEntry : node.kind ≠ .shorthandProperty ∧ node.kind ≠ .importSpecifier := by
        constructor <;> intro kind <;> simp [kind,Kind.isTransparent] at wraps
      have isValue (field : Option Field) : Role.inside .value node.kind field = .value := by
        simp [Role.inside,Role.inValue,wraps]
      have parts := (List.forall₂_and_left node.namedChildren other.namedChildren).mpr
        ⟨fun part member => (List.mem_filter.mp member).1,(value.like noEntry.1 noEntry.2).parts.named⟩
      refine parts.imp ?_
      rintro part part' ⟨inside,below⟩
      rw [isValue] at below
      exact ih part inside below (unwritten.part inside)
    rw [neverRef_eq,neverRef_eq,value.test Kind.isTransparent rfl,
      value.test isFresh rfl,value.test Kind.isLiteral rfl,makesReactive_eq alike value unwritten]
    simp only [value.kind_iff .sequence (by decide) (by decide)]
    split
    next transparent =>
      have parts := inner (.inl transparent)
      generalize node.namedChildren = nodes at parts ⊢
      generalize other.namedChildren = others at parts ⊢
      cases parts with
      | nil => rfl
      | cons same _ => simpa using same
    · split
      next isSequence =>
        have parts := List.rel_reverse (inner (.inr isSequence))
        rw [List.getLast?_eq_head?_reverse,List.getLast?_eq_head?_reverse]
        generalize node.namedChildren.reverse = nodes at parts ⊢
        generalize other.namedChildren.reverse = others at parts ⊢
        cases parts with
        | nil => rfl
        | cons same _ => simpa using same
      · rfl

theorem constBinding_eq
    (spared : names.SparesMacros) : constBinding producers' other = constBinding producers node := by
  unfold constBinding
  rw [value.likeStatic.whole,makesReactive_eq alike value unwritten,
    value.callsAny_eq (spares_constantMacros spared),neverRef_alike alike value unwritten,
    declaresProps_alike value spared,
    callsAny_refs_eq alike value unwritten (spared Macro.model (by simp))]

end

theorem declaratorBindings_eq (same : names.AlikeDeclarator node other)
    (unwritten : Unwritten names node) (spared : names.SparesMacros) (isConst : Bool) :
    declaratorBindings producers' isConst other = declaratorBindings producers isConst node := by
  have value := alikeDeclarator_value same unwritten
  have named : nameBinding producers' isConst ((other.child? .value).map Node.unwrapped) =
      nameBinding producers isConst ((node.child? .value).map Node.unwrapped) := by
    unfold nameBinding
    rcases value with ⟨none,none'⟩ | ⟨_,_,found,found',below,old⟩
    · rw [none,none']
    · rw [found,found']
      dsimp only
      rw [constBinding_eq alike below old spared]
  have taken : patternBinding isConst ((other.child? .value).map Node.unwrapped) =
      patternBinding isConst ((node.child? .value).map Node.unwrapped) := by
    unfold patternBinding
    rcases value with ⟨none,none'⟩ | ⟨_,_,found,found',below,_⟩
    · rw [none,none']
    · simp only [found,found',Option.any_some,below.callsAny_eq (spares_constantMacros spared)]
  have props : ((other.child? .value).map Node.unwrapped).any declaresProps =
      ((node.child? .value).map Node.unwrapped).any declaresProps := by
    rcases value with ⟨none,none'⟩ | ⟨_,_,found,found',below,_⟩
    · rw [none,none']
    · simp only [found,found',Option.any_some,declaresProps_alike below spared]
  unfold declaratorBindings
  dsimp only
  rw [named,taken,props]
  rcases same.2.2.child? .name with ⟨none,none'⟩ | ⟨part,part',found,found',below,below'⟩
  · rw [none,none']
  · rw [found,found']
    dsimp only
    rw [below'.kind]
    split
    next isName => rw [below.name_of_kept rfl isName]
    next => rw [below.boundNames (.inl rfl)]

theorem declarationBindings_eq (same : names.AlikeStatement node other)
    (unwritten : Unwritten names node) (spared : names.SparesMacros) :
    declarationBindings producers' other = declarationBindings producers node := by
  have kind : other.isVariableDeclaration = node.isVariableDeclaration := by
    rw [Node.isVariableDeclaration,Node.isVariableDeclaration,same.1]
  simp only [declarationBindings,jointBindings_eq]
  rw [same.1,kind]
  split
  next constant =>
    have noVariable : node.isVariableDeclaration = false := by
      unfold Node.isVariableDeclaration
      cases found : node.kind <;> simp_all [declaresConstant]
    have noImport : node.kind ≠ .importStatement := by
      intro isImport
      simp [isImport,declaresConstant] at constant
    have named (declaration : Node) :
        ((declaration.child? .name).map fun name => (name.name,BindingKind.setupConst)) =
          ((declaration.child? .name).map Node.name).map fun name => (name,.setupConst) := by
      rw [Option.map_map]
      rfl
    rw [named,named,declaredName_eq same noVariable noImport]
  · split
    next declares =>
      rw [same.declarationKind? declares]
      congr 1
      have members := (List.forall₂_and_left node.declarators other.declarators).mpr
        ⟨fun part member => (List.mem_filter.mp (List.mem_filter.mp member).1).1,
          same.declarators declares⟩
      refine map_eq_of_forall₂ ?_ members
      rintro part part' ⟨inside,below⟩
      exact declaratorBindings_eq alike below (unwritten.part inside) spared _
    · rfl

theorem setupBindings_eq {root : Node} (same : names.AlikeScript root other)
    (unwritten : Unwritten names root) (spared : names.SparesMacros) :
    setupBindings producers' other = setupBindings producers root := by
  unfold setupBindings
  congr 1
  have members := (List.forall₂_and_left root.namedChildren other.namedChildren).mpr
    ⟨fun part member => (List.mem_filter.mp member).1,same.named⟩
  refine map_eq_of_forall₂ ?_ members
  rintro part part' ⟨inside,below⟩
  exact declarationBindings_eq alike below (unwritten.part inside) spared

end Values

theorem flatten_imports (plain : Option Node) (root : Node) :
    ((plain.toList ++ [root]).map Node.imports).flatten =
      (plain.map Node.imports).getD [] ++ root.imports := by
  cases plain <;> simp

theorem rename_fields (entry : Import) (single : entry.localName = names.function → entry = own names) :
    (names.rename entry).localName = names.apply entry.localName ∧
      (names.rename entry).imported = entry.imported ∧ (names.rename entry).source = entry.source ∧
      (names.rename entry).isType = entry.isType := by
  unfold Renaming.rename Renaming.apply
  split
  next isOwn => simp [isOwn]
  next other =>
    rw [if_neg (fun same => other (single same))]
    exact ⟨rfl,rfl,rfl,rfl⟩

def fromFramework (imports : List Import) : List (String × String) :=
  (imports.filter fun entry => entry.source = Library.vue && !entry.isType).map fun entry =>
    (entry.imported,entry.localName)

theorem fromFramework_rename (imports : List Import)
    (single : ∀ entry ∈ imports, entry.localName = names.function → entry = own names) :
    fromFramework (imports.map names.rename) =
      (fromFramework imports).map fun pair => (pair.1,names.apply pair.2) := by
  induction imports with
  | nil => rfl
  | cons entry rest ih =>
    have rest := ih fun entry member => single entry (List.mem_cons_of_mem _ member)
    obtain ⟨localName,imported,source,isType⟩ := rename_fields entry (single entry List.mem_cons_self)
    unfold fromFramework at rest ⊢
    simp only [List.map_cons,List.filter_cons,source,isType]
    split
    · simp only [List.map_cons,rest,localName,imported]
    · exact rest

theorem mem_of_get?_fromFramework {imports : List Import} {api localName : String}
    (found : (OrderedMap.ofList (fromFramework imports)).get? api = some localName) :
    ∃ entry ∈ imports, entry.source = Library.vue ∧ entry.isType = false ∧ entry.imported = api ∧
      entry.localName = localName := by
  obtain ⟨entry,member,same⟩ := List.mem_map.mp (OrderedMap.mem_of_get?_ofList found)
  obtain ⟨listed,fromVue⟩ := List.mem_filter.mp member
  simp only [Bool.and_eq_true,decide_eq_true_eq,Bool.not_eq_true'] at fromVue
  exact ⟨entry,listed,fromVue.1,fromVue.2,congrArg Prod.fst same,congrArg Prod.snd same⟩

theorem frameworkNames_eq (plain : Option Node) (root : Node) :
    Imports.frameworkNames (plain.toList ++ [root]) =
      OrderedMap.ofList (fromFramework ((plain.map Node.imports).getD []) ++ fromFramework root.imports) := by
  rw [Imports.frameworkNames,flatten_imports,fromFramework,fromFramework,List.filter_append,
    List.map_append]

section Scripts

variable {plain : Option Node} {root other : Node} (admissible : Admissible names plain root)
include admissible

theorem get?_frameworkNames (alike : names.AlikeScript root other) (api : String) :
    (Imports.frameworkNames (plain.toList ++ [other])).get? api =
      ((Imports.frameworkNames (plain.toList ++ [root])).get? api).map names.apply := by
  have single : ∀ entry ∈ root.imports, entry.localName = names.function → entry = own names :=
    fun entry member => admissible.single entry (List.mem_append_right _ member)
  rw [frameworkNames_eq,frameworkNames_eq,OrderedMap.get?_ofList_append,OrderedMap.get?_ofList_append,
    alike.imports,fromFramework_rename _ single,OrderedMap.get?_ofList_map]
  cases inSetup : (OrderedMap.ofList (fromFramework root.imports)).get? api with
  | some localName => rfl
  | none =>
    cases inPlain : (OrderedMap.ofList (fromFramework ((plain.map Node.imports).getD []))).get? api with
    | none => rfl
    | some localName =>
      obtain ⟨entry,member,fromVue,value,imported,named⟩ := mem_of_get?_fromFramework inPlain
      -- the setup script imports the function itself, so this one is another
      have apart : localName ≠ names.function := by
        intro same
        have isOwn := admissible.single entry (List.mem_append_left _ member) (named.trans same)
        have listed : (api,names.function) ∈ fromFramework root.imports := by
          refine List.mem_map.mpr ⟨own names,List.mem_filter.mpr ⟨admissible.imported,?_⟩,?_⟩
          · rw [← isOwn,fromVue,value]
            rfl
          · rw [← imported,isOwn]
            rfl
        have held : (OrderedMap.ofList (fromFramework root.imports)).contains api = true := by
          rw [OrderedMap.contains_ofList_iff]
          exact List.mem_map.mpr ⟨_,listed,rfl⟩
        rw [OrderedMap.contains,inSetup] at held
        contradiction
      simp [Renaming.apply,apart]

theorem ne_fresh_of_frameworkNames {api localName : String}
    (found : (Imports.frameworkNames (plain.toList ++ [root])).get? api = some localName) :
    localName ≠ names.fresh := by
  have all : fromFramework ((plain.map Node.imports).getD []) ++ fromFramework root.imports =
      fromFramework ((plain.map Node.imports).getD [] ++ root.imports) := by
    rw [fromFramework,fromFramework,fromFramework,List.filter_append,List.map_append]
  rw [frameworkNames_eq,all] at found
  obtain ⟨entry,member,_,_,_,rfl⟩ := mem_of_get?_fromFramework found
  exact admissible.unused entry member

theorem alikeProducers (alike : names.AlikeScript root other) :
    AlikeProducers names (Producers.ofScripts (plain.toList ++ [root]))
      (Producers.ofScripts (plain.toList ++ [other])) := by
  refine ⟨get?_frameworkNames admissible alike _,fun name found =>
    ne_fresh_of_frameworkNames admissible found,
    refProducers.filterMap (Imports.frameworkNames (plain.toList ++ [root])).get?,rfl,?_,?_⟩
  · rw [List.map_filterMap]
    unfold Producers.ofScripts
    simp only [get?_frameworkNames admissible alike]
  · intro name member
    obtain ⟨api,_,found⟩ := List.mem_filterMap.mp member
    exact ne_fresh_of_frameworkNames admissible found

end Scripts

def isPropKind (kind : BindingKind) : Bool :=
  kind = .props || kind = .propsAliased

def flags (entries : List (String × BindingKind)) : List (String × Bool) :=
  entries.map fun entry => (entry.1,isPropKind entry.2)

theorem isPropKind_nameBinding (producers : Producers) (isConst : Bool) (value : Option Node) :
    isPropKind (nameBinding producers isConst value) = false := by
  unfold nameBinding
  split
  · split
    · unfold constBinding
      repeat' split
      all_goals rfl
    · rfl
  · rfl

theorem flags_declarationBindings (producers producers' : Producers) (declaration : Node) :
    flags (declarationBindings producers' declaration) =
      flags (declarationBindings producers declaration) := by
  simp only [declarationBindings,jointBindings_eq]
  split
  · rfl
  · split
    · unfold flags
      rw [List.map_flatten,List.map_flatten,List.map_map,List.map_map]
      congr 2
      funext declarator
      unfold declaratorBindings
      dsimp only [Function.comp]
      split
      · rfl
      · split
        · simp [isPropKind_nameBinding]
        · rfl
    · rfl

theorem flags_plainBindings (producers producers' : Producers) (root : Node) :
    flags (plainBindings producers' root) = flags (plainBindings producers root) := by
  unfold flags plainBindings
  rw [List.map_flatten,List.map_flatten,List.map_map,List.map_map]
  congr 2
  funext declaration
  exact flags_declarationBindings producers producers' declaration

theorem mem_importBindings_iff (imports : Imports) (distinct : imports.keys.Nodup) (name : String)
    (kind : BindingKind) :
    (name,kind) ∈ importBindings imports ↔
      ∃ entry ∈ imports.get? name, entry.isType = false ∧ importBinding entry = kind := by
  unfold importBindings
  constructor
  · intro member
    obtain ⟨⟨own,entry⟩,chosen,same⟩ := List.mem_map.mp member
    obtain ⟨held,value⟩ := List.mem_filter.mp chosen
    obtain ⟨rfl,rfl⟩ := Prod.mk.inj same
    exact ⟨entry,(OrderedMap.mem_entries_iff _ _ _ distinct).mp held,by simpa using value,rfl⟩
  · rintro ⟨entry,found,value,rfl⟩
    have held := (OrderedMap.mem_entries_iff _ name entry distinct).mpr found
    exact List.mem_map.mpr ⟨(name,entry),List.mem_filter.mpr ⟨held,by simp [value]⟩,rfl⟩

theorem nodup_importBindings (imports : Imports) (distinct : imports.keys.Nodup) :
    ((importBindings imports).map Prod.fst).Nodup := by
  unfold importBindings
  rw [List.map_map]
  exact distinct.sublist (List.filter_sublist.map Prod.fst)

theorem get?_importBindings {imports imports' : Imports} (distinct : imports.keys.Nodup)
    (distinct' : imports'.keys.Nodup) (same : imports'.get? name = imports.get? name) :
    (OrderedMap.ofList (importBindings imports')).get? name =
      (OrderedMap.ofList (importBindings imports)).get? name := by
  ext kind
  rw [OrderedMap.get?_ofList_eq_some_iff _ _ _ (nodup_importBindings _ distinct),
    OrderedMap.get?_ofList_eq_some_iff _ _ _ (nodup_importBindings _ distinct'),
    mem_importBindings_iff _ distinct,mem_importBindings_iff _ distinct',same]

theorem rename_of_spares (spared : names.Spares name) (entry : Import) :
    ((names.rename entry).localName = name ↔ entry.localName = name) ∧
      (entry.localName = name → names.rename entry = entry) := by
  unfold Renaming.rename
  split
  next isOwn =>
    rw [isOwn]
    exact ⟨⟨fun same => absurd same.symm spared.2,fun same => absurd same.symm spared.1⟩,
      fun same => absurd same.symm spared.1⟩
  next => exact ⟨Iff.rfl,fun _ => rfl⟩

theorem get?_imports_of_spares (plain : Option Node) {root other : Node}
    (alike : names.AlikeScript root other) (spared : names.Spares name) :
    (Imports.ofScripts (plain.toList ++ [other])).get? name =
      (Imports.ofScripts (plain.toList ++ [root])).get? name := by
  rw [get?_imports,get?_imports,alike.imports,← List.map_reverse,List.find?_map]
  have tests : (fun entry : Import => decide (entry.localName = name)) ∘ names.rename =
      fun entry => decide (entry.localName = name) := by
    funext entry
    exact decide_eq_decide.mpr (rename_of_spares spared entry).1
  rw [tests]
  congr 1
  cases found : root.imports.reverse.find? fun entry => decide (entry.localName = name) with
  | none => rfl
  | some entry =>
    have named : entry.localName = name := by simpa using List.find?_some found
    simp [(rename_of_spares spared entry).2 named]

section Collected

variable {plain : Option Node} {root other : Node} (admissible : Admissible names plain root)
  (alike : names.AlikeScript root other)
include admissible alike

theorem setupBindings_alike :
    setupBindings (Producers.ofScripts (plain.toList ++ [other])) other =
      setupBindings (Producers.ofScripts (plain.toList ++ [root])) root :=
  setupBindings_eq (alikeProducers admissible alike) alike admissible.unwritten admissible.sparesMacros

theorem get?_collect_of_declared (declared : Declared)
    (declares : name ∈ (setupBindings (Producers.ofScripts (plain.toList ++ [root])) root).map Prod.fst) :
    (collect plain other declared).get? name = (collect plain root declared).get? name := by
  rw [← OrderedMap.contains_ofList_iff,OrderedMap.contains,Option.isSome_iff_exists] at declares
  obtain ⟨kind,found⟩ := declares
  rw [get?_collect,get?_collect,written,written,setupBindings_alike admissible alike]
  simp only [OrderedMap.get?_ofList_append,found,Option.some_or,Option.or_some]

theorem isProp_collect (declared : Declared) (spared : names.Spares name) :
    ((collect plain other declared).get? name).map isPropKind =
      ((collect plain root declared).get? name).map isPropKind := by
  have imported : (OrderedMap.ofList (importBindings (Imports.ofScripts (plain.toList ++ [other])))).get?
      name = (OrderedMap.ofList (importBindings (Imports.ofScripts (plain.toList ++ [root])))).get? name :=
    get?_importBindings (OrderedMap.nodup_keys_ofList _) (OrderedMap.nodup_keys_ofList _)
      (get?_imports_of_spares plain alike spared)
  have beside (producers producers' : Producers) :
      ((OrderedMap.ofList ((plain.map (plainBindings producers')).getD [])).get? name).map isPropKind =
        ((OrderedMap.ofList ((plain.map (plainBindings producers)).getD [])).get? name).map
          isPropKind := by
    cases plain with
    | none => rfl
    | some node =>
      have same := flags_plainBindings producers producers' node
      rw [← OrderedMap.get?_ofList_map,← OrderedMap.get?_ofList_map]
      exact congrArg (fun entries => (OrderedMap.ofList entries).get? name) same
  rw [get?_collect,get?_collect,written,written,setupBindings_alike admissible alike]
  simp only [OrderedMap.get?_ofList_append,Option.map_or,imported]
  rw [beside (Producers.ofScripts (plain.toList ++ [root]))]

end Collected

end Aliases

end VueScope.Setup
