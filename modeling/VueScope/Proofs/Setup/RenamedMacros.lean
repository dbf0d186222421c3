import VueScope.Proofs.Script.Aliased
import VueScope.Proofs.Setup.Faults
import VueScope.Proofs.Setup.Shift
import VueScope.Proofs.Setup.TypeKeys

/-! Macros declare the same whatever name a function is imported by: the keys of types, the props that
are taken apart, the models and the events do not depend on it. -/
namespace VueScope.Script.Renaming

open Setup

variable {names : Renaming} {role : Role} {node other : Node}

theorem Alike.signatureKeys {nodes others : List Node}
    (alike : List.Forall₂ (fun node other => ∃ role, names.Alike role node other) nodes others) :
    Setup.signatureKeys others = Setup.signatureKeys nodes := by
  refine filterMap_eq_of_forall₂ ?_ alike
  rintro member member' ⟨role,alike⟩
  have same := alike.test
    (fun kind => decide (kind = .propertySignature) || decide (kind = .methodSignature)) rfl
  rw [same]
  split
  next signature =>
    have kind : member.kind = .propertySignature ∨ member.kind = .methodSignature := by
      simpa using signature
    obtain ⟨_,_,property,method,_⟩ := refers_inside_key role
    have like : names.Like role member member' := by
      apply alike.like <;> rcases kind with kind | kind <;> simp [kind]
    rw [like.keyName?_child]
    rcases kind with kind | kind <;> rwa [kind]
  · rfl

theorem Like.genericName (like : names.Like role node other) (kind : node.kind = .genericType)
    (isOpen : role.isOpen = true) : Setup.genericName other = Setup.genericName node := by
  have fixed : role.inside node.kind (some .name) = .fixed := by
    cases role <;> first | rfl | contradiction | rw [kind]; rfl
  unfold Setup.genericName
  rcases like.parts.child? .name with ⟨none,none'⟩ | ⟨part,part',found,found',_,below⟩
  · rw [none,none']
  · rw [found,found',Option.map_some,Option.map_some]
    rw [fixed] at below
    rw [below.name_of_label (by simpa using List.find?_some found) (.inr rfl)]

variable {named : String → List String} {types' : TypeDeclarations} {context' context : MacroContext}

theorem Alike.keysOfType_and_first (alike : names.Alike role node other) (isOpen : role.isOpen = true)
    (named : String → List String) :
    keysOfType named other = keysOfType named node ∧
      (names.Like role node other → keysOfFirst named other.children = keysOfFirst named node.children) := by
  induction node using Node.byParts generalizing role other with
  | step node ih =>
    have parts (like : names.Like role node other) :
        List.Forall₂ (LikeKeys named) node.children other.children :=
      like.parts.member.imp fun part _ both => ⟨both.2.test Kind.isNamed rfl,
        (ih part both.1 both.2 (Role.isOpen_inside isOpen _ _)).1⟩
    refine ⟨?_,fun like => keysOfFirst_congr named (parts like)⟩
    rcases alike.kind with same | ⟨kind,kind'⟩
    · have like := alike.like
      have members (noEntry : node.kind ≠ .shorthandProperty)
          (noImport : node.kind ≠ .importSpecifier) :
          Setup.signatureKeys other.namedChildren = Setup.signatureKeys node.namedChildren :=
        Alike.signatureKeys ((like noEntry noImport).parts.named.imp fun _ _ alike => ⟨_,alike⟩)
      rw [keysOfType_eq,keysOfType_eq,same]
      split
      next kind => exact members (by simp [kind]) (by simp [kind])
      next kind => exact members (by simp [kind]) (by simp [kind])
      next kind => exact keysOfParts_congr named (parts (like (by simp [kind]) (by simp [kind]))) []
      next kind => exact keysOfParts_congr named (parts (like (by simp [kind]) (by simp [kind]))) []
      next kind => exact keysOfParts_congr named (parts (like (by simp [kind]) (by simp [kind]))) []
      next kind =>
        have text := alike.text (by simp [Node.isVerbatim,kind]) (by simp [kind]) (by simp [kind])
          (by simp [kind])
        simp only [Node.name,text]
      next kind =>
        have like := like (by simp [kind]) (by simp [kind])
        rw [like.genericName kind isOpen,keysOfArguments_eq,keysOfArguments_eq]
        rcases like.parts.child? .typeArguments with ⟨none,none'⟩ | ⟨list,list',found,found',below,again⟩
        · rw [← Node.child?,← Node.child?,none,none']
        · have first := (ih list (List.mem_of_find?_eq_some found) below
            (Role.isOpen_inside isOpen _ _)).2 again
          rw [← Node.child?,← Node.child?,found,found',Option.map_some,Option.map_some,first]
      · rfl
    · rw [keysOfType_eq,keysOfType_eq,kind,kind']

def AlikeType (names : Renaming) (node other : Node) : Prop :=
  other = node ∨ other.kind = node.kind ∧
    ∃ inside : Option Field → Role, (∀ field, (inside field).isOpen = true) ∧
      names.AlikeParts inside node other

theorem AlikeType.bases (alike : names.AlikeType node other) (named : String → List String)
    (found : List String) :
    (Setup.bases other).foldl (fun keys base => appendNew keys (keysOfType named base)) found =
      (Setup.bases node).foldl (fun keys base => appendNew keys (keysOfType named base)) found := by
  rcases alike with rfl | ⟨_,inside,isOpen,parts⟩
  · rfl
  have clauses : List.Forall₂ (fun part part' => (part.kind = .extendsTypeClause ∧
      names.Alike (inside part.field) part part'))
      (node.namedChildren.filter fun child => child.kind = .extendsTypeClause)
      (other.namedChildren.filter fun child => child.kind = .extendsTypeClause) := by
    refine (List.forall₂_and_left _ _).mpr
      ⟨fun part member => by simpa using (List.mem_filter.mp member).2,List.rel_filter ?_ parts.named⟩
    intro _ _ alike
    simp [alike.kind_iff .extendsTypeClause]
  have bases : List.Forall₂ (LikeKeys named) (Setup.bases node) (Setup.bases other) := by
    refine List.rel_flatten (List.rel_map ?_ clauses)
    rintro clause clause' ⟨kind,alike⟩
    refine (alike.like (by simp [kind]) (by simp [kind])).parts.named.imp fun _ _ below => ?_
    exact ⟨below.test Kind.isNamed rfl,
      (below.keysOfType_and_first (Role.isOpen_inside (isOpen _) _ _) named).1⟩
  generalize Setup.bases node = nodes at bases ⊢
  generalize Setup.bases other = others at bases ⊢
  induction bases generalizing found with
  | nil => rfl
  | cons like _ ih => rw [List.foldl_cons,List.foldl_cons,like.whole,ih]

theorem AlikeType.keysOfDeclaration (alike : names.AlikeType node other)
    (named : String → List String) :
    Setup.keysOfDeclaration named other = Setup.keysOfDeclaration named node := by
  have inherited := alike.bases named []
  rcases alike with rfl | ⟨kind,inside,isOpen,parts⟩
  · rfl
  unfold Setup.keysOfDeclaration
  rw [kind,inherited]
  split
  · rcases parts.child? .value with ⟨none,none'⟩ | ⟨_,_,found,found',below,_⟩
    · rw [none,none']
    · rw [found,found']
      exact (below.keysOfType_and_first (isOpen _) named).1
  · rcases parts.child? .body with ⟨none,none'⟩ | ⟨_,_,found,found',below,_⟩
    · rw [none,none']
    · rw [found,found']
      dsimp only
      rw [(below.keysOfType_and_first (isOpen _) named).1]

def AlikeEntry (names : Renaming) (entry entry' : String × Node) : Prop :=
  entry'.1 = entry.1 ∧ names.AlikeType entry.2 entry'.2

def AlikeTypes (names : Renaming) (types types' : TypeDeclarations) : Prop :=
  List.Forall₂ names.AlikeEntry types.entries types'.entries

theorem AlikeTypes.insert {types : TypeDeclarations} (alike : names.AlikeTypes types types')
    {entry entry' : String × Node} (new : names.AlikeEntry entry entry') :
    names.AlikeTypes (types.insert entry.1 entry.2) (types'.insert entry'.1 entry'.2) := by
  obtain ⟨entries⟩ := types
  obtain ⟨entries'⟩ := types'
  unfold AlikeTypes at alike ⊢
  simp only [OrderedMap.insert] at alike ⊢
  rw [new.1]
  induction alike with
  | nil => exact .cons ⟨rfl,new.2⟩ .nil
  | cons head tail ih =>
    rw [OrderedMap.insertEntry,OrderedMap.insertEntry,head.1]
    split
    · exact .cons ⟨rfl,new.2⟩ tail
    · exact .cons head ih

theorem AlikeTypes.ofList {entries entries' : List (String × Node)}
    (alike : List.Forall₂ names.AlikeEntry entries entries') :
    names.AlikeTypes (OrderedMap.ofList entries) (OrderedMap.ofList entries') := by
  have nothing : names.AlikeTypes OrderedMap.empty OrderedMap.empty := List.Forall₂.nil
  exact List.rel_foldl (P := names.AlikeTypes) (R := names.AlikeEntry)
    (fun _ _ types _ _ new => types.insert new) nothing alike

section

variable {types : TypeDeclarations} (alike : names.AlikeTypes types types')
include alike

theorem AlikeTypes.get? (name : String) :
    (types.get? name = none ∧ types'.get? name = none) ∨
      ∃ node other, types.get? name = some node ∧ types'.get? name = some other ∧
        names.AlikeType node other := by
  obtain ⟨entries⟩ := types
  obtain ⟨entries'⟩ := types'
  unfold AlikeTypes at alike
  dsimp only at alike
  unfold OrderedMap.get?
  induction alike with
  | nil => exact .inl ⟨rfl,rfl⟩
  | @cons entry entry' _ _ head _ ih =>
    rw [List.find?_cons,List.find?_cons,head.1]
    by_cases same : entry.1 = name
    · exact .inr ⟨entry.2,entry'.2,by simp [same],by simp [same],head.2⟩
    · simpa [same] using ih

theorem AlikeTypes.keysOfName
    (depth : Nat) (seen : List String) :
    Setup.keysOfName types' depth seen = Setup.keysOfName types depth seen := by
  refine keysOfName_congr (fun named name => ?_) depth seen
  rcases alike.get? name with ⟨none,none'⟩ | ⟨_,_,found,found',declaration⟩
  · rw [none,none']
  · rw [found,found',Option.map_some,Option.map_some,declaration.keysOfDeclaration]

theorem AlikeTypes.typeKeys
    (type : names.Alike role node other) (isOpen : role.isOpen = true) :
    Setup.typeKeys types' other = Setup.typeKeys types node := by
  have size : types'.size = types.size := (List.Forall₂.length_eq alike).symm
  unfold Setup.typeKeys
  rw [alike.keysOfName,size]
  exact (type.keysOfType_and_first isOpen _).1

end

theorem alikeEntry_of_like {inside : Option Field → Role} (kind : other.kind = node.kind)
    (isOpen : ∀ field, (inside field).isOpen = true) (fixed : inside (some .name) = .fixed)
    (parts : names.AlikeParts inside node other) :
    Option.Rel names.AlikeEntry ((node.child? .name).map fun name => (name.name,node))
      ((other.child? .name).map fun name => (name.name,other)) := by
  rcases parts.child? .name with ⟨none,none'⟩ | ⟨part,part',found,found',_,below⟩
  · rw [none,none']
    exact .none
  · rw [fixed] at below
    rw [found,found']
    exact .some ⟨below.name_of_label (by simpa using List.find?_some found) (.inr rfl),
      .inr ⟨kind,inside,isOpen,parts⟩⟩

theorem AlikeStatement.declared? (alike : names.AlikeStatement node other) :
    Option.Rel names.AlikeEntry (TypeDeclarations.declared? node) (TypeDeclarations.declared? other) := by
  unfold TypeDeclarations.declared? declarationOf?
  rw [alike.1]
  by_cases isExport : node.kind = .exportStatement
  · rw [if_pos isExport,if_pos isExport]
    have parts := alike.parts (by simp [Node.isVariableDeclaration,isExport])
    rcases parts.child? .declaration with ⟨none,none'⟩ | ⟨part,part',found,found',_,below⟩
    · rw [none,none']
      exact .none
    · rw [found,found']
      have role : names.inStatement node (some .declaration) = .reference := by
        simp [inStatement,isExport]
      rw [role] at below
      dsimp only
      unfold isTypeDeclaration
      rw [below.kind]
      split
      next type =>
        refine alikeEntry_of_like below.kind (fun _ => Role.isOpen_inside rfl _ _) ?_ below.parts
        have kind : part.kind = .interfaceDeclaration ∨ part.kind = .typeAliasDeclaration := by
          simpa using type
        rcases kind with kind | kind <;> rw [kind] <;> rfl
      · exact .none
  · rw [if_neg isExport,if_neg isExport]
    dsimp only
    unfold isTypeDeclaration
    rw [alike.1]
    split
    next type =>
      have kind : node.kind = .interfaceDeclaration ∨ node.kind = .typeAliasDeclaration := by
        simpa using type
      have noVariable : node.isVariableDeclaration = false := by
        rcases kind with kind | kind <;> simp [Node.isVariableDeclaration,kind]
      have noImport : node.kind ≠ .importStatement := by
        rcases kind with kind | kind <;> simp [kind]
      refine alikeEntry_of_like alike.1 ?_ ?_ (alike.parts noVariable)
      · intro field
        rw [inStatement,if_neg noImport]
        split <;> rfl
      · simp [inStatement,noImport]
    · exact .none

theorem AlikeScript.types (plain : List Node) {root : Node} (alike : names.AlikeScript root other) :
    names.AlikeTypes (TypeDeclarations.ofScripts (plain ++ [root]))
      (TypeDeclarations.ofScripts (plain ++ [other])) := by
  apply AlikeTypes.ofList
  rw [List.map_append,List.map_append,List.flatten_append,List.flatten_append]
  refine List.rel_append (List.forall₂_same.mpr fun _ _ => ⟨rfl,.inl rfl⟩) ?_
  simp only [List.map_cons,List.map_nil,List.flatten_cons,List.flatten_nil,List.append_nil]
  exact List.rel_filterMap (fun _ _ below => below.declared?) alike.named

theorem kind_of_callee? {name : String} (calls : node.callee? = some name) :
    node.kind ≠ .shorthandProperty ∧ node.kind ≠ .importSpecifier := by
  constructor <;> intro kind <;>
    simp [Node.callee?,Node.unwrapped_of_not_isTransparent,kind,Kind.isTransparent] at calls

theorem Alike.propKeys (alike : names.Alike role node other) (isOpen : role.isOpen = true)
    (like : names.Like role node other) (types : names.AlikeTypes context.types context'.types) :
    context'.propKeys other = context.propKeys node := by
  unfold MacroContext.propKeys
  rcases like.parts.child? .typeArguments with ⟨none,none'⟩ | ⟨list,list',found,found',_,below⟩
  · rw [none,none']
    rcases alike.firstArgument with ⟨none,none'⟩ | ⟨_,_,_,_,given,given',_,first,_⟩
    · rw [none,none']
    · obtain ⟨_,inner,_⟩ := first.unwrapped
      rw [given,given']
      exact inner.listedKeys
  · rw [found,found']
    have parts : List.Forall₂ (fun part part' => ∃ role, role.isOpen = true ∧ names.Alike role part part')
        (list.namedChildren.filter fun child => child.kind ≠ .comment)
        (list'.namedChildren.filter fun child => child.kind ≠ .comment) := by
      refine (List.rel_filter ?_ below.parts.named).imp fun _ _ alike =>
        ⟨_,Role.isOpen_inside (Role.isOpen_inside isOpen _ _) _ _,alike⟩
      intro _ _ alike
      simp [alike.kind_iff .comment]
    simp only [← List.head?_filter]
    generalize list.namedChildren.filter _ = nodes at parts ⊢
    generalize list'.namedChildren.filter _ = others at parts ⊢
    cases parts with
    | nil => rfl
    | cons first _ =>
      obtain ⟨_,isOpen,first⟩ := first
      exact types.typeKeys first isOpen

theorem Alike.entry? (alike : names.Alike .pattern node other) :
    other.kind = node.kind ∧ Declared.entry? other = Declared.entry? node := by
  have like : names.Like .pattern node other := by
    cases alike.change with
    | same like _ => exact like
    | expanded form =>
      have refers := (expanded_of_isExpanded form).refers
      contradiction
    | renamed isImport _ _ => contradiction
  refine ⟨like.kind,?_⟩
  unfold Declared.entry?
  rw [like.kind]
  split
  next kind =>
    have text := alike.text (by simp [Node.isVerbatim,kind]) (by simp [kind]) (by simp [kind])
      (by simp [kind])
    simp only [Node.name,text]
  next kind =>
    rcases like.parts.child? .left with ⟨none,none'⟩ | ⟨part,part',found,found',_,below⟩
    · rw [none,none']
    · have fixed : Role.inside .pattern node.kind (some .left) = .fixed := by rw [kind]; rfl
      rw [fixed] at below
      rw [found,found',Option.map_some,Option.map_some,
        below.name_of_label (by simpa using List.find?_some found) (.inr rfl)]
  next kind =>
    have key : (other.child? .key).bind Node.keyName? = (node.child? .key).bind Node.keyName? :=
      like.keyName?_child (by rw [kind]; rfl)
    rw [key]
    dsimp only
    rcases like.parts.child? .value with ⟨none,none'⟩ | ⟨part,part',found,found',below,below'⟩
    · rw [none,none']
    · have pattern : Role.inside .pattern node.kind (some .value) = .pattern := by rw [kind]; rfl
      rw [pattern] at below below'
      rw [found,found']
      dsimp only
      rw [below'.kind]
      by_cases assigned : part.kind = .assignmentPattern
      · rw [if_pos assigned,if_pos assigned]
        rcases below'.parts.child? .left with ⟨none,none'⟩ | ⟨left,left',found,found',inner,inner'⟩
        · rw [none,none']
        · have pattern : Role.inside .pattern part.kind (some .left) = .pattern := by rw [assigned]; rfl
          rw [pattern] at inner inner'
          rw [found,found']
          dsimp only
          by_cases isName : left.kind = .identifier
          · rw [inner'.kind,inner.name_of_kept rfl isName]
          · simp [inner'.kind,isName]
      · rw [if_neg assigned,if_neg assigned]
        dsimp only
        by_cases isName : part.kind = .identifier
        · rw [below'.kind,below.name_of_kept rfl isName]
        · simp [below'.kind,isName]
  · rfl

theorem Like.destructure (like : names.Like .pattern node other) (kind : node.kind = .objectPattern)
    (declared : Declared) : declared.destructure other = declared.destructure node := by
  have parts : List.Forall₂ (names.Alike .pattern) node.namedChildren other.namedChildren :=
    like.parts.named.imp fun part _ alike => by rwa [kind] at alike
  rw [Declared.destructure_eq,Declared.destructure_eq]
  generalize node.namedChildren = nodes at parts ⊢
  generalize other.namedChildren = others at parts ⊢
  induction parts generalizing declared with
  | nil => rfl
  | @cons element element' _ _ alike _ ih =>
    have step : declared.takeApart element' = declared.takeApart element := by
      obtain ⟨kind,entry⟩ := alike.entry?
      unfold Declared.takeApart
      rw [kind,alike.boundNames (.inl rfl),entry]
    rw [List.foldl_cons,List.foldl_cons,step,ih]

inductive AlikeTarget (names : Renaming) : Option Node → Option Node → Prop
  | none : AlikeTarget names none none
  | some {target target' : Node} (like : names.Like .pattern target target') :
      AlikeTarget names (some target) (some target')

def SparesMacros (names : Renaming) : Prop :=
  ∀ name ∈ [Macro.props,Macro.emits,Macro.defaults,Macro.model,Macro.slots], names.Spares name

theorem Alike.declareProps {target target' : Option Node} (alike : names.Alike role node other)
    (isOpen : role.isOpen = true) (like : names.Like role node other)
    (types : names.AlikeTypes context.types context'.types) (same : names.AlikeTarget target target')
    (declared : Declared) :
    (context'.declareProps declared other target').toOption =
      (context.declareProps declared node target).toOption := by
  have empty : other.callArguments.isEmpty = node.callArguments.isEmpty := by
    rcases alike.firstArgument with ⟨none,none'⟩ | ⟨_,_,_,_,given,given',_⟩
    · rw [none,none']
    · rw [given,given']
      rfl
  have typed : (other.child? .typeArguments).isSome = (node.child? .typeArguments).isSome := by
    rcases like.parts.child? .typeArguments with ⟨none,none'⟩ | ⟨_,_,found,found',_⟩
    · rw [none,none']
    · rw [found,found']
      rfl
  unfold MacroContext.declareProps
  rw [empty,typed,alike.propKeys isOpen like types]
  split
  · rfl
  · split
    · rfl
    · cases same with
      | none => rfl
      | @some pattern pattern' like =>
        dsimp only
        rw [like.kind]
        split
        next kind => rw [like.destructure kind]
        · rfl

theorem Alike.apply {target target' : Option Node} (alike : names.Alike role node other)
    (isOpen : role.isOpen = true) (spared : names.SparesMacros)
    (types : names.AlikeTypes context.types context'.types) (same : names.AlikeTarget target target')
    (declared : Declared) :
    (context'.apply declared other target').toOption =
      (context.apply declared node target).toOption := by
  unfold MacroContext.apply
  rcases alike.callee?_cases with callee | ⟨old,new⟩
  · rw [callee]
    cases calls : node.callee? with
    | none => rfl
    | some name =>
      have noEntry := kind_of_callee? calls
      have like := alike.like noEntry.1 noEntry.2
      have model : MacroContext.modelName other = MacroContext.modelName node := by
        unfold MacroContext.modelName
        rcases alike.firstArgument with ⟨none,none'⟩ | ⟨_,_,_,_,given,given',_,first,_⟩
        · rw [none,none']
        · obtain ⟨_,inner,_⟩ := first.unwrapped
          simp only [given,given',List.head?_cons,inner.stringValue?]
      dsimp only
      split
      next isDefaults =>
        rcases alike.firstArgument with ⟨none,none'⟩ | ⟨_,_,_,_,given,given',role',first,isOpen'⟩
        · rw [none,none']
          rfl
        · obtain ⟨_,inner,_,isOpen''⟩ := first.unwrapped
          simp only [given,given',List.head?_cons]
          rw [first.calls_eq (spared Macro.props (by simp))]
          split
          next props =>
            have call := Node.kind_unwrapped_of_callee? (of_decide_eq_true props)
            exact inner.declareProps (isOpen'' (isOpen' isOpen))
              (inner.like (by simp [call]) (by simp [call])) types same declared
          · rfl
      · split
        · exact alike.declareProps isOpen like types same declared
        · split
          · split <;> rfl
          · split
            · rw [model]
              split <;> rfl
            · rfl
  · have apart (name : String) (known : name ∈ [Macro.props,Macro.emits,Macro.defaults,Macro.model,
        Macro.slots]) : names.function ≠ name ∧ names.fresh ≠ name :=
      ⟨(spared name known).1.symm,(spared name known).2.symm⟩
    rw [old,new]
    simp [apart Macro.props,apart Macro.emits,apart Macro.defaults,apart Macro.model]

inductive AlikeSite (names : Renaming) : Site → Site → Prop
  | exported {statement statement' : Node}
      (same : MacroContext.exportsTypes statement' = MacroContext.exportsTypes statement) :
      AlikeSite names (.exported statement) (.exported statement')
  | evaluated {role : Role} {value value' : Node} {target target' : Option Node}
      (alike : names.Alike role value value') (isOpen : role.isOpen = true)
      (same : names.AlikeTarget target target') :
      AlikeSite names (.evaluated value target) (.evaluated value' target')

theorem AlikeSite.atSite {site site' : Site} (alike : names.AlikeSite site site')
    (spared : names.SparesMacros) (types : names.AlikeTypes context.types context'.types)
    (declared : Declared) :
    (context'.atSite declared site').toOption = (context.atSite declared site).toOption := by
  cases alike with
  | exported same =>
    rw [MacroContext.atSite,MacroContext.atSite,same]
    split <;> rfl
  | evaluated alike isOpen same => exact alike.apply isOpen spared types same declared

theorem AlikeDeclarator.sites {declarator : Node} (alike : names.AlikeDeclarator declarator other) :
    List.Forall₂ names.AlikeSite (Site.ofDeclarator declarator) (Site.ofDeclarator other) := by
  have target : names.AlikeTarget (declarator.child? .name) (other.child? .name) := by
    rcases alike.2.2.child? .name with ⟨none,none'⟩ | ⟨_,_,found,found',_,below⟩
    · rw [none,none']
      exact .none
    · rw [found,found']
      exact .some below
  unfold Site.ofDeclarator
  rcases alike.2.2.child? .value with ⟨none,none'⟩ | ⟨_,_,found,found',below,_⟩
  · rw [none,none']
    exact .nil
  · rw [found,found']
    obtain ⟨_,inner,_,isOpen⟩ := below.unwrapped
    exact .cons (.evaluated inner (isOpen rfl) target) .nil

section

variable {statement : Node} (alike : names.AlikeStatement statement other)
include alike

theorem AlikeStatement.declarators
    (declares : statement.isVariableDeclaration = true) :
    List.Forall₂ names.AlikeDeclarator statement.declarators other.declarators := by
  obtain ⟨_,_,parts⟩ := alike
  rw [declares] at parts
  have named : List.Forall₂ names.AlikeDeclarator statement.namedChildren other.namedChildren := by
    refine List.rel_filter ?_ parts
    intro _ _ below
    simp [below.1]
  refine List.rel_filter ?_ named
  intro _ _ below
  simp [below.1]

theorem AlikeStatement.declarationKind?
    (declares : statement.isVariableDeclaration = true) :
    other.declarationKind? = statement.declarationKind? := by
  obtain ⟨_,_,parts⟩ := alike
  rw [declares] at parts
  unfold Node.declarationKind?
  generalize statement.children = nodes at parts ⊢
  generalize other.children = others at parts ⊢
  induction parts with
  | nil => rfl
  | cons below _ ih => rw [List.findSome?_cons,List.findSome?_cons,below.1,ih]

theorem AlikeStatement.sites :
    List.Forall₂ names.AlikeSite (Site.ofStatement statement) (Site.ofStatement other) := by
  have declares : other.isVariableDeclaration = statement.isVariableDeclaration := by
    rw [Node.isVariableDeclaration,Node.isVariableDeclaration,alike.1]
  unfold Site.ofStatement
  rw [alike.1,declares]
  split
  next isExport =>
    have parts := alike.parts (by simp [Node.isVariableDeclaration,isExport])
    refine .cons (.exported ?_) .nil
    unfold MacroContext.exportsTypes isTypeDeclaration
    rcases parts.child? .declaration with ⟨none,none'⟩ | ⟨_,_,found,found',_,below⟩
    · rw [none,none']
      exact parts.hasToken .typeKeyword (by decide) (by decide)
    · rw [found,found']
      dsimp only
      rw [below.kind]
  · split
    next isExpression =>
      have parts := alike.parts (by simp [Node.isVariableDeclaration,isExpression])
      have named := parts.named
      generalize statement.namedChildren = nodes at named ⊢
      generalize other.namedChildren = others at named ⊢
      cases named with
      | nil => exact .nil
      | @cons part part' _ _ below _ =>
        have isOpen : (names.inStatement statement part.field).isOpen = true := by
          simp only [inStatement,isExpression,reduceCtorEq,if_false]
          split <;> rfl
        obtain ⟨_,inner,_,isOpen'⟩ := below.unwrapped
        exact .cons (.evaluated inner (isOpen' isOpen) .none) .nil
    · split
      next declares =>
        exact List.rel_flatMap (alike.declarators declares) fun _ _ below => below.sites
      · exact .nil

end

theorem AlikeScript.ofScript {root : Node} (alike : names.AlikeScript root other)
    (spared : names.SparesMacros) (types : names.AlikeTypes context.types context'.types) :
    (context'.ofScript other).toOption = (context.ofScript root).toOption := by
  have sites : List.Forall₂ names.AlikeSite (Site.ofScript root) (Site.ofScript other) :=
    List.rel_flatMap alike.named fun _ _ below => below.sites
  rw [MacroContext.ofScript_eq,MacroContext.ofScript_eq]
  refine (MacroContext.foldlM_toOption (sites.imp fun _ _ below declared => ?_) _).symm
  exact (below.atSite spared types declared).symm

end VueScope.Script.Renaming
