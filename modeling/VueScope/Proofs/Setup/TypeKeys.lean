import Mathlib.Logic.Relation
import VueScope.Proofs.Identifiers.OrderedMap
import VueScope.Proofs.Script.Parts
import VueScope.Script.Parse
import VueScope.Setup.TypeKeys

/-! The keys of a type are those of the object types and interfaces that it leads to. Names of types
may lead in circles; a name is not followed again on the way from it, which makes the search end and
loses no key. -/
namespace VueScope.Setup

open Script

/-- An object type, or the body of an interface, with a property or a method of the name. -/
def HasKey (type : Node) (key : String) : Prop :=
  (type.kind = .objectType ∨ type.kind = .interfaceBody) ∧
    ∃ member ∈ type.namedChildren,
      (member.kind = .propertySignature ∨ member.kind = .methodSignature) ∧
        key ≠ "" ∧ ∃ written ∈ member.child? .name, written.keyName? = some key

def genericName (type : Node) : String :=
  ((type.child? .name).map Node.name).getD ""

/-- `Partial`, `Required` or `Readonly` with an argument. -/
def IsUtility (type : Node) : Prop :=
  type.kind = .genericType ∧ keepsKeys (genericName type) = true

/-- What a type has the keys of, as it is written. -/
inductive Part : Node → Node → Prop
  | joined {type part : Node} (joins : type.kind = .intersectionType ∨ type.kind = .unionType ∨
      type.kind = .parenthesizedType) (inside : part ∈ type.namedChildren) : Part type part
  | argument {type list part : Node} (utility : IsUtility type)
      (listed : type.child? .typeArguments = some list)
      (first : list.namedChildren.head? = some part) : Part type part

/-- The name of a type, bare or with arguments. -/
inductive Names : Node → String → Prop
  | bare {type : Node} (kind : type.kind = .typeIdentifier) : Names type type.name
  | generic {type : Node} (kind : type.kind = .genericType) : Names type (genericName type)

/-- What a declaration has the keys of: the value of an alias, the bases and the body of an
interface. -/
inductive Declares : Node → Node → Prop
  | value {declaration type : Node} (isAlias : declaration.kind = .typeAliasDeclaration)
      (written : declaration.child? .value = some type) : Declares declaration type
  | base {declaration type : Node} (isInterface : declaration.kind ≠ .typeAliasDeclaration)
      (written : type ∈ bases declaration) : Declares declaration type
  | body {declaration type : Node} (isInterface : declaration.kind ≠ .typeAliasDeclaration)
      (written : declaration.child? .body = some type) : Declares declaration type

section

variable (declarations : TypeDeclarations)

/-- A type stands for what the script declares under its name, unless it is a utility type. -/
structure Refers (type : Node) (name : String) (declaration : Node) : Prop where
  names : Names type name
  proper : ¬IsUtility type
  declared : declarations.get? name = some declaration

/-- One step from a type to another that it has the keys of. -/
inductive Step : Node → Node → Prop
  | part {type next : Node} (part : Part type next) : Step type next
  | declared {type declaration next : Node} {name : String}
      (refers : Refers declarations type name declaration) (declares : Declares declaration next) :
      Step type next

/-- The types that the keys of a type are asked of, with the names that are being followed. -/
inductive Asks : List String × Node → List String × Node → Prop
  | part {seen : List String} {type next : Node} (part : Part type next) :
      Asks (seen,next) (seen,type)
  | declared {seen : List String} {type declaration next : Node} {name : String}
      (refers : Refers declarations type name declaration) (fresh : name ∉ seen)
      (declares : Declares declaration next) : Asks (name :: seen,next) (seen,type)

end

/-! The search ends: each question is about a part of a type, or leaves one name less to follow. -/

theorem Part.sizeOf_lt {type next : Node} (part : Part type next) : sizeOf next < sizeOf type := by
  cases part with
  | joined joins inside => exact Node.sizeOf_lt_of_mem_children (List.mem_filter.mp inside).1
  | argument utility listed first =>
    have outer := Node.sizeOf_lt_of_mem_children (List.mem_of_find?_eq_some listed)
    have inner := List.mem_filter.mp (List.mem_of_head? first)
    exact Nat.lt_trans (Node.sizeOf_lt_of_mem_children inner.1) outer

def unseen (declarations : TypeDeclarations) (seen : List String) : Nat :=
  (declarations.keys.filter (· ∉ seen)).length

variable {seen : List String}

theorem unseen_cons_lt {declarations : TypeDeclarations} {name : String} {declaration : Node}
    (declared : declarations.get? name = some declaration) (fresh : name ∉ seen) :
    unseen declarations (name :: seen) < unseen declarations seen := by
  have member : name ∈ declarations.keys := by
    rw [← OrderedMap.contains_iff_mem_keys,OrderedMap.contains,declared]
    rfl
  have narrower : declarations.keys.filter (· ∉ name :: seen) =
      (declarations.keys.filter (· ∉ seen)).filter (· ≠ name) := by
    rw [List.filter_filter]
    congr 1
    funext other
    simp [not_or]
  rw [unseen,narrower]
  apply List.length_filter_lt_length_iff_exists.mpr
  exact ⟨name,List.mem_filter.mpr ⟨member,by simpa using fresh⟩,by simp⟩

theorem wellFounded_asks (declarations : TypeDeclarations) : WellFounded (Asks declarations) := by
  -- names left to follow come first, the size of the type second
  have order := InvImage.wf (fun question : List String × Node =>
    (unseen declarations question.1,sizeOf question.2)) (Prod.lex Nat.lt_wfRel Nat.lt_wfRel).wf
  refine Subrelation.wf ?_ order
  rintro _ _ (part | ⟨refers,fresh,_⟩)
  · exact Prod.Lex.right _ part.sizeOf_lt
  · exact Prod.Lex.left _ _ (unseen_cons_lt refers.declared fresh)

/-! What the search finds, one question at a time. -/

theorem mem_appendNew_iff (keys more : List String) (key : String) :
    key ∈ appendNew keys more ↔ key ∈ keys ∨ key ∈ more := by
  unfold appendNew
  induction more generalizing keys with
  | nil => simp
  | cons other rest ih =>
    rw [List.foldl_cons,ih,List.mem_cons]
    split
    next held =>
      have held : other ∈ keys := by simpa using held
      constructor
      · exact fun either => either.imp_right .inr
      · rintro (old | rfl | new)
        · exact .inl old
        · exact .inl held
        · exact .inr new
    next => rw [List.mem_append,List.mem_singleton,or_assoc]

theorem mem_signatureKeys_iff (members : List Node) (key : String) :
    key ∈ signatureKeys members ↔ ∃ member ∈ members,
      (member.kind = .propertySignature ∨ member.kind = .methodSignature) ∧
        key ≠ "" ∧ ∃ written ∈ member.child? .name, written.keyName? = some key := by
  unfold signatureKeys
  rw [List.mem_filterMap]
  refine exists_congr fun member => and_congr_right fun _ => ?_
  split
  next signature =>
    have signature : member.kind = .propertySignature ∨ member.kind = .methodSignature := by
      simpa using signature
    have written : (∃ written ∈ member.child? .name, written.keyName? = some key) ↔
        (member.child? .name).bind Node.keyName? = some key := by
      rw [Option.bind_eq_some_iff]
      rfl
    rw [written]
    cases (member.child? .name).bind Node.keyName? with
    | none => simp
    | some found =>
      simp only [signature,true_and,Option.some.injEq]
      split
      next empty => simp [empty]
      next filled =>
        rw [Option.some.injEq]
        constructor
        · rintro rfl
          exact ⟨filled,rfl⟩
        · exact And.right
  next other =>
    have other : ¬(member.kind = .propertySignature ∨ member.kind = .methodSignature) := by
      simpa using other
    simp [other]

theorem part_iff (type part : Node) :
    Part type part ↔
      ((type.kind = .intersectionType ∨ type.kind = .unionType ∨ type.kind = .parenthesizedType) ∧
        part ∈ type.namedChildren) ∨
      (IsUtility type ∧ ∃ list, type.child? .typeArguments = some list ∧
        list.namedChildren.head? = some part) := by
  constructor
  · rintro (⟨joins,inside⟩ | ⟨utility,listed,first⟩)
    · exact .inl ⟨joins,inside⟩
    · exact .inr ⟨utility,_,listed,first⟩
  · rintro (⟨joins,inside⟩ | ⟨utility,_,listed,first⟩)
    · exact .joined joins inside
    · exact .argument utility listed first

theorem names_iff (type : Node) (name : String) :
    Names type name ↔ (type.kind = .typeIdentifier ∧ type.name = name) ∨
      (type.kind = .genericType ∧ genericName type = name) := by
  constructor
  · rintro (kind | kind)
    · exact .inl ⟨kind,rfl⟩
    · exact .inr ⟨kind,rfl⟩
  · rintro (⟨kind,rfl⟩ | ⟨kind,rfl⟩)
    · exact .bare kind
    · exact .generic kind

section

variable (named : String → List String)

theorem mem_keysOfParts_iff (found : List String) (children : List Node) (key : String) :
    key ∈ keysOfParts named found children ↔
      key ∈ found ∨ ∃ part ∈ children.filter (·.kind.isNamed), key ∈ keysOfType named part := by
  induction children generalizing found with
  | nil => simp [keysOfParts]
  | cons child rest ih =>
    rw [keysOfParts,ih]
    by_cases isNamed : child.kind.isNamed = true
    · simp [isNamed,mem_appendNew_iff,or_assoc]
    · simp [isNamed]

theorem keysOfFirst_eq (children : List Node) :
    keysOfFirst named children =
      ((children.filter (·.kind.isNamed)).head?.map (keysOfType named)).getD [] := by
  induction children with
  | nil => rfl
  | cons child rest ih =>
    rw [keysOfFirst]
    by_cases isNamed : child.kind.isNamed = true
    · simp [isNamed]
    · simp [isNamed,ih]

theorem keysOfArguments_eq (children : List Node) :
    keysOfArguments named children =
      ((children.find? fun child => child.field = some .typeArguments).map fun list =>
        keysOfFirst named list.children).getD [] := by
  induction children with
  | nil => rfl
  | cons child rest ih =>
    obtain ⟨kind,field,start,stop,text,inner⟩ := child
    rw [keysOfArguments,List.find?_cons]
    by_cases isList : field = some .typeArguments
    · simp [isList]
    · simp [isList,ih]

theorem mem_keysOfArguments_iff (type : Node) (key : String) :
    key ∈ keysOfArguments named type.children ↔
      ∃ part, (∃ list, type.child? .typeArguments = some list ∧
        list.namedChildren.head? = some part) ∧ key ∈ keysOfType named part := by
  rw [keysOfArguments_eq]
  change key ∈ ((type.child? .typeArguments).map fun list => keysOfFirst named list.children).getD [] ↔ _
  cases type.child? .typeArguments with
  | none => simp
  | some list =>
    rw [Option.map_some,Option.getD_some,keysOfFirst_eq]
    change key ∈ (list.namedChildren.head?.map (keysOfType named)).getD [] ↔ _
    cases first : list.namedChildren.head? <;> simp [first]

theorem keysOfName_congr {types types' : TypeDeclarations}
    (same : ∀ named name, (types'.get? name).map (keysOfDeclaration named) =
      (types.get? name).map (keysOfDeclaration named)) (depth : Nat) (seen : List String) :
    keysOfName types' depth seen = keysOfName types depth seen := by
  induction depth generalizing seen with
  | zero => rfl
  | succ depth ih =>
    funext name
    have found := same (keysOfName types depth (name :: seen)) name
    rw [keysOfName,keysOfName,ih]
    split
    · rfl
    · cases one : types'.get? name <;> cases two : types.get? name <;> simp_all

theorem keysOfType_eq (type : Node) :
    keysOfType named type = match type.kind with
      | .objectType => signatureKeys type.namedChildren
      | .interfaceBody => signatureKeys type.namedChildren
      | .intersectionType => keysOfParts named [] type.children
      | .unionType => keysOfParts named [] type.children
      | .parenthesizedType => keysOfParts named [] type.children
      | .typeIdentifier => named type.name
      | .genericType =>
        if keepsKeys (genericName type) then keysOfArguments named type.children
        else named (genericName type)
      | _ => [] := by
  obtain ⟨kind,field,start,stop,text,children⟩ := type
  rw [keysOfType.eq_def]
  cases kind <;> rfl

structure LikeKeys (named : String → List String) (node other : Node) : Prop where
  isNamed : other.kind.isNamed = node.kind.isNamed
  whole : keysOfType named other = keysOfType named node

theorem keysOfFirst_congr {nodes others : List Node} (same : List.Forall₂ (LikeKeys named) nodes others) :
    keysOfFirst named others = keysOfFirst named nodes := by
  induction same with
  | nil => rfl
  | cons like _ ih => rw [keysOfFirst,keysOfFirst,like.isNamed,like.whole,ih]

theorem keysOfParts_congr {nodes others : List Node} (same : List.Forall₂ (LikeKeys named) nodes others)
    (found : List String) : keysOfParts named found others = keysOfParts named found nodes := by
  induction same generalizing found with
  | nil => rfl
  | cons like _ ih => rw [keysOfParts,keysOfParts,like.isNamed,like.whole,ih]

theorem mem_keysOfType_iff (type : Node) (key : String) :
    key ∈ keysOfType named type ↔ HasKey type key ∨
      (∃ name, Names type name ∧ ¬IsUtility type ∧ key ∈ named name) ∨
      ∃ part, Part type part ∧ key ∈ keysOfType named part := by
  have own := mem_signatureKeys_iff type.namedChildren key
  have parts := mem_keysOfParts_iff named [] type.children key
  have arguments := mem_keysOfArguments_iff named type key
  simp only [names_iff,part_iff,IsUtility,HasKey,← own]
  rw [keysOfType_eq named type]
  split
  next kind => simp [kind]
  next kind => simp [kind]
  next kind => simp [kind,parts,Node.namedChildren]
  next kind => simp [kind,parts,Node.namedChildren]
  next kind => simp [kind,parts,Node.namedChildren]
  next kind => simp [kind]
  next kind =>
    split
    next keeps => simp [kind,keeps,arguments]
    next keeps => simp [kind,keeps]
  next => simp_all

theorem mem_keysOfDeclaration_iff (declaration : Node) (key : String) :
    key ∈ keysOfDeclaration named declaration ↔
      ∃ type, Declares declaration type ∧ key ∈ keysOfType named type := by
  have inherited (types : List Node) (keys : List String) :
      key ∈ types.foldl (fun keys base => appendNew keys (keysOfType named base)) keys ↔
        key ∈ keys ∨ ∃ base ∈ types, key ∈ keysOfType named base := by
    induction types generalizing keys with
    | nil => simp
    | cons base rest ih => simp [ih,mem_appendNew_iff,or_assoc]
  unfold keysOfDeclaration
  split
  next isAlias =>
    have only (type : Node) : Declares declaration type ↔ declaration.child? .value = some type := by
      constructor
      · rintro (⟨_,written⟩ | ⟨isInterface,_⟩ | ⟨isInterface,_⟩)
        · exact written
        · exact absurd isAlias isInterface
        · exact absurd isAlias isInterface
      · exact .value isAlias
    simp only [only]
    cases declaration.child? .value <;> simp
  next isInterface =>
    have either (type : Node) : Declares declaration type ↔
        type ∈ bases declaration ∨ declaration.child? .body = some type := by
      constructor
      · rintro (⟨isAlias,_⟩ | ⟨_,written⟩ | ⟨_,written⟩)
        · exact absurd isAlias isInterface
        · exact .inl written
        · exact .inr written
      · rintro (written | written)
        · exact .base isInterface written
        · exact .body isInterface written
    simp only [either,or_and_right,exists_or]
    cases declaration.child? .body <;> simp [inherited,mem_appendNew_iff]

end

/-! Names that are followed already need not be followed again. -/

section

variable (declarations : TypeDeclarations)

/-- A type leads to a key without following any of the names. -/
inductive Leads (seen : List String) : Node → String → Prop
  | own {type : Node} {key : String} (has : HasKey type key) : Leads seen type key
  | part {type next : Node} {key : String} (part : Part type next) (leads : Leads seen next key) :
      Leads seen type key
  | declared {type declaration next : Node} {name key : String}
      (refers : Refers declarations type name declaration) (fresh : name ∉ seen)
      (declares : Declares declaration next) (leads : Leads seen next key) : Leads seen type key

variable {declarations}

theorem Leads.mono {fewer : List String} (below : fewer ⊆ seen) {type : Node} {key : String}
    (leads : Leads declarations seen type key) : Leads declarations fewer type key := by
  induction leads with
  | own has => exact .own has
  | part part _ ih => exact .part part ih
  | declared refers fresh declares _ ih =>
    exact .declared refers (fun held => fresh (below held)) declares ih

theorem Leads.cut {name : String} {declaration : Node}
    (declared : declarations.get? name = some declaration) {type : Node} {key : String}
    (leads : Leads declarations seen type key) :
    Leads declarations (name :: seen) type key ∨
      ∃ next, Declares declaration next ∧ Leads declarations (name :: seen) next key := by
  induction leads with
  | own has => exact .inl (.own has)
  | part part _ ih => exact ih.imp_left (.part part)
  | @declared type other next own key refers fresh declares _ ih =>
    by_cases same : own = name
    · subst same
      have again : other = declaration := Option.some.inj (refers.declared.symm.trans declared)
      subst again
      exact .inr (ih.elim (fun leads => ⟨next,declares,leads⟩) id)
    · have unseen : own ∉ name :: seen := by simp [same,fresh]
      exact ih.imp_left (.declared refers unseen declares)

theorem leads_iff_asks (seen : List String) (type : Node) (key : String) :
    Leads declarations seen type key ↔ HasKey type key ∨
      ∃ question, Asks declarations question (seen,type) ∧
        Leads declarations question.1 question.2 key := by
  constructor
  · intro leads
    cases leads with
    | own has => exact .inl has
    | part part leads => exact .inr ⟨_,.part part,leads⟩
    | declared refers fresh declares leads =>
      rcases leads.cut refers.declared with leads | ⟨next,declares,leads⟩
      · exact .inr ⟨_,.declared refers fresh declares,leads⟩
      · exact .inr ⟨_,.declared refers fresh declares,leads⟩
  · rintro (has | ⟨question,asks,leads⟩)
    · exact .own has
    · cases asks with
      | part part => exact .part part leads
      | declared refers fresh declares =>
        exact .declared refers fresh declares (leads.mono (List.subset_cons_self _ _))

theorem leads_nil_iff (type : Node) (key : String) :
    Leads declarations [] type key ↔
      ∃ last, Relation.ReflTransGen (Step declarations) type last ∧ HasKey last key := by
  constructor
  · intro leads
    induction leads with
    | own has => exact ⟨_,.refl,has⟩
    | part part _ ih =>
      obtain ⟨last,path,has⟩ := ih
      exact ⟨last,.head (.part part) path,has⟩
    | declared refers _ declares _ ih =>
      obtain ⟨last,path,has⟩ := ih
      exact ⟨last,.head (.declared refers declares) path,has⟩
  · rintro ⟨last,path,has⟩
    induction path using Relation.ReflTransGen.head_induction_on with
    | refl => exact .own has
    | head step _ ih =>
      cases step with
      | part part => exact .part part ih
      | declared refers declares => exact .declared refers List.not_mem_nil declares ih

theorem mem_keysOfName_iff (depth : Nat) (seen : List String) (name key : String) :
    key ∈ keysOfName declarations depth seen name ↔
      ∃ left declaration, depth = left + 1 ∧ name ∉ seen ∧
        declarations.get? name = some declaration ∧ ∃ type, Declares declaration type ∧
          key ∈ keysOfType (keysOfName declarations left (name :: seen)) type := by
  cases depth with
  | zero => simp [keysOfName]
  | succ left =>
    rw [keysOfName]
    split
    next held =>
      have held : name ∈ seen := by simpa using held
      simp [held]
    next fresh =>
      have fresh : name ∉ seen := by simpa using fresh
      cases declarations.get? name with
      | none => simp
      | some declaration => simp [fresh,mem_keysOfDeclaration_iff]

theorem mem_keys_iff_leads (seen : List String) (type : Node) (depth : Nat) (key : String)
    (enough : unseen declarations seen ≤ depth) :
    key ∈ keysOfType (keysOfName declarations depth seen) type ↔
      Leads declarations seen type key := by
  -- the induction is on the questions that the search asks
  obtain ⟨question,same⟩ : ∃ question, question = (seen,type) := ⟨_,rfl⟩
  induction question using (wellFounded_asks declarations).induction
    generalizing seen type depth with
  | _ question ih =>
  subst same
  rw [mem_keysOfType_iff,leads_iff_asks]
  refine or_congr_right ⟨?_,?_⟩
  · rintro (⟨name,names,proper,found⟩ | ⟨next,part,found⟩)
    · obtain ⟨left,declaration,rfl,fresh,declared,next,declares,found⟩ :=
        (mem_keysOfName_iff _ _ _ _).mp found
      have asks := Asks.declared ⟨names,proper,declared⟩ fresh declares
      have fewer := unseen_cons_lt declared fresh
      exact ⟨_,asks,(ih _ asks _ _ left (by omega) rfl).mp found⟩
    · exact ⟨_,.part part,(ih _ (.part part) _ _ depth enough rfl).mp found⟩
  · rintro ⟨question,asks,leads⟩
    cases asks with
    | part part => exact .inr ⟨_,part,(ih _ (.part part) _ _ depth enough rfl).mpr leads⟩
    | @declared _ _ declaration next name refers fresh declares =>
      have fewer := unseen_cons_lt refers.declared fresh
      obtain ⟨left,rfl⟩ : ∃ left, depth = left + 1 := ⟨depth - 1,by omega⟩
      have found := (ih _ (.declared refers fresh declares) _ _ left (by omega) rfl).mpr leads
      exact .inl ⟨name,refers.names,refers.proper,(mem_keysOfName_iff _ _ _ _).mpr
        ⟨left,declaration,rfl,fresh,refers.declared,next,declares,found⟩⟩

end

def search (declarations : TypeDeclarations) (question : List String × Node) : List String :=
  keysOfType (keysOfName declarations declarations.size question.1) question.2

theorem mem_search_iff (declarations : TypeDeclarations) (question : List String × Node)
    (key : String) :
    key ∈ search declarations question ↔ Leads declarations question.1 question.2 key := by
  apply mem_keys_iff_leads
  calc unseen declarations question.1
      ≤ declarations.keys.length := List.length_filter_le _ _
    _ = declarations.size := List.length_map _

/-- The search for the keys of a type ends, whatever the script declares: it gives the keys of the
type itself and those of the types it asks, and asking cannot go on for ever. It finds just the keys
of the types that can be reached. -/
theorem keys_are_those_reached (declarations : TypeDeclarations) :
    WellFounded (Asks declarations) ∧
    (∀ question key, key ∈ search declarations question ↔ HasKey question.2 key ∨
      ∃ next, Asks declarations next question ∧ key ∈ search declarations next) ∧
    ∀ type key, key ∈ typeKeys declarations type ↔
      ∃ last, Relation.ReflTransGen (Step declarations) type last ∧ HasKey last key := by
  refine ⟨wellFounded_asks declarations,fun question key => ?_,fun type key => ?_⟩
  · simp only [mem_search_iff]
    exact leads_iff_asks question.1 question.2 key
  · have found := mem_search_iff declarations ([],type) key
    exact found.trans (leads_nil_iff type key)

instance (type : Node) (key : String) : Decidable (HasKey type key) := by
  unfold HasKey
  infer_instance

/-- A type of its own that a script declares as `Partial` is not followed where it has an argument:
the keys are those of the argument. -/
theorem declared_utility_type_is_not_followed :
    let script := "type Partial<T> = \x7b z: T \x7d\ndefineProps<Partial<\x7b a: number \x7d>>()".toList
    ∃ root type declaration value, parse? .typescript script = some root ∧ type ∈ root.preorder ∧
      Names type "Partial" ∧
      (TypeDeclarations.ofScripts [root]).get? "Partial" = some declaration ∧
      Declares declaration value ∧ HasKey value "z" ∧
      typeKeys (TypeDeclarations.ofScripts [root]) type = ["a"] := by
  rw [String.toList_ofList]
  intro script
  have read : (parse? .typescript script).isSome = true := by decide +kernel
  have shown : ∀ root ∈ parse? .typescript script, ∃ type ∈ root.preorder,
      type.kind = .genericType ∧ genericName type = "Partial" ∧
      (∃ declaration ∈ (TypeDeclarations.ofScripts [root]).get? "Partial",
        declaration.kind = .typeAliasDeclaration ∧
          ∃ value ∈ declaration.child? .value, HasKey value "z") ∧
      typeKeys (TypeDeclarations.ofScripts [root]) type = ["a"] := by
    decide +kernel
  obtain ⟨root,parsed⟩ := Option.isSome_iff_exists.mp read
  obtain ⟨type,inside,kind,named,⟨declaration,declared,isAlias,value,written,has⟩,keys⟩ :=
    shown root parsed
  exact ⟨root,type,declaration,value,parsed,inside,named ▸ .generic kind,declared,
    .value isAlias written,has,keys⟩

end VueScope.Setup
