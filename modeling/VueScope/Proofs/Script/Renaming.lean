import Mathlib.Data.List.Forall2
import VueScope.Proofs.Script.Pattern
import VueScope.Script.Imports
import VueScope.Script.Members

/-! A script in which a function is imported under a new name and referred to by it. The tree of the
new script is the old one but for the references, and what the names of a script mean can be told
from either. -/
namespace VueScope.Script

/-- A function of a library that gets a new name in a script. -/
structure Renaming where
  library : String
  function : String
  fresh : String
deriving DecidableEq

/-- What a node is to the names of its script. -/
inductive Role where
  /-- The value that a variable is declared with. -/
  | value
  /-- What such a value calls. -/
  | callee
  /-- A place where names refer to something, though the name may be hidden there. -/
  | reference
  | pattern
  | key
  /-- A place where nothing changes. -/
  | fixed
  /-- An import from the library. -/
  | imported
deriving DecidableEq

def Role.refers : Role → Bool
  | value => true
  | callee => true
  | reference => true
  | _ => false

/-- The roles of expressions and types, and of what stands in them. -/
def Role.isOpen : Role → Bool
  | pattern => false
  | imported => false
  | _ => true

namespace Role

/-- The role of a part in a place where names refer to something. What declares a type and what
names one keep their names. -/
def inReference (kind : Kind) (field : Option Field) : Role :=
  if field = some .name then
    if kind = .genericType || kind = .interfaceDeclaration || kind = .typeAliasDeclaration then fixed
    else key
  else if field = some .key then key
  else reference

/-- The role of a part of a pattern: default values and computed keys refer, the names that are bound
stay. -/
def inPattern (kind : Kind) (field : Option Field) : Role :=
  match kind with
  | .pairPattern =>
    if field = some .value then pattern else if field = some .key then key else reference
  | .objectAssignmentPattern => if field = some .left then fixed else reference
  | .assignmentPattern => if field = some .left then pattern else reference
  | .requiredParameter => if field = some .pattern then pattern else reference
  | .optionalParameter => if field = some .pattern then pattern else reference
  | other => if other.bindsNothing then reference else pattern

/-- The role of a part of a value: a wrapper has the value of what it wraps. -/
def inValue (kind : Kind) (field : Option Field) : Role :=
  if kind.isTransparent || kind = .sequence then value
  else if kind = .callExpression && field = some .function then callee
  else inReference kind field

def inside (role : Role) (kind : Kind) (field : Option Field) : Role :=
  match role with
  | value => inValue kind field
  | pattern => inPattern kind field
  | fixed => fixed
  | imported => imported
  | _ => inReference kind field

theorem isOpen_inside {role : Role} (isOpen : role.isOpen = true) (kind : Kind) (field : Option Field) :
    (role.inside kind field).isOpen = true := by
  have reference : (inReference kind field).isOpen = true := by
    unfold inReference
    split
    · split <;> rfl
    · split <;> rfl
  cases role with
  | value =>
    rw [inside,inValue]
    split
    · rfl
    · split
      · rfl
      · exact reference
  | callee => exact reference
  | reference => exact reference
  | key => exact reference
  | fixed => rfl
  | pattern => contradiction
  | imported => contradiction

end Role

/-- Nodes whose text says all there is to say, with or without parts. -/
def Node.isVerbatim (node : Node) : Bool :=
  match node.kind with
  | .string => true
  | .number => true
  | .propertyIdentifier => true
  | .privatePropertyIdentifier => true
  | .shorthandProperty => true
  | .shorthandPattern => true
  | .typeIdentifier => true
  | .templateString => !node.namedChildren.any fun part => part.kind = .templateSubstitution
  | _ => node.children.isEmpty

def Node.called? (call : Node) : Option String :=
  match call.child? .function with
  | some function => if function.kind = .identifier then some function.name else none
  | none => none

theorem Node.callee?_eq (node : Node) :
    node.callee? = if node.unwrapped.kind = .callExpression then node.unwrapped.called? else none :=
  rfl

namespace Renaming

variable (names : Renaming)

def apply (name : String) : String :=
  if name = names.function then names.fresh else name

/-- Names stay, or are changed where they refer to something. What a value calls is changed. -/
def sameName (role : Role) (name other : String) : Bool :=
  (other = name && !(role = .callee && name = names.function)) ||
    (role.refers && name = names.function && other = names.fresh)

def sameText (role : Role) (node other : Node) : Bool :=
  if role = .fixed || (role = .imported && node.field.isSome) then other.text = node.text
  else if node.kind = .identifier then names.sameName role node.name other.name
  else !node.isVerbatim || other.text = node.text

/-- A node without a part to play whose parts have no parts. -/
def isPlain (node : Node) : Bool :=
  node.field = none && node.children.all fun part => part.children.isEmpty

/-- The name as an entry of an object, `name`, is written `name: fresh`. -/
def isExpanded (role : Role) (node other : Node) : Bool :=
  role.refers && node.kind = .shorthandProperty && node.name = names.function &&
    node.children.isEmpty && other.kind = .pair && isPlain node && isPlain other &&
    (other.child? .key).any (fun key => key.kind = .propertyIdentifier && key.name = names.function) &&
    (other.child? .value).any fun value => value.kind = .identifier && value.name = names.fresh

/-- Whether a part of an import clause imports a value under a name. -/
def importsAs (localName : String) (specifier : Node) : Bool :=
  specifier.kind = .importSpecifier && !specifier.hasToken .typeKeyword &&
    specifier.importedNames? = some (names.function,localName)

mutual

/-- Whether two nodes are the same but for the names that change. -/
def alike (role : Role) : Node → Node → Bool
  | node@⟨kind, field, _, _, _, children⟩, other =>
    other.field = field &&
      if role = .imported && names.importsAs names.function node then
        names.importsAs names.fresh other && isPlain node && isPlain other
      else
        names.isExpanded role node other ||
          (other.kind = kind && names.sameText role node other &&
            alikeAll (role.inside kind) children other.children)

def alikeAll (inside : Option Field → Role) : List Node → List Node → Bool
  | [], [] => true
  | child :: rest, other :: others =>
    alike (inside child.field) child other && alikeAll inside rest others
  | _, _ => false

end

def Alike (role : Role) (node other : Node) : Prop :=
  names.alike role node other = true

instance (role : Role) (node other : Node) : Decidable (names.Alike role node other) := by
  unfold Alike
  infer_instance

def AlikeParts (inside : Option Field → Role) (node other : Node) : Prop :=
  List.Forall₂ (fun part part' => names.Alike (inside part.field) part part') node.children
    other.children

instance (inside : Option Field → Role) (node other : Node) :
    Decidable (names.AlikeParts inside node other) := by
  unfold AlikeParts
  infer_instance

theorem alikeAll_iff (inside : Option Field → Role) (nodes others : List Node) :
    names.alikeAll inside nodes others = true ↔
      List.Forall₂ (fun node other => names.Alike (inside node.field) node other) nodes others := by
  induction nodes generalizing others with
  | nil => cases others <;> simp [alikeAll]
  | cons node rest ih =>
    cases others with
    | nil => simp [alikeAll]
    | cons other others => simp [alikeAll,ih,Alike]

structure Like (role : Role) (node other : Node) : Prop where
  kind : other.kind = node.kind
  text : names.sameText role node other = true
  parts : names.AlikeParts (role.inside node.kind) node other

structure Specifies (localName : String) (specifier : Node) : Prop where
  free : specifier.field = none
  kind : specifier.kind = .importSpecifier
  value : specifier.hasToken .typeKeyword = false
  named : specifier.importedNames? = some (names.function,localName)
  leaves : ∀ part ∈ specifier.children, part.children = []

theorem specifies_of_importsAs {names : Renaming} {localName : String} {specifier : Node}
    (imports : names.importsAs localName specifier = true) (plain : isPlain specifier = true) :
    names.Specifies localName specifier := by
  simp only [importsAs,Bool.and_eq_true,decide_eq_true_eq,Bool.not_eq_true'] at imports
  simp only [isPlain,Bool.and_eq_true,decide_eq_true_eq,List.all_eq_true,List.isEmpty_iff] at plain
  obtain ⟨⟨kind,value⟩,named⟩ := imports
  exact ⟨plain.1,kind,value,named,plain.2⟩

inductive Change (role : Role) (node other : Node) : Prop
  | same (like : names.Like role node other)
      (kept : role = .imported → names.importsAs names.function node = false)
  | expanded (form : names.isExpanded role node other = true)
  | renamed (role : role = .imported) (old : names.Specifies names.function node)
      (new : names.Specifies names.fresh other)

variable {names} {role : Role} {node other : Node}

theorem Alike.field (alike : names.Alike role node other) : other.field = node.field := by
  cases node
  unfold Alike Renaming.alike at alike
  simp only [Bool.and_eq_true,decide_eq_true_eq] at alike
  exact alike.1

theorem Alike.change (alike : names.Alike role node other) : names.Change role node other := by
  obtain ⟨kind,field,start,stop,text,children⟩ := node
  unfold Alike Renaming.alike at alike
  rw [Bool.and_eq_true] at alike
  obtain ⟨_,alike⟩ := alike
  split at alike
  next imported =>
    simp only [Bool.and_eq_true,decide_eq_true_eq] at imported alike
    obtain ⟨⟨new,leaves⟩,leaves'⟩ := alike
    exact .renamed imported.1 (specifies_of_importsAs imported.2 leaves)
      (specifies_of_importsAs new leaves')
  next kept =>
    have kept : role = .imported → names.importsAs names.function ⟨kind,field,start,stop,text,children⟩ =
        false := by
      intro isImport
      simpa [isImport] using kept
    rw [Bool.or_eq_true] at alike
    rcases alike with expanded | same
    · exact .expanded expanded
    · simp only [Bool.and_eq_true,decide_eq_true_eq] at same
      obtain ⟨⟨sameKind,sameText⟩,parts⟩ := same
      exact .same ⟨sameKind,sameText,(names.alikeAll_iff _ _ _).mp parts⟩ kept

structure Expanded (role : Role) (node other : Node) : Prop where
  refers : role.refers = true
  free : node.field = none
  kind : node.kind = .shorthandProperty
  name : node.name = names.function
  single : node.children = []
  kind' : other.kind = .pair
  leaves : ∀ part ∈ other.children, part.children = []
  key : ∃ key ∈ other.child? .key, key.kind = .propertyIdentifier ∧ key.name = names.function

theorem expanded_of_isExpanded (form : names.isExpanded role node other = true) :
    names.Expanded role node other := by
  simp only [isExpanded,isPlain,Bool.and_eq_true,decide_eq_true_eq,List.all_eq_true,List.isEmpty_iff,
    Option.any_eq_true] at form
  obtain ⟨⟨⟨⟨⟨⟨⟨⟨refers,kind⟩,name⟩,single⟩,kind'⟩,free,_⟩,_,leaves⟩,key⟩,_⟩ := form
  exact ⟨refers,free,kind,name,single,kind',leaves,key⟩

theorem Alike.kind (alike : names.Alike role node other) :
    other.kind = node.kind ∨ node.kind = .shorthandProperty ∧ other.kind = .pair := by
  cases alike.change with
  | same like _ => exact .inl like.kind
  | expanded form =>
    have entry := expanded_of_isExpanded form
    exact .inr ⟨entry.kind,entry.kind'⟩
  | renamed _ old new =>
    exact .inl (new.kind.trans old.kind.symm)

theorem Alike.test {α : Type} (alike : names.Alike role node other) (test : Kind → α)
    (blind : test .pair = test .shorthandProperty) : test other.kind = test node.kind := by
  rcases alike.kind with same | ⟨kind,kind'⟩
  · rw [same]
  · rw [kind,kind',blind]

theorem Alike.kind_iff (alike : names.Alike role node other) (kind : Kind)
    (noEntry : kind ≠ .shorthandProperty) (noPair : kind ≠ .pair) :
    other.kind = kind ↔ node.kind = kind := by
  have same := alike.test (fun other => decide (other = kind))
    (by simp [noEntry.symm,noPair.symm])
  simpa using same

theorem Alike.like (alike : names.Alike role node other) (noEntry : node.kind ≠ .shorthandProperty)
    (noImport : node.kind ≠ .importSpecifier) : names.Like role node other := by
  cases alike.change with
  | same like _ => exact like
  | expanded form => exact absurd (expanded_of_isExpanded form).kind noEntry
  | renamed _ old _ => exact absurd old.kind noImport

theorem Alike.like_of_field (alike : names.Alike role node other) {field : Field}
    (plays : node.field = some field) : names.Like role node other := by
  cases alike.change with
  | same like _ => exact like
  | expanded form =>
    rw [(expanded_of_isExpanded form).free] at plays
    contradiction
  | renamed _ old _ =>
    rw [old.free] at plays
    contradiction

section Parts

variable {inside : Option Field → Role}

section

variable (parts : names.AlikeParts inside node other)
include parts

theorem AlikeParts.child? (field : Field) :
    (node.child? field = none ∧ other.child? field = none) ∨
      ∃ part part', node.child? field = some part ∧ other.child? field = some part' ∧
        names.Alike (inside (some field)) part part' ∧ names.Like (inside (some field)) part part' := by
  unfold AlikeParts at parts
  unfold Node.child?
  generalize node.children = nodes at parts ⊢
  generalize other.children = others at parts ⊢
  induction parts with
  | nil => exact .inl ⟨rfl,rfl⟩
  | @cons part part' _ _ alike _ ih =>
    rw [List.find?_cons,List.find?_cons,alike.field]
    by_cases plays : part.field = some field
    · have like := alike.like_of_field plays
      rw [plays] at alike like ⊢
      exact .inr ⟨part,part',by simp,by simp,alike,like⟩
    · simpa [plays] using ih

theorem AlikeParts.member :
    List.Forall₂ (fun part part' => part ∈ node.children ∧ names.Alike (inside part.field) part part')
      node.children other.children :=
  (List.forall₂_and_left _ _).mpr ⟨fun _ => id,parts⟩

theorem AlikeParts.named :
    List.Forall₂ (fun part part' => names.Alike (inside part.field) part part') node.namedChildren
      other.namedChildren := by
  refine List.rel_filter ?_ parts
  intro part part' alike
  dsimp only
  rw [alike.test Kind.isNamed rfl]

theorem AlikeParts.hasToken (kind : Kind)
    (noEntry : kind ≠ .shorthandProperty) (noPair : kind ≠ .pair) :
    other.hasToken kind = node.hasToken kind := by
  unfold AlikeParts at parts
  unfold Node.hasToken
  generalize node.children = nodes at parts ⊢
  generalize other.children = others at parts ⊢
  induction parts with
  | nil => rfl
  | cons alike _ ih => simp only [List.any_cons,ih,alike.kind_iff kind noEntry noPair]

end

end Parts

theorem Alike.name (alike : names.Alike role node other) (kind : node.kind = .identifier) :
    other.name = node.name ∨
      role.refers = true ∧ node.name = names.function ∧ other.name = names.fresh := by
  have text := (alike.like (by simp [kind]) (by simp [kind])).text
  simp only [sameText,kind,if_true] at text
  split at text
  · rw [decide_eq_true_eq] at text
    exact .inl (congrArg String.ofList text)
  · simp only [sameName,Bool.or_eq_true,Bool.and_eq_true,decide_eq_true_eq] at text
    rcases text with ⟨kept,_⟩ | ⟨⟨refers,old⟩,new⟩
    · exact .inl kept
    · exact .inr ⟨refers,old,new⟩

theorem Alike.name_of_callee (alike : names.Alike .callee node other) (kind : node.kind = .identifier) :
    other.name = names.apply node.name := by
  have text := (alike.like (by simp [kind]) (by simp [kind])).text
  rw [sameText,if_neg (by simp),if_pos kind] at text
  simp only [sameName,Bool.or_eq_true,Bool.and_eq_true,decide_eq_true_eq] at text
  unfold apply
  rcases text with ⟨kept,changed⟩ | ⟨⟨_,old⟩,new⟩
  · rw [if_neg (by simpa using changed),kept]
  · rw [if_pos old,new]

theorem Alike.text (alike : names.Alike role node other) (verbatim : node.isVerbatim = true)
    (noName : node.kind ≠ .identifier) (noEntry : node.kind ≠ .shorthandProperty)
    (noImport : node.kind ≠ .importSpecifier) : other.text = node.text := by
  have text := (alike.like noEntry noImport).text
  unfold sameText at text
  split at text
  · simpa using text
  · simpa [noName,verbatim] using text

theorem Alike.unwrapped (alike : names.Alike role node other) :
    ∃ role', names.Alike role' node.unwrapped other.unwrapped ∧ (role = .value → role' = .value) ∧
      (role.isOpen = true → role'.isOpen = true) := by
  induction node using Node.byParts generalizing role other with
  | step node ih =>
    rw [Node.unwrapped_eq node,Node.unwrapped_eq other,alike.test Kind.isTransparent rfl]
    split
    next transparent =>
      have wraps : node.kind ≠ .shorthandProperty ∧ node.kind ≠ .importSpecifier := by
        constructor <;> intro kind <;> simp [kind,Kind.isTransparent] at transparent
      have named := (alike.like wraps.1 wraps.2).parts.named
      cases first : node.namedChildren with
      | nil =>
        rw [first,List.forall₂_nil_left_iff] at named
        rw [named]
        exact ⟨role,alike,id,id⟩
      | cons part _ =>
        rw [first,List.forall₂_cons_left_iff] at named
        obtain ⟨part',_,below,_,found⟩ := named
        rw [found]
        have inside : part ∈ node.children := by
          have member : part ∈ node.namedChildren := by simp [first]
          exact (List.mem_filter.mp member).1
        obtain ⟨role',inner,value,isOpen⟩ := ih part inside below
        refine ⟨role',inner,fun isValue => value ?_,fun outer => isOpen (Role.isOpen_inside outer _ _)⟩
        simp [isValue,Role.inside,Role.inValue,transparent]
    next => exact ⟨role,alike,id,id⟩

theorem AlikeParts.called?_cases {inside : Option Field → Role}
    (parts : names.AlikeParts inside node other) :
    other.called? = node.called? ∨
      node.called? = some names.function ∧ other.called? = some names.fresh := by
  unfold Node.called?
  rcases parts.child? .function with ⟨none,none'⟩ | ⟨part,part',found,found',below,_⟩
  · simp [none,none']
  · rw [found,found']
    simp only [below.kind_iff Kind.identifier (by decide) (by decide)]
    split
    next isName =>
      rcases below.name isName with kept | ⟨_,old,new⟩
      · exact .inl (by rw [kept])
      · exact .inr ⟨by rw [old],by rw [new]⟩
    · exact .inl rfl

theorem Alike.callee?_cases (alike : names.Alike role node other) :
    other.callee? = node.callee? ∨
      node.callee? = some names.function ∧ other.callee? = some names.fresh := by
  obtain ⟨role',alike,_⟩ := alike.unwrapped
  rw [Node.callee?_eq,Node.callee?_eq]
  simp only [alike.kind_iff .callExpression (by decide) (by decide)]
  split
  next call => exact (alike.like (by simp [call]) (by simp [call])).parts.called?_cases
  · exact .inl rfl

theorem Alike.callee?_value (alike : names.Alike .value node other) :
    other.callee? = node.callee?.map names.apply := by
  obtain ⟨role',alike,value,_⟩ := alike.unwrapped
  rw [value rfl] at alike
  unfold Node.callee?
  simp only [alike.kind_iff .callExpression (by decide) (by decide)]
  split
  next call =>
    have parts := (alike.like (by simp [call]) (by simp [call])).parts
    rcases parts.child? .function with ⟨none,none'⟩ | ⟨part,part',found,found',below,_⟩
    · simp [none,none']
    · have isCallee : Role.inside .value node.unwrapped.kind (some .function) = .callee := by
        simp [Role.inside,Role.inValue,call,Kind.isTransparent]
      rw [isCallee] at below
      rw [found,found']
      simp only [below.kind_iff Kind.identifier (by decide) (by decide)]
      split
      next isName => simp [below.name_of_callee isName]
      · rfl
  · rfl

/-- A name that does not change and is not new. -/
def Spares (names : Renaming) (name : String) : Prop :=
  name ≠ names.function ∧ name ≠ names.fresh

section

variable (alike : names.Alike role node other)
include alike

theorem Alike.calls_eq {name : String} (spared : names.Spares name) :
    other.calls name = node.calls name := by
  unfold Node.calls
  rcases alike.callee?_cases with same | ⟨old,new⟩
  · rw [same]
  · simp [old,new,spared.1.symm,spared.2.symm]

theorem Alike.callsAny_eq {known : List String}
    (spared : ∀ name ∈ known, names.Spares name) : other.callsAny known = node.callsAny known := by
  unfold Node.callsAny
  rcases alike.callee?_cases with same | ⟨old,new⟩
  · rw [same]
  · have absent : names.function ∉ known := fun member => (spared _ member).1 rfl
    have absent' : names.fresh ∉ known := fun member => (spared _ member).2 rfl
    simp [old,new,absent,absent']

theorem Alike.callArguments :
    List.Forall₂ (fun part part' => ∃ role', names.Alike role' part part' ∧
      (role.isOpen = true → role'.isOpen = true)) node.callArguments other.callArguments := by
  obtain ⟨role',alike,_,outer⟩ := alike.unwrapped
  unfold Node.callArguments
  generalize node.unwrapped = call at alike ⊢
  generalize other.unwrapped = call' at alike ⊢
  have leaf (node : Node) (leaves : ∀ part ∈ node.children, part.children = []) (part : Node)
      (found : node.child? .arguments = some part) : part.namedChildren = [] := by
    simp [Node.namedChildren,leaves part (List.mem_of_find?_eq_some found)]
  cases alike.change with
  | same like _ =>
    rcases like.parts.child? .arguments with ⟨none,none'⟩ | ⟨part,part',found,found',_,below⟩
    · simp [none,none']
    · rw [found,found']
      refine (List.rel_filter ?_ below.parts.named).imp fun _ _ alike =>
        ⟨_,alike,fun isOpen => Role.isOpen_inside (Role.isOpen_inside (outer isOpen) _ _) _ _⟩
      intro part part' alike
      simp [alike.kind_iff .comment]
  | expanded form =>
    have entry := expanded_of_isExpanded form
    have none : call.child? .arguments = none := by simp [Node.child?,entry.single]
    rw [none]
    cases found : call'.child? .arguments with
    | none => exact .nil
    | some part => simp [leaf call' entry.leaves part found]
  | renamed _ old new =>
    cases found : call.child? .arguments <;> cases found' : call'.child? .arguments <;>
      simp_all [leaf call old.leaves,leaf call' new.leaves]

theorem Alike.firstArgument :
    (node.callArguments = [] ∧ other.callArguments = []) ∨ ∃ first first' more more',
      node.callArguments = first :: more ∧ other.callArguments = first' :: more' ∧
        ∃ role', names.Alike role' first first' ∧ (role.isOpen = true → role'.isOpen = true) := by
  have passed := alike.callArguments
  generalize node.callArguments = nodes at passed ⊢
  generalize other.callArguments = others at passed ⊢
  cases passed with
  | nil => exact .inl ⟨rfl,rfl⟩
  | cons first _ => exact .inr ⟨_,_,_,_,rfl,rfl,first⟩

end

end Renaming

end VueScope.Script
