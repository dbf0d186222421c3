import VueScope.Proofs.Script.ImportReaders
import VueScope.Proofs.Script.Renamed

/-! Two scripts that differ by the name under which a function is imported. The imports of the second
are those of the first, with the new name for the function. -/
namespace VueScope.Script

variable {source name : String} {isType : Bool} {statement : Node}

namespace Renaming

variable (names : Renaming)

def isSource (statement : Node) : Bool :=
  statement.importSource? = some names.library && !statement.hasToken .typeKeyword

def inStatement (statement : Node) (field : Option Field) : Role :=
  if statement.kind = .importStatement then if names.isSource statement then .imported else .fixed
  else if field = some .name then .fixed
  else .reference

def inDeclarator (field : Option Field) : Role :=
  if field = some .name then .pattern else if field = some .value then .value else .reference

def AlikeDeclarator (declarator other : Node) : Prop :=
  other.kind = declarator.kind ∧ other.field = declarator.field ∧
    names.AlikeParts inDeclarator declarator other

def AlikeStatement (statement other : Node) : Prop :=
  other.kind = statement.kind ∧ other.field = statement.field ∧
    if statement.isVariableDeclaration then
      List.Forall₂ names.AlikeDeclarator statement.children other.children
    else names.AlikeParts (names.inStatement statement) statement other

def AlikeScript (root other : Node) : Prop :=
  List.Forall₂ names.AlikeStatement root.children other.children

instance (declarator other : Node) : Decidable (names.AlikeDeclarator declarator other) := by
  unfold AlikeDeclarator
  infer_instance

instance (statement other : Node) : Decidable (names.AlikeStatement statement other) := by
  unfold AlikeStatement
  infer_instance

instance (root other : Node) : Decidable (names.AlikeScript root other) := by
  unfold AlikeScript
  infer_instance

def rename (entry : Import) : Import :=
  if entry = ⟨names.function,names.function,names.library,false,.listed⟩ then
    { entry with localName := names.fresh }
  else entry

variable {names} {role : Role} {node other : Node}

theorem Like.name_of_label (like : names.Like role node other) {field : Field}
    (plays : node.field = some field) (kept : role = .imported ∨ role = .fixed) :
    other.name = node.name := by
  have text := like.text
  rw [sameText,if_pos (by rcases kept with rfl | rfl <;> simp [plays])] at text
  exact congrArg String.ofList (by simpa using text)

theorem inside_of_kept (kept : role = .imported ∨ role = .fixed) (kind : Kind) (field : Option Field) :
    role.inside kind field = role := by
  rcases kept with rfl | rfl <;> rfl

theorem Like.importedNames? (like : names.Like role node other)
    (kept : role = .imported ∨ role = .fixed) : other.importedNames? = node.importedNames? := by
  have label (field : Field) : (node.child? field = none ∧ other.child? field = none) ∨
      ∃ part part', node.child? field = some part ∧ other.child? field = some part' ∧
        names.Alike role part part' ∧ part'.kind = part.kind ∧ part'.name = part.name := by
    rcases like.parts.child? field with none | ⟨part,part',found,found',alike,same⟩
    · exact .inl none
    · rw [inside_of_kept kept] at alike same
      have plays : part.field = some field := by simpa using List.find?_some found
      exact .inr ⟨part,part',found,found',alike,same.kind,same.name_of_label plays kept⟩
  unfold Node.importedNames?
  rcases label .name with ⟨none,none'⟩ | ⟨part,part',found,found',alike,kind,name⟩
  · rw [none,none']
  · rw [found,found']
    dsimp only
    rw [kind,alike.stringValue?,name]
    rcases label .aliasName with ⟨none,none'⟩ | ⟨_,_,found,found',_,_,name'⟩
    · rw [none,none']
    · rw [found,found']
      dsimp only
      rw [name']

theorem Alike.specifier (alike : names.Alike role node other) (kept : role = .imported ∨ role = .fixed) :
    (other.kind = node.kind ∧ other.importedNames? = node.importedNames? ∧
      other.hasToken .typeKeyword = node.hasToken .typeKeyword ∧
      (role = .imported → names.importsAs names.function node = false)) ∨
    role = .imported ∧ names.Specifies names.function node ∧ names.Specifies names.fresh other := by
  cases alike.change with
  | same like unchanged =>
    exact .inl ⟨like.kind,like.importedNames? kept,
      like.parts.hasToken .typeKeyword (by decide) (by decide),unchanged⟩
  | expanded form =>
    have refers := (expanded_of_isExpanded form).refers
    rcases kept with rfl | rfl <;> contradiction
  | renamed isImport old new => exact .inr ⟨isImport,old,new⟩

theorem rename_of_form {entry : Import} (form : entry.form ≠ .listed) : names.rename entry = entry := by
  rw [rename,if_neg]
  rintro rfl
  exact form rfl

def Fits (names : Renaming) (role : Role) (source : String) (isType : Bool) : Prop :=
  role = .imported ∧ source = names.library ∧ isType = false ∨
    role = .fixed ∧ (source = names.library → isType = true)

theorem Fits.kept (fits : names.Fits role source isType) : role = .imported ∨ role = .fixed := by
  rcases fits with ⟨imported,_⟩ | ⟨fixed,_⟩
  · exact .inl imported
  · exact .inr fixed

def importOf? (source : String) (isType : Bool) (specifier : Node) : Option Import :=
  if specifier.kind = .importSpecifier then
    specifier.importedNames?.map fun pair =>
      ⟨pair.2,pair.1,source,isType || specifier.hasToken .typeKeyword,.listed⟩
  else none

theorem Alike.importOf? (alike : names.Alike role node other) (fits : names.Fits role source isType) :
    Renaming.importOf? source isType other =
      (Renaming.importOf? source isType node).map names.rename := by
  unfold Renaming.importOf?
  rcases alike.specifier fits.kept with ⟨kind,named,token,unchanged⟩ | ⟨imported,old,new⟩
  · rw [kind,named,token]
    split
    next isSpecifier =>
      cases found : node.importedNames? with
      | none => rfl
      | some pair =>
        simp only [Option.map_some,Option.some.injEq]
        symm
        rw [rename,if_neg]
        intro own
        simp only [Import.mk.injEq,Bool.or_eq_false_iff,and_true] at own
        obtain ⟨localName,imported,isLibrary,value,noToken⟩ := own
        rcases fits with ⟨role,_,_⟩ | ⟨_,types⟩
        · have own : names.importsAs names.function node = true := by
            simp [importsAs,isSpecifier,noToken,found,Prod.ext_iff,localName,imported]
          rw [unchanged role] at own
          contradiction
        · rw [types isLibrary] at value
          contradiction
    · rfl
  · obtain ⟨_,isLibrary,value⟩ : role = .imported ∧ source = names.library ∧ isType = false := by
      rcases fits with fits | ⟨fixed,_⟩
      · exact fits
      · rw [imported] at fixed
        contradiction
    simp [old.kind,new.kind,old.named,new.named,old.value,new.value,rename,isLibrary,value]

theorem Alike.importsOfPart (alike : names.Alike role node other) (fits : names.Fits role source isType) :
    other.importsOfPart source isType = (node.importsOfPart source isType).map names.rename := by
  have kept : role.refers = false := by rcases fits.kept with rfl | rfl <;> rfl
  have parts (noEntry : node.kind ≠ .shorthandProperty) (noImport : node.kind ≠ .importSpecifier) :
      List.Forall₂ (names.Alike role) node.namedChildren other.namedChildren :=
    (alike.like noEntry noImport).parts.named.imp fun _ _ alike => by
      rwa [inside_of_kept fits.kept] at alike
  unfold Node.importsOfPart
  rcases alike.kind with same | ⟨kind,kind'⟩
  · rw [same]
    split
    next kind => simp [alike.name_of_kept kept kind,rename_of_form]
    next kind =>
      have chosen : List.Forall₂ (names.Alike role)
          (node.namedChildren.filter fun child => child.kind = .identifier)
          (other.namedChildren.filter fun child => child.kind = .identifier) := by
        refine List.rel_filter ?_ (parts (by simp [kind]) (by simp [kind]))
        intro _ _ alike
        simp [alike.kind_iff .identifier]
      have named := (List.forall₂_and_left _ _).mpr
        ⟨fun child member => (List.mem_filter.mp member).2,chosen⟩
      rw [List.map_map]
      refine (map_eq_of_forall₂ ?_ named)
      rintro child child' ⟨isName,alike⟩
      simp [alike.name_of_kept kept (by simpa using isName),rename_of_form]
    next kind =>
      have each := parts (by simp [kind]) (by simp [kind])
      rw [List.map_filterMap]
      exact filterMap_eq_of_forall₂ (fun _ _ alike => alike.importOf? fits) each
    · rfl
  · rw [kind,kind']
    rfl

theorem exists_fits (names : Renaming) {statement : Node} (kind : statement.kind = .importStatement) :
    ∃ role, (role = .imported ∨ role = .fixed) ∧ (∀ field, names.inStatement statement field = role) ∧
      ∀ source, statement.importSource? = some source →
        names.Fits role source (statement.hasToken .typeKeyword) := by
  refine ⟨if names.isSource statement then .imported else .fixed,?_,?_,?_⟩
  · split
    · exact .inl rfl
    · exact .inr rfl
  · intro field
    rw [inStatement,if_pos kind]
  · intro source found
    unfold isSource Fits
    rw [found]
    by_cases isLibrary : source = names.library <;>
      cases statement.hasToken .typeKeyword <;> simp [isLibrary]

theorem Alike.importsOfClause (alike : names.Alike role node other) (kind : node.kind = .importClause)
    (fits : names.Fits role source isType) :
    (other.namedChildren.map (Node.importsOfPart source isType)).flatten =
      ((node.namedChildren.map (Node.importsOfPart source isType)).flatten).map names.rename := by
  rw [List.map_flatten,List.map_map]
  congr 1
  refine map_eq_of_forall₂ ?_ (alike.like (by simp [kind]) (by simp [kind])).parts.named
  intro _ _ below
  rw [inside_of_kept fits.kept] at below
  exact below.importsOfPart fits

theorem AlikeStatement.parts {statement other : Node} (alike : names.AlikeStatement statement other)
    (noVariable : statement.isVariableDeclaration = false) :
    names.AlikeParts (names.inStatement statement) statement other := by
  obtain ⟨_,_,parts⟩ := alike
  rwa [noVariable] at parts

section

variable (alike : names.AlikeStatement statement other) (kind : statement.kind = .importStatement)
include alike kind

theorem AlikeStatement.importSource? : other.importSource? = statement.importSource? := by
  have parts := alike.parts (by simp [Node.isVariableDeclaration,kind])
  unfold Node.importSource?
  rcases parts.child? .source with ⟨none,none'⟩ | ⟨part,part',found,found',below,_⟩
  · rw [none,none']
  · rw [found,found',Option.bind_some,Option.bind_some,below.stringValue?]

theorem AlikeStatement.librarySource? : other.librarySource? = statement.librarySource? := by
  have parts := alike.parts (by simp [Node.isVariableDeclaration,kind])
  unfold Node.librarySource?
  rcases parts.child? .source with ⟨none,none'⟩ | ⟨part,part',found,found',below,_⟩
  · simp only [none,none',Option.none_or]
    have named := parts.named
    generalize statement.namedChildren = nodes at named ⊢
    generalize other.namedChildren = others at named ⊢
    induction named with
    | nil => rfl
    | @cons part _ _ _ below _ ih =>
      have same := below.kind_iff .string (by decide) (by decide)
      by_cases isString : part.kind = .string
      · simp [isString,same,below.stringValue?]
      · simpa [isString,same] using ih
  · simp [found,found',below.stringValue?]

theorem AlikeStatement.clauses
    (inside : ∀ field, names.inStatement statement field = role) :
    List.Forall₂ (fun clause clause' => clause.kind = .importClause ∧ names.Alike role clause clause')
      (statement.namedChildren.filter fun child => child.kind = .importClause)
      (other.namedChildren.filter fun child => child.kind = .importClause) := by
  have parts := alike.parts (by simp [Node.isVariableDeclaration,kind])
  refine (List.forall₂_and_left _ _).mpr ⟨fun clause member => by simpa using (List.mem_filter.mp member).2,?_⟩
  refine List.rel_filter ?_ (parts.named.imp fun _ _ below => by rwa [inside] at below)
  intro _ _ below
  simp [below.kind_iff .importClause]

end

theorem AlikeStatement.importsOfStatement (alike : names.AlikeStatement statement other) :
    other.importsOfStatement = statement.importsOfStatement.map names.rename := by
  unfold Node.importsOfStatement
  rw [alike.1]
  split
  next kind =>
    obtain ⟨role,_,inside,fits⟩ := exists_fits names kind
    have parts := alike.parts (by simp [Node.isVariableDeclaration,kind])
    rw [alike.importSource? kind,parts.hasToken .typeKeyword (by decide) (by decide)]
    cases found : statement.importSource? with
    | none => rfl
    | some source =>
      dsimp only
      rw [List.map_flatten,List.map_map]
      congr 1
      exact map_eq_of_forall₂ (fun _ _ both => both.2.importsOfClause both.1 (fits source found))
        (alike.clauses kind inside)
  · rfl

variable {root : Node}

theorem AlikeScript.named (alike : names.AlikeScript root other) :
    List.Forall₂ names.AlikeStatement root.namedChildren other.namedChildren := by
  refine List.rel_filter ?_ alike
  intro _ _ below
  simp [below.1]

theorem AlikeScript.imports (alike : names.AlikeScript root other) :
    other.imports = root.imports.map names.rename := by
  unfold Node.imports
  rw [List.map_flatten,List.map_map]
  congr 1
  exact map_eq_of_forall₂ (fun _ _ below => below.importsOfStatement) alike.named

theorem Alike.specifiers (alike : names.Alike role node other) (kind : node.kind = .importClause)
    (kept : role = .imported ∨ role = .fixed) :
    List.Forall₂ (names.Alike role) node.specifiers other.specifiers := by
  have below {node other : Node} (like : names.Like role node other) :
      List.Forall₂ (names.Alike role) node.namedChildren other.namedChildren :=
    like.parts.named.imp fun _ _ alike => by rwa [inside_of_kept kept] at alike
  have chosen (wanted : Kind) (noEntry : wanted ≠ .shorthandProperty) (noPair : wanted ≠ .pair)
      {nodes others : List Node} (alike : List.Forall₂ (names.Alike role) nodes others) :
      List.Forall₂ (names.Alike role) (nodes.filter fun part => part.kind = wanted)
        (others.filter fun part => part.kind = wanted) := by
    refine List.rel_filter ?_ alike
    intro _ _ alike
    simp [alike.kind_iff wanted noEntry noPair]
  have lists := (List.forall₂_and_left _ _).mpr ⟨fun part member => (List.mem_filter.mp member).2,
    chosen .namedImports (by decide) (by decide) (below (alike.like (by simp [kind]) (by simp [kind])))⟩
  refine List.rel_flatten (List.rel_map ?_ lists)
  rintro part part' ⟨form,alike⟩
  have form : part.kind = .namedImports := by simpa using form
  exact chosen .importSpecifier (by decide) (by decide)
    (below (alike.like (by simp [form]) (by simp [form])))

theorem mem_importedNames_iff {specifiers others : List Node}
    (alike : List.Forall₂ (names.Alike role) specifiers others) (kept : role = .imported ∨ role = .fixed)
    (imported : String) (spared : names.Spares name) :
    (imported,name) ∈ others.filterMap Node.importedNames? ↔
      (imported,name) ∈ specifiers.filterMap Node.importedNames? := by
  induction alike with
  | nil => rfl
  | cons alike _ ih =>
    rcases alike.specifier kept with ⟨_,same,_⟩ | ⟨_,old,new⟩
    · simp only [List.filterMap_cons,same]
      split
      · exact ih
      · rw [List.mem_cons,List.mem_cons,ih]
    · simp [old.named,new.named,ih,spared.1,spared.2]

theorem mem_listedNames_iff (statement : Node) (name : String) :
    name ∈ statement.listedNames.map Prod.snd ↔
      ∃ clause ∈ (statement.namedChildren.filter fun child => child.kind = .importClause).head?,
        ∃ imported, (imported,name) ∈ clause.specifiers.filterMap Node.importedNames? ∧
          imported ≠ "" ∧ name ≠ "" := by
  rw [List.head?_filter]
  unfold Node.listedNames
  cases statement.namedChildren.find? fun child => child.kind = .importClause with
  | none => simp
  | some clause => simp

theorem AlikeStatement.mem_listedNames_iff (alike : names.AlikeStatement statement other)
    (kind : statement.kind = .importStatement) (spared : names.Spares name) :
    name ∈ other.listedNames.map Prod.snd ↔ name ∈ statement.listedNames.map Prod.snd := by
  obtain ⟨role,kept,inside,_⟩ := exists_fits names kind
  have clauses := alike.clauses kind inside
  rw [Renaming.mem_listedNames_iff,Renaming.mem_listedNames_iff]
  generalize statement.namedChildren.filter _ = nodes at clauses ⊢
  generalize other.namedChildren.filter _ = others at clauses ⊢
  cases clauses with
  | nil => rfl
  | cons both _ =>
    have same (imported : String) :=
      mem_importedNames_iff (both.2.specifiers both.1 kept) kept imported spared
    simp only [List.head?_cons,Option.mem_def,Option.some.injEq,exists_eq_left',same]

theorem mem_listedFrom_iff (root : Node) (source name : String) :
    name ∈ (root.listedFrom source).map Prod.snd ↔
      ∃ statement ∈ root.namedChildren, (statement.kind = .importStatement ∧
        statement.librarySource? = some source) ∧ name ∈ statement.listedNames.map Prod.snd := by
  rw [Node.listedFrom_eq,List.map_flatMap,List.mem_flatMap]
  refine exists_congr fun statement => and_congr_right fun _ => ?_
  split
  next chosen => simp [chosen]
  next other => simp [other]

theorem AlikeScript.mem_listedFrom_iff (alike : names.AlikeScript root other)
    (source : String) (spared : names.Spares name) :
    name ∈ (other.listedFrom source).map Prod.snd ↔ name ∈ (root.listedFrom source).map Prod.snd := by
  rw [Renaming.mem_listedFrom_iff,Renaming.mem_listedFrom_iff]
  have statements := alike.named
  generalize root.namedChildren = nodes at statements ⊢
  generalize other.namedChildren = others at statements ⊢
  induction statements with
  | nil => simp
  | @cons statement other _ _ below _ ih =>
    have same : ((other.kind = .importStatement ∧ other.librarySource? = some source) ∧
        name ∈ other.listedNames.map Prod.snd) ↔
        ((statement.kind = .importStatement ∧ statement.librarySource? = some source) ∧
          name ∈ statement.listedNames.map Prod.snd) := by
      rw [below.1]
      by_cases kind : statement.kind = .importStatement
      · rw [below.librarySource? kind,below.mem_listedNames_iff kind spared]
      · simp [kind]
    simp only [List.mem_cons,exists_eq_or_imp,same,ih]

theorem AlikeScript.category_eq (alike : names.AlikeScript root other)
    (spared : names.Spares name) :
    (StoreImports.ofScript other).category name = (StoreImports.ofScript root).category name := by
  unfold StoreImports.category StoreImports.ofScript
  simp only [List.contains_iff_mem,alike.mem_listedFrom_iff _ spared]

end Renaming

end VueScope.Script
