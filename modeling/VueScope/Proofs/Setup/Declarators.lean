import Mathlib.Data.List.SplitLengths
import VueScope.Proofs.Setup.Models
import VueScope.Proofs.Setup.Unplaced

/-! Every declarator is bound by itself. Dividing a declaration into several ones and putting values
into wrappers changes neither the bindings of a component nor the names that its props get. -/
namespace VueScope.Script

namespace Kind

/-- The wrappers that can be put around any value: parentheses, and those of typed scripts. -/
def isWrapper : Kind → Bool
  | parenthesized => true
  | asExpression => true
  | satisfiesExpression => true
  | nonNull => true
  | _ => false

theorem isTransparent_of_isWrapper {kind : Kind} (wrapper : kind.isWrapper = true) :
    kind.isTransparent = true := by
  cases kind <;> first | rfl | contradiction

end Kind

namespace Node

/-- A value, or the value in any number of wrappers. -/
inductive Wraps (value : Node) : Node → Prop
  | bare {node : Node} (same : node.form = value.form) : Wraps value node
  | wrapper {node inner : Node} (kind : node.kind.isWrapper = true)
      (first : node.namedChildren.head? = some inner) (wraps : Wraps value inner) : Wraps value node

mutual

def findsInside (value : Node) : Node → Bool
  | node@⟨kind,_,_,_,_,children⟩ =>
    node.form = value.form || (kind.isWrapper && findsInFirst value children)

def findsInFirst (value : Node) : List Node → Bool
  | [] => false
  | node :: rest => if node.kind.isNamed then findsInside value node else findsInFirst value rest

end

theorem findsInFirst_eq (value : Node) (nodes : List Node) :
    findsInFirst value nodes =
      (nodes.filter fun part => part.kind.isNamed).head?.any (findsInside value) := by
  induction nodes with
  | nil => rfl
  | cons node rest ih =>
    rw [findsInFirst,List.filter_cons]
    split
    · rfl
    · exact ih

theorem findsInside_iff (value node : Node) : findsInside value node = true ↔ Wraps value node := by
  induction node using byParts with
  | step node ih =>
    have unfolded : findsInside value node = true ↔ node.form = value.form ∨
        node.kind.isWrapper = true ∧ ∃ inner ∈ node.namedChildren.head?, findsInside value inner = true := by
      obtain ⟨kind,field,start,stop,text,children⟩ := node
      rw [findsInside,findsInFirst_eq,Bool.or_eq_true,Bool.and_eq_true,decide_eq_true_eq,
        Option.any_eq_true]
      rfl
    have inside {inner : Node} (first : inner ∈ node.namedChildren.head?) : inner ∈ node.children :=
      (List.mem_filter.mp (List.mem_of_mem_head? first)).1
    rw [unfolded]
    constructor
    · intro found
      rcases found with same | ⟨kind,inner,first,found⟩
      · exact .bare same
      · exact .wrapper kind first ((ih inner (inside first)).mp found)
    · intro wraps
      cases wraps with
      | bare same => exact .inl same
      | wrapper kind first wraps =>
        exact .inr ⟨kind,_,first,(ih _ (inside first)).mpr wraps⟩

instance (value node : Node) : Decidable (Wraps value node) :=
  decidable_of_iff _ (findsInside_iff value node)

theorem Wraps.unwrapped {value node : Node} (wraps : Wraps value node) :
    node.unwrapped.form = value.unwrapped.form := by
  induction wraps with
  | bare same => exact unwrapped_of_form same
  | wrapper kind first _ ih =>
    rw [unwrapped_eq,Kind.isTransparent_of_isWrapper kind,first]
    exact ih

end Node

end VueScope.Script

namespace VueScope.Setup

open Script Component

/-- The declarator of the same target, its value perhaps in more wrappers. -/
structure Rewrapped (declarator other : Node) : Prop where
  target : (other.child? .name).map Node.unplaced = (declarator.child? .name).map Node.unplaced
  bare : declarator.child? .value = none → other.child? .value = none
  value : ∀ value ∈ declarator.child? .value, ∃ wrapped ∈ other.child? .value, value.Wraps wrapped

variable {declarator : Node} {α : Type} {plain : Option Node} {lang : Option String}

section

variable {other : Node} (rewrapped : Rewrapped declarator other)
include rewrapped

theorem Rewrapped.unwrapped :
    ((other.child? .value).map fun value => value.unwrapped.form) =
      (declarator.child? .value).map fun value => value.unwrapped.form := by
  cases given : declarator.child? .value with
  | none => rw [rewrapped.bare given]
  | some value =>
    obtain ⟨wrapped,held,wraps⟩ := rewrapped.value value given
    rw [Option.mem_def.mp held,Option.map_some,Option.map_some,wraps.unwrapped]

theorem Rewrapped.bindings (producers : Producers)
    (isConst : Bool) :
    declaratorBindings producers isConst other = declaratorBindings producers isConst declarator := by
  rw [declaratorBindings_eq,declaratorBindings_eq,rewrapped.target,rewrapped.unwrapped]

theorem Rewrapped.sites :
    (Site.ofDeclarator other).map Site.form = (Site.ofDeclarator declarator).map Site.form := by
  rw [Site.form_ofDeclarator,Site.form_ofDeclarator,rewrapped.target,rewrapped.unwrapped]

end

def declaratorsOf (statement : Node) : List Node :=
  ((declarationOf? statement).map Node.declarators).getD []

def keywordOf? (statement : Node) : Option DeclarationKind :=
  (declarationOf? statement).bind Node.declarationKind?

/-- A statement that declares variables, also behind `export`, and exports no default. -/
structure DeclaresVariables (statement : Node) : Prop where
  noDefault : statement.hasToken .defaultKeyword = false
  declaration : ∃ declaration ∈ declarationOf? statement, declaration.isVariableDeclaration = true

/-- Statements that together have the declarators of one, in the same order and of the same kind. -/
structure Divides (statement : Node) (pieces : List Node) : Prop where
  whole : DeclaresVariables statement
  alike : ∀ piece ∈ pieces, DeclaresVariables piece ∧ piece.kind = statement.kind ∧
    keywordOf? piece = keywordOf? statement
  declarators : List.Forall₂ Rewrapped (declaratorsOf statement) (pieces.flatMap declaratorsOf)

/-- What can stand for a statement. -/
inductive Replaces : Node → List Node → Prop
  | kept {node other : Node} (same : other.unplaced = node.unplaced) : Replaces node [other]
  | divided {statement : Node} {pieces : List Node} (divides : Divides statement pieces) :
      Replaces statement pieces

/-- A script whose statements are replaced one by one. Comments do not matter. -/
def Rearranged (root other : Node) : Prop :=
  ∃ parts, List.Forall₂ Replaces root.statements parts ∧ other.statements = parts.flatten

theorem flatMap_statements (contribute : Node → List α)
    (comment : ∀ node, node.kind = .comment → contribute node = []) (root : Node) :
    root.namedChildren.flatMap contribute = root.statements.flatMap contribute := by
  unfold Node.statements
  induction root.namedChildren with
  | nil => rfl
  | cons node rest ih =>
    rw [List.flatMap_cons,ih,List.filter_cons]
    split
    next => rw [List.flatMap_cons]
    next isComment =>
      rw [comment node (by simpa using isComment),List.nil_append]

theorem Rearranged.flatMap_eq {root other : Node} (rearranged : Rearranged root other)
    {contribute : Node → List α} (unplaced : ∀ node, contribute node.unplaced = contribute node)
    (comment : ∀ node, node.kind = .comment → contribute node = [])
    (divided : ∀ statement ∈ root.namedChildren, ∀ pieces, Divides statement pieces →
      pieces.flatMap contribute = contribute statement) :
    other.namedChildren.flatMap contribute = root.namedChildren.flatMap contribute := by
  obtain ⟨parts,replaces,whole⟩ := rearranged
  have each := (List.forall₂_and_left _ _).mpr
    ⟨fun statement member => (List.mem_filter.mp member).1,replaces⟩
  rw [flatMap_statements contribute comment,flatMap_statements contribute comment,whole,
    List.flatten_eq_flatMap,List.flatMap_assoc]
  refine flatMap_eq_of_forall₂ (fun statement pieces both => ?_) each
  obtain ⟨member,replaces⟩ := both
  cases replaces with
  | @kept other same =>
    rw [id,List.flatMap_singleton,← unplaced other,same,unplaced]
  | divided divides => exact divided statement member pieces divides

theorem kind_of_isVariableDeclaration {node : Node} (several : node.isVariableDeclaration = true) :
    node.kind = .lexicalDeclaration ∨ node.kind = .variableDeclaration := by
  simpa [Node.isVariableDeclaration] using several

namespace DeclaresVariables

variable {statement : Node} (declares : DeclaresVariables statement)

include declares

theorem kind : statement.kind = .exportStatement ∨ statement.isVariableDeclaration = true := by
  obtain ⟨declaration,found,several⟩ := declares.declaration
  unfold declarationOf? at found
  split at found
  next isExport => exact .inl isExport
  next =>
    cases found
    exact .inr several

theorem kind_ne_import : statement.kind ≠ .importStatement := by
  intro isImport
  rcases declares.kind with isExport | several
  · rw [isImport] at isExport
    contradiction
  · simp [Node.isVariableDeclaration,isImport] at several

theorem imports : statement.importsOfStatement = [] := by
  rw [Node.importsOfStatement,if_neg declares.kind_ne_import]

theorem noType : ∃ declaration, declarationOf? statement = some declaration ∧
    declaration.isVariableDeclaration = true ∧ isTypeDeclaration declaration = false := by
  obtain ⟨declaration,found,several⟩ := declares.declaration
  refine ⟨declaration,found,several,?_⟩
  rcases kind_of_isVariableDeclaration several with kind | kind <;>
    simp [Setup.isTypeDeclaration,kind]

theorem declared? : TypeDeclarations.declared? statement = none := by
  obtain ⟨declaration,found,_,noType⟩ := declares.noType
  simp [TypeDeclarations.declared?,found,noType]

theorem defaultValue? : Options.defaultValue? statement = none := by
  rw [Options.defaultValue?,declares.noDefault]
  simp

theorem bindings (producers : Producers) :
    (declarationOf? statement).toList.flatMap (declarationBindings producers) =
      (declaratorsOf statement).flatMap
        (declaratorBindings producers (keywordOf? statement = some .const)) := by
  obtain ⟨declaration,found,several⟩ := declares.declaration
  have noConstant : declaresConstant declaration.kind = false := by
    rcases kind_of_isVariableDeclaration several with kind | kind <;> rw [kind] <;> rfl
  simp [declaratorsOf,keywordOf?,Option.mem_def.mp found,declarationBindings,noConstant,several,
    List.flatMap_def]

end DeclaresVariables

namespace Divides

variable {statement : Node} {pieces : List Node} (divides : Divides statement pieces)

include divides

theorem flatMap_eq_nil {contribute : Node → List α}
    (nothing : ∀ statement, DeclaresVariables statement → contribute statement = []) :
    pieces.flatMap contribute = contribute statement := by
  rw [nothing statement divides.whole,List.flatMap_eq_nil_iff]
  exact fun piece member => nothing piece (divides.alike piece member).1

theorem bindings (producers : Producers) :
    (pieces.flatMap fun piece =>
        (declarationOf? piece).toList.flatMap (declarationBindings producers)) =
      (declarationOf? statement).toList.flatMap (declarationBindings producers) := by
  have each (piece : Node) (member : piece ∈ pieces) :
      (declarationOf? piece).toList.flatMap (declarationBindings producers) =
        (declaratorsOf piece).flatMap
          (declaratorBindings producers (keywordOf? statement = some .const)) := by
    obtain ⟨declares,_,keyword⟩ := divides.alike piece member
    rw [declares.bindings producers,keyword]
  rw [List.flatMap_congr each,← List.flatMap_assoc,divides.whole.bindings producers]
  exact flatMap_eq_of_forall₂ (fun _ _ rewrapped => rewrapped.bindings producers _) divides.declarators

theorem setupBindings (producers : Producers) (noExport : statement.kind ≠ .exportStatement) :
    pieces.flatMap (declarationBindings producers) = declarationBindings producers statement := by
  have own (node : Node) (kind : node.kind = statement.kind) :
      (declarationOf? node).toList.flatMap (declarationBindings producers) =
        declarationBindings producers node := by
    rw [declarationOf?,if_neg (kind ▸ noExport),Option.toList_some,List.flatMap_singleton]
  rw [← own statement rfl,← divides.bindings producers]
  exact List.flatMap_congr fun piece member => (own piece (divides.alike piece member).2.1).symm

theorem sites (noExport : statement.kind ≠ .exportStatement) :
    (pieces.flatMap fun piece => (Site.ofStatement piece).map Site.form) =
      (Site.ofStatement statement).map Site.form := by
  have several := divides.whole.kind.resolve_left noExport
  have own (node : Node) (kind : node.kind = statement.kind) :
      (Site.ofStatement node).map Site.form =
        (declaratorsOf node).flatMap fun declarator =>
          (Site.ofDeclarator declarator).map Site.form := by
    have isDeclaration : node.isVariableDeclaration = true := by
      rw [← several,Node.isVariableDeclaration,Node.isVariableDeclaration,kind]
    have noExpression : node.kind ≠ .expressionStatement := by
      rcases kind_of_isVariableDeclaration isDeclaration with kind | kind <;> simp [kind]
    rw [Site.ofStatement,if_neg (kind ▸ noExport),if_neg noExpression,if_pos isDeclaration,
      List.map_flatMap,declaratorsOf,declarationOf?,if_neg (kind ▸ noExport)]
    rfl
  rw [own statement rfl,List.flatMap_congr fun piece member =>
    own piece (divides.alike piece member).2.1,← List.flatMap_assoc]
  exact flatMap_eq_of_forall₂ (fun _ _ rewrapped => rewrapped.sites) divides.declarators

end Divides

namespace Rearranged

variable {root other : Node} (rearranged : Rearranged root other)

include rearranged

theorem imports : other.imports = root.imports := by
  rw [Node.imports,Node.imports,← List.flatMap_def,← List.flatMap_def]
  refine rearranged.flatMap_eq Node.importsOfStatement_unplaced (fun node kind => ?_)
    fun _ _ _ divides => divides.flatMap_eq_nil fun _ declares => declares.imports
  simp [Node.importsOfStatement,kind]

theorem filterMap_eq {β : Type} {choose : Node → Option α} {view : α → β}
    (unplaced : ∀ node, (choose node.unplaced).map view = (choose node).map view)
    (comment : ∀ node, node.kind = .comment → choose node = none)
    (nothing : ∀ statement, DeclaresVariables statement → choose statement = none) :
    (other.namedChildren.filterMap choose).map view =
      (root.namedChildren.filterMap choose).map view := by
  rw [List.map_filterMap,List.map_filterMap,List.filterMap_eq_flatMap_toList,
    List.filterMap_eq_flatMap_toList]
  refine rearranged.flatMap_eq (fun node => by rw [unplaced]) (fun node kind => ?_)
    fun _ _ _ divides => divides.flatMap_eq_nil fun _ declares => ?_
  · rw [comment node kind]
    rfl
  · rw [nothing _ declares]
    rfl

theorem types :
    (other.namedChildren.filterMap TypeDeclarations.declared?).map
        (fun entry => (entry.1,entry.2.unplaced)) =
      (root.namedChildren.filterMap TypeDeclarations.declared?).map
        fun entry => (entry.1,entry.2.unplaced) := by
  refine rearranged.filterMap_eq (fun node => ?_) (fun node kind => ?_)
    fun _ declares => declares.declared?
  · rw [declared?_unplaced,Option.map_map]
    exact Option.map_congr fun entry _ => by simp [Node.unplaced_unplaced]
  · simp [TypeDeclarations.declared?,declarationOf?,isTypeDeclaration,kind]

theorem optionBindings : Setup.optionBindings other = Setup.optionBindings root := by
  have values : (other.namedChildren.filterMap Options.defaultValue?).map Node.unplaced =
      (root.namedChildren.filterMap Options.defaultValue?).map Node.unplaced := by
    refine rearranged.filterMap_eq (fun node => ?_) (fun node kind => ?_)
      fun _ declares => declares.defaultValue?
    · rw [Options.defaultValue?_unplaced,Option.map_map]
      exact Option.map_congr fun value _ => value.unplaced_unplaced
    · simp [Options.defaultValue?,kind]
  have first := congrArg List.head? values
  rw [List.head?_map,List.head?_map,List.head?_filterMap,List.head?_filterMap] at first
  have exported (value : Option Node) : (value.bind Options.objectOfExport?).map Options.bindings =
      ((value.map Node.unplaced).bind Options.objectOfExport?).map Options.bindings := by
    cases value <;>
      simp [Options.objectOfExport?_unplaced,Function.comp_def,Options.bindings_unplaced]
  have same : (Options.component? other).map Options.bindings =
      (Options.component? root).map Options.bindings := by
    rw [Options.component?,Options.component?,exported,first,← exported]
  have default (script : Node) : Setup.optionBindings script =
      ((Options.component? script).map Options.bindings).getD ∅ := by
    rw [Setup.optionBindings]
    cases Options.component? script <;> rfl
  rw [default,default,same]

theorem plainBindings (producers : Producers) :
    Setup.plainBindings producers other = Setup.plainBindings producers root := by
  have each (script : Node) : Setup.plainBindings producers script = script.namedChildren.flatMap
      fun statement => (declarationOf? statement).toList.flatMap (declarationBindings producers) := by
    rw [Setup.plainBindings,← List.flatMap_def,List.filterMap_eq_flatMap_toList,List.flatMap_assoc]
  rw [each,each]
  refine rearranged.flatMap_eq (fun node => ?_) (fun node kind => ?_)
    fun _ _ _ divides => divides.bindings producers
  · cases found : declarationOf? node <;> simp [found,declarationBindings_unplaced]
  · simp [declarationOf?,kind,declarationBindings,declaresConstant,Node.isVariableDeclaration]

section Setup

variable (typesOnly : ∀ statement ∈ root.namedChildren, DeclaresVariables statement →
  statement.kind ≠ .exportStatement)

include typesOnly

theorem setupBindings (producers : Producers) :
    Setup.setupBindings producers other = Setup.setupBindings producers root := by
  rw [Setup.setupBindings,Setup.setupBindings,← List.flatMap_def,← List.flatMap_def]
  refine rearranged.flatMap_eq (declarationBindings_unplaced producers) (fun node kind => ?_)
    fun statement member _ divides =>
      divides.setupBindings producers (typesOnly statement member divides.whole)
  simp [declarationBindings,kind,declaresConstant,Node.isVariableDeclaration]

theorem sites :
    (Site.ofScript other).map Site.form = (Site.ofScript root).map Site.form := by
  rw [Site.ofScript,Site.ofScript,List.map_flatMap,List.map_flatMap]
  refine rearranged.flatMap_eq Site.form_ofStatement_unplaced (fun node kind => ?_)
    fun statement member _ divides => divides.sites (typesOnly statement member divides.whole)
  simp [Site.ofStatement,kind,Node.isVariableDeclaration]

end Setup

end Rearranged

theorem ne_export_of_ofScript {context : MacroContext} {root : Node} {declared : Declared}
    (ran : context.ofScript root = .ok declared) :
    ∀ statement ∈ root.namedChildren, DeclaresVariables statement →
      statement.kind ≠ .exportStatement := by
  intro statement member declares isExport
  obtain ⟨before,after,_,accepted,_⟩ := Declared.exists_step_of_foldlM _ MacroContext.keeps_ofStatement
    root.namedChildren Declared.nothing declared statement ran member
  obtain ⟨declaration,found,_,noType⟩ := declares.noType
  rw [declarationOf?,if_pos isExport] at found
  have exports : MacroContext.exportsTypes statement = false := by
    rw [MacroContext.exportsTypes,found]
    exact noType
  rw [MacroContext.ofStatement,if_pos isExport,exports] at accepted
  contradiction

section Scripts

variable {roots others : List Node} (scripts : List.Forall₂ Rearranged roots others)

include scripts

theorem imports_of_rearranged : others.map Node.imports = roots.map Node.imports :=
  map_eq_of_forall₂ (fun _ _ rearranged => rearranged.imports) scripts

theorem producers_of_rearranged : Producers.ofScripts others = Producers.ofScripts roots := by
  simp only [Producers.ofScripts,Imports.frameworkNames,imports_of_rearranged scripts]

theorem exists_types_of_rearranged : ∃ types : TypeDeclarations, ∀ type : Node,
    typeKeys types type.unplaced = typeKeys (TypeDeclarations.ofScripts others) type ∧
      typeKeys types type.unplaced = typeKeys (TypeDeclarations.ofScripts roots) type := by
  have same : ((others.map fun root => root.namedChildren.filterMap TypeDeclarations.declared?).flatten.map
      fun entry => (entry.1,entry.2.unplaced)) =
      (roots.map fun root => root.namedChildren.filterMap TypeDeclarations.declared?).flatten.map
        fun entry => (entry.1,entry.2.unplaced) := by
    rw [List.map_flatten,List.map_flatten,List.map_map,List.map_map]
    exact congrArg List.flatten (map_eq_of_forall₂ (fun _ _ rearranged => rearranged.types) scripts)
  refine ⟨_,fun type => ⟨typeKeys_unplaced _ type,?_⟩⟩
  rw [same]
  exact typeKeys_unplaced _ type

theorem ofScript_of_rearranged {root other : Node} (rearranged : Rearranged root other)
    (start start' : Nat) {declared : Declared}
    (ran : MacroContext.ofScript ⟨TypeDeclarations.ofScripts roots,start⟩ root = .ok declared) :
    MacroContext.ofScript ⟨TypeDeclarations.ofScripts others,start'⟩ other = .ok declared := by
  obtain ⟨types,keys⟩ := exists_types_of_rearranged scripts
  have forms : List.Forall₂ Eq ((Site.ofScript other).map Site.form)
      ((Site.ofScript root).map Site.form) := by
    rw [rearranged.sites (ne_export_of_ofScript ran)]
    exact List.forall₂_refl _
  rw [List.forall₂_map_left_iff,List.forall₂_map_right_iff] at forms
  have alike : (MacroContext.ofScript ⟨TypeDeclarations.ofScripts others,start'⟩ other).toOption =
      (MacroContext.ofScript ⟨TypeDeclarations.ofScripts roots,start⟩ root).toOption := by
    rw [MacroContext.ofScript_eq,MacroContext.ofScript_eq]
    refine MacroContext.foldlM_toOption (forms.imp fun site site' same declared => ?_) _
    have mine := @Site.atSite_form ⟨TypeDeclarations.ofScripts others,start'⟩ ⟨types,0⟩
      (fun type => (keys type).1) declared site
    have its := @Site.atSite_form ⟨TypeDeclarations.ofScripts roots,start⟩ ⟨types,0⟩
      (fun type => (keys type).2) declared site'
    rw [← mine,same,its]
  rw [ran] at alike
  exact eq_ok_of_toOption alike

end Scripts

theorem scripts_of_rearranged {plain' : Option Node} {root root' : Node}
    (plains : Option.Rel Rearranged plain plain') (rearranged : Rearranged root root') :
    List.Forall₂ Rearranged (plain.toList ++ [root]) (plain'.toList ++ [root']) := by
  cases plains with
  | none => exact .cons rearranged .nil
  | some first => exact .cons first (.cons rearranged .nil)

theorem collect_of_rearranged {plain' : Option Node} {root root' : Node}
    (plains : Option.Rel Rearranged plain plain') (rearranged : Rearranged root root')
    (typesOnly : ∀ statement ∈ root.namedChildren, DeclaresVariables statement →
      statement.kind ≠ .exportStatement) (declared : Declared) :
    collect plain' root' declared = collect plain root declared := by
  have scripts := scripts_of_rearranged plains rearranged
  have imports : Imports.ofScripts (plain'.toList ++ [root']) =
      Imports.ofScripts (plain.toList ++ [root]) := by
    rw [Imports.ofScripts,imports_of_rearranged scripts,Imports.ofScripts]
  have options : plain'.map optionBindings = plain.map optionBindings := by
    cases plains with
    | none => rfl
    | some first => exact congrArg some first.optionBindings
  have beside (producers : Producers) :
      plain'.map (plainBindings producers) = plain.map (plainBindings producers) := by
    cases plains with
    | none => rfl
    | some first => exact congrArg some (first.plainBindings producers)
  unfold collect
  simp only [producers_of_rearranged scripts,imports,options,beside,
    rearranged.setupBindings typesOnly]

/-- Blocks of one language whose scripts can be read, one of them a rearranged other. -/
structure RearrangedBlock (lang : Option String) (block other : Block) : Prop where
  sameLang : other.lang = block.lang
  scripts : ∃ root ∈ parse? (Dialect.ofLang lang) block.content,
    ∃ root' ∈ parse? (Dialect.ofLang lang) other.content, Rearranged root root'

theorem mapM_of_rearranged {script other : Option Block}
    (plains : Option.Rel (RearrangedBlock lang) script other)
    (read : script.mapM (parseBlock .plain lang) = .ok plain) :
    ∃ plain', other.mapM (parseBlock .plain lang) = .ok plain' ∧ Option.Rel Rearranged plain plain' := by
  cases plains with
  | none =>
    cases read
    exact ⟨none,rfl,.none⟩
  | some rearranged =>
    obtain ⟨root,parsed,root',parsed',scripts⟩ := rearranged.scripts
    have mine := (parseBlock_eq_ok_iff .plain _ _ root).mpr parsed
    have its := (parseBlock_eq_ok_iff .plain _ _ root').mpr parsed'
    rw [Option.mapM_some,mine] at read
    cases read
    exact ⟨some root',by simp [its],.some scripts⟩

theorem accompanies_of_rearranged {setup setup' : Block} {script other : Option Block}
    (sameLang : setup'.lang = setup.lang)
    (plains : Option.Rel (RearrangedBlock setup.lang) script other)
    (accompanied : ∀ plain ∈ script, Accompanies setup plain) :
    ∀ plain ∈ other, Accompanies setup' plain := by
  intro plain' held
  cases plains with
  | none => contradiction
  | @some plain _ rearranged =>
    cases held
    obtain ⟨_,_,_,parsed,_⟩ := rearranged.scripts
    rw [Accompanies,sameLang,rearranged.sameLang,Option.mem_def.mp parsed]
    exact ⟨(accompanied plain rfl).1,rfl⟩

theorem compile_of_rearranged {component other : Descriptor} {setup setup' : Block} {compiled : Compiled}
    {root root' : Node} (block : component.scriptSetup = some setup)
    (block' : other.scriptSetup = some setup') (sameLang : setup'.lang = setup.lang)
    (parsed : parse? (Dialect.ofLang setup.lang) setup.content = some root)
    (parsed' : parse? (Dialect.ofLang setup.lang) setup'.content = some root')
    (rearranged : Rearranged root root')
    (scripts : ∀ plain, component.script.mapM (parseBlock .plain setup.lang) = .ok plain →
      ∃ plain', other.script.mapM (parseBlock .plain setup.lang) = .ok plain' ∧
        Option.Rel Rearranged plain plain')
    (accompanied' : ∀ plain ∈ other.script, Accompanies setup' plain)
    (accepted : compile component = .ok compiled) : compile other = .ok compiled := by
  obtain ⟨_,_,same⟩ := compile_eq_compileSetup block (accompanies_of_compile block accepted)
  obtain ⟨_,_,same'⟩ := compile_eq_compileSetup block' accompanied'
  rw [same] at accepted
  obtain ⟨plain,_,declared,plainRead,read,ran,result⟩ := (compileSetup_eq_ok_iff _ _ _).mp accepted
  cases ((parseBlock_eq_ok_iff _ _ _ _).mpr parsed).symm.trans read
  obtain ⟨plain',plainRead',plains⟩ := scripts plain plainRead
  have ran' := ofScript_of_rearranged (scripts_of_rearranged plains rearranged) rearranged setup.start
    setup'.start ran
  have collected := collect_of_rearranged plains rearranged (ne_export_of_ofScript ran) declared
  rw [same']
  refine (compileSetup_eq_ok_iff _ _ _).mpr ⟨plain',root',declared,?_,?_,ran',?_⟩
  · rw [sameLang,plainRead']
  · rw [sameLang]
    exact (parseBlock_eq_ok_iff _ _ _ _).mpr parsed'
  · rw [collected,sameLang,result]

/-- A component compiles to the same if the declarators of a declaration are declared one by one, and
if their values are put into wrappers. -/
theorem declarators_are_bound_alone (component other : Descriptor) (setup setup' : Block)
    (compiled : Compiled) (block : component.scriptSetup = some setup)
    (block' : other.scriptSetup = some setup') (setups : RearrangedBlock setup.lang setup setup')
    (plains : Option.Rel (RearrangedBlock setup.lang) component.script other.script)
    (accepted : compile component = .ok compiled) : compile other = .ok compiled := by
  obtain ⟨sameLang,root,parsed,root',parsed',rearranged⟩ := setups
  have accompanied := accompanies_of_compile block accepted
  have accompanied' := accompanies_of_rearranged sameLang plains accompanied
  exact compile_of_rearranged block block' sameLang parsed parsed' rearranged
    (fun _ read => mapM_of_rearranged plains read) accompanied' accepted

instance (declarator other : Node) : Decidable (Rewrapped declarator other) :=
  decidable_of_iff
    ((other.child? .name).map Node.unplaced = (declarator.child? .name).map Node.unplaced ∧
      (declarator.child? .value = none → other.child? .value = none) ∧
      ∀ value ∈ declarator.child? .value, ∃ wrapped ∈ other.child? .value, value.Wraps wrapped)
    ⟨fun ⟨target,bare,value⟩ => ⟨target,bare,value⟩,
      fun rewrapped => ⟨rewrapped.target,rewrapped.bare,rewrapped.value⟩⟩

instance (statement : Node) : Decidable (DeclaresVariables statement) :=
  decidable_of_iff (statement.hasToken .defaultKeyword = false ∧
      ∃ declaration ∈ declarationOf? statement, declaration.isVariableDeclaration = true)
    ⟨fun ⟨noDefault,declaration⟩ => ⟨noDefault,declaration⟩,
      fun declares => ⟨declares.noDefault,declares.declaration⟩⟩

instance (statement : Node) (pieces : List Node) : Decidable (Divides statement pieces) :=
  decidable_of_iff (DeclaresVariables statement ∧
      (∀ piece ∈ pieces, DeclaresVariables piece ∧ piece.kind = statement.kind ∧
        keywordOf? piece = keywordOf? statement) ∧
      List.Forall₂ Rewrapped (declaratorsOf statement) (pieces.flatMap declaratorsOf))
    ⟨fun ⟨whole,alike,declarators⟩ => ⟨whole,alike,declarators⟩,
      fun divides => ⟨divides.whole,divides.alike,divides.declarators⟩⟩

theorem replaces_iff (statement : Node) (pieces : List Node) :
    Replaces statement pieces ↔
      pieces.map Node.unplaced = [statement.unplaced] ∨ Divides statement pieces := by
  constructor
  · intro replaces
    cases replaces with
    | kept same => exact .inl (congrArg (fun node => [node]) same)
    | divided divides => exact .inr divides
  · intro either
    rcases either with same | divides
    · obtain ⟨other,rfl,unplaced⟩ := List.map_eq_singleton_iff.mp same
      exact .kept unplaced
    · exact .divided divides

instance (statement : Node) (pieces : List Node) : Decidable (Replaces statement pieces) :=
  decidable_of_iff _ (replaces_iff statement pieces).symm

theorem RearrangedBlock.of_lengths {block other : Block} (sameLang : other.lang = block.lang)
    (lengths : List Nat)
    (cut : ∃ root ∈ parse? (Dialect.ofLang lang) block.content,
      ∃ root' ∈ parse? (Dialect.ofLang lang) other.content,
        List.Forall₂ Replaces root.statements (lengths.splitLengths root'.statements) ∧
          root'.statements = (lengths.splitLengths root'.statements).flatten) :
    RearrangedBlock lang block other := by
  obtain ⟨root,parsed,root',parsed',replaces,whole⟩ := cut
  exact ⟨sameLang,root,parsed,root',parsed',_,replaces,whole⟩

/-- Two typed scripts whose declarations are divided, with values in all kinds of wrappers. -/
theorem divided_declarations_compile_alike :
    let block (content : String) : Block := ⟨"script",content.toList,0,0,∅,some "ts",false⟩
    let plain := block "export const size = 2, label = name()"
    let plain' := block "export const size = (2)\nexport const label = (name() as string)!"
    let setup := block ("import \x7b ref, reactive as live \x7d from 'vue'\n" ++
      "const count = ref(0), state = live(\x7b\x7d), \x7b title: heading \x7d = defineProps<Props>()\n" ++
      "interface Props \x7b title: string \x7d\nlet later, total = count.value")
    let setup' := block ("import \x7b ref, reactive as live \x7d from 'vue'\n" ++
      "const count = ((ref(0)))\nconst state = live(\x7b\x7d) satisfies object\n" ++
      "const \x7b title: heading \x7d = (defineProps<Props>() as any)!\n" ++
      "interface Props \x7b title: string \x7d\nlet later\nlet total = (count.value)")
    ∃ compiled, compile (bothScripts plain setup) = .ok compiled ∧
      compile (bothScripts plain' setup') = .ok compiled ∧
      ["size","label","count","state","total"].map compiled.bindings.get? =
        [some .literalConst,some .setupMaybeRef,some .setupRef,some .setupReactiveConst,some .setupLet] ∧
      compiled.aliases.entries = [("heading","title")] := by
  intro block plain plain' setup setup'
  have plains : RearrangedBlock setup.lang plain plain' := .of_lengths rfl [2] (by
    simp only [plain,plain',block]
    repeat rw [String.toList_ofList]
    decide +kernel)
  have setups : RearrangedBlock setup.lang setup setup' :=
    .of_lengths rfl [1,3,1,2] (by
      simp only [setup,setup',block,String.toList_append]
      repeat rw [String.toList_ofList]
      decide +kernel)
  have ran : (compile (bothScripts plain setup)).toOption.map (fun compiled =>
      (["size","label","count","state","total"].map compiled.bindings.get?,compiled.aliases.entries)) =
        some ([some .literalConst,some .setupMaybeRef,some .setupRef,some .setupReactiveConst,
          some .setupLet],[("heading","title")]) := by
    simp only [plain,setup,block,String.toList_append]
    repeat rw [String.toList_ofList]
    decide +kernel
  clear_value plain plain' setup setup'
  obtain ⟨compiled,succeeded,seen⟩ := Option.map_eq_some_iff.mp ran
  have accepted := eq_ok_of_toOption succeeded
  obtain ⟨bindings,aliases⟩ := Prod.mk.inj seen
  exact ⟨compiled,accepted,declarators_are_bound_alone _ _ setup setup' compiled rfl rfl setups
    (.some plains) accepted,bindings,aliases⟩

end VueScope.Setup
