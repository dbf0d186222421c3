import VueScope.Proofs.Script.Layout
import VueScope.Proofs.Script.Located
import VueScope.Script.Libraries

/-! The names of libraries are read from a script in two ways: along with all imports, and by
themselves. A statement has one clause at most and no string but its source, and a new name is never
empty, so both ways find the same. -/
namespace VueScope.Script

def Import.names (entry : Import) : String × String :=
  (entry.imported,entry.localName)

variable {origin : String}

namespace Node

variable {statement specifier : Node}

theorem LaidOut.librarySource?_eq (laid : statement.LaidOut) (kind : statement.kind = .importStatement) :
    statement.librarySource? = statement.importSource? := by
  unfold librarySource? importSource?
  cases found : statement.child? .source with
  | some source => rfl
  | none =>
    have none : statement.namedChildren.find? (fun child => child.kind = .string) = none := by
      refine List.find?_eq_none.mpr fun child inside isString => ?_
      have among := (List.mem_filter.mp inside).1
      have other : child.field ≠ some .source := by simpa using List.find?_eq_none.mp found child among
      have source := laid.not_counts (by simp [kind] : (.nonSource,0) ∈ statement.kind.limits) among
      rw [counts,of_decide_eq_true isString] at source
      revert other source
      cases child.field with
      | none => decide
      | some role => cases role <;> decide
    rw [none]
    rfl

theorem LaidOut.clauses_eq (laid : statement.LaidOut) (kind : statement.kind = .importStatement) :
    (statement.namedChildren.filter fun child => child.kind = .importClause) =
      (statement.namedChildren.find? fun child => child.kind = .importClause).toList := by
  unfold namedChildren
  rw [← List.head?_filter,List.filter_filter,List.head?_filter]
  refine laid.filter_eq (by simp [kind] : (.clause,1) ∈ statement.kind.limits) _ fun child _ clause => ?_
  rw [Bool.and_eq_true,decide_eq_true_eq] at clause
  rw [counts,clause.1]
  rfl

theorem listed_of_part (origin : String) (isType : Bool) (part : Node) :
    ((importsOfPart origin isType part).filter fun entry => entry.form = .listed).map Import.names =
      if part.kind = .namedImports then
        (part.namedChildren.filter fun specifier => specifier.kind = .importSpecifier).filterMap importedNames?
      else [] := by
  unfold importsOfPart
  split
  next kind => simp [kind]
  next kind => simp [kind,List.filter_map,Function.comp_def]
  next kind =>
    rw [if_pos kind]
    induction part.namedChildren with
    | nil => rfl
    | cons specifier rest ih =>
      by_cases form : specifier.kind = .importSpecifier
      · cases found : specifier.importedNames? with
        | none => simpa [form,found] using ih
        | some names => simpa [form,found,Import.names] using ih
      · simpa [form] using ih
  next other _ _ => simp_all

theorem listed_of_clause (origin : String) (isType : Bool) (clause : Node) :
    ((clause.namedChildren.map (importsOfPart origin isType)).flatten.filter fun entry =>
      entry.form = .listed).map Import.names = clause.specifiers.filterMap importedNames? := by
  unfold specifiers
  induction clause.namedChildren with
  | nil => rfl
  | cons part rest ih =>
    rw [List.map_cons,List.flatten_cons,List.filter_append,List.map_append,ih,listed_of_part]
    by_cases kind : part.kind = .namedImports
    · simp [kind]
    · simp [kind]

theorem source_of_importsOfPart {isType : Bool} {part : Node} {entry : Import}
    (member : entry ∈ importsOfPart origin isType part) :
    entry.source = origin ∧ (entry.form = .listed ∨ entry.imported = "default" ∨ entry.imported = "*") := by
  unfold importsOfPart at member
  split at member
  · cases List.mem_singleton.mp member
    exact ⟨rfl,.inr (.inl rfl)⟩
  · obtain ⟨_,_,rfl⟩ := List.mem_map.mp member
    exact ⟨rfl,.inr (.inr rfl)⟩
  · obtain ⟨specifier,_,found⟩ := List.mem_filterMap.mp member
    split at found
    · obtain ⟨_,_,rfl⟩ := Option.map_eq_some_iff.mp found
      exact ⟨rfl,.inl rfl⟩
    · contradiction
  · contradiction

theorem source_of_importsOfStatement {entry : Import} (member : entry ∈ statement.importsOfStatement) :
    statement.kind = .importStatement ∧ statement.importSource? = some entry.source ∧
      (entry.form = .listed ∨ entry.imported = "default" ∨ entry.imported = "*") := by
  unfold importsOfStatement at member
  split at member
  next kind =>
    split at member
    · contradiction
    next origin found =>
      obtain ⟨_,among,member⟩ := List.mem_flatten.mp member
      obtain ⟨clause,_,rfl⟩ := List.mem_map.mp among
      obtain ⟨_,among,member⟩ := List.mem_flatten.mp member
      obtain ⟨part,_,rfl⟩ := List.mem_map.mp among
      obtain ⟨rfl,form⟩ := source_of_importsOfPart member
      exact ⟨kind,found,form⟩
  · contradiction

/-- An import under a name is under a name in the script, too. -/
theorem localName_ne_empty {dialect : Dialect} {source : List Char} {root : Node}
    (parsed : parse? dialect source = some root) (among : specifier ∈ root.preorder)
    (kind : specifier.kind = .importSpecifier) {imported localName : String}
    (found : specifier.importedNames? = some (imported,localName)) (named : imported ≠ "") :
    localName ≠ "" := by
  unfold importedNames? at found
  split at found
  · contradiction
  next written _ =>
    cases found
    cases renamed : specifier.child? .aliasName with
    | none => exact named
    | some newName =>
      have inside := List.mem_of_find?_eq_some renamed
      have role : newName.field = some .aliasName := by simpa using List.find?_some renamed
      have below := preorder_subset specifier newName inside newName.mem_preorder_self
      have within := mem_preorder_trans among below
      refine ne_empty_of_parse? parsed within ?_
      have noComment : newName.kind ≠ .comment := fun comment =>
        absurd ((laidOut_of_parse? parsed newName within).free comment) (by simp [role])
      have isName := (laidOut_of_parse? parsed specifier among).not_counts
        (by simp [kind] : (.nonName,0) ∈ specifier.kind.limits) inside
      rw [counts,role] at isName
      revert noComment isName
      cases newName.kind <;> decide

theorem listedFrom_eq (root : Node) (library : String) :
    root.listedFrom library = root.namedChildren.flatMap fun statement =>
      if statement.kind = .importStatement ∧ statement.librarySource? = some library then
        statement.listedNames
      else [] := by
  unfold listedFrom importStatements
  induction root.namedChildren with
  | nil => rfl
  | cons statement rest ih =>
    rw [List.flatMap_cons,← ih]
    by_cases kind : statement.kind = .importStatement
    · cases found : statement.librarySource? with
      | none => simp [kind,found]
      | some origin => by_cases same : origin = library <;> simp [kind,found,same]
    · simp [kind]

theorem LaidOut.listed_of_statement (laid : statement.LaidOut) (kind : statement.kind = .importStatement)
    (found : statement.importSource? = some origin) :
    (statement.importsOfStatement.filter fun entry => entry.form = .listed).map Import.names =
      (statement.namedChildren.find? fun child => child.kind = .importClause).toList.flatMap fun clause =>
        clause.specifiers.filterMap importedNames? := by
  rw [importsOfStatement,if_pos kind,found]
  dsimp only
  rw [laid.clauses_eq kind]
  cases statement.namedChildren.find? fun child => child.kind = .importClause with
  | none => rfl
  | some clause =>
    simpa only [Option.toList_some,List.map_cons,List.map_nil,List.flatten_cons,List.flatten_nil,
      List.append_nil,List.flatMap_singleton] using listed_of_clause origin _ clause

section Script

variable {dialect : Dialect} {source : List Char} {root : Node}

theorem listedNames_eq (parsed : parse? dialect source = some root)
    (inside : statement ∈ root.namedChildren) (kind : statement.kind = .importStatement)
    (found : statement.importSource? = some origin) :
    statement.listedNames = (statement.importsOfStatement.filter fun entry =>
      entry.form = .listed && entry.imported ≠ "").map Import.names := by
  have among := preorder_subset_of_named inside
  have laid := laidOut_of_parse? parsed statement (among statement.mem_preorder_self)
  have chosen : (statement.importsOfStatement.filter fun entry =>
      entry.form = .listed && entry.imported ≠ "").map Import.names =
        ((statement.importsOfStatement.filter fun entry => entry.form = .listed).map Import.names).filter
          fun names => names.1 ≠ "" := by
    rw [List.filter_map,List.filter_filter]
    simp only [Bool.and_comm]
    rfl
  rw [chosen,laid.listed_of_statement kind found]
  unfold listedNames
  cases first : statement.namedChildren.find? fun child => child.kind = .importClause with
  | none => rfl
  | some clause =>
    rw [Option.toList_some,List.flatMap_singleton]
    refine List.filter_congr fun names member => ?_
    obtain ⟨specifier,specifies,read⟩ := List.mem_filterMap.mp member
    obtain ⟨_,listed,specifies⟩ := List.mem_flatten.mp specifies
    obtain ⟨part,lists,rfl⟩ := List.mem_map.mp listed
    obtain ⟨specifies,form⟩ := List.mem_filter.mp specifies
    have clauses := among (preorder_subset_of_named (List.mem_of_find?_eq_some first) clause.mem_preorder_self)
    have parts := preorder_subset_of_named (List.mem_filter.mp lists).1 part.mem_preorder_self
    have below := preorder_subset_of_named specifies specifier.mem_preorder_self
    have within := mem_preorder_trans (mem_preorder_trans clauses parts) below
    by_cases empty : names.1 = ""
    · simp [empty]
    · simp [empty,localName_ne_empty parsed within (of_decide_eq_true form) read empty]

theorem listedFrom_eq_imports (parsed : parse? dialect source = some root) (library : String) :
    root.listedFrom library = (root.imports.filter fun entry =>
      (entry.form = .listed && entry.imported ≠ "") && entry.source = library).map Import.names := by
  rw [listedFrom_eq,imports,← List.flatMap_def,List.filter_flatMap,List.map_flatMap]
  refine List.flatMap_congr fun statement inside => ?_
  have laid := laidOut_of_parse? parsed statement (preorder_subset_of_named inside statement.mem_preorder_self)
  split
  next chosen =>
    obtain ⟨kind,found⟩ := chosen
    rw [laid.librarySource?_eq kind] at found
    rw [listedNames_eq parsed inside kind found]
    congr 1
    refine List.filter_congr fun entry member => ?_
    have same := found.symm.trans (source_of_importsOfStatement member).2.1
    rw [decide_eq_true (Option.some.inj same).symm,Bool.and_true]
  next other =>
    symm
    rw [List.map_eq_nil_iff,List.filter_eq_nil_iff]
    intro entry member chosen
    obtain ⟨kind,found,_⟩ := source_of_importsOfStatement member
    have same := of_decide_eq_true (Bool.and_eq_true_iff.mp chosen).2
    exact other ⟨kind,by rw [laid.librarySource?_eq kind,found,same]⟩

theorem mem_listedFrom_iff (parsed : parse? dialect source = some root) (library name : String) :
    name ∈ (root.listedFrom library).map Prod.snd ↔ ∃ entry ∈ root.imports,
      entry.form = .listed ∧ entry.imported ≠ "" ∧ entry.source = library ∧ entry.localName = name := by
  rw [listedFrom_eq_imports parsed,List.map_map]
  simp [Import.names,and_assoc]

end Script

end Node

/-- The names that stand for the framework's functions and those of the stores are read off the imports of
a script: the former from the framework's imports, the latter from the ones in braces that have a name. -/
theorem import_readers_agree (dialect : Dialect) (source : List Char) (root : Node)
    (parsed : parse? dialect source = some root) :
    reactivityAliases root = OrderedMap.ofList ((root.imports.filter fun entry =>
        entry.source = Library.vue && Library.reactivity.contains entry.imported).map fun entry =>
          (entry.localName,entry.imported)) ∧
      (∀ name, name ∈ (StoreImports.ofScript root).pinia ↔ ∃ entry ∈ root.imports,
        entry.form = .listed ∧ entry.imported ≠ "" ∧ entry.source = Library.pinia ∧ entry.localName = name) ∧
      ∀ name, name ∈ (StoreImports.ofScript root).vuex ↔ ∃ entry ∈ root.imports,
        entry.form = .listed ∧ entry.imported ≠ "" ∧ entry.source = Library.vuex ∧ entry.localName = name := by
  refine ⟨?_,Node.mem_listedFrom_iff parsed Library.pinia,Node.mem_listedFrom_iff parsed Library.vuex⟩
  unfold reactivityAliases
  rw [Node.listedFrom_eq_imports parsed,List.filter_map,List.filter_filter,List.map_map]
  congr 2
  refine List.filter_congr fun entry member => ?_
  obtain ⟨_,among,member⟩ := List.mem_flatten.mp member
  obtain ⟨statement,_,rfl⟩ := List.mem_map.mp among
  have form := (Node.source_of_importsOfStatement member).2.2
  by_cases api : entry.imported ∈ Library.reactivity
  · have named : entry.imported ≠ "" ∧ entry.imported ≠ "default" ∧ entry.imported ≠ "*" := by
      refine ⟨?_,?_,?_⟩ <;> exact fun same => absurd (same ▸ api) (by decide)
    have listed : entry.form = .listed := by simpa [named] using form
    simp [listed,named,Import.names,api]
  · simp [Import.names,api]

/-- A default beside names, names in quotes, types, a default under a name, and an import without a name. -/
theorem mixed_imports_are_read_alike :
    let content := ("import Vue, \x7b ref as r, 'computed' as c \x7d from 'vue'\n" ++
      "import \x7b default as p, '' as gap \x7d from 'pinia'\nimport type \x7b Store \x7d from 'vuex'").toList
    ∃ root, parse? .typescript content = some root ∧
      reactivityAliases root = OrderedMap.ofList [("r","ref"),("c","computed")] ∧
      (∀ name, name ∈ (StoreImports.ofScript root).pinia ↔ name = "p") ∧
      ∀ name, name ∈ (StoreImports.ofScript root).vuex ↔ name = "Store" := by
  rw [String.toList_append,String.toList_ofList,String.toList_ofList]
  intro content
  have read : (parse? .typescript content).map Node.imports = some
      [⟨"Vue","default","vue",false,.single⟩,⟨"r","ref","vue",false,.listed⟩,
        ⟨"c","computed","vue",false,.listed⟩,⟨"p","default","pinia",false,.listed⟩,
        ⟨"gap","","pinia",false,.listed⟩,⟨"Store","Store","vuex",true,.listed⟩] := by
    decide +kernel
  clear_value content
  obtain ⟨root,parsed,imports⟩ := Option.map_eq_some_iff.mp read
  obtain ⟨aliases,pinia,vuex⟩ := import_readers_agree .typescript content root parsed
  refine ⟨root,parsed,?_,fun name => ?_,fun name => ?_⟩
  · rw [aliases,imports]
    rfl
  · rw [pinia name,imports,eq_comm (a := name)]
    simp [Library.pinia]
  · rw [vuex name,imports,eq_comm (a := name)]
    simp [Library.vuex]

end VueScope.Script
