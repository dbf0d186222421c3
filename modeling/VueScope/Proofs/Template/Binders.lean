import Mathlib.Data.List.Pairwise
import VueScope.Proofs.Script.Parts
import VueScope.Proofs.Template.Disjoint

/-! Which names of an expression are taken to refer to something outside it. A name is reported where a
value is meant, unless a function around it has a parameter of that name. Other binders are not looked
at. -/
namespace VueScope.Script.Node

/-- A pattern is a name that it introduces, or has a part that introduces the name. -/
inductive Introduces : Node → String → Prop
  | name {node : Node} (isName : node.kind = .identifier ∨ node.kind = .shorthandPattern) :
      Introduces node node.name
  | part {node part : Node} {name : String} (inside : part ∈ node.binderParts)
      (introduces : Introduces part name) : Introduces node name

theorem mem_boundNames_iff (node : Node) (name : String) :
    name ∈ node.boundNames ↔ node.Introduces name := by
  induction node using byParts with
  | step node ih =>
    rw [boundNames,boundIdentifiers_eq]
    split
    next isName =>
      rw [List.map_singleton,List.mem_singleton]
      constructor
      · rintro rfl
        exact .name isName
      · intro introduces
        cases introduces with
        | name => rfl
        | part inside =>
          rcases isName with kind | kind <;> simp [binderParts,kind] at inside
    next noName =>
      rw [List.map_flatMap,List.mem_flatMap]
      constructor
      · intro ⟨part,inside,found⟩
        exact .part inside ((ih part (node.binderParts_sublist.subset inside)).mp found)
      · intro introduces
        cases introduces with
        | name isName => exact absurd isName noName
        | part inside introduces =>
          exact ⟨_,inside,(ih _ (node.binderParts_sublist.subset inside)).mpr introduces⟩

/-- A name that stands where a value is meant. -/
inductive Refers (found : Node) : Node → Prop
  | here (isName : found.kind = .identifier ∨ found.kind = .shorthandProperty) : Refers found found
  | part {node part : Node} (inside : part ∈ node.valueParts) (refers : Refers found part) :
      Refers found node

section Free

variable {bound : List String} {node found : Node}

theorem Refers.mem_preorder (refers : Refers found node) : found ∈ node.preorder := by
  induction refers with
  | here => exact mem_preorder_self _
  | part inside _ ih => exact (mem_preorder_iff _ _).mpr (.inr ⟨_,(valueParts_sublist _).subset inside,ih⟩)

theorem refers_of_mem (free : found ∈ node.freeIdentifiers bound) :
    Refers found node ∧ found.name ∉ bound := by
  induction node using byParts generalizing bound with
  | step node ih =>
    rw [freeIdentifiers_eq] at free
    split at free
    next isName =>
      split at free
      · contradiction
      next unbound =>
        rw [List.mem_singleton.mp free]
        exact ⟨.here isName,by simpa using unbound⟩
    next =>
      obtain ⟨part,inside,free⟩ := List.mem_flatMap.mp free
      obtain ⟨refers,unbound⟩ := ih part ((valueParts_sublist _).subset inside) free
      exact ⟨.part inside refers,fun held => unbound (List.mem_append_right _ held)⟩

theorem mem_of_refers (refers : Refers found node) (outside : found.name ∉ bound)
    (unbound : ∀ scope ∈ node.preorder, found ∈ scope.preorder → found.name ∉ scope.localNames) :
    found ∈ node.freeIdentifiers bound := by
  induction refers generalizing bound with
  | here isName => simp [freeIdentifiers_eq,isName,outside]
  | @part node part inside refers ih =>
    have self := unbound node (mem_preorder_self _) (refers.part inside).mem_preorder
    have noName : ¬(node.kind = .identifier ∨ node.kind = .shorthandProperty) := by
      rintro (kind | kind) <;> simp [valueParts,kind] at inside
    rw [freeIdentifiers_eq,if_neg noName,List.mem_flatMap]
    refine ⟨part,inside,ih ?_ fun scope below => ?_⟩
    · rw [List.mem_append,not_or]
      exact ⟨self,outside⟩
    · exact unbound scope ((mem_preorder_iff _ _).mpr (.inr ⟨part,(valueParts_sublist _).subset inside,below⟩))

theorem pairwise_preorder_iff (node : Node) :
    node.preorder.Pairwise NamesApart ↔
      (∀ below ∈ node.children.flatMap preorder, NamesApart node below) ∧
      (∀ part ∈ node.children, part.preorder.Pairwise NamesApart) ∧
      node.children.Pairwise fun left right =>
        ∀ early ∈ left.preorder, ∀ late ∈ right.preorder, NamesApart early late := by
  rw [preorder_eq,List.pairwise_cons,List.pairwise_flatMap]

theorem part_eq_part (apart : node.preorder.Pairwise NamesApart) (solid : ¬NamesApart found found)
    {left right : Node} (among : left ∈ node.children) (also : right ∈ node.children)
    (here : found ∈ left.preorder) (there : found ∈ right.preorder) : left = right := by
  obtain ⟨_,_,between⟩ := (pairwise_preorder_iff node).mp apart
  by_contra different
  have twice : node.children.Pairwise fun left right =>
      found ∈ left.preorder → found ∈ right.preorder → NamesApart found found :=
    between.imp fun separate here there => separate found here found there
  have : Std.Symm fun left right : Node =>
      found ∈ left.preorder → found ∈ right.preorder → NamesApart found found :=
    ⟨fun _ _ apart here there => apart there here⟩
  exact solid (twice.forall among also different here there)

/-- Where names stand apart, what is reported is not bound by any node around it. The way down to a name
is the only one, since a name cannot stand twice in the tree. -/
theorem not_mem_localNames (apart : node.preorder.Pairwise NamesApart) (solid : ¬NamesApart found found)
    (free : found ∈ node.freeIdentifiers bound) {scope : Node} (among : scope ∈ node.preorder)
    (around : found ∈ scope.preorder) : found.name ∉ scope.localNames := by
  induction node using byParts generalizing bound with
  | step node ih =>
    obtain ⟨first,within,_⟩ := (pairwise_preorder_iff node).mp apart
    rw [freeIdentifiers_eq] at free
    split at free
    next isName =>
      have self : found = node := by
        split at free
        · contradiction
        · exact List.mem_singleton.mp free
      rcases (mem_preorder_iff _ _).mp among with rfl | ⟨part,inside,below⟩
      · rcases isName with kind | kind <;> simp [localNames,kind,Kind.isFunction]
      · have again := first found
          (List.mem_flatMap.mpr ⟨part,inside,mem_preorder_trans below around⟩)
        rw [← self] at again
        exact absurd again solid
    next =>
      obtain ⟨part,inside,free⟩ := List.mem_flatMap.mp free
      have child := (valueParts_sublist _).subset inside
      obtain ⟨refers,unbound⟩ := refers_of_mem free
      rcases (mem_preorder_iff _ _).mp among with rfl | ⟨other,held,below⟩
      · exact fun bound => unbound (List.mem_append_left _ bound)
      · cases part_eq_part apart solid held child (mem_preorder_trans below around) refers.mem_preorder
        exact ih part child (within part child) free below

end Free

/-- A function or a method that has a parameter of a name. -/
inductive Takes (function : Node) (name : String) : Prop
  | single {parameter : Node} (only : function.child? .parameter = some parameter)
      (named : parameter.name = name) : Takes function name
  | listed {parameters : Node} (several : function.child? .parameter = none)
      (given : function.child? .parameters = some parameters) (introduces : parameters.Introduces name) :
      Takes function name

theorem mem_localNames_iff (node : Node) (name : String) :
    name ∈ node.localNames ↔ node.kind.isFunction = true ∧ node.Takes name := by
  by_cases function : node.kind.isFunction = true
  · have bare : node.unwrapped = node := by
      apply unwrapped_of_not_isTransparent
      revert function
      cases node.kind <;> decide
    rw [localNames,if_pos function,parameterNames,bare]
    cases only : node.child? .parameter with
    | some single =>
      rw [List.mem_singleton]
      constructor
      · rintro rfl
        exact ⟨function,.single only rfl⟩
      · rintro ⟨_,⟨found,named⟩ | ⟨several,_,_⟩⟩
        · rw [← named,Option.some.inj (found.symm.trans only)]
        · exact absurd (only.symm.trans several) nofun
    | none =>
      cases given : node.child? .parameters with
      | some parameters =>
        rw [mem_boundNames_iff]
        constructor
        · exact fun introduces => ⟨function,.listed only given introduces⟩
        · rintro ⟨_,⟨found,_⟩ | ⟨_,found,introduces⟩⟩
          · exact absurd (only.symm.trans found) nofun
          · rwa [← Option.some.inj (found.symm.trans given)]
      | none =>
        constructor
        · exact nofun
        · rintro ⟨_,⟨found,_⟩ | ⟨_,found,_⟩⟩
          · exact absurd (only.symm.trans found) nofun
          · exact absurd (given.symm.trans found) nofun
  · simp [localNames,function]

/-- The ways in which an expression can bind a name for a part of it. -/
inductive BinderForm where
  | parameter
  | methodParameter
  | variableDeclaration
  | functionDeclaration
  | caught
  | ownName

/-- A node that binds a name for what is inside. -/
inductive BindsWithin (scope : Node) (name : String) : BinderForm → Prop
  | parameter (function : scope.kind.isFunction = true) (takes : scope.Takes name) :
      BindsWithin scope name .parameter
  | methodParameter (method : scope.kind = .methodDefinition) (takes : scope.Takes name) :
      BindsWithin scope name .methodParameter
  | variableDeclaration {statement declarator target : Node} (block : scope.kind = .statementBlock)
      (among : statement ∈ scope.namedChildren) (declares : statement.isVariableDeclaration = true)
      (part : declarator ∈ statement.declarators) (named : declarator.child? .name = some target)
      (introduces : target.Introduces name) : BindsWithin scope name .variableDeclaration
  | functionDeclaration {statement target : Node} (block : scope.kind = .statementBlock)
      (among : statement ∈ scope.namedChildren)
      (declares : statement.kind ∈ [Kind.functionDeclaration,.generatorFunctionDeclaration])
      (named : statement.child? .name = some target) (same : target.name = name) :
      BindsWithin scope name .functionDeclaration
  | caught {parameter : Node} (clause : scope.kind = .catchClause)
      (given : scope.child? .parameter = some parameter) (introduces : parameter.Introduces name) :
      BindsWithin scope name .caught
  | ownName {target : Node} (function : scope.kind ∈ [Kind.functionExpression,.generatorFunction])
      (named : scope.child? .name = some target) (same : target.name = name) :
      BindsWithin scope name .ownName

end VueScope.Script.Node

namespace VueScope.Template

open Script

/-- A name in an expression is reported just if a value is meant and no function around it has a
parameter of that name. -/
theorem reported_iff_no_parameter (content : List Char) (tree : ExpressionTree)
    (read : ExpressionTree.read? content = some tree) (found : Script.Node) :
    found ∈ tree.root.freeIdentifiers [] ↔
      Node.Refers found tree.root ∧ ∀ scope ∈ tree.root.preorder, found ∈ scope.preorder →
        ¬scope.BindsWithin found.name .parameter := by
  obtain ⟨source,parsed⟩ := exists_parse_of_read? read
  have local_iff (scope : Script.Node) :
      found.name ∈ scope.localNames ↔ scope.BindsWithin found.name .parameter := by
    rw [Node.mem_localNames_iff]
    constructor
    · exact fun held => .parameter held.1 held.2
    · rintro ⟨function,takes⟩
      exact ⟨function,takes⟩
  constructor
  · intro free
    obtain ⟨inside,isName⟩ := Node.mem_of_freeIdentifiers [] tree.root found free
    have names := names_of_parse? parsed inside isName
    have solid : ¬Node.NamesApart found found := by
      intro apart
      have ends := apart isName isName
      have filled := List.length_pos_of_ne_nil names.isName.nonempty
      rw [names.stop_eq] at ends
      omega
    refine ⟨(Node.refers_of_mem free).1,fun scope among around => ?_⟩
    rw [← local_iff]
    exact Node.not_mem_localNames (namesApart_of_parse? parsed) solid free
      among around
  · intro ⟨refers,unbound⟩
    refine Node.mem_of_refers refers nofun fun scope among around => ?_
    rw [local_iff]
    exact unbound scope among around

theorem names_outside_a_callback_are_reported :
    let content := "xs.map((x,[i])=>x+i+y)".toList
    ∃ tree, ExpressionTree.read? content = some tree ∧
      (tree.root.freeIdentifiers []).map Node.name = ["xs","y"] ∧
      ∀ found ∈ tree.root.freeIdentifiers [], ∀ scope ∈ tree.root.preorder, found ∈ scope.preorder →
        ¬scope.BindsWithin found.name .parameter := by
  intro content
  have shown : ∃ tree ∈ ExpressionTree.read? content,
      (tree.root.freeIdentifiers []).map Node.name = ["xs","y"] := by decide +kernel
  obtain ⟨tree,read,names⟩ := shown
  exact ⟨tree,read,names,fun found free =>
    ((reported_iff_no_parameter content tree read found).mp free).2⟩

/-- An expression that binds a name, returns what it is bound to, and has it reported there. -/
def Leaks (form : Node.BinderForm) (content : List Char) (name : String) : Prop :=
  ∃ tree scope statement found, ExpressionTree.read? content = some tree ∧
    scope ∈ tree.root.preorder ∧ scope.BindsWithin name form ∧
    statement ∈ scope.preorder ∧ statement.kind = .returnStatement ∧
    found ∈ statement.preorder ∧ found ∈ tree.root.freeIdentifiers [] ∧ found.name = name

theorem leaks_of_shown {form : Node.BinderForm} {content : List Char} {name : String}
    (seen : Script.Node → Prop) (binds : ∀ scope, seen scope → scope.BindsWithin name form)
    (shown : ∃ tree ∈ ExpressionTree.read? content, ∃ scope ∈ tree.root.preorder, seen scope ∧
      ∃ statement ∈ scope.preorder, statement.kind = .returnStatement ∧
        ∃ found ∈ tree.root.freeIdentifiers [], found ∈ statement.preorder ∧ found.name = name) :
    Leaks form content name := by
  obtain ⟨tree,read,scope,among,bound,statement,inside,kind,found,free,returned,named⟩ := shown
  exact ⟨tree,scope,statement,found,read,among,binds scope bound,inside,kind,returned,free,named⟩

/-- Parameters of methods, declarations, caught errors and the own name of a function are reported as if
they were not bound. -/
theorem other_binders_are_ignored :
    Leaks .methodParameter "\x7bm(x)\x7breturn x\x7d\x7d".toList "x" ∧
    Leaks .variableDeclaration "()=>\x7blet x=1;return x\x7d".toList "x" ∧
    Leaks .functionDeclaration "()=>\x7bfunction f()\x7b\x7d return f\x7d".toList "f" ∧
    Leaks .caught "()=>\x7btry\x7b\x7dcatch(e)\x7breturn e\x7d\x7d".toList "e" ∧
    Leaks .ownName "function f()\x7breturn f\x7d".toList "f" := by
  repeat rw [String.toList_ofList]
  refine ⟨?_,?_,?_,?_,?_⟩
  · refine leaks_of_shown (fun scope => scope.kind = .methodDefinition ∧
      (scope.child? .parameter).isNone = true ∧
      ∃ parameters ∈ scope.child? .parameters, "x" ∈ parameters.boundNames) ?_ (by decide +kernel)
    rintro scope ⟨method,several,parameters,given,bound⟩
    exact .methodParameter method (.listed (Option.isNone_iff_eq_none.mp several) given
      ((Node.mem_boundNames_iff _ _).mp bound))
  · refine leaks_of_shown (fun scope => scope.kind = .statementBlock ∧
      ∃ statement ∈ scope.namedChildren, statement.isVariableDeclaration = true ∧
        "x" ∈ statement.declarators.flatMap fun declarator =>
          (declarator.child? .name).toList.flatMap Node.boundNames) ?_ (by decide +kernel)
    rintro scope ⟨block,statement,among,declares,held⟩
    simp only [List.mem_flatMap,Option.mem_toList,Node.mem_boundNames_iff] at held
    obtain ⟨declarator,part,target,named,introduces⟩ := held
    exact .variableDeclaration block among declares part named introduces
  · refine leaks_of_shown (fun scope => scope.kind = .statementBlock ∧
      ∃ statement ∈ scope.namedChildren, statement.kind = .functionDeclaration ∧
        ∃ target ∈ statement.child? .name, target.name = "f") ?_ (by decide +kernel)
    rintro scope ⟨block,statement,among,kind,target,named,same⟩
    exact .functionDeclaration block among (by simp [kind]) named same
  · refine leaks_of_shown (fun scope => scope.kind = .catchClause ∧
      ∃ parameter ∈ scope.child? .parameter, "e" ∈ parameter.boundNames) ?_ (by decide +kernel)
    rintro scope ⟨clause,parameter,given,bound⟩
    exact .caught clause given ((Node.mem_boundNames_iff _ _).mp bound)
  · refine leaks_of_shown (fun scope => scope.kind = .functionExpression ∧
      ∃ target ∈ scope.child? .name, target.name = "f") ?_ (by decide +kernel)
    rintro scope ⟨kind,target,named,same⟩
    exact .ownName (by simp [kind]) named same

end VueScope.Template
