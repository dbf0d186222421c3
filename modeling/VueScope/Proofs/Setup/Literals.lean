import Mathlib.Data.List.Perm.Subperm
import VueScope.Proofs.Script.Layout
import VueScope.Proofs.Setup.Models

/-! Values that are made of literals. Their parts are tokens, literals and values of that sort again, so
nothing in them refers to anything, and a constant that is bound as a literal needs no other name. -/
namespace VueScope.Script

/-- Literals, what joins them, and tokens. -/
def Kind.isInert : Kind → Bool
  | .parenthesized => true
  | .ternary => true
  | .sequence => true
  | .unary => true
  | .binary => true
  | .templateString => true
  | .templateSubstitution => true
  | kind => kind.isBare

theorem Kind.isInert_of_isBare {kind : Kind} (bare : kind.isBare = true) : kind.isInert = true := by
  unfold isInert
  split <;> first
    | rfl
    | exact bare

/-- Expressions that refer to something, make something or do something. -/
def Kind.active : List Kind :=
  [.identifier,.shorthandProperty,.callExpression,.newExpression,.memberExpression,.subscriptExpression,
    .functionExpression,.arrowFunction,.generatorFunction,.classExpression,.object,.array,.assignment,
    .augmentedAssignment,.update,.await,.yield]

variable {nodes : List Node}

namespace Node

theorem isStatic_of_allStatic (static : allStatic nodes = true) :
    ∀ part ∈ nodes, part.kind.isNamed = true → part.isStatic = true := by
  induction nodes with
  | nil => exact List.forall_mem_nil _
  | cons node rest ih =>
    rw [allStatic,Bool.and_eq_true] at static
    exact List.forall_mem_cons.mpr ⟨fun named => by simpa [named] using static.1,ih static.2⟩

theorem exists_of_partStatic {field : Field} (static : partStatic field nodes = true) :
    ∃ part ∈ nodes, part.field = some field ∧ part.isStatic = true := by
  induction nodes with
  | nil => contradiction
  | cons node rest ih =>
    rw [partStatic] at static
    split at static
    next plays => exact ⟨node,List.mem_cons_self,plays,static⟩
    next =>
      obtain ⟨part,inside,found⟩ := ih static
      exact ⟨part,List.mem_cons_of_mem _ inside,found⟩

theorem exists_of_firstStatic (static : firstStatic nodes = true) :
    (∃ part ∈ nodes, part.isStatic = true) ∨ ∀ part ∈ nodes, part.kind.isNamed = false := by
  induction nodes with
  | nil => exact .inr (List.forall_mem_nil _)
  | cons node rest ih =>
    rw [firstStatic] at static
    split at static
    · exact .inl ⟨node,List.mem_cons_self,static⟩
    next unnamed =>
      rcases ih static with ⟨part,inside,found⟩ | none
      · exact .inl ⟨part,List.mem_cons_of_mem _ inside,found⟩
      · exact .inr (List.forall_mem_cons.mpr ⟨Bool.eq_false_iff.mpr unnamed,none⟩)

theorem firstStatic_of_substitutionsStatic (static : substitutionsStatic nodes = true) :
    ∀ part ∈ nodes, part.kind = .templateSubstitution → firstStatic part.children = true := by
  induction nodes with
  | nil => exact List.forall_mem_nil _
  | cons node rest ih =>
    rw [substitutionsStatic_cons,Bool.and_eq_true] at static
    exact List.forall_mem_cons.mpr ⟨fun kind => by simpa [kind] using static.1,ih static.2⟩

/-- A value that is made of literals, or a place for one in a template. -/
def isClosed (node : Node) : Bool :=
  node.isStatic || (node.kind = .templateSubstitution && firstStatic node.children)

variable {node part : Node}

theorem counts_of_isStatic (static : node.isStatic = true) :
    node.counts .solid = true ∧ node.kind.isInert = true := by
  rw [isStatic_eq] at static
  rw [counts]
  generalize node.kind = kind at static ⊢
  cases kind <;> first
    | exact ⟨rfl,rfl⟩
    | contradiction

theorem isInert_of_isClosed (closed : node.isClosed = true) : node.kind.isInert = true := by
  rw [isClosed,Bool.or_eq_true,Bool.and_eq_true,decide_eq_true_eq] at closed
  rcases closed with static | ⟨kind,_⟩
  · exact (counts_of_isStatic static).2
  · rw [kind]
    rfl

/-- Values of literals that reach the limit of a construct leave room for mere tokens only. -/
theorem LaidOut.isBare_or_isStatic (laid : node.LaidOut) (values : List Node)
    (limit : (.solid,values.length) ∈ node.kind.limits) (distinct : values.Nodup)
    (static : ∀ value ∈ values, value ∈ node.children ∧ value.isStatic = true)
    (inside : part ∈ node.children) : part.kind.isBare = true ∨ part.isStatic = true := by
  cases counted : part.counts .solid with
  | false => exact .inl (isBare_of_not_counts counted)
  | true =>
    have few := laid.limits _ limit
    rw [List.countP_eq_length_filter] at few
    have among : values ⊆ node.children.filter (counts .solid) := fun value member =>
      List.mem_filter.mpr ⟨(static value member).1,(counts_of_isStatic (static value member).2).1⟩
    have all := (distinct.subperm among).perm_of_length_le few
    exact .inr (static part (all.mem_iff.mpr (List.mem_filter.mpr ⟨inside,counted⟩))).2

theorem LaidOut.isBare_or_isClosed (laid : node.LaidOut) (closed : node.isClosed = true)
    (inside : part ∈ node.children) : part.kind.isBare = true ∨ part.isClosed = true := by
  have whole (static : part.kind.isBare = true ∨ part.isStatic = true) :
      part.kind.isBare = true ∨ part.isClosed = true :=
    static.imp_right fun static => by rw [isClosed,static]; rfl
  have each (all : allStatic node.children = true) : part.kind.isBare = true ∨ part.isClosed = true := by
    cases named : part.kind.isNamed with
    | false => exact .inl (by rw [Kind.isBare,named]; rfl)
    | true => exact whole (.inr (isStatic_of_allStatic all part inside named))
  rw [isClosed,Bool.or_eq_true,Bool.and_eq_true,decide_eq_true_eq] at closed
  rcases closed with static | ⟨kind,first⟩
  · rw [isStatic_eq] at static
    split at static
    · exact each static
    · exact each static
    · exact each static
    next kind =>
      obtain ⟨value,among,_,static⟩ := exists_of_partStatic static
      exact whole (laid.isBare_or_isStatic [value] (by simp [kind]) (List.nodup_singleton _)
        (List.forall_mem_singleton.mpr ⟨among,static⟩) inside)
    next kind =>
      rw [Bool.and_eq_true] at static
      obtain ⟨left,before,plays,first⟩ := exists_of_partStatic static.1
      obtain ⟨right,after,plays',second⟩ := exists_of_partStatic static.2
      have distinct : left ≠ right := by
        rintro rfl
        cases plays.symm.trans plays'
      exact whole (laid.isBare_or_isStatic [left,right] (by simp [kind]) (by simpa using distinct)
        (by simp [before,first,after,second]) inside)
    next kind =>
      have piece := laid.not_counts (by simp [kind] : (.nonPiece,0) ∈ node.kind.limits) inside
      by_cases place : part.kind = .templateSubstitution
      · exact .inr (by simp [isClosed,place,firstStatic_of_substitutionsStatic static part inside place])
      · refine .inl ?_
        rw [counts] at piece
        revert piece place
        generalize part.kind = kind
        cases kind <;> simp [Kind.isBare,Kind.isNamed]
    next =>
      rw [laid.atom (by revert static; cases node.kind <;> decide)] at inside
      contradiction
  · rcases exists_of_firstStatic first with ⟨value,among,static⟩ | none
    · exact whole (laid.isBare_or_isStatic [value] (by simp [kind]) (List.nodup_singleton _)
        (List.forall_mem_singleton.mpr ⟨among,static⟩) inside)
    · exact .inl (by rw [Kind.isBare,none part inside]; rfl)

theorem isInert_of_mem_preorder (laid : ∀ inner ∈ node.preorder, inner.LaidOut)
    (closed : node.isClosed = true) : ∀ inner ∈ node.preorder, inner.kind.isInert = true := by
  induction node using byParts with
  | step node ih =>
    intro inner among
    rcases (mem_preorder_iff _ _).mp among with rfl | ⟨part,inside,below⟩
    · exact isInert_of_isClosed closed
    · have within := preorder_subset node part inside
      rcases (laid node node.mem_preorder_self).isBare_or_isClosed closed inside with bare | closed
      · rw [(laid part (within part.mem_preorder_self)).eq_of_isBare bare below]
        exact Kind.isInert_of_isBare bare
      · exact ih part inside (fun found deeper => laid found (within deeper)) closed inner below

theorem freeIdentifiers_of_isInert (inert : ∀ inner ∈ node.preorder, inner.kind.isInert = true)
    (bound : List String) : node.freeIdentifiers bound = [] := by
  refine List.eq_nil_iff_forall_not_mem.mpr fun found member => ?_
  obtain ⟨among,name⟩ := mem_of_freeIdentifiers bound node found member
  have inert := inert found among
  revert name inert
  cases found.kind <;> decide

end Node

end VueScope.Script

namespace VueScope.Setup

open Script Component

/-- A constant that is declared under a name, with its value. -/
inductive Constant (root : Node) (name : String) (value : Node) : Prop
  | intro {declaration declarator target : Node} (inside : declaration ∈ root.preorder)
      (isConst : declaration.declarationKind? = some .const)
      (declares : declarator ∈ declaration.declarators)
      (named : declarator.child? .name = some target) (isName : target.kind = .identifier)
      (written : target.name = name) (given : declarator.child? .value = some value)

theorem Constant.unwrapped_mem_preorder {root value : Node} {name : String}
    (constant : Constant root name value) : value.unwrapped ∈ root.preorder := by
  obtain ⟨inside,_,declares,_,_,_,given⟩ := constant
  have declarator := Node.preorder_subset _ _ (List.mem_filter.mp (List.mem_filter.mp declares).1).1
  have whole := Node.preorder_subset _ _ (List.mem_of_find?_eq_some given)
  exact Node.mem_preorder_trans inside (declarator (whole value.unwrapped_mem_preorder))

theorem isStatic_of_constBinding {producers : Producers} {value : Node}
    (literal : constBinding producers value = .literalConst) : value.isStatic = true := by
  by_contra changing
  simp only [constBinding,changing] at literal
  grind

variable {producers : Producers} {root declaration declarator : Node} {name : String}

theorem exists_of_declaratorBindings {isConst : Bool}
    (member : (name,.literalConst) ∈ declaratorBindings producers isConst declarator) :
    isConst = true ∧ ∃ target value, declarator.child? .name = some target ∧ target.kind = .identifier ∧
      target.name = name ∧ declarator.child? .value = some value ∧ value.unwrapped.isStatic = true := by
  unfold declaratorBindings at member
  dsimp only at member
  split at member
  · contradiction
  next target named =>
    split at member
    next isName =>
      obtain ⟨rfl,literal⟩ := Prod.mk.inj (List.mem_singleton.mp member)
      unfold nameBinding at literal
      split at literal
      next isConst =>
        cases given : declarator.child? .value with
        | none => simp [given] at literal
        | some value =>
          rw [given] at literal
          exact ⟨isConst,target,value,named,isName,rfl,rfl,isStatic_of_constBinding literal.symm⟩
      · contradiction
    next =>
      split at member
      · contradiction
      · obtain ⟨_,_,same⟩ := List.mem_map.mp member
        have other := congrArg Prod.snd same
        unfold patternBinding at other
        grind

theorem exists_of_declarationBindings (inside : declaration ∈ root.preorder)
    (member : (name,.literalConst) ∈ declarationBindings producers declaration) :
    ∃ value, Constant root name value ∧ value.unwrapped.isStatic = true := by
  simp only [declarationBindings,jointBindings_eq] at member
  split at member
  · simp at member
  · split at member
    · obtain ⟨_,among,member⟩ := List.mem_flatten.mp member
      obtain ⟨declarator,declares,rfl⟩ := List.mem_map.mp among
      obtain ⟨isConst,target,value,named,isName,written,given,static⟩ := exists_of_declaratorBindings member
      exact ⟨value,⟨inside,of_decide_eq_true isConst,declares,named,isName,written,given⟩,static⟩
    · contradiction

theorem not_mem_bindingsOf (key : String) (member : Node) (name : String) :
    (name,BindingKind.literalConst) ∉ Options.bindingsOf key member := by
  unfold Options.bindingsOf
  dsimp only
  grind

theorem get?_optionBindings (root : Node) (name : String) :
    (optionBindings root).get? name ≠ some .literalConst := by
  intro found
  unfold optionBindings at found
  split at found
  · obtain ⟨_,among,member⟩ := List.mem_flatten.mp (OrderedMap.mem_of_get?_ofList found)
    obtain ⟨entry,_,rfl⟩ := List.mem_map.mp among
    exact not_mem_bindingsOf _ _ name member
  · contradiction

theorem not_mem_importBindings (imports : Imports) (name : String) :
    (name,BindingKind.literalConst) ∉ importBindings imports := by
  intro member
  obtain ⟨entry,_,same⟩ := List.mem_map.mp member
  have other := congrArg Prod.snd same
  dsimp only at other
  unfold importBinding at other
  grind

theorem not_mem_declaredBindings (declared : Declared) (name : String) :
    (name,BindingKind.literalConst) ∉ declared.bindings := by
  unfold Declared.bindings
  grind

theorem exists_of_written {plain : Option Node} {setup : Node} {declared : Declared}
    (member : (name,.literalConst) ∈ written plain setup declared) :
    ∃ root ∈ plain.toList ++ [setup], ∃ value, Constant root name value ∧
      value.unwrapped.isStatic = true := by
  simp only [written,List.mem_append] at member
  have under {root statement : Node} (inside : statement ∈ root.namedChildren) :
      statement.preorder ⊆ root.preorder :=
    Node.preorder_subset root statement (List.mem_filter.mp inside).1
  rcases member with ((imported | early) | late) | macros
  · exact absurd imported (not_mem_importBindings _ _)
  · cases plain with
    | none => contradiction
    | some plain =>
      obtain ⟨_,among,member⟩ := List.mem_flatten.mp early
      obtain ⟨declaration,declares,rfl⟩ := List.mem_map.mp among
      obtain ⟨statement,inside,found⟩ := List.mem_filterMap.mp declares
      refine ⟨plain,by simp,exists_of_declarationBindings (under inside ?_) member⟩
      unfold declarationOf? at found
      split at found
      · exact Node.preorder_subset _ _ (List.mem_of_find?_eq_some found) (Node.mem_preorder_self _)
      · cases found
        exact Node.mem_preorder_self _
  · obtain ⟨_,among,member⟩ := List.mem_flatten.mp late
    obtain ⟨statement,inside,rfl⟩ := List.mem_map.mp among
    exact ⟨setup,by simp,exists_of_declarationBindings (under inside (Node.mem_preorder_self _)) member⟩
  · exact absurd macros (not_mem_declaredBindings _ _)

theorem exists_of_mapM_parseBlock {role : ScriptRole} {lang : Option String} {plain : Option Block}
    {read : Option Node} (ran : plain.mapM (parseBlock role lang) = .ok read) {script : Node}
    (member : script ∈ read.toList) :
    ∃ block ∈ plain.toList, parse? (Dialect.ofLang lang) block.content = some script := by
  cases plain with
  | none =>
    cases ran
    contradiction
  | some block =>
    rw [Option.mapM_some] at ran
    cases own : parseBlock role lang block with
    | error _ => simp [own] at ran
    | ok root =>
      rw [own] at ran
      cases ran
      cases List.mem_singleton.mp member
      exact ⟨block,List.mem_singleton_self _,(parseBlock_eq_ok_iff _ _ _ _).mp own⟩

theorem exists_of_literalConst {component : Descriptor} {compiled : Compiled}
    (accepted : compile component = .ok compiled)
    (found : compiled.bindings.get? name = some .literalConst) :
    ∃ block ∈ component.script.toList ++ component.scriptSetup.toList, ∃ dialect root value,
      parse? dialect block.content = some root ∧ Constant root name value ∧
      value.unwrapped.isStatic = true := by
  cases block : component.scriptSetup with
  | none =>
    cases script : component.script with
    | none => simp [compile,block,script] at accepted
    | some plain =>
      simp only [compile,block,script,compilePlain] at accepted
      cases read : parseBlock .plain plain.lang plain with
      | error _ => simp [read,bind,Except.bind] at accepted
      | ok root =>
        rw [read] at accepted
        cases accepted
        exact absurd found (get?_optionBindings root name)
  | some setup =>
    obtain ⟨plain,root,declared,beside,parsed,_,bindings,_⟩ := exists_scripts_of_compile block accepted
    rw [bindings,get?_collect,Option.or_eq_some_iff] at found
    rcases found with bound | ⟨_,option⟩
    · obtain ⟨script,member,value,constant⟩ := exists_of_written (OrderedMap.mem_of_get?_ofList bound)
      rcases List.mem_append.mp member with early | late
      · obtain ⟨block,given,parsed⟩ := exists_of_mapM_parseBlock beside early
        exact ⟨block,by simp [given],_,script,value,parsed,constant⟩
      · cases List.mem_singleton.mp late
        exact ⟨setup,by simp,_,root,value,parsed,constant⟩
    · cases plain with
      | none => contradiction
      | some plain => exact absurd option (get?_optionBindings plain name)

/-- A value that counts as made of literals has no other parts than literals, what joins them, and tokens,
and refers to nothing. A constant that is bound as a literal has such a value. -/
theorem literals_are_closed :
    (∀ dialect source root, parse? dialect source = some root → ∀ value ∈ root.preorder,
      value.isStatic = true →
        (∀ inner ∈ value.preorder, inner.kind.isInert = true ∧ inner.kind ∉ Kind.active) ∧
        ∀ bound, value.freeIdentifiers bound = []) ∧
    ∀ component compiled name, compile component = .ok compiled →
      compiled.bindings.get? name = some .literalConst →
        ∃ block ∈ component.script.toList ++ component.scriptSetup.toList, ∃ dialect root value,
          parse? dialect block.content = some root ∧ Constant root name value ∧
          ∀ bound, value.unwrapped.freeIdentifiers bound = [] := by
  have inert {dialect : Dialect} {source : List Char} {root value : Node}
      (parsed : parse? dialect source = some root) (among : value ∈ root.preorder)
      (static : value.isStatic = true) : ∀ inner ∈ value.preorder, inner.kind.isInert = true :=
    Node.isInert_of_mem_preorder
      (fun inner deeper => laidOut_of_parse? parsed inner (Node.mem_preorder_trans among deeper))
      (by rw [Node.isClosed,static]; rfl)
  constructor
  · intro dialect source root parsed value among static
    have inert := inert parsed among static
    refine ⟨fun inner deeper => ⟨inert inner deeper,fun active => ?_⟩,Node.freeIdentifiers_of_isInert inert⟩
    have still := inert inner deeper
    revert active still
    cases inner.kind <;> decide
  · intro component compiled name accepted found
    obtain ⟨block,given,dialect,root,value,parsed,constant,static⟩ := exists_of_literalConst accepted found
    refine ⟨block,given,dialect,root,value,parsed,constant,Node.freeIdentifiers_of_isInert ?_⟩
    exact inert parsed constant.unwrapped_mem_preorder static

/-- A template in wrappers of a type, with an operation of literals in it. -/
theorem template_of_literals_is_closed :
    let content := "const size = (`a$\x7b- /* b */ (1 ? 2 : 3, 'c' + 4)\x7d` as Text)!".toList
    ∃ root compiled, parse? (Dialect.ofLang (some "ts")) content = some root ∧
      compile (setupOnly (some "ts") content) = .ok compiled ∧
      compiled.bindings.get? "size" = some .literalConst ∧
      (∃ value ∈ root.preorder, value.kind = .templateString ∧ value.isStatic = true ∧
        ∀ inner ∈ value.preorder, inner.kind ∉ Kind.active) ∧
      ∃ dialect root value, parse? dialect content = some root ∧ Constant root "size" value ∧
        value.unwrapped.freeIdentifiers [] = [] := by
  rw [String.toList_ofList]
  intro content
  have ran : ((compile (setupOnly (some "ts") content)).toOption.map fun compiled =>
      compiled.bindings.get? "size") = some (some .literalConst) := by
    decide +kernel
  have template : ∀ root ∈ parse? (Dialect.ofLang (some "ts")) content,
      ∃ value ∈ root.preorder, value.kind = .templateString ∧ value.isStatic = true := by
    decide +kernel
  obtain ⟨root,compiled,parsed,accepted,bound⟩ := exists_of_setupOnly ran
  obtain ⟨value,among,kind,static⟩ := template root parsed
  obtain ⟨block,given,dialect,script,constant⟩ := literals_are_closed.2 _ compiled "size" accepted bound
  cases List.mem_singleton.mp given
  obtain ⟨value',parsed',constant,closed⟩ := constant
  have still := (literals_are_closed.1 _ content root parsed value among static).1
  exact ⟨root,compiled,parsed,accepted,bound,
    ⟨value,among,kind,static,fun inner deeper => (still inner deeper).2⟩,
    dialect,script,value',parsed',constant,closed []⟩

end VueScope.Setup
