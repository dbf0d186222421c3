import VueScope.Proofs.Setup.Aliases
import VueScope.Proofs.Setup.Declarators

/-! Parentheses around the value of a variable. They change no category, with one exception: a call that
declares the events is taken for one whose result nobody keeps, and the name `emit` appears. -/
namespace VueScope.Text

/-- A word that is searched for does not stand across a place where no word runs on. -/
theorem infix_append_iff_of_seam {pattern first second : List Char}
    (word : ∀ c ∈ pattern, isWordChar c = true) (seam : Seam first second) :
    pattern <:+: first ++ second ↔ pattern <:+: first ∨ pattern <:+: second := by
  rw [List.infix_append_iff,← or_assoc]
  refine or_iff_left_of_imp ?_
  rintro ⟨front,back,rfl,⟨lead,rfl⟩,⟨trail,rfl⟩⟩
  rcases List.eq_nil_or_concat front with rfl | ⟨init,last,rfl⟩
  · exact .inr (List.prefix_append _ _).isInfix
  cases back with
  | nil =>
    rw [List.append_nil]
    exact .inl (List.suffix_append _ _).isInfix
  | cons next rest =>
    have starts := seam (by simp [endsInWord,word last (by simp)])
    simp [startsWithWord,word next (by simp)] at starts

theorem infix_cons_iff_of_word {pattern text : List Char} {c : Char} (some : pattern ≠ [])
    (word : ∀ c ∈ pattern, isWordChar c = true) (mark : isWordChar c = false) :
    pattern <:+: c :: text ↔ pattern <:+: text := by
  have seam : Seam [c] text := .of_left (by simp [endsInWord,mark])
  rw [← List.singleton_append,infix_append_iff_of_seam word seam]
  refine or_iff_right fun inside => ?_
  obtain ⟨first,rest,rfl⟩ := List.exists_cons_of_ne_nil some
  have same : first = c := List.mem_singleton.mp (inside.subset List.mem_cons_self)
  simp [← same,word first] at mark

def enclosed (text : List Char) (place size : Nat) : List Char :=
  text.take place ++ '(' :: ((text.drop place).take size ++ ')' :: text.drop (place + size))

theorem infix_enclosed_iff {pattern text : List Char} {place size : Nat} (some : pattern ≠ [])
    (word : ∀ c ∈ pattern, isWordChar c = true) (front : Seam (text.take place) (text.drop place))
    (back : Seam ((text.drop place).take size) (text.drop (place + size))) :
    pattern <:+: enclosed text place size ↔ pattern <:+: text := by
  have opening : Seam (text.take place)
      ('(' :: ((text.drop place).take size ++ ')' :: text.drop (place + size))) := .of_right rfl
  have closing : Seam ((text.drop place).take size) (')' :: text.drop (place + size)) := .of_right rfl
  have whole : text = text.take place ++ ((text.drop place).take size ++ text.drop (place + size)) := by
    rw [← List.drop_drop,List.take_append_drop,List.take_append_drop]
  have inner : (text.drop place).take size ++ text.drop (place + size) = text.drop place := by
    rw [← List.drop_drop,List.take_append_drop]
  rw [← inner] at front
  rw [enclosed,infix_append_iff_of_seam word opening,infix_cons_iff_of_word some word rfl,
    infix_append_iff_of_seam word closing,infix_cons_iff_of_word some word rfl]
  conv => rhs; rw [whole,infix_append_iff_of_seam word front,infix_append_iff_of_seam word back]

end VueScope.Text

namespace VueScope.Script

theorem find?_of_forall₂ {α β : Type} {R : α → β → Prop} {test : α → Bool} {test' : β → Bool}
    (same : ∀ item item', R item item' → test' item' = test item) {items : List α} {items' : List β}
    (related : List.Forall₂ R items items') :
    (items.find? test = none ∧ items'.find? test' = none) ∨
      ∃ item item', items.find? test = some item ∧ items'.find? test' = some item' ∧ R item item' := by
  induction related with
  | nil => exact .inl ⟨rfl,rfl⟩
  | @cons item item' _ _ head _ ih =>
    rw [List.find?_cons,List.find?_cons,same item item' head]
    split
    · exact .inr ⟨item,item',rfl,rfl,head⟩
    · exact ih

namespace Node

/-- Lists of nodes that are the same apart from places, with one node changed. -/
inductive Swapped (changed : Node → Node → Prop) : List Node → List Node → Prop
  | here {node other : Node} {rest rest' : List Node} (swap : changed node other)
      (same : List.Forall₂ (fun node other => other.unplaced = node.unplaced) rest rest') :
      Swapped changed (node :: rest) (other :: rest')
  | later {node other : Node} {rest rest' : List Node} (same : other.unplaced = node.unplaced)
      (swapped : Swapped changed rest rest') : Swapped changed (node :: rest) (other :: rest')

namespace Swapped

variable {changed : Node → Node → Prop} {nodes others : List Node}

theorem forall₂ (swapped : Swapped changed nodes others) :
    List.Forall₂ (fun node other => other.unplaced = node.unplaced ∨ changed node other)
      nodes others := by
  induction swapped with
  | here swap same => exact .cons (.inr swap) (same.imp fun _ _ => .inl)
  | later same _ ih => exact .cons (.inl same) ih

theorem exists_changed (swapped : Swapped changed nodes others) :
    ∃ node ∈ nodes, ∃ other, changed node other := by
  induction swapped with
  | here swap _ => exact ⟨_,List.mem_cons_self,_,swap⟩
  | later _ _ ih =>
    obtain ⟨node,member,change⟩ := ih
    exact ⟨node,List.mem_cons_of_mem _ member,change⟩

theorem any_eq (swapped : Swapped changed nodes others) {test : Node → Bool} {extra : Bool}
    (unplaced : ∀ node other, other.unplaced = node.unplaced → test other = test node)
    (swap : ∀ node other, changed node other → test other = (test node || extra)) :
    others.any test = (nodes.any test || extra) := by
  induction swapped with
  | @here node other rest rest' change same =>
    have kept : rest'.any test = rest.any test := by
      induction same with
      | nil => rfl
      | cons head _ ih => rw [List.any_cons,List.any_cons,unplaced _ _ head,ih]
    rw [List.any_cons,List.any_cons,swap node other change,kept,Bool.or_right_comm]
  | @later node other _ _ same _ ih =>
    rw [List.any_cons,List.any_cons,unplaced node other same,ih,Bool.or_assoc]

end Swapped

theorem swapped_cons_iff {changed : Node → Node → Prop} (node other : Node) (rest rest' : List Node) :
    Swapped changed (node :: rest) (other :: rest') ↔
      (changed node other ∧
        List.Forall₂ (fun node other => other.unplaced = node.unplaced) rest rest') ∨
      (other.unplaced = node.unplaced ∧ Swapped changed rest rest') := by
  constructor
  · intro swapped
    cases swapped with
    | here swap same => exact .inl ⟨swap,same⟩
    | later same swapped => exact .inr ⟨same,swapped⟩
  · rintro (⟨swap,same⟩ | ⟨same,swapped⟩)
    · exact .here swap same
    · exact .later same swapped

instance decideSwapped (changed : Node → Node → Prop) [DecidableRel changed] :
    (nodes others : List Node) → Decidable (Swapped changed nodes others)
  | [], _ => isFalse nofun
  | _ :: _, [] => isFalse nofun
  | node :: rest, other :: rest' =>
    have := decideSwapped changed rest rest'
    decidable_of_iff _ (swapped_cons_iff node other rest rest').symm

/-- A value in parentheses, in the place of the value. -/
structure Encloses (value wrapper : Node) : Prop where
  kind : wrapper.kind = .parenthesized
  field : wrapper.field = value.field
  inside : wrapper.namedChildren.map form = [value.form]
  marks : ∀ part ∈ wrapper.children, part.kind.isNamed = false → part.children = []

theorem Encloses.wraps {value wrapper : Node} (encloses : Encloses value wrapper) :
    value.Wraps wrapper := by
  obtain ⟨inner,held,same⟩ := List.map_eq_singleton_iff.mp encloses.inside
  exact .wrapper (by rw [encloses.kind]; rfl) (by rw [held]; rfl) (.bare same)

end Node

end VueScope.Script

namespace VueScope.Setup

open Script Component Text

/-- A declarator, and the same one with its value in parentheses. -/
structure EnclosesValue (value declarator other : Node) : Prop where
  kind : declarator.kind = .variableDeclarator
  kind' : other.kind = .variableDeclarator
  given : declarator.child? .value = some value
  children : Node.Swapped (fun node wrapper => node = value ∧ value.Encloses wrapper)
    declarator.children other.children

variable {declarator : Node}

theorem rewrapped_of_unplaced {other : Node} (same : other.unplaced = declarator.unplaced) :
    Rewrapped declarator other := by
  have child (field : Field) : (other.child? field).map Node.unplaced =
      (declarator.child? field).map Node.unplaced := by
    simpa using congrArg (Node.child? · field) same
  refine ⟨child .name,fun bare => ?_,fun value given => ?_⟩
  · simpa [bare] using child .value
  · have found := child .value
    rw [Option.mem_def.mp given,Option.map_some,Option.map_eq_some_iff] at found
    obtain ⟨wrapped,held,alike⟩ := found
    exact ⟨wrapped,held,.bare (Node.form_of_unplaced alike)⟩

theorem EnclosesValue.rewrapped {value other : Node} (encloses : EnclosesValue value declarator other) :
    Rewrapped declarator other := by
  have isValue : value.field = some .value := by simpa using List.find?_some encloses.given
  have child (field : Field) : (declarator.child? field = none ∧ other.child? field = none) ∨
      ∃ node wrapper, declarator.child? field = some node ∧ other.child? field = some wrapper ∧
        (wrapper.unplaced = node.unplaced ∨ node = value ∧ value.Encloses wrapper) := by
    refine find?_of_forall₂ (fun node wrapper related => ?_) encloses.children.forall₂
    rcases related with same | ⟨rfl,inside⟩
    · rw [← Node.field_unplaced wrapper,same,Node.field_unplaced]
    · rw [inside.field]
  refine ⟨?_,fun bare => absurd (encloses.given.symm.trans bare) nofun,fun node given => ?_⟩
  · rcases child .name with ⟨none,none'⟩ | ⟨node,wrapper,found,found',same | ⟨rfl,_⟩⟩
    · rw [none,none']
    · rw [found,found',Option.map_some,Option.map_some,same]
    · have isName : node.field = some .name := by simpa using List.find?_some found
      exact absurd (isValue.symm.trans isName) nofun
  · rcases child .value with ⟨none,_⟩ | ⟨own,wrapper,found,found',related⟩
    · exact absurd (encloses.given.symm.trans none) nofun
    · cases Option.some.inj (given.symm.trans found)
      refine ⟨wrapper,found',?_⟩
      rcases related with same | ⟨rfl,inside⟩
      · exact .bare (Node.form_of_unplaced same)
      · exact inside.wraps

/-- A statement that declares variables, and the same one with a value in parentheses. -/
structure EnclosesIn (value statement other : Node) : Prop where
  declares : statement.isVariableDeclaration = true
  kind : other.kind = statement.kind
  children : Node.Swapped (EnclosesValue value) statement.children other.children
  text : other.text = enclosed statement.text (value.start - statement.start) value.text.length

/-- A value that is nothing but the call that declares the events. -/
def DeclaresEvents (value : Node) : Prop :=
  value.kind = .callExpression ∧ value.calls Macro.emits = true

/-- A script, and the same one with the value of a variable in parentheses. -/
def Parenthesizes (value root other : Node) : Prop :=
  Node.Swapped (EnclosesIn value) root.children other.children

section Statements

variable {value statement other : Node}

theorem kind_of_enclosesValue {node wrapper : Node}
    (related : wrapper.unplaced = node.unplaced ∨ EnclosesValue value node wrapper) :
    wrapper.kind = node.kind := by
  rcases related with same | encloses
  · rw [← Node.kind_unplaced wrapper,same,Node.kind_unplaced]
  · rw [encloses.kind,encloses.kind']

theorem rewrapped_of_enclosesValue {node wrapper : Node}
    (related : wrapper.unplaced = node.unplaced ∨ EnclosesValue value node wrapper) :
    Rewrapped node wrapper := by
  rcases related with same | encloses
  · exact rewrapped_of_unplaced same
  · exact encloses.rewrapped

namespace EnclosesIn

variable (encloses : EnclosesIn value statement other)
include encloses

theorem declarators : List.Forall₂ Rewrapped statement.declarators other.declarators := by
  have parts := encloses.children.forall₂
  have chosen : List.Forall₂
      (fun node wrapper => wrapper.unplaced = node.unplaced ∨ EnclosesValue value node wrapper)
      statement.declarators other.declarators := by
    refine List.rel_filter ?_ (List.rel_filter ?_ parts)
    · intro node wrapper related
      simp [kind_of_enclosesValue related]
    · intro node wrapper related
      simp [kind_of_enclosesValue related]
  exact chosen.imp fun _ _ => rewrapped_of_enclosesValue

theorem declares' : other.isVariableDeclaration = true := by
  rw [Node.isVariableDeclaration,encloses.kind]
  exact encloses.declares

theorem kinds : other.children.map Node.kind = statement.children.map Node.kind :=
  map_eq_of_forall₂ (fun _ _ related => kind_of_enclosesValue related) encloses.children.forall₂

theorem declarationKind? : other.declarationKind? = statement.declarationKind? := by
  have same := congrArg (List.findSome? DeclarationKind.ofToken?) encloses.kinds
  rwa [List.findSome?_map,List.findSome?_map] at same

theorem hasToken (kind : Kind) : other.hasToken kind = statement.hasToken kind := by
  have same := congrArg (List.any · fun own => own = kind) encloses.kinds
  rwa [List.any_map,List.any_map] at same

end EnclosesIn

theorem declarationOf?_of_declares (declares : statement.isVariableDeclaration = true) :
    declarationOf? statement = some statement := by
  have noExport : statement.kind ≠ .exportStatement := by
    rcases kind_of_isVariableDeclaration declares with kind | kind <;> simp [kind]
  rw [declarationOf?,if_neg noExport]

theorem EnclosesIn.divides (encloses : EnclosesIn value statement other)
    (noDefault : statement.hasToken .defaultKeyword = false) : Divides statement [other] := by
  have own := declarationOf?_of_declares encloses.declares
  have own' := declarationOf?_of_declares encloses.declares'
  refine ⟨⟨noDefault,statement,own,encloses.declares⟩,fun piece member => ?_,?_⟩
  · cases List.mem_singleton.mp member
    refine ⟨⟨?_,other,own',encloses.declares'⟩,encloses.kind,?_⟩
    · rw [encloses.hasToken,noDefault]
    · rw [keywordOf?,keywordOf?,own,own']
      exact encloses.declarationKind?
  · rw [List.flatMap_singleton,declaratorsOf,declaratorsOf,own,own']
    exact encloses.declarators

end Statements

theorem Rearranged.of_forall₂ {root other : Node}
    (related : List.Forall₂ (fun statement statement' => Replaces statement [statement'])
      root.statements other.statements) : Rearranged root other := by
  refine ⟨other.statements.map fun statement => [statement],?_,?_⟩
  · rw [List.forall₂_map_right_iff]
    exact related
  · simp [← List.flatMap_def]

theorem Rearranged.refl (root : Node) : Rearranged root root :=
  .of_forall₂ (List.forall₂_same.mpr fun _ _ => .kept rfl)

section Parsed

variable {dialect : Dialect} {source : List Char} {value root other : Node}

theorem Parenthesizes.statements (wrapped : Parenthesizes value root other) :
    List.Forall₂
      (fun statement statement' => statement ∈ root.children ∧
        (statement'.unplaced = statement.unplaced ∨ EnclosesIn value statement statement'))
      root.statements other.statements := by
  have kinds {statement statement' : Node} (related : statement'.unplaced = statement.unplaced ∨
      EnclosesIn value statement statement') : statement'.kind = statement.kind := by
    rcases related with same | encloses
    · rw [← Node.kind_unplaced statement',same,Node.kind_unplaced]
    · exact encloses.kind
  refine (List.forall₂_and_left _ _).mpr ⟨fun statement member => ?_,?_⟩
  · exact List.mem_of_mem_filter (List.mem_of_mem_filter member)
  · refine List.rel_filter ?_ (List.rel_filter ?_ wrapped.forall₂)
    · intro _ _ related
      simp [kinds related]
    · intro _ _ related
      simp [kinds related]

theorem Parenthesizes.rearranged (wrapped : Parenthesizes value root other)
    (parsed : parse? dialect source = some root) : Rearranged root other := by
  refine .of_forall₂ (wrapped.statements.imp fun statement statement' related => ?_)
  obtain ⟨among,same | encloses⟩ := related
  · exact .kept same
  · exact .divided (encloses.divides (hasToken_default_eq_false parsed among encloses.declares))

end Parsed

section BareCalls

open Aliases

variable {callee : String} {value node other : Node}

theorem hasBareCall_unplaced (parent : Kind) (node : Node) :
    hasBareCall callee parent node.unplaced = hasBareCall callee parent node := by
  induction node using Node.byParts generalizing parent with
  | step node ih =>
    have own : isBareCall callee parent node.unplaced = isBareCall callee parent node := by
      unfold isBareCall Node.called?
      rw [Node.kind_unplaced,Node.child?_unplaced]
      cases node.child? .function <;> simp
    have below : anyBareCall callee node.kind (node.children.map Node.unplaced) =
        anyBareCall callee node.kind node.children := by
      apply anyBareCall_congr
      rw [List.forall₂_map_right_iff]
      exact List.forall₂_same.mpr fun part inside => ih part inside _
    rw [hasBareCall_eq,hasBareCall_eq,own,Node.kind_unplaced,Node.children_unplaced,below]

theorem hasBareCall_of_unplaced (parent : Kind) (same : other.unplaced = node.unplaced) :
    hasBareCall callee parent other = hasBareCall callee parent node := by
  rw [← hasBareCall_unplaced parent other,same,hasBareCall_unplaced]

theorem hasBareCall_of_form (parent : Kind) (same : other.form = node.form) :
    hasBareCall callee parent other = hasBareCall callee parent node := by
  have form (node : Node) : hasBareCall callee parent node.form = hasBareCall callee parent node := by
    rw [← hasBareCall_unplaced parent node,hasBareCall_eq,hasBareCall_eq]
    rfl
  rw [← form other,same,form]

theorem hasBareCall_direct (parent : Kind) (node : Node) :
    hasBareCall callee parent node =
      ((node.kind = .callExpression && node.calls callee && parent ≠ .variableDeclarator) ||
        anyBareCall callee node.kind node.children) := by
  cases node
  rfl

/-- A value in parentheses is no more the value of a declarator, so it may be a bare call itself. -/
theorem hasBareCall_of_encloses {wrapper : Node} (encloses : value.Encloses wrapper) (parent : Kind) :
    hasBareCall callee parent wrapper =
      (hasBareCall callee .variableDeclarator value ||
        (value.kind = .callExpression && value.calls callee)) := by
  obtain ⟨inner,single,same⟩ := List.map_eq_singleton_iff.mp encloses.inside
  have inside : anyBareCall callee .parenthesized wrapper.children =
      hasBareCall callee .parenthesized inner := by
    have tokens : wrapper.namedChildren.any (hasBareCall callee .parenthesized) =
        wrapper.children.any (hasBareCall callee .parenthesized) := by
      rw [Node.namedChildren,List.any_filter,Bool.eq_iff_iff,List.any_eq_true,List.any_eq_true]
      refine exists_congr fun part => and_congr_right fun member => ?_
      rw [Bool.and_eq_true]
      refine and_iff_right_of_imp fun found => ?_
      -- a mark has no parts and is no call
      by_contra unnamed
      have leaf := encloses.marks part member (Bool.eq_false_iff.mpr unnamed)
      rw [hasBareCall_direct,leaf] at found
      have isCall : part.kind = .callExpression := by
        simp only [anyBareCall,Bool.or_false,Bool.and_eq_true,decide_eq_true_eq] at found
        exact found.1.1
      rw [isCall] at unnamed
      exact unnamed rfl
    rw [anyBareCall_eq,← tokens,single,List.any_cons,List.any_nil,Bool.or_false]
  rw [hasBareCall_direct parent wrapper,encloses.kind,inside,hasBareCall_of_form _ same,
    hasBareCall_direct _ value,hasBareCall_direct _ value]
  simp [Bool.or_comm]

theorem hasBareCall_of_enclosesValue (encloses : EnclosesValue value declarator other) (parent : Kind) :
    hasBareCall callee parent other =
      (hasBareCall callee parent declarator ||
        (value.kind = .callExpression && value.calls callee)) := by
  have below : other.children.any (hasBareCall callee .variableDeclarator) =
      (declarator.children.any (hasBareCall callee .variableDeclarator) ||
        (value.kind = .callExpression && value.calls callee)) := by
    refine encloses.children.any_eq (fun _ _ => hasBareCall_of_unplaced _) fun node wrapper related => ?_
    rw [related.1]
    exact hasBareCall_of_encloses related.2 _
  simp only [hasBareCall_direct parent,encloses.kind,encloses.kind',anyBareCall_eq,below]
  simp

theorem hasBareCall_of_enclosesIn {statement : Node} (encloses : EnclosesIn value statement other)
    (parent : Kind) :
    hasBareCall callee parent other =
      (hasBareCall callee parent statement ||
        (value.kind = .callExpression && value.calls callee)) := by
  have noCall : statement.kind ≠ .callExpression := by
    rcases kind_of_isVariableDeclaration encloses.declares with kind | kind <;> simp [kind]
  have below : other.children.any (hasBareCall callee statement.kind) =
      (statement.children.any (hasBareCall callee statement.kind) ||
        (value.kind = .callExpression && value.calls callee)) :=
    encloses.children.any_eq (fun _ _ => hasBareCall_of_unplaced _) fun _ _ related =>
      hasBareCall_of_enclosesValue related _
  simp only [hasBareCall_direct parent,encloses.kind,noCall,anyBareCall_eq,below]
  simp

theorem Parenthesizes.anyBareCall {root : Node} (wrapped : Parenthesizes value root other) (parent : Kind) :
    anyBareCall callee parent other.children =
      (anyBareCall callee parent root.children ||
        (value.kind = .callExpression && value.calls callee)) := by
  rw [anyBareCall_eq,anyBareCall_eq]
  exact wrapped.any_eq (fun _ _ => hasBareCall_of_unplaced _) fun _ _ related =>
    hasBareCall_of_enclosesIn related _

end BareCalls

section Categories

open Aliases

variable {imports : StoreImports}

theorem judge_unplaced (isConst : Bool) (callee : Option String) (isFunction : Bool) (target : Node) :
    judge imports isConst callee isFunction target.unplaced =
      judge imports isConst callee isFunction target := by
  simp [judge]

theorem Rewrapped.verdict {declarator other : Node} (rewrapped : Rewrapped declarator other)
    (isConst : Bool) :
    verdict imports isConst other = verdict imports isConst declarator := by
  have callee (node : Node) : calleeOf node =
      ((node.child? .value).map fun value => value.unwrapped.form).bind Node.callee? := by
    rw [calleeOf]
    cases node.child? .value <;> simp
  have function (node : Node) : ((node.child? .value).map Node.unwrapped).any Node.isFunction =
      ((node.child? .value).map fun value => value.unwrapped.form).any fun value =>
        value.kind.isFunction := by
    cases node.child? .value <;> simp [Node.isFunction,Node.unwrapped_unwrapped]
  have told (node : Node) : Setup.verdict imports isConst node =
      (((node.child? .name).map Node.unplaced).map (judge imports isConst
        (((node.child? .value).map fun value => value.unwrapped.form).bind Node.callee?)
        (((node.child? .value).map fun value => value.unwrapped.form).any fun value =>
          value.kind.isFunction))).getD .silent := by
    rw [verdict_eq,callee,function,Option.map_map]
    congr 1
    exact Option.map_congr fun target _ => (judge_unplaced _ _ _ target).symm
  rw [told,told,rewrapped.target,rewrapped.unwrapped]

variable {source : List Char} {dialect : Dialect} {other : Node}

theorem EnclosesIn.mentions {value root statement : Node} (encloses : EnclosesIn value statement other)
    (parsed : parse? dialect source = some root) (among : statement ∈ root.children) :
    Aliases.mentions other = Aliases.mentions statement := by
  have word : Macro.props.toList.all isWordChar = true := by decide
  obtain ⟨declarator,inside,_,changed⟩ := encloses.children.exists_changed
  obtain ⟨stands,front,back⟩ :=
    value_stands_apart parsed among encloses.declares inside changed.kind changed.given
  rw [Bool.eq_iff_iff,mentions_iff,mentions_iff,encloses.text]
  refine infix_enclosed_iff (by decide) (List.all_eq_true.mp word) front ?_
  rwa [stands,List.take_left]

theorem view_statement_of_rewrapped {name : String} {statement : Node} {progress progress' : Progress}
    (kind : other.kind = statement.kind) (keyword : other.declarationKind? = statement.declarationKind?)
    (named : statement.isVariableDeclaration = false →
      (other.child? .name).map Node.name = (statement.child? .name).map Node.name)
    (declarators : List.Forall₂ Rewrapped statement.declarators other.declarators)
    (mentioned : mentions other = mentions statement) (seen : view name progress' = view name progress) :
    view name (progress'.statement imports other) = view name (progress.statement imports statement) := by
  have declares : other.isVariableDeclaration = statement.isVariableDeclaration := by
    rw [Node.isVariableDeclaration,Node.isVariableDeclaration,kind]
  unfold Progress.statement
  dsimp only
  rw [kind,declares,keyword]
  split
  next isFunction =>
    have noVariable : statement.isVariableDeclaration = false := by
      rw [Bool.or_eq_true,decide_eq_true_eq,decide_eq_true_eq] at isFunction
      rcases isFunction with kind | kind <;> simp [Node.isVariableDeclaration,kind]
    have same := named noVariable
    cases written : statement.child? .name with
    | none =>
      rw [written,Option.map_none,Option.map_eq_none_iff] at same
      rw [same]
      exact seen
    | some label =>
      rw [written,Option.map_some,Option.map_eq_some_iff] at same
      obtain ⟨label',written',sameName⟩ := same
      rw [written']
      dsimp only
      rw [sameName]
      exact view_take seen mentioned (.settled [label.name] .methods)
  next =>
    split
    · refine List.rel_foldl (P := fun progress progress' => view name progress' = view name progress)
        (R := Rewrapped) ?_ seen declarators
      intro before before' seen part part' rewrapped
      rw [declarator_eq_take,declarator_eq_take,rewrapped.verdict]
      exact view_take seen mentioned _
    · exact seen

section

variable {value root : Node} (wrapped : Parenthesizes value root other)
include wrapped

theorem view_explicit_of_parenthesizes
    (parsed : parse? dialect source = some root) (name : String) :
    view name (explicit other imports) = view name (explicit root imports) := by
  have each (statement statement' : Node) (progress progress' : Progress)
      (related : statement ∈ root.children ∧
        (statement'.unplaced = statement.unplaced ∨ EnclosesIn value statement statement'))
      (seen : view name progress' = view name progress) :
      view name (progress'.statement imports statement') =
        view name (progress.statement imports statement) := by
    obtain ⟨among,same | encloses⟩ := related
    · have text : statement'.text = statement.text := by simpa using congrArg Node.text same
      have parts : statement.declarators.map Node.unplaced = statement'.declarators.map Node.unplaced := by
        simpa using congrArg Node.declarators same.symm
      refine view_statement_of_rewrapped ?_ ?_ (fun _ => ?_) ?_ ?_ seen
      · simpa using congrArg Node.kind same
      · simpa using congrArg Node.declarationKind? same
      · simpa [Function.comp_def] using congrArg (fun node => (node.child? .name).map Node.name) same
      · rw [← List.forall₂_eq_eq_eq,List.forall₂_map_left_iff,List.forall₂_map_right_iff] at parts
        exact parts.imp fun _ _ same => rewrapped_of_unplaced same.symm
      · rw [mentions,mentions,text]
    · refine view_statement_of_rewrapped encloses.kind encloses.declarationKind? (fun none => ?_)
        encloses.declarators (encloses.mentions parsed among) seen
      rw [encloses.declares] at none
      contradiction
  exact List.rel_foldl (P := fun progress progress' => view name progress' = view name progress)
    (fun before before' seen statement statement' related =>
      each statement statement' before before' related seen) rfl wrapped.statements

theorem categoryOf?_of_parenthesizes
    (parsed : parse? dialect source = some root) (kind : other.kind = root.kind) (bindings : Bindings)
    (name : String) (kept : name = implicitEmit → ¬DeclaresEvents value) :
    (classify other bindings imports).categoryOf? name =
      (classify root bindings imports).categoryOf? name := by
  have seen : view name (explicit other imports) = view name (explicit root imports) :=
    view_explicit_of_parenthesizes wrapped parsed name
  have filed := (Prod.mk.inj seen).1
  have events : (anyBareCall Macro.emits other.kind other.children && implicitEmit = name) =
      (anyBareCall Macro.emits root.kind root.children && implicitEmit = name) := by
    rw [kind,wrapped.anyBareCall,Bool.and_or_distrib_right]
    by_cases same : implicitEmit = name
    · have silent : (value.kind = .callExpression && value.calls Macro.emits) = false := by
        simpa [DeclaresEvents] using kept same.symm
      simp [silent]
    · simp [same]
  rw [categoryOf?_classify,categoryOf?_classify,filed,bound?_eq,bound?_eq,seen,events]

theorem categoryOf?_implicitEmit_of_parenthesizes
    (events : DeclaresEvents value) (bindings : Bindings) :
    (classify other bindings imports).categoryOf? implicitEmit ≠ none := by
  have bare : anyBareCall Macro.emits other.kind other.children = true := by
    rw [wrapped.anyBareCall]
    simp [events.1,events.2]
  rw [categoryOf?_classify,bare]
  simp

end

end Categories

theorem listedNames_unplaced (statement : Node) :
    statement.unplaced.listedNames = statement.listedNames := by
  have specifiers (clause : Node) :
      clause.unplaced.specifiers = clause.specifiers.map Node.unplaced := by
    simp [Node.specifiers,List.filter_map,List.map_flatten,Function.comp_def]
  unfold Node.listedNames
  rw [Node.namedChildren_unplaced,List.find?_map]
  simp only [Function.comp_def,Node.kind_unplaced]
  cases statement.namedChildren.find? fun child => child.kind = .importClause with
  | none => rfl
  | some clause =>
    simp only [Option.map_some,specifiers,List.filterMap_map,Function.comp_def,
      Node.importedNames?_unplaced]

theorem Rearranged.storeImports {root other : Node} (rearranged : Rearranged root other) :
    StoreImports.ofScript other = StoreImports.ofScript root := by
  have statements : other.importStatements.map (fun entry => (entry.1.unplaced,entry.2)) =
      root.importStatements.map fun entry => (entry.1.unplaced,entry.2) := by
    refine rearranged.filterMap_eq (fun node => ?_) (fun node kind => ?_) fun statement declares => ?_
    · rw [Node.kind_unplaced]
      split
      · simp [Node.librarySource?,List.find?_map,← Option.map_or,Function.comp_def,Node.unplaced_unplaced,
          Option.bind_map]
      · rfl
    · simp [kind]
    · rw [if_neg declares.kind_ne_import]
  have sources (source : String) : (other.importStatements.any fun entry => entry.2 = source) =
      root.importStatements.any fun entry => entry.2 = source := by
    have same := congrArg (List.any · fun entry => entry.2 = source) statements
    rwa [List.any_map,List.any_map] at same
  have listed (source : String) : other.listedFrom source = root.listedFrom source := by
    have same := congrArg (fun entries => ((entries.filter fun entry : Node × String =>
      entry.2 = source).map fun entry => entry.1.listedNames).flatten) statements
    simp only [List.filter_map,List.map_map,Function.comp_def,listedNames_unplaced] at same
    exact same
  rw [StoreImports.ofScript,StoreImports.ofScript,sources,sources,listed,listed]

/-- Parentheses around the value of a variable change no category, unless the value declares the events.
Then the name that stands for them has a category afterwards. -/
theorem parentheses_keep_categories [Recovery] (component : Descriptor) (setup setup' : Block)
    (identifiers : Identifiers) (root root' value : Node)
    (block : component.scriptSetup = some setup)
    (accepted : Analysis.classify component = .ok identifiers)
    (parsed : parse? (Dialect.ofLang setup.lang) setup.content = some root)
    (parsed' : parse? (Dialect.ofLang setup.lang) setup'.content = some root')
    (sameLang : setup'.lang = setup.lang) (wrapped : Parenthesizes value root root') :
    ∃ identifiers',
      Analysis.classify { component with scriptSetup := some setup' } = .ok identifiers' ∧
        (∀ name, (name = implicitEmit → ¬DeclaresEvents value) →
          identifiers'.categoryOf? name = identifiers.categoryOf? name) ∧
        (DeclaresEvents value → identifiers'.categoryOf? implicitEmit ≠ none) := by
  obtain ⟨compiled,compiles,rfl⟩ := (Aliases.classify_eq_ok_iff block).mp accepted
  have accompanied' : ∀ plain ∈ component.script, Accompanies setup' plain := by
    intro plain script
    rw [Accompanies,sameLang]
    exact accompanies_of_compile block compiles plain script
  have rearranged := wrapped.rearranged parsed
  have compiles' : compile { component with scriptSetup := some setup' } = .ok compiled :=
    compile_of_rearranged block rfl sameLang parsed parsed' rearranged
      (fun plain read => ⟨plain,read,by cases plain <;> constructor; exact .refl _⟩) accompanied' compiles
  refine ⟨_,(Aliases.classify_eq_ok_iff rfl).mpr ⟨compiled,compiles',rfl⟩,?_⟩
  have kind : root'.kind = root.kind := (kind_of_parse? parsed').trans (kind_of_parse? parsed).symm
  rw [analyze,analyze,sameLang,tree,tree,parsed,parsed']
  dsimp only [Option.getD_some,Option.getD_none]
  rw [rearranged.storeImports]
  exact ⟨fun name kept => categoryOf?_of_parenthesizes wrapped parsed kind _ name kept,
    fun events => categoryOf?_implicitEmit_of_parenthesizes wrapped events _⟩

instance (value wrapper : Node) : Decidable (value.Encloses wrapper) :=
  decidable_of_iff (wrapper.kind = .parenthesized ∧ wrapper.field = value.field ∧
      wrapper.namedChildren.map Node.form = [value.form] ∧
      ∀ part ∈ wrapper.children, part.kind.isNamed = false → part.children = [])
    ⟨fun ⟨kind,field,inside,marks⟩ => ⟨kind,field,inside,marks⟩,
      fun encloses => ⟨encloses.kind,encloses.field,encloses.inside,encloses.marks⟩⟩

instance (value declarator other : Node) : Decidable (EnclosesValue value declarator other) :=
  decidable_of_iff (declarator.kind = .variableDeclarator ∧ other.kind = .variableDeclarator ∧
      declarator.child? .value = some value ∧
      Node.Swapped (fun node wrapper => node = value ∧ value.Encloses wrapper)
        declarator.children other.children)
    ⟨fun ⟨kind,kind',given,children⟩ => ⟨kind,kind',given,children⟩,
      fun encloses => ⟨encloses.kind,encloses.kind',encloses.given,encloses.children⟩⟩

instance (value statement other : Node) : Decidable (EnclosesIn value statement other) :=
  decidable_of_iff (statement.isVariableDeclaration = true ∧ other.kind = statement.kind ∧
      Node.Swapped (EnclosesValue value) statement.children other.children ∧
      other.text = enclosed statement.text (value.start - statement.start) value.text.length)
    ⟨fun ⟨declares,kind,children,text⟩ => ⟨declares,kind,children,text⟩,
      fun encloses => ⟨encloses.declares,encloses.kind,encloses.children,encloses.text⟩⟩

instance (value root other : Node) : Decidable (Parenthesizes value root other) := by
  unfold Parenthesizes
  infer_instance

instance (value : Node) : Decidable (DeclaresEvents value) := by
  unfold DeclaresEvents
  infer_instance

def topValues (root : Node) : List Node :=
  (root.statements.flatMap declaratorsOf).filterMap (Node.child? · .value)

/-- The second of two setup scripts is the first with the value of a variable in parentheses. -/
def IsParenthesized (content content' : List Char) : Prop :=
  ∃ root ∈ parse? (Dialect.ofLang none) content, ∃ root' ∈ parse? (Dialect.ofLang none) content',
    ∃ value ∈ topValues root, Parenthesizes value root root'

instance (content content' : List Char) : Decidable (IsParenthesized content content') := by
  unfold IsParenthesized
  infer_instance

/-- The declared props, next to a ref and to events that are declared in a statement of their own. -/
theorem parenthesized_props_keep_categories :
    let content := ("import \x7b ref \x7d from 'vue'\n" ++
      "const n = ref(0), props = defineProps(['title'])\ndefineEmits(['close'])").toList
    let content' := ("import \x7b ref \x7d from 'vue'\n" ++
      "const n = ref(0), props = (defineProps(['title']))\ndefineEmits(['close'])").toList
    IsParenthesized content content' ∧ ∃ before after,
      Analysis.classify (setupOnly none content) = .ok before ∧
      Analysis.classify (setupOnly none content') = .ok after ∧
      (∀ name, after.categoryOf? name = before.categoryOf? name) ∧
      ["n","props","title","emit"].map before.categoryOf? =
        [some .ref,some .props,some .props,some .emits] := by
  repeat rw [String.toList_append]
  repeat rw [String.toList_ofList]
  intro content content'
  have wrapped : IsParenthesized content content' := by decide +kernel
  have silent : ∀ root ∈ parse? (Dialect.ofLang none) content, ∀ value ∈ topValues root,
      ¬DeclaresEvents value := by
    decide +kernel
  have ran : (Analysis.classify (setupOnly none content)).toOption.map (fun before =>
      ["n","props","title","emit"].map before.categoryOf?) =
        some [some .ref,some .props,some .props,some .emits] := by
    decide +kernel
  -- from here on the texts do not matter
  clear_value content content'
  refine ⟨wrapped,?_⟩
  obtain ⟨root,parsed,root',parsed',value,member,wrapped⟩ := wrapped
  obtain ⟨before,succeeded,seen⟩ := Option.map_eq_some_iff.mp ran
  have accepted := eq_ok_of_toOption succeeded
  obtain ⟨after,accepted',same,_⟩ := parentheses_keep_categories (setupOnly none content) _
    ⟨"script",content',0,content'.length,∅,none,true⟩ before root root' value rfl accepted
    parsed parsed' rfl wrapped
  exact ⟨before,after,accepted,accepted',
    fun name => same name fun _ => silent root parsed value member,seen⟩

/-- The events are declared under a name of their own, and `emit` appears beside it. -/
theorem parenthesized_events_add_emit :
    let content := "const fire = defineEmits(['a'])".toList
    let content' := "const fire = (defineEmits(['a']))".toList
    let categories (content : List Char) : Option (List (Option Category)) :=
      (Analysis.classify (setupOnly none content)).toOption.map fun found =>
        ["fire","emit"].map found.categoryOf?
    IsParenthesized content content' ∧ categories content = some [some .emits,none] ∧
      categories content' = some [some .emits,some .emits] := by
  rw [String.toList_ofList,String.toList_ofList]
  decide +kernel

end VueScope.Setup
