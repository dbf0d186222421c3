import VueScope.Proofs.Script.Edges

/-! What every construct of the grammar may do at its ends, given what all constructs may do. No
construct puts a name right after a word. -/
namespace VueScope.Script

namespace Grammar

set_option synthInstance.maxSize 1024

open VueScope.Script.Parser
open Semicolon (Place)
open Shape (Uncounted)
open Text

variable (dialect : Dialect) (rules : Rules) (mode : Mode) (place : Option Place)

/-- What the constructs that hold one another may do at their ends. -/
@[reducible] def edgesOf : Rule → Edges
  | .statement => .naming
  | .block _ => .sealed
  | .expression _ => .any
  | .sequence _ => .any
  | .operation _ _ => .any
  | .unary _ => .any
  | .construction _ => .any
  | .access => .naming
  | .pattern => .naming
  | .destructuring => .sealed
  | .parameters => .sealed
  | .object => .sealed
  | .classBody => .sealed
  | .element => .sealed
  | .type _ => .any
  | .typeOperand _ => .any
  | .primaryType _ => .any
  | .objectType => .sealed

/-! Names and other parts that many constructs share. -/

instance : Edged (identifier dialect) .naming := by
  unfold identifier
  exact .relax rfl

instance : Edged (reference dialect) .naming := by unfold reference; exact .relax rfl

instance : Edged (boundName dialect) .naming := by unfold boundName; exact .relax rfl

theorem closes_privateName : Lexeme.Closes fun text =>
    match text with
    | '#' :: rest =>
      let word := Lexeme.word rest
      if word.isEmpty then none else some (word.length + 1)
    | _ => none := by
  apply Lexeme.closes_of_startsWithWord
  intro text width found
  dsimp only at found
  split at found
  next rest =>
    split at found
    · contradiction
    next nonempty =>
      cases found
      apply Lexeme.startsWithWord_drop_word
      simpa using nonempty
  · contradiction

instance : Edged privateName .sealed :=
  edged_token (tokenEdges_sealed .privatePropertyIdentifier closes_privateName)

instance (asked : Shape → Prop) [AsksNothing asked .privatePropertyIdentifier] : Gives asked privateName := by
  unfold privateName
  infer_instance

instance : Edged number .ragged := by unfold number; exact .relax rfl

instance (written : String) : Edged (memberModifier dialect place written) (.whole written) := by
  unfold memberModifier
  exact .relax (by rw [Edges.seq_void,Edges.seq_void,Edges.le_refl])

instance (written : String) : Edged (methodModifier dialect place written) (.whole written) := by
  unfold methodModifier
  exact .relax (by rw [Edges.seq_void,Edges.seq_void,Edges.le_refl])

instance : Edged (accessibility dialect place) .sealed := by
  unfold accessibility
  exact .relax rfl

instance : Edged (methodMarks dialect place) .sealed := by
  unfold methodMarks
  exact .relax rfl

/-! Parsers that look at what another one took. -/

variable (parser : Parser)

instance (edges : Edges) [Edged parser edges] (accepts : List Shape → Prop)
    [DecidablePred accepts] :
    Edged ⟨fun text => (parser.run text).bind fun shapes rest =>
      if accepts shapes then .taken shapes rest else .absent⟩ edges where
  fits sound before text := by
    apply Outcome.fits_bind
    intro shapes rest ran
    split
    · exact Edged.taken sound before ran
    · trivial

instance (edges : Edges) [Edged parser edges] (rejects : List Shape → Prop)
    [DecidablePred rejects] :
    Edged ⟨fun text => (parser.run text).bind fun shapes rest =>
      if rejects shapes then .absent else .taken shapes rest⟩ edges where
  fits sound before text := by
    apply Outcome.fits_bind
    intro shapes rest ran
    split
    · trivial
    · exact Edged.taken sound before ran

instance (edges more : Edges) [Edged parser edges] (accepts : List Shape → Prop)
    [DecidablePred accepts] (next : List Shape → Parser) [later : ∀ shapes, Edged (next shapes) more] :
    Edged ⟨fun text => (parser.run text).bind fun shapes rest =>
      if accepts shapes then .taken shapes rest
      else ((next shapes).run rest).map fun more => shapes ++ more⟩ (edges.or (edges.seq more)) where
  fits sound before text := by
    have parts := Edges.sound_or sound
    have own := Edges.sound_seq parts.2
    apply Outcome.fits_bind
    intro shapes rest ran
    have first := Edged.taken parts.1 before ran
    split
    · exact first.weaken sound (le_or_left _ _)
    · exact (Outcome.fits_append parts.2 first ((later shapes).fits own.2 _ rest)).weaken sound
        (le_or_right _ _)

theorem fits_ended {parser : Parser} {last : Place → Parser} {edges more : Edges}
    [later : ∀ place, Edged (last place) more] (sound : (edges.seq more).sound = true)
    {before whole text : List Char} (fitted : (parser.run text).Fits edges before whole) :
    ((ended parser last).run text).Fits (edges.seq more) before whole := by
  have parts := Edges.sound_seq sound
  apply Outcome.fits_bind
  intro shapes rest ran
  rw [ran] at fitted
  exact Outcome.fits_append sound fitted ((later _).fits parts.2 _ rest)

instance (last : Place → Parser) (edges more : Edges) [first : Edged parser edges]
    [∀ place, Edged (last place) more] : Edged (ended parser last) (edges.seq more) where
  fits sound before text := by
    have parts := Edges.sound_seq sound
    exact fits_ended sound (first.fits parts.1 before text)

section Constructs

variable [∀ rule, Edged (rules rule) (edgesOf rule)] [SingleRules rules]

instance : Edged (propertyName rules) .ragged := by
  unfold propertyName
  exact .relax rfl

instance : Edged (initializer rules mode) .trailing := by
  unfold initializer
  exact .relax rfl

instance : Edged (ascription dialect rules place) .trailing := by
  unfold ascription
  exact .relax rfl

instance : Edged (typeArguments rules) .sealed := by
  unfold typeArguments
  exact .relax rfl

instance : Edged (typeParameter rules) .trailing := by
  unfold typeParameter
  exact .relax rfl

instance : Edged (typeParameters dialect rules) .sealed := by
  unfold typeParameters
  exact .relax rfl

instance : Edged (typePredicate dialect rules place) .any := by
  unfold typePredicate
  exact .relax rfl

instance : Edged (assertsType dialect rules place) .trailing := by
  unfold assertsType
  exact .relax rfl

instance : Edged (resultType dialect rules place) .any := by
  unfold resultType
  exact .relax rfl

instance : Edged (returnType dialect rules place) .trailing := by
  unfold returnType
  exact .relax rfl

instance (typed : Bool) : Edged (callSignature dialect rules typed place) .trailing := by
  unfold callSignature
  exact .relax rfl

instance : Edged (spread rules) .trailing := by unfold spread; exact .relax rfl

instance : Edged (item rules) .any := by unfold item; exact .relax rfl

instance : Edged (Grammar.arguments rules) .sealed := by
  unfold Grammar.arguments
  exact .relax rfl

instance : Edged (decorator dialect rules) .sealed := by
  unfold decorator
  exact .relax rfl

/-! Patterns and parameters. -/

instance : Edged (target dialect rules) .naming := by unfold target; exact .relax rfl

instance : Edged (destination dialect rules) .naming := by
  unfold destination
  exact .relax rfl

instance : Edged (restPattern dialect rules) .sealed := by
  unfold restPattern
  exact .relax rfl

instance : Edged (pattern dialect rules) .naming := by
  unfold pattern
  exact .relax rfl

instance : Edged (patternWithDefault rules) .any := by
  unfold patternWithDefault
  exact .relax rfl

instance : Edged (patternEntry dialect rules) .any := by
  unfold patternEntry
  exact .relax rfl

instance : Edged (destructuring dialect rules) .sealed := by
  unfold destructuring
  exact .relax rfl

instance : Edged (binder dialect rules) .naming := by unfold binder; exact .relax rfl

instance (edges : Edges) [Edged parser edges] :
    Edged (modifier dialect parser) edges := by
  unfold modifier
  exact .relax (by rw [Edges.seq_void,Edges.le_refl])

instance : Edged optionalMark .sealed := by unfold optionalMark; exact .relax rfl

instance : Edged (typedParameter dialect rules) .any := by
  unfold typedParameter
  exact .relax rfl

instance : Edged (parameter dialect rules) .any := by
  unfold parameter
  exact .relax rfl

instance : Edged (parameters dialect rules) .sealed := by
  unfold parameters
  exact .relax rfl

/-! Expressions. -/

theorem closes_substitution :
    Lexeme.Closes fun text => (dropPrefix? ['$','{'] text).map fun _ => 2 := by
  apply Lexeme.Closes.of_getLast?
  intro text width found
  obtain ⟨rest,dropped,rfl⟩ := Option.map_eq_some_iff.mp found
  rw [eq_append_of_dropPrefix? _ _ _ dropped]
  exact ⟨'{',rfl,by decide⟩

instance : Edged (immediate .mark fun text => (dropPrefix? ['$','{'] text).map fun _ => 2) .sealed :=
  edged_immediate (tokenEdges_sealed .mark closes_substitution)

theorem closes_backtick :
    Lexeme.Closes fun text => if text.head? = some '\x60' then some 1 else none := by
  apply Lexeme.Closes.of_getLast?
  intro text width found
  split at found
  next closed =>
    cases found
    obtain ⟨rest,rfl⟩ := List.head?_eq_some_iff.mp closed
    exact ⟨'\x60',rfl,by decide⟩
  · contradiction

instance : Edged (immediate .mark fun text => if text.head? = some '\x60' then some 1 else none)
    .sealed :=
  edged_immediate (tokenEdges_sealed .mark closes_backtick)

instance : Edged (templateSubstitution rules) .sealed := by
  unfold templateSubstitution
  exact .relax rfl

instance : Gives (Uncounted .nonPiece) (templateSubstitution rules) := by
  unfold templateSubstitution
  infer_instance

instance : Edged (templateString rules) .sealed := by
  unfold templateString
  exact .relax rfl

instance : Edged (array rules) .sealed := by unfold array; exact .relax rfl

instance : Edged (overriding dialect place) .sealed := by
  unfold overriding
  exact .relax rfl

instance : Edged (orderedModifiers dialect place) .void := by
  unfold orderedModifiers
  exact .relax rfl

instance : Edged (objectMethodModifiers dialect rules) .void := by
  unfold objectMethodModifiers
  exact .relax rfl

instance : Edged (objectMethod dialect rules) .sealed := by
  unfold objectMethod
  exact .relax rfl

instance : Edged (objectEntry dialect rules) .any := by
  unfold objectEntry
  exact .relax rfl

instance : Edged (object dialect rules) .sealed := by unfold object; exact .relax rfl

instance : Edged (parenthesized dialect rules) .sealed := by
  unfold parenthesized
  exact .relax rfl

instance : Edged (asyncMark dialect place) .sealed := by
  unfold asyncMark
  exact .relax rfl

instance (asked : Shape → Prop) [AsksNothing asked .keyword] : Gives asked (asyncMark dialect place) := by
  unfold asyncMark
  infer_instance

instance (typed : Bool) : Gives (Uncounted .body) (callSignature dialect rules typed place) := by
  unfold callSignature typeParameters returnType
  infer_instance

instance (typed : Bool) : Gives (Uncounted .nonRole) (callSignature dialect rules typed place) := by
  unfold callSignature typeParameters returnType
  infer_instance

instance : Edged (functionExpression dialect rules mode) .sealed := by
  unfold functionExpression
  exact .relax rfl

instance : Edged (classHeritage dialect rules) .trailing := by
  unfold classHeritage
  exact .relax rfl

instance : Edged (className dialect) .naming := by unfold className; exact .relax rfl

instance : Edged (classExpression dialect rules) .sealed := by
  unfold classExpression
  exact .relax rfl

instance : Edged (arrowBody dialect rules mode) .trailing := by
  unfold arrowBody
  exact .relax rfl

instance : Limited .body (arrowBody dialect rules mode) 1 := by
  unfold arrowBody
  infer_instance

instance : Gives (Uncounted .nonRole) (arrowBody dialect rules mode) := by
  unfold arrowBody
  infer_instance

instance : Edged (bareArrow dialect rules mode) .any := by unfold bareArrow; exact .relax rfl

instance : Edged (signedArrow dialect rules mode) .trailing := by unfold signedArrow; exact .relax rfl

instance : Edged (arrow dialect rules mode) .any := by unfold arrow; exact .relax rfl

instance : EdgedWrap memberAccess .sealed := by unfold memberAccess; exact .relax rfl

instance : EdgedWrap (subscriptAccess rules) .sealed := by
  unfold subscriptAccess
  exact .relax rfl

instance : EdgedWrap (taggedTemplate rules) .sealed := by
  unfold taggedTemplate
  exact .relax rfl

instance : EdgedWraps (optionalAccesses dialect rules) .sealed := by
  unfold optionalAccesses
  exact .relax rfl

instance : EdgedWraps (suffixes dialect rules) .sealed := by
  unfold suffixes
  exact .relax rfl

instance : Edged importExpression .sealed := by
  unfold importExpression
  exact .relax rfl

instance (literal : Parser) (edges : Edges) [Edged literal edges] :
    Edged (bracketed rules mode literal) (edges.or .trailing) where
  fits sound before text := by
    have parts := Edges.sound_or sound
    have assigned : Edged (node .assignment <|
        field .left (rules .destructuring) >> symbol "=" >>
          required (field .right (rules (.expression mode)))) .trailing :=
      .relax rfl
    have other := (assigned.weaken (le_or_right edges _)).fits sound before text
    unfold bracketed
    dsimp only
    split
    · trivial
    · exact other
    next shapes rest ran =>
      have own := (Edged.taken parts.1 before ran).weaken sound (le_or_left edges _)
      split
      · split
        · exact own
        · exact other
      · exact own

instance : Edged moduleName .naming := by unfold moduleName; exact .relax rfl

instance : Edged (internalModule dialect rules mode) .sealed := by
  unfold internalModule
  exact .relax rfl

instance (word : String) : Edged (wordExpression dialect rules mode word) .naming := by
  unfold wordExpression
  split <;> exact .relax rfl

instance : Edged (simplePrimary dialect rules mode) .any := by
  unfold simplePrimary
  refine @edged_look _ _ fun text => ?_
  split <;> exact .relax rfl

instance : Edged (compound dialect rules mode) .any := by
  unfold compound
  exact .relax rfl

instance : Edged (construction dialect rules mode) .any := by
  unfold construction
  exact .relax rfl

instance : Edged (primary dialect rules mode) .any := by
  unfold primary
  exact .relax rfl

instance : Edged (access dialect rules) .naming := by unfold access; exact .relax rfl

instance : EdgedWrap (instantiation dialect rules mode) .sealed := by
  unfold instantiation
  exact .relax rfl

instance : EdgedWrap (postfixUpdate dialect mode) .sealed := by
  unfold postfixUpdate
  exact .relax rfl

theorem ne_empty_of_augmented {written : String} (augmented : augmentedOperators.contains written) :
    (written == "") = false := by
  rw [beq_eq_false_iff_ne]
  rintro rfl
  exact absurd augmented (by decide)

instance : EdgedWraps (assignments dialect rules mode) .trailing := by
  have augmented (written : String) : Edged
      (if augmentedOperators.contains written then
        field .operator (symbol written) >> required (field .right (rules (.expression mode)))
      else fail) .trailing := by
    split
    next found =>
      refine .relax ?_
      simp [Edges.le,Edges.seq,Edges.whole,Edges.any,Edges.trailing,ne_empty_of_augmented found]
    · exact .relax rfl
  unfold assignments
  exact .relax rfl

instance : EdgedWraps (typeSuffixes dialect rules mode) .trailing := by
  unfold typeSuffixes
  exact .relax rfl

instance : EdgedWraps (typedSuffixes dialect rules mode) .trailing := by
  unfold typedSuffixes
  exact .relax rfl

instance : Edged (angled dialect rules mode) .any := by
  unfold angled
  exact .relax rfl

instance : Edged (yieldExpression dialect rules mode) .trailing := by
  unfold yieldExpression
  exact .relax rfl

instance edged_preferred (named awaited : Parser) (edges more : Edges) [Edged named edges]
    [later : Edged awaited more] (prefers : List Shape → List Char → Bool) :
    Edged ⟨fun text =>
      match (trial named).run text with
      | .taken shapes rest =>
        if prefers shapes rest then .taken shapes rest
        else
          match (trial awaited).run text with
          | .taken others last => .taken others last
          | _ => .taken shapes rest
      | _ => awaited.run text⟩ (edges.or more) where
  fits sound before text := by
    have parts := Edges.sound_or sound
    dsimp only
    split
    next shapes rest ran =>
      have own := (Edged.taken parts.1 before ran).weaken sound (le_or_left edges more)
      split
      · exact own
      · split
        next others last went =>
          exact (Edged.taken parts.2 before went).weaken sound (le_or_right edges more)
        · exact own
    · exact (later.weaken (le_or_right edges more)).fits sound before text

instance (named : Parser) (edges : Edges) [Edged named edges] :
    Edged (awaitExpression dialect rules mode named) ⟨true,true,true,edges.sound⟩ := by
  unfold awaitExpression
  refine .relax ?_
  obtain ⟨a,b,c,d⟩ := edges
  cases a <;> cases b <;> cases c <;> cases d <;> rfl

instance : Edged (usingAssignment dialect rules mode) .trailing := by
  unfold usingAssignment
  exact .relax rfl

instance : Edged (unary dialect rules mode) .any := by
  unfold unary
  refine @edged_look _ _ fun text => ?_
  exact .relax rfl

instance (least : Nat) : Edged (binaryRest rules mode least) .trailing := by
  -- the operator ahead takes a character, be it a mark or a word
  have joined (written word : String) (level : Nat) (found : level? written word = some level) :
      Edged (field .operator (if word = "" then symbol written else keyword word)) .sealed := by
    split
    next none =>
      have nonempty : (written == "") = false := by
        rw [beq_eq_false_iff_ne]
        rintro rfl
        rw [none] at found
        cases found
      exact .relax (by simp [Edges.le,Edges.whole,Edges.sealed,nonempty])
    next nonempty =>
      exact .relax (by simp [Edges.le,Edges.whole,Edges.sealed,nonempty])
  unfold binaryRest
  refine @edged_look _ _ fun text => ?_
  dsimp only
  split
  · exact .relax rfl
  next level found =>
    have operator := joined _ _ level found
    exact .relax rfl

instance (least : Nat) : Limited .solid (binaryRest rules mode least) 1 where
  le {text rest shapes} ran := by
    unfold binaryRest look at ran
    dsimp only at ran
    split at ran
    · contradiction
    · split at ran
      · contradiction
      · exact Limited.le ran

instance (least : Nat) : Edged (operation dialect rules mode least) .any := by
  unfold operation
  exact .relax rfl

instance : Edged (questionMark dialect) .sealed := by
  unfold questionMark
  exact .relax rfl

instance : Edged (expression dialect rules mode) .any := by
  unfold expression
  exact .relax rfl

instance (first rest : Parser) (edges more : Edges) [Edged first edges] [Edged rest more] :
    Edged (sequence.branchSequence first rest) (edges.or (edges.seq more)) where
  fits sound before text := by
    have parts := Edges.sound_or sound
    have own := Edges.sound_seq parts.2
    apply Outcome.fits_bind
    intro shapes after ran
    have one := Edged.taken parts.1 before ran
    have single := one.weaken sound (le_or_left edges (edges.seq more))
    split
    · exact single
    next others last _ went =>
      exact ((one.append parts.2 (Edged.taken own.2 _ went)).wrap .sequence rfl).weaken sound
        (le_or_right _ _)
    · exact single
    · trivial

instance : Edged (sequence rules mode) .any := by unfold sequence; exact .relax rfl

/-! Types. -/

instance : Edged (namedType rules) .naming := by unfold namedType; exact .relax rfl

instance : Edged (typeQuery dialect rules place) .sealed := by
  unfold typeQuery
  exact .relax rfl

instance : Edged (importedType dialect rules place) .sealed := by
  unfold importedType
  exact .relax rfl

instance : Edged literalType .ragged := by unfold literalType; exact .relax rfl

instance (inferred : Bool) : Edged (selfContained rules place inferred) .any := by
  unfold selfContained
  exact .relax rfl

instance : Edged (templateLiteralType rules) .sealed := by
  unfold templateLiteralType
  exact .relax rfl

instance : Edged (tupleMember dialect rules) .any := by
  unfold tupleMember
  exact .relax rfl

instance : Edged (tupleType dialect rules) .sealed := by
  unfold tupleType
  exact .relax rfl

instance : Edged (indexedType rules) .trailing := by
  unfold indexedType
  exact .relax rfl

instance : Edged (indexSignature dialect rules) .trailing := by
  unfold indexSignature
  exact .relax rfl

instance : Edged (constructSignature dialect rules) .trailing := by
  unfold constructSignature
  exact .relax rfl

instance : Edged (memberSignature dialect rules) .ragged := by
  unfold memberSignature
  exact .relax rfl

instance : Edged (typeMember dialect rules) .ragged := by
  unfold typeMember
  exact .relax rfl

instance : Edged (typeMembers dialect rules) .sealed := by
  unfold typeMembers
  exact .relax rfl

instance : Edged (objectType dialect rules) .sealed := by
  unfold objectType
  exact .relax rfl

instance : Edged (functionType dialect rules place) .trailing := by
  unfold functionType
  exact .relax rfl

instance : Edged (constructorType dialect rules place) .trailing := by
  unfold constructorType
  exact .relax rfl

instance : Edged (leadingOperator rules place) .trailing := by
  unfold leadingOperator
  exact .relax rfl

instance (word : String) : Edged (wordType dialect rules place word) .any := by
  unfold wordType
  split <;> exact .relax rfl

instance : Edged (primaryType dialect rules place) .any := by
  unfold primaryType
  extract_lets base bracket
  have first : Edged base .any := @edged_look _ _ fun text => by split <;> exact .relax rfl
  simp only [bracket]
  exact .relax rfl

instance : Edged (typeOperand dialect rules place) .any := by
  unfold typeOperand
  refine @edged_look _ _ fun text => ?_
  dsimp only
  split
  · exact .relax rfl
  · split
    · exact .relax rfl
    · split
      · exact .relax rfl
      · split <;> exact .relax rfl

instance (kind : Kind) (written : String) (operand : Parser) (edges : Edges) [IsFalse kind.isSpecial]
    [Edged operand edges] : Edged (joined kind written operand)
      (edges.seq (((Edges.whole written).seq edges).or .sealed).many) := by
  unfold joined
  infer_instance

instance : Edged (type dialect rules place) .any := by unfold type; exact .relax rfl

/-! Members of classes. -/

instance : Edged (staticBlock dialect rules) .sealed := by
  unfold staticBlock
  exact .relax rfl

instance : Edged (plainMember dialect rules) .ragged := by
  unfold plainMember
  exact .relax rfl

instance (place : Place) : Edged (memberEnd dialect place) .sealed := by
  unfold memberEnd
  exact .relax rfl

instance : Edged (methodName rules) .ragged := by unfold methodName; exact .relax rfl

instance (decorated : Bool) : Edged (typedMethod dialect rules decorated) .sealed where
  fits _ before text := by
    apply Outcome.fits_bind
    intro shapes rest ran
    have head : Fits .trailing before text shapes rest := by
      refine Fits.weaken (Edged.taken ?_ before ran) rfl ?_ <;> rfl
    split
    · have body : Edged (field .body (rules (.block .other))) .sealed := inferInstance
      have whole := Outcome.fits_append rfl head (body.fits rfl _ rest)
      exact (Outcome.fits_wrap rfl whole).weaken rfl rfl
    · split
      · trivial
      · have last : Edged (memberEnd dialect .signature) .sealed := inferInstance
        have signature := head.wrap .methodSignature rfl
        exact (Outcome.fits_append rfl signature (last.fits rfl _ rest)).weaken rfl rfl

instance : Edged (abstractMethod dialect rules) .sealed := by
  unfold abstractMethod
  exact .relax rfl

instance : Edged (fieldModifiers dialect) .void := by
  unfold fieldModifiers
  exact .relax rfl

instance : Edged (typedField dialect rules) .ragged := by
  unfold typedField
  exact .relax rfl

omit [SingleRules rules] in
theorem fits_field {before whole text : List Char} {lead : List Shape}
    (decorators : Fits .void before whole lead text) :
    ((ended ⟨fun text => ((typedField dialect rules).run text).map fun shapes =>
        Shape.wrap .fieldDefinition (lead ++ shapes)⟩ (memberEnd dialect)).run text).Fits .sealed
      before whole := by
  have field : Outcome.Fits .ragged before whole
      (((typedField dialect rules).run text).map fun shapes =>
        Shape.wrap .fieldDefinition (lead ++ shapes)) := by
    apply Outcome.fits_map
    intro shapes rest ran
    exact (decorators.void_append rfl (Edged.taken rfl _ ran)).wrap .fieldDefinition rfl
  exact (fits_ended rfl field).weaken rfl rfl

instance : Edged (typedMember dialect rules) .sealed where
  fits _ before text := by
    apply Outcome.fits_bind
    intro lead rest ran
    have decorators : Fits .void before text lead rest :=
      (Edged.taken rfl before ran).weaken rfl rfl
    split
    next none =>
      rw [List.isEmpty_iff] at none
      subst none
      have same : rest = text := decorators.rest_eq
      subst same
      have field : Edged (ended ⟨fun text => ((typedField dialect rules).run text).map
          fun shapes => Shape.wrap .fieldDefinition ([] ++ shapes)⟩ (memberEnd dialect)) .sealed :=
        ⟨fun _ before text => fits_field dialect rules (Fits.nothing before text)⟩
      have member : Edged (indexSignature dialect rules >> memberEnd dialect .other <|>
          typedMethod dialect rules false <|> abstractMethod dialect rules <|> _) .sealed :=
        .weaken (@edged_or _ _ _ _ inferInstance (@edged_or _ _ _ _ inferInstance
          (@edged_or _ _ _ _ inferInstance field))) rfl
      exact member.fits rfl before rest
    · split
      · exact fits_field dialect rules decorators
      · have method : Edged (typedMethod dialect rules true) .sealed := inferInstance
        exact (Outcome.fits_append rfl decorators (method.fits rfl _ rest)).weaken rfl rfl

instance : Edged (classBody dialect rules) .sealed := by
  unfold classBody
  exact .relax rfl

/-! Declarations. -/

instance : Edged (declarator dialect rules) .any := by
  unfold declarator
  exact .relax rfl

instance : Edged (declarators dialect rules) .naming := by
  unfold declarators
  exact .relax rfl

instance : Edged (letKeyword dialect place) .sealed := by
  unfold letKeyword
  exact .relax rfl

end Constructs

end Grammar

end VueScope.Script
