import VueScope.Proofs.Script.Coverage
import VueScope.Script.Parse

/-! Parsers that take one construct, with white space and comments in front of it. An expression is
one, and so is what a declaration binds. -/
namespace VueScope.Script

variable (kind : Kind) (parser : Parser)

namespace Shape

def role? : Shape → Option Field
  | blank _ => none
  | leaf _ role _ => role
  | node _ role _ => role

/-- One construct behind white space and comments. It plays no part yet. -/
structure IsSingle (lead : List Shape) (shape : Shape) : Prop where
  lead : ∀ trivia ∈ lead, trivia.isTrivia = true
  solid : shape.isTrivia = false
  free : shape.role? = none

theorem isSingle_wrap (shapes : List Shape) :
    IsSingle (shapes.takeWhile isTrivia) (node kind none (shapes.dropWhile isTrivia)) :=
  ⟨fun _ member => List.mem_takeWhile_imp member,rfl,rfl⟩

theorem isTrivia_iff (shape : Shape) :
    shape.isTrivia = true ↔
      (∃ width, shape = blank width) ∨ ∃ role width, shape = leaf .comment role width := by
  cases shape with
  | blank => simp [isTrivia]
  | leaf kind => cases kind <;> simp [isTrivia]
  | node => simp [isTrivia]

theorem role?_label_of_single {lead : List Shape} {shape : Shape} (role : Field)
    (single : IsSingle lead shape) : (shape.label role).role? = some role := by
  have free := single.free
  cases shape with
  | blank width => exact absurd single.solid nofun
  | leaf kind own width =>
    have other : kind ≠ .comment := by
      rintro rfl
      exact absurd single.solid nofun
    cases free
    rw [label,if_neg other]
    rfl
  | node kind own parts =>
    cases free
    rfl

end Shape

def Outcome.Single : Outcome → Prop
  | taken shapes _ => ∃ lead shape, shapes = lead ++ [shape] ∧ Shape.IsSingle lead shape
  | absent => True
  | broken => True

/-- A parser that takes one construct. -/
class Single (parser : Parser) : Prop where
  single : ∀ text, (parser.run text).Single

namespace Outcome

theorem single_bind {outcome : Outcome} {next : List Shape → List Char → Outcome}
    (continued : ∀ shapes rest, outcome = taken shapes rest → (next shapes rest).Single) :
    (outcome.bind next).Single := by
  cases outcome with
  | taken shapes rest => exact continued shapes rest rfl
  | absent => trivial
  | broken => trivial

theorem single_map_wrap (change : List Shape → List Shape) (outcome : Outcome) :
    (outcome.map fun shapes => Shape.wrap kind (change shapes)).Single := by
  cases outcome with
  | taken shapes rest => exact ⟨_,_,rfl,Shape.isSingle_wrap kind (change shapes)⟩
  | absent => trivial
  | broken => trivial

end Outcome

theorem Single.taken {parser : Parser} [single : Single parser] {text rest : List Char}
    {shapes : List Shape} (ran : parser.run text = .taken shapes rest) :
    ∃ lead shape, shapes = lead ++ [shape] ∧ Shape.IsSingle lead shape := by
  have found := single.single text
  rwa [ran] at found

namespace Parser

theorem isTrivia_of_trivia (fuel : Nat) (text : List Char) :
    ∀ shape ∈ (trivia.loop fuel text).1, shape.isTrivia = true := by
  induction fuel generalizing text with
  | zero => simp [trivia.loop]
  | succ fuel ih =>
    cases text with
    | nil => simp [trivia.loop]
    | cons c rest =>
      simp only [trivia.loop]
      split
      · simpa [Shape.isTrivia] using ih _
      · split
        · simp
        · simpa [Shape.isTrivia] using ih _

instance : Single fail := ⟨fun _ => trivial⟩

instance : Single (node kind parser) :=
  ⟨fun text => Outcome.single_map_wrap kind id (parser.run text)⟩

instance (first : Parser) (choose : List Char → Kind × Parser) : Single (branch first choose) where
  single _ := by
    apply Outcome.single_bind
    intro shapes rest _
    exact Outcome.single_map_wrap _ _ _

theorem single_leaf [solid : IsFalse kind.isComment] (text rest : List Char) (width : Nat) :
    (Outcome.taken ((trivia text).1 ++ [.leaf kind none width]) rest).Single := by
  refine ⟨_,_,rfl,isTrivia_of_trivia _ _,?_,rfl⟩
  have other := solid.eq
  cases kind <;> first | rfl | contradiction

instance [IsFalse kind.isComment] (width? : List Char → Option Nat) :
    Single (token kind width?) where
  single text := by
    simp only [token]
    split
    · trivial
    · exact single_leaf kind text _ _

instance : Single string := by unfold string; infer_instance

instance (written : String) : Single (symbol written) := by
  unfold symbol
  infer_instance

instance [IsFalse kind.isComment] (written : String) : Single (keywordAs kind written) := by
  unfold keywordAs
  infer_instance

instance [IsFalse kind.isComment] (test : String → Bool) : Single (name kind test) := by
  unfold name
  infer_instance

instance (first second : Parser) [before : Single first] [after : Single second] :
    Single (first <|> second) where
  single text := by
    change ((Parser.or first fun _ => second).run text).Single
    unfold Parser.or
    dsimp only
    split
    · exact after.single text
    · exact before.single text

instance [single : Single parser] : Single (required parser) where
  single text := by
    unfold required
    dsimp only
    split
    · trivial
    · exact single.single text

instance [single : Single parser] : Single (trial parser) where
  single text := by
    unfold trial
    dsimp only
    split
    · trivial
    · exact single.single text

instance single_look (choose : List Char → Parser) [single : ∀ text, Single (choose text)] :
    Single (look choose) :=
  ⟨fun text => (single text).single text⟩

instance (condition : Prop) [Decidable condition] (first second : Parser) [Single first]
    [Single second] : Single (if condition then first else second) := by
  split <;> infer_instance

instance (condition : Bool) (parser : Parser) [Single parser] : Single (when condition parser) := by
  unfold when
  infer_instance

/-- A look at what follows takes nothing more. -/
instance (test : List Char → Bool) [Single parser] :
    Single (parser >> check test) where
  single text := by
    apply Outcome.single_bind
    intro shapes rest ran
    unfold check
    dsimp only
    split
    · rw [Outcome.map,List.append_nil]
      exact Single.taken ran
    · trivial

theorem single_apply (shapes : List Shape) (rest : List Char) (wraps : List Wrap) :
    (chain.apply shapes rest wraps).Single := by
  induction wraps with
  | nil => trivial
  | cons wrap others ih =>
    rw [chain.apply]
    split
    · split
      · exact ih
      · trivial
      · exact ⟨_,_,rfl,Shape.isSingle_wrap _ _⟩
    · exact ih

theorem single_grow (wraps : List Wrap) (fuel : Nat) (shapes : List Shape) (rest : List Char)
    (single : (Outcome.taken shapes rest).Single) : (chain.grow wraps fuel shapes rest).Single := by
  induction fuel generalizing shapes rest with
  | zero => exact single
  | succ fuel ih =>
    have applied := single_apply shapes rest wraps
    rw [chain.grow]
    split
    · exact single
    · trivial
    next found last ran =>
      rw [ran] at applied
      split
      · exact ih found last applied
      · exact single

instance (first : Parser) (wraps : List Wrap) [Single first] : Single (chain first wraps) where
  single text := by
    apply Outcome.single_bind
    intro shapes rest ran
    exact single_grow wraps _ shapes rest (Single.taken ran)

end Parser

namespace Grammar

open VueScope.Script.Parser

variable (dialect : Dialect) (rules : Rules) (mode : Mode)

instance : Single (identifier dialect) := by unfold identifier; infer_instance

instance : Single (reference dialect) := by unfold reference; infer_instance

instance : Single (boundName dialect) := by unfold boundName; infer_instance

instance : Single privateName := by unfold privateName; infer_instance

instance : Single number := by unfold number; infer_instance

instance (place : Option Semicolon.Place) : Single (ascription dialect rules place) := by
  unfold ascription
  infer_instance

instance : Single (destructuring dialect rules) := by unfold destructuring; infer_instance

instance : Single (object dialect rules) := by unfold object; infer_instance

instance : Single (element dialect rules) := by unfold element; infer_instance

/-- Parsers for constructs of which accesses, operators and functions take one each. -/
class SingleRules (rules : Rules) : Prop where
  object : Single (rules .object)
  element : Single (rules .element)
  parameters : Single (rules .parameters)
  destructuring : Single (rules .destructuring)
  block : ∀ place, Single (rules (.block place))
  construction : ∀ mode, Single (rules (.construction mode))
  unary : ∀ mode, Single (rules (.unary mode))
  operation : ∀ mode level, Single (rules (.operation mode level))
  expression : ∀ mode, Single (rules (.expression mode))
  sequence : ∀ mode, Single (rules (.sequence mode))

attribute [instance] SingleRules.object SingleRules.element SingleRules.parameters
  SingleRules.destructuring SingleRules.block SingleRules.construction SingleRules.unary
  SingleRules.operation SingleRules.expression SingleRules.sequence

/-! Expressions, down to operands that no operator joins. -/

instance : Single (arrow dialect rules mode) := by
  unfold arrow bareArrow signedArrow
  infer_instance

instance : Single importExpression := by unfold importExpression; infer_instance

instance (literal : Parser) [single : Single literal] : Single (bracketed rules mode literal) where
  single text := by
    unfold bracketed
    dsimp only
    split
    · trivial
    · exact Outcome.single_map_wrap _ id _
    next shapes rest ran =>
      split
      · split
        · exact Single.taken ran
        · exact Outcome.single_map_wrap _ id _
      · exact Single.taken ran

instance (word : String) : Single (wordExpression dialect rules mode word) := by
  unfold wordExpression functionExpression classExpression internalModule
  split <;> infer_instance

variable [SingleRules rules]

instance : Single (simplePrimary dialect rules mode) := by
  unfold simplePrimary parenthesized array templateString classExpression
  refine @single_look _ fun text => ?_
  split <;> infer_instance

instance : Single (compound dialect rules mode) := by unfold compound; infer_instance

instance : Single (primary dialect rules mode) := by
  unfold primary construction
  infer_instance

instance : Single (angled dialect rules mode) := by unfold angled; infer_instance

instance (named : Parser) [Single named] : Single (awaitExpression dialect rules mode named) := by
  unfold awaitExpression
  dsimp only
  split
  · infer_instance
  · refine @single_look _ fun text => ?_
    split
    · infer_instance
    split
    · constructor
      intro text
      dsimp only
      split
      next shapes rest ran =>
        split
        · exact Single.taken ran
        · split
          next others last went => exact Single.taken went
          · exact Single.taken ran
      · exact Outcome.single_map_wrap _ id _
    split <;> infer_instance

instance : Single (yieldExpression dialect rules mode) := by unfold yieldExpression; infer_instance

instance : Single (unary dialect rules mode) := by
  unfold unary usingAssignment
  infer_instance

instance (first rest : Parser) [Single first] : Single (sequence.branchSequence first rest) where
  single text := by
    apply Outcome.single_bind
    intro shapes after ran
    split
    · exact Single.taken ran
    · exact ⟨_,_,rfl,Shape.isSingle_wrap _ _⟩
    · exact Single.taken ran
    · trivial

instance : Single (binder dialect rules) := by unfold binder; infer_instance

/-! The grammar, unfolded to any depth. -/

instance : SingleRules (body dialect rules) where
  object := inferInstanceAs (Single (object dialect rules))
  element := inferInstanceAs (Single (element dialect rules))
  parameters := by unfold body parameters; infer_instance
  destructuring := inferInstanceAs (Single (destructuring dialect rules))
  block _ := by unfold body block; infer_instance
  construction _ := by unfold body construction; infer_instance
  unary mode := inferInstanceAs (Single (unary dialect rules mode))
  operation _ _ := by unfold body operation; infer_instance
  expression _ := by unfold body expression; infer_instance
  sequence _ := by unfold body sequence; infer_instance

instance (depth : Nat) : SingleRules (Grammar.rules dialect depth) := by
  induction depth with
  | zero => constructor <;> intros <;> exact inferInstanceAs (Single fail)
  | succ depth ih => exact inferInstanceAs (SingleRules (body dialect (Grammar.rules dialect depth)))

end Grammar

end VueScope.Script
