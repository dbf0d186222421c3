import VueScope.Proofs.Script.Single

/-! What the constructs of a script are made of. A construct has a limited number of parts of a sort: an
access has one object, a function one body, and what plays no role in them is a mere token. -/
namespace VueScope.Script

/-- Constructs with a layout of their own, and kinds that only tokens have. -/
@[reducible] def Kind.isSpecial : Kind → Bool
  | .mark => true
  | .keyword => true
  | .constKeyword => true
  | .letKeyword => true
  | .varKeyword => true
  | .defaultKeyword => true
  | .typeKeyword => true
  | .comment => true
  | .identifier => true
  | .shorthandProperty => true
  | .shorthandPattern => true
  | .propertyIdentifier => true
  | .privatePropertyIdentifier => true
  | .optionalChain => true
  | .memberExpression => true
  | .functionExpression => true
  | .arrowFunction => true
  | .generatorFunction => true
  | .lexicalDeclaration => true
  | .variableDeclaration => true
  | .string => true
  | .number => true
  | .trueLiteral => true
  | .falseLiteral => true
  | .nullLiteral => true
  | .stringFragment => true
  | .escapeSequence => true
  | .unary => true
  | .binary => true
  | .templateString => true
  | .templateSubstitution => true
  | .importStatement => true
  | .importSpecifier => true
  | _ => false

@[reducible] def Kind.declaresVariables : Kind → Bool
  | .lexicalDeclaration => true
  | .variableDeclaration => true
  | _ => false

/-- The parts of a function besides its body. -/
def headRoles : List Field :=
  [.name,.typeParameters,.parameter,.parameters,.returnType]

/-- Pieces of text that have no parts. -/
@[reducible] def Kind.isAtom : Kind → Bool
  | .string => true
  | .number => true
  | .trueLiteral => true
  | .falseLiteral => true
  | .nullLiteral => true
  | .stringFragment => true
  | .escapeSequence => true
  | _ => false

/-- Parts that can be counted, by kind and role. -/
abbrev Counted := Kind → Option Field → Bool

/-- Parts that are no mere tokens. -/
@[reducible] def Counted.solid : Counted
  | .comment, _ => false
  | .mark, _ => false
  | .keyword, _ => false
  | .constKeyword, _ => false
  | .letKeyword, _ => false
  | .varKeyword, _ => false
  | .defaultKeyword, _ => false
  | .typeKeyword, _ => false
  | _, _ => true

@[reducible] def Counted.nonPiece : Counted
  | .stringFragment, _ => false
  | .escapeSequence, _ => false
  | .templateSubstitution, _ => false
  | kind, role => solid kind role

/-- Parts besides the object of an access that are more than its mark and the name of the property. -/
@[reducible] def Counted.nonAccess : Counted := fun kind role =>
  match role with
  | some .object => false
  | role =>
    match kind with
    | .optionalChain => false
    | .propertyIdentifier => false
    | .privatePropertyIdentifier => false
    | kind => solid kind role

@[reducible] def Counted.nonRole : Counted := fun kind role =>
  match role with
  | some .body => false
  | some .name => false
  | some .typeParameters => false
  | some .parameter => false
  | some .parameters => false
  | some .returnType => false
  | role => solid kind role

@[reducible] def Counted.object : Counted
  | _, some .object => true
  | _, _ => false

@[reducible] def Counted.body : Counted
  | _, some .body => true
  | _, _ => false

@[reducible] def Counted.clause : Counted
  | .importClause, _ => true
  | _, _ => false

@[reducible] def Counted.nonSource : Counted
  | .string, some .source => false
  | .string, _ => true
  | _, _ => false

/-- New names that are no identifiers. -/
@[reducible] def Counted.nonName : Counted
  | .identifier, _ => false
  | _, some .aliasName => true
  | _, _ => false

/-- How many parts of a sort a construct may have at most. -/
@[reducible] def Kind.limits : Kind → List (Counted × Nat)
  | .propertyIdentifier => [(.solid,0)]
  | .privatePropertyIdentifier => [(.solid,0)]
  | .optionalChain => [(.solid,0)]
  | .memberExpression => [(.object,1),(.nonAccess,0)]
  | .functionExpression => [(.body,1),(.nonRole,0)]
  | .arrowFunction => [(.body,1),(.nonRole,0)]
  | .generatorFunction => [(.body,1),(.nonRole,0)]
  | .unary => [(.solid,1)]
  | .binary => [(.solid,2)]
  | .templateSubstitution => [(.solid,1)]
  | .templateString => [(.nonPiece,0)]
  | .importStatement => [(.clause,1),(.nonSource,0)]
  | .importSpecifier => [(.nonName,0)]
  | _ => []

variable {kind : Kind} {shape : Shape}

namespace Shape

def counts (counted : Counted) (part : Shape) : Bool :=
  part.kind?.any fun kind => kind ≠ .comment && counted kind part.role?

/-- A construct that is named, is no token, and keeps the limits of its kind. -/
structure Composed (kind : Kind) (parts : List Shape) : Prop where
  named : kind.isNamed = true
  solid : kind ≠ .comment
  noName : kind.isName = false
  divisible : kind.isAtom = false
  limits : ∀ limit ∈ kind.limits, parts.countP (counts limit.1) ≤ limit.2

structure Settled (kind : Kind) (parts : List Shape) : Prop extends Composed kind parts where
  noDeclaration : kind.declaresVariables = false

theorem composed_of_declaresVariables (declares : kind.declaresVariables = true) (parts : List Shape) :
    Composed kind parts := by
  cases kind <;> first
    | contradiction
    | exact ⟨rfl,by decide,rfl,rfl,by simp [Kind.limits]⟩

/-- Only limits have to be kept by a construct that is not special but for having some. -/
theorem settled_of_limits {parts : List Shape} (plain : kind.isSpecial = !kind.limits.isEmpty)
    (within : ∀ limit ∈ kind.limits, parts.countP (counts limit.1) ≤ limit.2) : Settled kind parts := by
  have facts : kind.isNamed = true ∧ kind ≠ .comment ∧ kind.isName = false ∧ kind.isAtom = false ∧
      kind.declaresVariables = false := by
    revert plain
    cases kind <;> decide
  obtain ⟨named,solid,noName,divisible,noDeclaration⟩ := facts
  exact ⟨⟨named,solid,noName,divisible,within⟩,noDeclaration⟩

theorem settled_of_not_isSpecial (plain : kind.isSpecial = false) (parts : List Shape) :
    Settled kind parts := by
  have none : kind.limits = [] := by
    revert plain
    cases kind <;> simp [Kind.limits]
  exact settled_of_limits (by rw [plain,none]; rfl) (by simp [none])

/-- Every construct in the shape fits its kind, and comments play no role. -/
inductive Built : Shape → Prop
  | blank {width} : Built (blank width)
  | leaf {kind role width} (free : kind = .comment → role = none) : Built (leaf kind role width)
  | node {kind role children} (composed : Composed kind children) (below : ∀ child ∈ children, child.Built) :
      Built (node kind role children)

theorem Built.label (built : shape.Built) (role : Field) : (shape.label role).Built := by
  cases built with
  | blank => exact .blank
  | @leaf kind own width free =>
    cases own with
    | none =>
      rw [Shape.label]
      split
      · exact .leaf fun _ => rfl
      next other => exact .leaf fun same => absurd same other
    | some own => exact .leaf free
  | @node kind own children composed below =>
    cases own with
    | none => exact .node composed below
    | some own => exact .node composed below

theorem built_wrap {shapes : List Shape} (composed : Composed kind (shapes.dropWhile isTrivia))
    (built : ∀ shape ∈ shapes, shape.Built) : ∀ shape ∈ wrap kind shapes, shape.Built := by
  refine List.forall_mem_append.mpr ⟨fun shape member => ?_,List.forall_mem_singleton.mpr ?_⟩
  · exact built shape ((List.takeWhile_sublist _).subset member)
  · exact .node composed fun shape member => built shape ((List.dropWhile_sublist _).subset member)

theorem Built.role?_of_isTrivia (built : shape.Built) (trivia : shape.isTrivia = true) :
    shape.role? = none := by
  rcases (isTrivia_iff shape).mp trivia with ⟨width,rfl⟩ | ⟨role,width,rfl⟩
  · rfl
  · cases built with
    | leaf free => exact free rfl

theorem label_of_isTrivia (trivia : shape.isTrivia = true) (free : shape.role? = none) (role : Field) :
    shape.label role = shape := by
  rcases (isTrivia_iff shape).mp trivia with ⟨width,rfl⟩ | ⟨role,width,rfl⟩
  · rfl
  · cases free
    rfl

theorem IsSingle.map_label {lead : List Shape} (single : IsSingle lead shape)
    (free : ∀ part ∈ lead, part.role? = none) (role : Field) :
    (lead ++ [shape]).map (label role) = lead ++ [shape.label role] := by
  rw [List.map_append,List.map_congr_left (g := id) fun part member =>
    label_of_isTrivia (single.lead part member) (free part member) role,List.map_id]
  rfl

theorem IsSingle.roles {lead : List Shape} (single : IsSingle lead shape)
    (free : ∀ part ∈ lead, part.role? = none) (role : Field) :
    ((lead ++ [shape]).map (label role)).filterMap role? = [role] := by
  rw [single.map_label free,List.filterMap_append,List.filterMap_eq_nil_iff.mpr free,List.nil_append,
    List.filterMap_cons,role?_label_of_single role single]
  rfl

end Shape

open Shape

namespace Outcome

theorem bind_eq_taken_iff {outcome : Outcome} {next : List Shape → List Char → Outcome}
    {shapes : List Shape} {rest : List Char} :
    outcome.bind next = taken shapes rest ↔
      ∃ first middle, outcome = taken first middle ∧ next first middle = taken shapes rest := by
  cases outcome <;> simp [bind,and_assoc]

theorem map_eq_taken_iff {outcome : Outcome} {change : List Shape → List Shape}
    {shapes : List Shape} {rest : List Char} :
    outcome.map change = taken shapes rest ↔
      ∃ first, outcome = taken first rest ∧ change first = shapes := by
  cases outcome <;> simp [map,and_assoc,and_comm]

end Outcome

namespace Parser

variable {first second parser : Parser} {text rest : List Char} {shapes : List Shape}

theorem run_seq (ran : (first >> second).run text = .taken shapes rest) :
    ∃ early middle late, first.run text = .taken early middle ∧
      second.run middle = .taken late rest ∧ shapes = early ++ late := by
  obtain ⟨early,middle,went,ran⟩ := Outcome.bind_eq_taken_iff.mp ran
  obtain ⟨late,goes,rfl⟩ := Outcome.map_eq_taken_iff.mp ran
  exact ⟨early,middle,late,went,goes,rfl⟩

theorem run_seq_of_taken {middle : List Char} {late : List Shape}
    (went : first.run text = .taken shapes middle) (goes : second.run middle = .taken late rest) :
    (first >> second).run text = .taken (shapes ++ late) rest :=
  Outcome.bind_eq_taken_iff.mpr ⟨shapes,middle,went,Outcome.map_eq_taken_iff.mpr ⟨late,goes,rfl⟩⟩

theorem run_or (ran : (first <|> second).run text = .taken shapes rest) :
    first.run text = .taken shapes rest ∨ second.run text = .taken shapes rest := by
  change (Parser.or first fun _ => second).run text = .taken shapes rest at ran
  unfold Parser.or at ran
  dsimp only at ran
  split at ran
  · exact .inr ran
  · exact .inl ran

theorem run_maybe (ran : (Parser.maybe parser).run text = .taken shapes rest) :
    parser.run text = .taken shapes rest ∨ shapes = [] ∧ rest = text := by
  rcases run_or ran with found | none
  · exact .inl found
  · cases none
    exact .inr ⟨rfl,rfl⟩

theorem run_required (ran : (required parser).run text = .taken shapes rest) :
    parser.run text = .taken shapes rest := by
  unfold required at ran
  dsimp only at ran
  split at ran
  · contradiction
  · exact ran

theorem run_check {test : List Char → Bool} (ran : (Parser.check test).run text = .taken shapes rest) :
    shapes = [] ∧ rest = text := by
  unfold Parser.check at ran
  dsimp only at ran
  split at ran
  · cases ran
    exact ⟨rfl,rfl⟩
  · contradiction

theorem run_when {condition : Bool} (ran : (when condition parser).run text = .taken shapes rest) :
    parser.run text = .taken shapes rest := by
  unfold when at ran
  split at ran
  · exact ran
  · contradiction

end Parser

/-- A parser of which every shape that it takes is as asked for. -/
class Gives (asked : Shape → Prop) (parser : Parser) : Prop where
  each : ∀ {text rest : List Char} {shapes : List Shape}, parser.run text = .taken shapes rest →
    ∀ shape ∈ shapes, asked shape

/-- White space, comments and tokens of a kind are as asked for. -/
class AsksNothing (asked : Shape → Prop) (kind : Kind) : Prop where
  blank : ∀ width, asked (.blank width)
  comment : ∀ width, asked (.leaf .comment none width)
  leaf : ∀ width, asked (.leaf kind none width)

namespace Parser

section Combinators

variable (asked : Shape → Prop)

instance : Gives asked done where
  each ran := by
    cases ran
    exact List.forall_mem_nil _

instance : Gives asked fail where
  each ran := by contradiction

instance (first second : Parser) [early : Gives asked first] [late : Gives asked second] :
    Gives asked (first >> second) where
  each ran := by
    obtain ⟨_,_,_,went,goes,rfl⟩ := run_seq ran
    exact List.forall_mem_append.mpr ⟨early.each went,late.each goes⟩

instance gives_or (first second : Parser) [one : Gives asked first] [other : Gives asked second] :
    Gives asked (first <|> second) where
  each ran := by
    rcases run_or ran with found | found
    · exact one.each found
    · exact other.each found

instance (parser : Parser) [Gives asked parser] : Gives asked (Parser.maybe parser) := by
  unfold Parser.maybe
  infer_instance

instance (parser : Parser) [gives : Gives asked parser] : Gives asked (required parser) where
  each ran := gives.each (run_required ran)

instance (condition : Bool) (parser : Parser) [gives : Gives asked parser] :
    Gives asked (when condition parser) where
  each ran := gives.each (run_when ran)

instance (condition : Prop) [Decidable condition] (first second : Parser) [Gives asked first]
    [Gives asked second] : Gives asked (if condition then first else second) := by
  split <;> infer_instance

theorem gives_many {parser : Parser} [gives : Gives asked parser] (fuel : Nat) {text rest : List Char}
    {shapes : List Shape} (ran : many.loop parser fuel text = .taken shapes rest) :
    ∀ shape ∈ shapes, asked shape := by
  induction fuel generalizing text shapes with
  | zero =>
    cases ran
    exact List.forall_mem_nil _
  | succ fuel ih =>
    rw [many.loop] at ran
    split at ran
    · contradiction
    · cases ran
      exact List.forall_mem_nil _
    next found =>
      split at ran
      · obtain ⟨more,goes,rfl⟩ := Outcome.map_eq_taken_iff.mp ran
        exact List.forall_mem_append.mpr ⟨gives.each found,ih goes⟩
      · cases ran
        exact List.forall_mem_nil _

instance (parser : Parser) [Gives asked parser] : Gives asked (many parser) :=
  ⟨fun ran => gives_many asked _ ran⟩

instance (test : List Char → Bool) : Gives asked (Parser.check test) where
  each ran := by
    obtain ⟨rfl,_⟩ := run_check ran
    exact List.forall_mem_nil _

theorem gives_trivia (kind : Kind) [nothing : AsksNothing asked kind] (fuel : Nat) (text : List Char) :
    ∀ shape ∈ (trivia.loop fuel text).1, asked shape := by
  induction fuel generalizing text with
  | zero => exact List.forall_mem_nil _
  | succ fuel ih =>
    cases text with
    | nil => exact List.forall_mem_nil _
    | cons c rest =>
      simp only [trivia.loop]
      split
      · exact List.forall_mem_cons.mpr ⟨nothing.blank _,ih _⟩
      · split
        · exact List.forall_mem_nil _
        · exact List.forall_mem_cons.mpr ⟨nothing.comment _,ih _⟩

instance (kind : Kind) (width? : List Char → Option Nat) [nothing : AsksNothing asked kind] :
    Gives asked (token kind width?) where
  each ran := by
    simp only [token] at ran
    split at ran
    · contradiction
    · cases ran
      exact List.forall_mem_append.mpr
        ⟨gives_trivia asked kind _ _,List.forall_mem_singleton.mpr (nothing.leaf _)⟩

instance (kind : Kind) (width? : List Char → Option Nat) [nothing : AsksNothing asked kind] :
    Gives asked (immediate kind width?) where
  each ran := by
    simp only [immediate] at ran
    split at ran
    · contradiction
    · cases ran
      exact List.forall_mem_singleton.mpr (nothing.leaf _)

instance (written : String) [AsksNothing asked .mark] : Gives asked (mark written) := by
  unfold mark
  infer_instance

instance [AsksNothing asked .string] : Gives asked Parser.string := by
  unfold Parser.string
  infer_instance

instance [AsksNothing asked .mark] : Gives asked closeBrace := by
  unfold closeBrace
  infer_instance

instance (written : String) [AsksNothing asked .mark] : Gives asked (Parser.symbol written) := by
  unfold Parser.symbol
  infer_instance

instance (kind : Kind) (written : String) [AsksNothing asked kind] :
    Gives asked (keywordAs kind written) := by
  unfold keywordAs
  infer_instance

instance (written : String) [AsksNothing asked .keyword] : Gives asked (keyword written) := by
  unfold keyword
  infer_instance

instance (kind : Kind) (test : String → Bool) [AsksNothing asked kind] : Gives asked (name kind test) := by
  unfold name
  infer_instance

variable (dialect : Dialect) (place : Semicolon.Place)

theorem gives_lineEnd [nothing : AsksNothing asked .mark]
    (fuel : Nat) (before : List Shape) {text rest : List Char} {shapes : List Shape}
    (given : ∀ shape ∈ before, asked shape)
    (ran : lineEnd.loop dialect place fuel before text = .taken shapes rest) :
    ∀ shape ∈ shapes, asked shape := by
  induction fuel generalizing text before with
  | zero =>
    rw [lineEnd.loop] at ran
    split at ran
    · cases ran
      exact given
    · contradiction
  | succ fuel ih =>
    rw [lineEnd.loop] at ran
    split at ran
    · cases ran
      exact given
    · dsimp only at ran
      split at ran
      · contradiction
      · refine ih _ ?_ ran
        refine List.forall_mem_append.mpr ⟨List.forall_mem_append.mpr ⟨given,?_⟩,
          List.forall_mem_singleton.mpr (nothing.comment _)⟩
        split
        · exact List.forall_mem_nil _
        · exact List.forall_mem_singleton.mpr (nothing.blank _)

instance [AsksNothing asked .mark] :
    Gives asked (lineEnd dialect place) where
  each ran := gives_lineEnd asked dialect place _ [] (List.forall_mem_nil _) ran

instance [AsksNothing asked .mark] :
    Gives asked (semicolon dialect place) := by
  unfold semicolon
  infer_instance

instance (place : Option Semicolon.Place) : Gives asked (goesOn dialect place) := by
  unfold goesOn
  infer_instance

end Combinators

end Parser

end VueScope.Script
