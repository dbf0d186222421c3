import VueScope.Proofs.Script.Built

/-! How many parts of a sort a parser takes. The parts of a construct keep its limits if those of the
parsers that it is made of add up to no more. -/
namespace VueScope.Script

open Shape

namespace Shape

def Uncounted (counted : Counted) (part : Shape) : Prop :=
  part.counts counted = false

theorem uncounted_of_isTrivia (counted : Counted) {part : Shape} (trivia : part.isTrivia = true) :
    part.Uncounted counted := by
  rcases (isTrivia_iff part).mp trivia with ⟨width,rfl⟩ | ⟨role,width,rfl⟩ <;> rfl

/-- The role of a part that is given one, unless it plays one already. -/
@[reducible] def assigned (role : Field) : Option Field → Option Field
  | none => some role
  | some own => some own

theorem counts_label (counted : Counted) (role : Field) (part : Shape) :
    (part.label role).counts counted = part.counts fun kind own => counted kind (assigned role own) := by
  match part with
  | blank _ => rfl
  | leaf kind none width =>
    rw [label]
    split
    next comment => simp [counts,kind?,comment]
    · rfl
  | leaf _ (some _) _ => rfl
  | node _ none _ => rfl
  | node _ (some _) _ => rfl

theorem IsSingle.countP_le {lead : List Shape} {shape : Shape} (single : IsSingle lead shape)
    (counted : Counted) : (lead ++ [shape]).countP (counts counted) ≤ 1 := by
  rw [List.countP_append,List.countP_eq_zero.mpr fun part member =>
    Bool.eq_false_iff.mp (uncounted_of_isTrivia counted (single.lead part member)),Nat.zero_add]
  exact List.countP_le_length

theorem countP_map_label (counted : Counted) (role : Field) (parts : List Shape) :
    (parts.map (label role)).countP (counts counted) =
      parts.countP (counts fun kind own => counted kind (assigned role own)) := by
  rw [List.countP_map]
  exact List.countP_congr fun part _ => by rw [Function.comp_apply,counts_label]

end Shape

variable {counted : Counted}

instance (kind : Kind) [free : IsFalse (counted kind none)] : AsksNothing (Uncounted counted) kind :=
  ⟨fun _ => rfl,fun _ => rfl,fun _ => by simp [Uncounted,counts,kind?,role?,free.eq]⟩

namespace Parser

instance (kind : Kind) (parser : Parser) [free : IsFalse (counted kind none)] :
    Gives (Uncounted counted) (node kind parser) where
  each ran := by
    obtain ⟨inner,found,rfl⟩ := Outcome.map_eq_taken_iff.mp ran
    refine List.forall_mem_append.mpr ⟨fun part member => ?_,List.forall_mem_singleton.mpr ?_⟩
    · exact uncounted_of_isTrivia counted (List.mem_takeWhile_imp member)
    · simp [Uncounted,counts,kind?,role?,free.eq]

instance (role : Field) (parser : Parser)
    [gives : Gives (Uncounted fun kind own => counted kind (assigned role own)) parser] :
    Gives (Uncounted counted) (field role parser) where
  each ran := by
    obtain ⟨inner,found,rfl⟩ := Outcome.map_eq_taken_iff.mp ran
    refine List.forall_mem_map.mpr fun part member => ?_
    rw [Uncounted,counts_label]
    exact gives.each found part member

instance (parser : {parser : Parser // Single parser}) : Single parser.val := parser.property

/-- Nothing counts in one construct if no kind does as long as no role is played. -/
instance (priority := low) (parser : Parser) [free : ∀ kind, IsFalse (counted kind none)] [Single parser] :
    Gives (Uncounted counted) parser where
  each ran := by
    obtain ⟨lead,shape,rfl,single⟩ := Single.taken ran
    refine List.forall_mem_append.mpr ⟨fun part member => ?_,List.forall_mem_singleton.mpr ?_⟩
    · exact uncounted_of_isTrivia counted (single.lead part member)
    · simp [Uncounted,counts,single.free,(free _).eq]

end Parser

/-- A parser that takes no more than some number of the parts that count. -/
class Limited (counted : Counted) (parser : Parser) (most : outParam Nat) : Prop where
  le : ∀ {text rest : List Char} {shapes : List Shape}, parser.run text = .taken shapes rest →
    shapes.countP (counts counted) ≤ most

namespace Parser

variable (first second parser : Parser) (most more : Nat)

instance (priority := 1100) [gives : Gives (Uncounted counted) parser] : Limited counted parser 0 where
  le ran := by
    rw [Nat.le_zero,List.countP_eq_zero]
    exact fun part member => Bool.eq_false_iff.mp (gives.each ran part member)

instance (priority := low) [Single parser] : Limited counted parser 1 where
  le ran := by
    obtain ⟨lead,shape,rfl,single⟩ := Single.taken ran
    exact single.countP_le counted

instance [early : Limited counted first most] [late : Limited counted second more] :
    Limited counted (first >> second) (most + more) where
  le ran := by
    obtain ⟨_,_,_,went,goes,rfl⟩ := run_seq ran
    rw [List.countP_append]
    exact Nat.add_le_add (early.le went) (late.le goes)

instance [one : Limited counted first most] [other : Limited counted second more] :
    Limited counted (first <|> second) (most + more) where
  le ran := by
    rcases run_or ran with found | found
    · exact Nat.le_add_right_of_le (one.le found)
    · exact Nat.le_add_left_of_le (other.le found)

instance [limited : Limited counted parser most] : Limited counted (required parser) most where
  le ran := limited.le (run_required ran)

instance (role : Field)
    [limited : Limited (fun kind own => counted kind (assigned role own)) parser most] :
    Limited counted (field role parser) most where
  le ran := by
    obtain ⟨inner,found,rfl⟩ := Outcome.map_eq_taken_iff.mp ran
    rw [countP_map_label]
    exact limited.le found

/-- A sum that comes to a number. -/
class Totals (sum total : Nat) : Prop where
  eq : sum = total

instance (total : Nat) : Totals total total := ⟨rfl⟩

/-- A kind that is special for its limits only. -/
class Rationed (kind : Kind) : Prop where
  plain : kind.isSpecial = !kind.limits.isEmpty

instance : Rationed .optionalChain := ⟨rfl⟩

instance : Rationed .memberExpression := ⟨rfl⟩

instance : Rationed .functionExpression := ⟨rfl⟩

instance : Rationed .arrowFunction := ⟨rfl⟩

instance : Rationed .generatorFunction := ⟨rfl⟩

instance : Rationed .unary := ⟨rfl⟩

instance : Rationed .binary := ⟨rfl⟩

instance : Rationed .templateSubstitution := ⟨rfl⟩

instance : Rationed .templateString := ⟨rfl⟩

instance : Rationed .importStatement := ⟨rfl⟩

instance : Rationed .importSpecifier := ⟨rfl⟩

class Keeps (limits : List (Counted × Nat)) (parser : Parser) : Prop where
  within : ∀ {text rest : List Char} {shapes : List Shape}, parser.run text = .taken shapes rest →
    ∀ limit ∈ limits, shapes.countP (counts limit.1) ≤ limit.2

instance : Keeps [] parser :=
  ⟨fun _ => List.forall_mem_nil _⟩

instance (limits : List (Counted × Nat)) [limited : Limited counted parser most] [total : Totals most more]
    [others : Keeps limits parser] : Keeps ((counted,more) :: limits) parser :=
  ⟨fun ran => List.forall_mem_cons.mpr ⟨(limited.le ran).trans_eq total.eq,others.within ran⟩⟩

theorem settled_of_keeps {kind : Kind} {parser : Parser} [rationed : Rationed kind]
    [keeps : Keeps kind.limits parser] {text rest : List Char} {shapes : List Shape}
    (ran : parser.run text = .taken shapes rest) : Settled kind (shapes.dropWhile isTrivia) :=
  settled_of_limits rationed.plain fun limit member =>
    ((List.dropWhile_sublist _).countP_le).trans (keeps.within ran limit member)

end Parser

end VueScope.Script
