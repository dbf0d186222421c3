import VueScope.Proofs.Analysis.LiveText
import VueScope.Proofs.Script.Parts

/-! Marking a template in a text that it was not read from. What is tried depends on the template
alone. What the text does not hold is left out, and nothing else is. -/
namespace VueScope.Text.Document

/-- A document has a name written at an offset. -/
structure Holds (document : Document) (name : String) (start : Int) : Prop where
  atLeast : 0 ≤ start
  atMost : start + name.length ≤ document.length
  written : (document.text.drop start.toNat).take name.length = name.toList

/-- A range of a name at an offset, with the positions that the document has there. -/
structure Places (document : Document) (name : String) (start : Int) (range : Range) : Prop where
  named : range.name = name
  starts : range.start = start
  stops : range.stop = start + name.length
  first : document.positionAt start = .ok range.startPosition
  last : document.positionAt (start + name.length) = .ok range.stopPosition

instance (document : Document) (name : String) (start : Int) : Decidable (document.Holds name start) :=
  decidable_of_iff
    (0 ≤ start ∧ start + name.length ≤ document.length ∧
      (document.text.drop start.toNat).take name.length = name.toList)
    ⟨fun held => ⟨held.1,held.2.1,held.2.2⟩,fun held => ⟨held.atLeast,held.atMost,held.written⟩⟩

theorem rangeOf_eq_ok_iff (document : Document) (name : String) (start : Int) (range : Range) :
    document.rangeOf start (start + name.length) name = .ok range ↔
      document.Holds name start ∧ document.Places name start range := by
  have width : (start + name.length - start).toNat = name.length := by omega
  rw [rangeOf,width]
  split
  next outside =>
    constructor
    · intro made
      contradiction
    · intro found
      have atLeast := found.1.atLeast
      have atMost := found.1.atMost
      simp only [Bool.or_eq_true,decide_eq_true_eq] at outside
      omega
  next inside =>
    simp only [Bool.or_eq_true,decide_eq_true_eq,not_or,Int.not_lt] at inside
    obtain ⟨⟨atLeast,atMost⟩,ordered⟩ := inside
    obtain ⟨first,started⟩ := document.positionAt_of_inside start atLeast (by omega)
    obtain ⟨last,stopped⟩ := document.positionAt_of_inside (start + name.length) (by omega) atMost
    dsimp only
    split
    next different =>
      constructor
      · intro made
        contradiction
      · intro found
        exact absurd found.1.written different
    next same =>
      rw [not_not] at same
      rw [started,stopped]
      constructor
      · intro made
        cases made
        exact ⟨⟨atLeast,atMost,same⟩,rfl,rfl,rfl,started,stopped⟩
      · rintro ⟨_,rfl,rfl,stops,begins,ends⟩
        cases started.symm.trans begins
        cases stopped.symm.trans ends
        rw [← stops]
        rfl

end VueScope.Text.Document

namespace VueScope.Analysis

open Text Template

variable (document : Document) (category : Category) (candidate : Candidate)

theorem range?_eq_some_iff (range : Document.Range) :
    range? document candidate = some range ↔
      document.Holds candidate.name candidate.start ∧
        document.Places candidate.name candidate.start range := by
  rw [← Document.rangeOf_eq_ok_iff,range?]
  cases document.rangeOf candidate.start (candidate.start + candidate.name.length) candidate.name with
  | error _ => simp [Except.toOption]
  | ok _ => simp [Except.toOption]

theorem range?_eq_none_iff :
    range? document candidate = none ↔ ¬document.Holds candidate.name candidate.start := by
  constructor
  · intro none holds
    obtain ⟨first,started⟩ := document.positionAt_of_inside candidate.start holds.atLeast (by
      have atMost := holds.atMost
      omega)
    obtain ⟨last,stopped⟩ := document.positionAt_of_inside (candidate.start + candidate.name.length)
      (by have atLeast := holds.atLeast; omega) holds.atMost
    have found := (range?_eq_some_iff document candidate ⟨_,_,_,first,last⟩).mpr
      ⟨holds,rfl,rfl,rfl,started,stopped⟩
    exact absurd (none.symm.trans found) nofun
  · intro missing
    cases found : range? document candidate with
    | none => rfl
    | some range => exact absurd ((range?_eq_some_iff document candidate range).mp found).1 missing

def held (tried : List Candidate) : List Candidate :=
  tried.filter fun candidate =>
    candidate.category = category ∧ document.Holds candidate.name candidate.start

theorem held_cons
    (rest : List Candidate) :
    held document category (candidate :: rest) =
      if candidate.category = category ∧ document.Holds candidate.name candidate.start then
        candidate :: held document category rest
      else held document category rest := by
  rw [held,List.filter_cons]
  simp only [decide_eq_true_eq]
  rfl

theorem recorded_cons (rest : List Candidate)
    (category : Category) :
    recorded document (candidate :: rest) category =
      (if candidate.category = category then (range? document candidate).toList else []) ++
        recorded document rest category := by
  unfold recorded
  rw [List.filter_cons]
  by_cases same : candidate.category = category
  · simp only [same,decide_true,if_true,List.filterMap_cons]
    cases range? document candidate <;> rfl
  · simp [same]

theorem recorded_append (first second : List Candidate) (category : Category) :
    recorded document (first ++ second) category =
      recorded document first category ++ recorded document second category := by
  unfold recorded
  rw [List.filter_append,List.filterMap_append]

theorem forall₂_recorded (tried : List Candidate) :
    List.Forall₂ (fun candidate range => document.Places candidate.name candidate.start range)
      (held document category tried) (recorded document tried category) := by
  induction tried with
  | nil => exact .nil
  | cons candidate rest ih =>
    rw [recorded_cons,held_cons]
    by_cases same : candidate.category = category
    · rw [if_pos same]
      cases found : range? document candidate with
      | none =>
        have missing := (range?_eq_none_iff document candidate).mp found
        rw [if_neg fun both => missing both.2]
        exact ih
      | some range =>
        obtain ⟨holds,places⟩ := (range?_eq_some_iff document candidate range).mp found
        rw [if_pos ⟨same,holds⟩]
        exact .cons places ih
    · rw [if_neg same,if_neg fun both => same both.1]
      exact ih

/-- Of the ranges in one document, those whose names another one holds at the same offsets. -/
def shared (other : Document) (ranges : List Document.Range) : List (String × Int) :=
  (ranges.filter fun range => other.Holds range.name range.start).map fun range =>
    (range.name,range.start)

theorem shared_recorded (document other : Document) (category : Category) (tried : List Candidate) :
    shared other (recorded document tried category) =
      ((held document category tried).filter fun candidate =>
        other.Holds candidate.name candidate.start).map fun candidate =>
          (candidate.name,candidate.start) := by
  have placed := forall₂_recorded document category tried
  refine Script.map_eq_of_forall₂ ?_ (List.rel_filter ?_ placed)
  · intro candidate range placed
    rw [placed.named,placed.starts]
  · intro candidate range placed
    beta_reduce
    rw [placed.named,placed.starts]

theorem shared_comm (document other : Document) (category : Category) (tried : List Candidate) :
    shared other (recorded document tried category) =
      shared document (recorded other tried category) := by
  rw [shared_recorded,shared_recorded,held,held,List.filter_filter,List.filter_filter]
  refine congrArg (List.map _) (List.filter_congr fun candidate _ => ?_)
  rw [← Bool.decide_and,← Bool.decide_and,decide_eq_decide]
  tauto

theorem recorded_of_mismatch (before after : List Candidate)
    {mismatch : Candidate} (missing : ¬document.Holds mismatch.name mismatch.start) :
    recorded document (before ++ mismatch :: after) category =
      recorded document (before ++ after) category := by
  rw [recorded_append,recorded_append,recorded_cons,(range?_eq_none_iff document mismatch).mpr missing]
  simp

/-- What a template makes to be tried is one list for all documents. A document records of it, in
order, what it holds, with its own positions. Two documents agree on what they both hold, and a name
that is not there has no part in what is recorded of the others. -/
theorem drift_drops_only_mismatches [Recovery] (nodes : List Node) (identifiers : Identifiers)
    (category : Category) :
    let tried := candidates identifiers nodes
    let ranges := fun document => (markTemplate (some nodes) identifiers document).ranges category
    (∀ document, List.Forall₂
      (fun candidate range => document.Places candidate.name candidate.start range)
      (held document category tried) (ranges document)) ∧
    (∀ document other, shared other (ranges document) = shared document (ranges other)) ∧
    ∀ document before mismatch after, tried = before ++ mismatch :: after →
      ¬document.Holds mismatch.name mismatch.start →
      ranges document = recorded document (before ++ after) category := by
  intro tried ranges
  refine ⟨fun document => forall₂_recorded document category tried,
    fun document other => shared_comm document other category tried,?_⟩
  intro document before mismatch after split missing
  change recorded document tried category = _
  rw [split]
  exact recorded_of_mismatch document category before after missing

example :
    (recorded ⟨"",0,"b + c".toList⟩ [⟨"a",0,.ref⟩,⟨"c",4,.ref⟩,⟨"c",-1,.ref⟩,⟨"c",5,.ref⟩] .ref).map
      (fun range => range.start) = [4] := by
  decide

end VueScope.Analysis
