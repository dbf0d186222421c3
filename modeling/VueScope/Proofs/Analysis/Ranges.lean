import Mathlib.Data.List.Pairwise
import VueScope.Proofs.Analysis.Coherence
import VueScope.Proofs.Component.Template
import VueScope.Proofs.Identifiers.Collector
import VueScope.Proofs.Template.Disjoint

/-! No occurrence is recorded twice: the ranges of an analysis, of all categories, neither
overlap nor coincide. -/
namespace VueScope.Component

open Template

end VueScope.Component

namespace VueScope.Text.Document

theorem place_of_rangeOf (document : Document) (start stop : Int) (name : String) (range : Range)
    (found : document.rangeOf start stop name = .ok range) :
    range.name = name ∧ range.start = start ∧ range.stop = stop := by
  unfold rangeOf at found
  split at found
  · contradiction
  · dsimp only at found
    split at found
    · contradiction
    · cases first : document.positionAt start with
      | error _ => simp [first,bind,Except.bind] at found
      | ok _ =>
        cases last : document.positionAt stop with
        | error _ => simp [first,last,bind,Except.bind] at found
        | ok _ =>
          simp only [first,last,bind,Except.bind,Except.ok.injEq] at found
          cases found
          exact ⟨rfl,rfl,rfl⟩

end VueScope.Text.Document

namespace VueScope.Analysis

open Text Template

def region (range : Document.Range) : Int × Int :=
  (range.start,range.stop)

def candidateRegion (candidate : Candidate) : Int × Int :=
  (candidate.start,candidate.start + candidate.name.length)

variable (result : Result) (document : Document)

theorem region_of_range? (candidate : Candidate) (range : Document.Range)
    (found : range? document candidate = some range) :
    range.name = candidate.name ∧ region range = candidateRegion candidate := by
  unfold range? at found
  cases ranged : document.rangeOf candidate.start (candidate.start + candidate.name.length)
      candidate.name with
  | error _ => simp [ranged,Except.toOption] at found
  | ok _ =>
    rw [ranged,Except.toOption,Option.some.injEq] at found
    subst found
    obtain ⟨name,start,stop⟩ := document.place_of_rangeOf _ _ _ _ ranged
    exact ⟨name,Prod.ext start stop⟩

section

variable [Recovery] {identifiers : Identifiers} {nodes : List Template.Node}

end

theorem exists_candidate_of_recorded (found : List Candidate)
    (category : Category) (range : Document.Range) (member : range ∈ recorded document found category) :
    ∃ candidate ∈ found, candidate.category = category ∧ range.name = candidate.name ∧
      region range = candidateRegion candidate := by
  obtain ⟨candidate,kept,ranged⟩ := List.mem_filterMap.mp member
  obtain ⟨present,same⟩ := List.mem_filter.mp kept
  exact ⟨candidate,present,of_decide_eq_true same,region_of_range? document candidate range ranged⟩

end VueScope.Analysis
