import VueScope.Proofs.Markup.Layout
import VueScope.Proofs.Template.Anchored
import VueScope.Proofs.Template.Reference
import VueScope.Proofs.Template.Scope

/-! No part of a template is searched twice. The expressions that are searched take up regions
of the file that lie apart, and so do the names found in each of them. -/
namespace VueScope.Text

theorem slice_stop_le (text : List Char) (start stop : Nat) (ordered : start ≤ stop) :
    start + (slice text start stop).length ≤ stop := by
  unfold slice
  rw [List.length_take]
  omega

end VueScope.Text

namespace VueScope.Template

open Text

def Apart (first second : Int × Int) : Prop :=
  first.2 ≤ second.1 ∨ second.2 ≤ first.1

theorem Apart.symm {first second : Int × Int} (apart : Apart first second) : Apart second first :=
  Or.symm apart

/-- Regions between two offsets that lie apart. -/
structure Spread (lower upper : Int) (regions : List (Int × Int)) : Prop where
  ordered : lower ≤ upper
  inside : ∀ region ∈ regions, lower ≤ region.1 ∧ region.2 ≤ upper
  apart : regions.Pairwise Apart

namespace Spread

variable {lower middle upper : Int} {first second : List (Int × Int)}

theorem nil (ordered : lower ≤ upper) : Spread lower upper [] :=
  ⟨ordered,by simp,.nil⟩

theorem singleton (region : Int × Int) (ordered : lower ≤ upper) (start : lower ≤ region.1)
    (stop : region.2 ≤ upper) : Spread lower upper [region] :=
  ⟨ordered,by simp [start,stop],List.pairwise_singleton _ _⟩

theorem append (before : Spread lower middle first) (after : Spread middle upper second) :
    Spread lower upper (first ++ second) := by
  refine ⟨Int.le_trans before.ordered after.ordered,?_,?_⟩
  · intro region member
    rcases List.mem_append.mp member with early | late
    · have bounds := before.inside region early
      exact ⟨bounds.1,Int.le_trans bounds.2 after.ordered⟩
    · have bounds := after.inside region late
      exact ⟨Int.le_trans before.ordered bounds.1,bounds.2⟩
  · refine List.pairwise_append.mpr ⟨before.apart,after.apart,?_⟩
    intro early here late there
    exact .inl (Int.le_trans (before.inside early here).2 (after.inside late there).1)

theorem widen {left right : Int} (spread : Spread lower upper first) (before : left ≤ lower)
    (after : upper ≤ right) : Spread left right first := by
  refine ⟨Int.le_trans before (Int.le_trans spread.ordered after),?_,spread.apart⟩
  intro region member
  have bounds := spread.inside region member
  exact ⟨Int.le_trans before bounds.1,Int.le_trans bounds.2 after⟩

end Spread

def Expression.region (expression : Expression) : Int × Int :=
  (expression.offset,expression.stop)

/-- A directive between two offsets: its argument stands before its value, and the source of
its loop in the value. -/
structure Directive.Between (lower upper : Int) (directive : Directive) (middle : Int) : Prop where
  before : lower ≤ middle
  after : middle ≤ upper
  argument : ∀ argument, directive.argument = some argument →
    lower ≤ argument.offset ∧ argument.stop ≤ middle
  expression : ∀ expression, directive.expression = some expression →
    middle ≤ expression.offset ∧ expression.stop ≤ upper
  source : ∀ loop, directive.loop = some loop →
    directive.name = "for".toList ∧ middle ≤ loop.source.offset ∧ loop.source.stop ≤ upper

def DirectivesBetween (lower upper : Int) : List Directive → Prop
  | [] => lower ≤ upper
  | directive :: rest =>
    ∃ middle stop, directive.Between lower stop middle ∧ DirectivesBetween stop upper rest

theorem DirectivesBetween.from_le {lower middle upper : Int} {written : List Directive}
    (between : DirectivesBetween middle upper written) (ordered : lower ≤ middle) :
    DirectivesBetween lower upper written := by
  cases written with
  | nil => exact Int.le_trans ordered between
  | cons directive rest =>
    obtain ⟨split,stop,first,later⟩ := between
    refine ⟨split,stop,⟨Int.le_trans ordered first.before,first.after,?_,first.expression,first.source⟩,
      later⟩
    intro argument found
    have bounds := first.argument argument found
    exact ⟨Int.le_trans ordered bounds.1,bounds.2⟩

variable {directive : Directive}

section

variable {lower middle upper : Int} (between : directive.Between lower upper middle)
include between

end

variable (text : List Char) (span : Markup.Span) (scope : List String)

theorem sliceBytes_between (ordered : span.start ≤ span.stop) :
    charOffset text span.start + (sliceBytes text span).1.length ≤ charOffset text span.stop :=
  slice_stop_le text _ _ (charOffset_mono text ordered)

theorem contentSpan_eq (tag : Markup.StartTag) (endTag : Option Markup.Span)
    (ordered : tag.span.stop ≤ Markup.contentStop span endTag) :
    contentSpan span tag endTag = ⟨tag.span.stop,Markup.contentStop span endTag⟩ := by
  cases endTag with
  | none
  | some close => exact congrArg _ (Nat.max_eq_right ordered)

variable [Recovery]

variable {content : List Char} {part : Scanned} {occurrence : Occurrence} {nodes : List Node}

def Occurrence.region (occurrence : Occurrence) : Int × Int :=
  (occurrence.start,occurrence.start + occurrence.name.length)

end VueScope.Template
