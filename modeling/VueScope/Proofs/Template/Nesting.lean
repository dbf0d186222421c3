import VueScope.Proofs.Markup.Layout
import VueScope.Proofs.Markup.Rendered
import VueScope.Proofs.Template.Gaps

/-! The template tree of authored markup. Elements that were closed early take back the siblings
up to their end tags, and the tree then nests as its author did. -/
namespace VueScope.Markup

theorem untilStrayEnd?_append {name written : List Char} {adopted : List Node} (rest : List Node) (close : Span)
    (own : ¬Strays (.ofChars name) adopted) (named : TagName.ofChars written = .ofChars name) :
    untilStrayEnd? name (adopted ++ .strayEnd close written :: rest) = some (adopted,close,rest) := by
  induction adopted with
  | nil =>
    have same : Text.lower written = Text.lower name := congrArg TagName.name named
    simp [untilStrayEnd?,same]
  | cons node adopted ih =>
    have others : ¬Strays (.ofChars name) adopted := by
      rintro ⟨span,other,member,same⟩
      exact own ⟨span,other,List.mem_cons_of_mem _ member,same⟩
    have later := ih others
    rw [List.cons_append]
    cases node with
    | strayEnd span other =>
      have different : Text.lower other ≠ Text.lower name := fun same =>
        own ⟨span,other,List.mem_cons_self,congrArg TagName.mk same⟩
      simp [untilStrayEnd?,different,later]
    | element _ _ _ _ => simp [untilStrayEnd?,later]
    | raw _ _ _ _ => simp [untilStrayEnd?,later]
    | comment _ => simp [untilStrayEnd?,later]

theorem Node.sizeAll_append (first second : List Node) :
    sizeAll (first ++ second) = sizeAll first + sizeAll second := by
  induction first with
  | nil => simp [sizeAll]
  | cons node rest ih => simp [sizeAll,ih,Nat.add_assoc]

end VueScope.Markup

namespace VueScope.Template

open Text
open Markup (Authored Renders renestWithin)

/-- A template tree whose elements are those that their author wrote, each in the element
whose tags stand around it. One that has an end tag ends with it. -/
inductive Shows (source : List Char) : List Node → List Authored → Prop
  | nil : Shows source [] []
  | text {content offset nodes forest} (later : Shows source nodes forest) :
      Shows source (.text content offset :: nodes) forest
  | interpolation {content offset nodes forest} (later : Shows source nodes forest) :
      Shows source (.interpolation content offset :: nodes) forest
  /-- Scripts and styles give no template node. -/
  | raw {tag nodes forest} (later : Shows source nodes forest) : Shows source nodes (.raw tag :: forest)
  | leaf {tag stop children nodes forest} (inside : Shows source children [])
      (later : Shows source nodes forest) :
      Shows source (.element tag.name (charOffset source tag.span.start) stop
        (tag.attributes.map (propOf source)) children :: nodes) (.leaf tag :: forest)
  | element {tag close below children nodes forest} (inside : Shows source children below)
      (later : Shows source nodes forest) :
      Shows source (.element tag.name (charOffset source tag.span.start) (charOffset source close.stop)
        (tag.attributes.map (propOf source)) children :: nodes) (.element tag below close :: forest)

def elementEnds (nodes : List Node) : List Nat :=
  nodes.filterMap fun
    | .element _ _ stop _ _ => some stop
    | _ => none

variable {tag : Markup.StartTag} {rest : List Markup.Node}

namespace Shows

variable {source : List Char}

theorem end_mem_elementEnds {nodes : List Node} {below forest : List Authored} {close : Markup.Span}
    (shows : Shows source nodes (.element tag below close :: forest)) :
    charOffset source close.stop ∈ elementEnds nodes := by
  cases shows with
  | element inside later => exact List.mem_cons_self
  | text later
  | interpolation later => exact later.end_mem_elementEnds

theorem append {first second : List Node} {front back : List Authored}
    (before : Shows source first front) (after : Shows source second back) :
    Shows source (first ++ second) (front ++ back) := by
  induction before with
  | nil => exact after
  | text _ ih => exact .text ih
  | interpolation _ ih => exact .interpolation ih
  | raw _ ih => exact .raw ih
  | leaf inside _ _ ih => exact .leaf inside ih
  | element inside _ _ ih => exact .element inside ih

theorem gap (start stop : Nat) : Shows source (nodesOfGap source start stop) [] := by
  apply nodesOfGap_induction (Shows source · [])
  · exact .nil
  · exact fun _ _ _ shows => .text shows
  · exact fun _ _ _ shows => .interpolation shows

theorem cons {start stop : Nat} {node : Markup.Node} {back : List Authored} (front : List Authored)
    (first : Shows source (nodeOf? source node).toList front)
    (later : Shows source (nodesOf source node.span.stop stop rest) back) :
    Shows source (nodesOf source start stop (node :: rest)) (front ++ back) := by
  rw [nodesOf]
  exact ((gap start node.span.start).append first).append later

theorem ofElement {close : Markup.Span} {children : List Markup.Node} {below : List Authored}
    (paired : tag.isSingle = false)
    (inside : Shows source (nodesOf source (contentSpan ⟨tag.span.start,close.stop⟩ tag (some close)).start
      (contentSpan ⟨tag.span.start,close.stop⟩ tag (some close)).stop children) below) :
    Shows source
      (nodeOf? source (.element ⟨tag.span.start,close.stop⟩ tag children (some close))).toList
      [.element tag below close] := by
  rw [nodeOf?,if_neg (by simp [(Bool.or_eq_false_iff.mp paired).1])]
  exact @element source tag close below _ [] [] inside .nil

end Shows

theorem exists_succ_of_size {node : Markup.Node} {fuel : Nat}
    (enough : Markup.Node.sizeAll (node :: rest) ≤ fuel) :
    ∃ less, fuel = less + 1 ∧ node.size ≤ less + 1 ∧ Markup.Node.sizeAll rest ≤ less := by
  have one : 0 < node.size := by cases node <;> simp [Markup.Node.size]
  rw [Markup.Node.sizeAll] at enough
  exact ⟨fuel - 1,by omega,by omega,by omega⟩

theorem shows_renestWithin (source : List Char) {nodes : List Markup.Node} {forest : List Authored}
    (renders : Renders nodes forest) (fuel start stop : Nat)
    (enough : Markup.Node.sizeAll nodes ≤ fuel) :
    Shows source (nodesOf source start stop (renestWithin fuel nodes)) forest := by
  induction renders generalizing fuel start stop with
  | nil => cases fuel <;> exact .gap start stop
  | @comment span nodes _ _ ih =>
    obtain ⟨fuel,rfl,_,enough⟩ := exists_succ_of_size enough
    have kept : renestWithin (fuel + 1) (.comment span :: nodes) =
      .comment span :: renestWithin fuel nodes := rfl
    rw [kept]
    exact .cons [] .nil (ih fuel _ stop enough)
  | @raw kind span tag endTag nodes _ _ ih =>
    obtain ⟨fuel,rfl,_,enough⟩ := exists_succ_of_size enough
    have kept : renestWithin (fuel + 1) (.raw kind span tag endTag :: nodes) =
      .raw kind span tag endTag :: renestWithin fuel nodes := rfl
    rw [kept]
    exact .cons [.raw tag] (.raw .nil) (ih fuel _ stop enough)
  | skipped _ ih => exact .raw (ih fuel start stop enough)
  | @leaf tag _ below nodes forest single _ _ inside ih =>
    obtain ⟨fuel,rfl,own,enough⟩ := exists_succ_of_size enough
    rw [Markup.Node.size] at own
    have alone : Markup.writtenEnd? tag none nodes = none := by
      rw [Markup.writtenEnd?,if_pos]
      simpa [Markup.StartTag.isSingle] using single
    rw [Markup.renestWithin_of_none _ _ _ alone]
    refine .cons [.leaf tag] (.leaf ?_ .nil) (ih fuel _ stop enough)
    split
    · exact .nil
    · exact inside fuel _ _ (by omega)
  | @closed tag close below children nodes forest paired _ _ inside ih =>
    obtain ⟨fuel,rfl,own,enough⟩ := exists_succ_of_size enough
    rw [Markup.Node.size] at own
    have ended : Markup.writtenEnd? tag (some close) nodes = none := by simp [Markup.writtenEnd?]
    rw [Markup.renestWithin_of_none _ _ _ ended]
    exact .cons [_] (.ofElement paired (inside fuel _ _ (by omega))) (ih fuel _ stop enough)
  | @early tag _ below adopted close written children nodes forest paired own named _ _ inside ih =>
    obtain ⟨open_,never⟩ := Bool.or_eq_false_iff.mp paired
    have ended : Markup.writtenEnd? tag none (adopted ++ .strayEnd close written :: nodes) =
        some (adopted,close,nodes) := by
      rw [Markup.writtenEnd?,if_neg (by simp [open_,never])]
      exact Markup.untilStrayEnd?_append nodes close own named
    rw [List.cons_append] at enough ⊢
    obtain ⟨fuel,rfl,_,_⟩ := exists_succ_of_size enough
    simp only [Markup.Node.sizeAll,Markup.Node.size,Markup.Node.sizeAll_append] at enough
    rw [Markup.renestWithin_of_some _ _ _ ended]
    refine .cons [_] (.ofElement paired (inside fuel _ _ ?_)) (ih fuel _ stop (by omega))
    rw [Markup.Node.sizeAll_append]
    omega

theorem shows_renest (source : List Char) {nodes : List Markup.Node} {forest : List Authored}
    (start stop : Nat) (renders : Renders nodes forest) :
    Shows source (nodesOf source start stop (Markup.renest nodes)) forest :=
  shows_renestWithin source renders _ start stop (Nat.le_refl _)

end VueScope.Template
