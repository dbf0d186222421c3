import VueScope.Proofs.Component.Nesting
import VueScope.Proofs.Markup.Opened
import VueScope.Proofs.Template.Disjoint

/-! Nesting elements as their author did moves them under other parents and does nothing else. The
elements of a template are those of its markup, each once and in the order of the file. -/
namespace VueScope.Markup

mutual

/-- The elements that are reached through elements only, each before those inside it, with the
offsets where they start. -/
def Node.elements : Node → List (Nat × StartTag)
  | .element span tag children _ => (span.start,tag) :: elementsAll children
  | .raw _ _ _ _ => []
  | .comment _ => []
  | .strayEnd _ _ => []

def Node.elementsAll : List Node → List (Nat × StartTag)
  | [] => []
  | node :: rest => node.elements ++ elementsAll rest

end

open Node (elementsAll)

theorem Node.elementsAll_append (first second : List Node) :
    elementsAll (first ++ second) = elementsAll first ++ elementsAll second := by
  induction first with
  | nil => rfl
  | cons node rest ih => rw [List.cons_append,elementsAll,elementsAll,ih,List.append_assoc]

theorem Renested.elementsAll {nodes others : List Node} (renested : Renested nodes others) :
    elementsAll others = elementsAll nodes := by
  induction renested with
  | same => rfl
  | kept _ later => rw [Node.elementsAll,Node.elementsAll,later]
  | within _ _ inner later => simp only [Node.elementsAll,Node.elements,inner,later]
  | taking _ _ _ inner later =>
    simp only [Node.elementsAll,Node.elements,inner,later,Node.elementsAll_append,List.cons_append,
      List.append_assoc,List.nil_append]

/-- Elements that start one behind the other between two offsets. -/
structure Ascending (lower upper : Nat) (elements : List (Nat × StartTag)) : Prop where
  inside : ∀ element ∈ elements, lower ≤ element.1 ∧ element.1 < upper
  sorted : elements.Pairwise fun first second => first.1 < second.1

namespace Ascending

variable {lower middle upper : Nat} {first second : List (Nat × StartTag)}

theorem nil : Ascending lower upper [] :=
  ⟨nofun,.nil⟩

theorem widen {left right : Nat} (ascending : Ascending lower upper first) (before : left ≤ lower)
    (after : upper ≤ right) : Ascending left right first := by
  refine ⟨fun element member => ?_,ascending.sorted⟩
  have bounds := ascending.inside element member
  exact ⟨Nat.le_trans before bounds.1,Nat.lt_of_lt_of_le bounds.2 after⟩

theorem append (before : Ascending lower middle first) (after : Ascending middle upper second)
    (lowest : lower ≤ middle) (highest : middle ≤ upper) : Ascending lower upper (first ++ second) := by
  constructor
  · exact List.forall_mem_append.mpr ⟨(before.widen (Nat.le_refl _) highest).inside,
      (after.widen lowest (Nat.le_refl _)).inside⟩
  · refine List.pairwise_append.mpr ⟨before.sorted,after.sorted,?_⟩
    intro early here late there
    exact Nat.lt_of_lt_of_le (before.inside early here).2 (after.inside late there).1

end Ascending

theorem ascending_elementsAll {lower upper : Nat} {nodes : List Node}
    (follow : Follow lower upper (nodes.map Node.span))
    (each : ∀ node ∈ nodes, Ascending node.span.start node.span.stop node.elements) :
    Ascending lower upper (elementsAll nodes) := by
  induction nodes generalizing lower with
  | nil => exact .nil
  | cons node rest ih =>
    obtain ⟨before,width,later⟩ := follow
    obtain ⟨own,others⟩ := List.forall_mem_cons.mp each
    exact (own.widen before (Nat.le_refl _)).append (ih later others) (Nat.le_trans before width) later.le

theorem Node.Orderly.ascending {node : Node} (orderly : node.Orderly)
    (opened : node.Opened fun start tag => start < tag.span.stop) :
    Ascending node.span.start node.span.stop node.elements := by
  induction orderly with
  | @element span tag children endTag attributes content closed below ih =>
    cases opened with
    | element room alone opened =>
      have inner := ascending_elementsAll content fun child member => ih child member (opened child member)
      constructor
      · refine List.forall_mem_cons.mpr ⟨⟨Nat.le_refl _,?_⟩,?_⟩
        · exact Nat.lt_of_lt_of_le room (Nat.le_trans content.le closed)
        · exact (inner.widen (Nat.le_of_lt room) closed).inside
      · refine List.pairwise_cons.mpr ⟨fun other member => ?_,inner.sorted⟩
        exact Nat.lt_of_lt_of_le room (inner.inside other member).1
  | raw => exact .nil
  | comment => exact .nil
  | strayEnd => exact .nil

end VueScope.Markup

namespace VueScope.Template

open Text Markup
open Markup.Node (elementsAll)

/-- What an element says of itself: all but its children and where it ends. -/
structure Heading where
  tag : List Char
  start : Nat
  props : List ElementProp
deriving DecidableEq

def headingOf (text : List Char) (element : Nat × StartTag) : Heading :=
  ⟨element.2.name,charOffset text element.1,element.2.attributes.map (propOf text)⟩

mutual

def Node.headings : Node → List Heading
  | .element tag start _ props children => ⟨tag,start,props⟩ :: headingsAll children
  | .text _ _ => []
  | .interpolation _ _ => []

def Node.headingsAll : List Node → List Heading
  | [] => []
  | node :: rest => node.headings ++ headingsAll rest

end

open Node (headingsAll)

theorem Node.headingsAll_append (first second : List Node) :
    headingsAll (first ++ second) = headingsAll first ++ headingsAll second := by
  induction first with
  | nil => rfl
  | cons node rest ih => rw [List.cons_append,headingsAll,headingsAll,ih,List.append_assoc]

theorem headingsAll_nodesOfGap (text : List Char) (start stop : Nat) :
    headingsAll (nodesOfGap text start stop) = [] := by
  apply nodesOfGap_induction fun nodes => headingsAll nodes = []
  · rfl
  · exact fun _ _ _ none => none
  · exact fun _ _ _ none => none

theorem headingsAll_nodesOf_of_each (text : List Char) (start stop : Nat) (nodes : List Markup.Node)
    (each : ∀ node ∈ nodes, headingsAll (nodeOf? text node).toList = node.elements.map (headingOf text)) :
    headingsAll (nodesOf text start stop nodes) = (elementsAll nodes).map (headingOf text) := by
  induction nodes generalizing start with
  | nil => exact headingsAll_nodesOfGap text start stop
  | cons node rest ih =>
    obtain ⟨own,others⟩ := List.forall_mem_cons.mp each
    rw [nodesOf,Node.headingsAll_append,Node.headingsAll_append,headingsAll_nodesOfGap,own,ih _ others,
      elementsAll,List.map_append,List.nil_append]

variable {asked : Nat → StartTag → Prop}

theorem headings_nodeOf? (text : List Char) (node : Markup.Node) (opened : node.Opened asked) :
    headingsAll (nodeOf? text node).toList = node.elements.map (headingOf text) := by
  induction opened with
  | @element span tag children endTag own alone below ih =>
    rw [nodeOf?,Option.toList_some,headingsAll,Node.headings,headingsAll,List.append_nil,
      Markup.Node.elements,List.map_cons]
    congr 1
    split
    next closing =>
      rw [alone closing]
      rfl
    · exact headingsAll_nodesOf_of_each text _ _ children ih
  | raw => rfl
  | comment => rfl
  | strayEnd => rfl

theorem headingsAll_nodesOf (text : List Char) (start stop : Nat) (nodes : List Markup.Node)
    (opened : ∀ node ∈ nodes, node.Opened asked) :
    headingsAll (nodesOf text start stop nodes) = (elementsAll nodes).map (headingOf text) :=
  headingsAll_nodesOf_of_each text start stop nodes fun node member =>
    headings_nodeOf? text node (opened node member)

/-- Building a tree of siblings, one after the other. An element whose written end tag stands among
the siblings behind it goes on with the siblings up to there, and the loop with those after it. -/
inductive Builds (text : List Char) : Nat → Nat → List Markup.Node → List Node → Prop
  | done {start stop} : Builds text start stop [] (nodesOfGap text start stop)
  | passed {start stop node siblings later} (bare : node.elements = [])
      (rest : Builds text node.span.stop stop siblings later) :
      Builds text start stop (node :: siblings) (nodesOfGap text start node.span.start ++ later)
  | single {start stop span tag children endTag siblings later} (closing : tag.selfClosing = true)
      (rest : Builds text span.stop stop siblings later) :
      Builds text start stop (.element span tag children endTag :: siblings)
        (nodesOfGap text start span.start ++ .element tag.name (charOffset text span.start)
          (charOffset text span.stop) (tag.attributes.map (propOf text)) [] :: later)
  | kept {start stop span tag children endTag siblings below later} (opened : tag.selfClosing = false)
      (alone : writtenEnd? tag endTag siblings = none)
      (inside : Builds text (contentSpan span tag endTag).start (contentSpan span tag endTag).stop
        children below)
      (rest : Builds text span.stop stop siblings later) :
      Builds text start stop (.element span tag children endTag :: siblings)
        (nodesOfGap text start span.start ++ .element tag.name (charOffset text span.start)
          (charOffset text span.stop) (tag.attributes.map (propOf text)) below :: later)
  | adopting {start stop span tag children endTag siblings adopted close after below later}
      (found : writtenEnd? tag endTag siblings = some (adopted,close,after))
      (inside : Builds text tag.span.stop close.start (children ++ adopted) below)
      (rest : Builds text close.stop stop after later) :
      Builds text start stop (.element span tag children endTag :: siblings)
        (nodesOfGap text start span.start ++ .element tag.name (charOffset text span.start)
          (charOffset text close.stop) (tag.attributes.map (propOf text)) below :: later)

theorem Builds.unique {text : List Char} {start stop : Nat} {nodes : List Markup.Node}
    {first second : List Node} (one : Builds text start stop nodes first)
    (other : Builds text start stop nodes second) : first = second := by
  induction one generalizing second with
  | done =>
    cases other
    rfl
  | passed bare _ ih =>
    cases other with
    | passed _ rest => rw [ih rest]
    | single => contradiction
    | kept => contradiction
    | adopting => contradiction
  | single closing _ ih =>
    cases other with
    | passed bare => contradiction
    | single _ rest => rw [ih rest]
    | kept opened => exact absurd (opened.symm.trans closing) nofun
    | adopting found => exact absurd ((open_of_writtenEnd? found).symm.trans closing) nofun
  | kept opened alone _ _ below ih =>
    cases other with
    | passed bare => contradiction
    | single closing => exact absurd (opened.symm.trans closing) nofun
    | kept _ _ inside rest => rw [below inside,ih rest]
    | adopting found => exact absurd (alone.symm.trans found) nofun
  | adopting found _ _ below ih =>
    cases other with
    | passed bare => contradiction
    | single closing => exact absurd ((open_of_writtenEnd? found).symm.trans closing) nofun
    | kept _ alone => exact absurd (alone.symm.trans found) nofun
    | adopting same inside rest =>
      cases found.symm.trans same
      rw [below inside,ih rest]

theorem nodesOf_element (text : List Char) (start stop : Nat) (span : Markup.Span) (tag : StartTag)
    (children rest : List Markup.Node) (endTag : Option Markup.Span) :
    nodesOf text start stop (.element span tag children endTag :: rest) =
      nodesOfGap text start span.start ++ .element tag.name (charOffset text span.start)
        (charOffset text span.stop) (tag.attributes.map (propOf text))
        (if tag.selfClosing then [] else nodesOf text (contentSpan span tag endTag).start
          (contentSpan span tag endTag).stop children) :: nodesOf text span.stop stop rest := by
  rw [nodesOf,nodeOf?,Option.toList_some,List.append_assoc]
  rfl

theorem Builds.bare {text : List Char} {start stop : Nat} {node : Markup.Node}
    {siblings nested : List Markup.Node} (bare : node.elements = [])
    (rest : Builds text node.span.stop stop siblings (nodesOf text node.span.stop stop nested)) :
    Builds text start stop (node :: siblings) (nodesOf text start stop (node :: nested)) := by
  have none : nodeOf? text node = none := by
    cases node with
    | element => contradiction
    | raw => rfl
    | comment => rfl
    | strayEnd => rfl
  rw [nodesOf,none,Option.toList_none,List.append_nil]
  exact .passed bare rest

/-- The loop ends, with the tree of the nodes that were nested anew. Each step is left with fewer
nodes: the children and the adopted siblings on one side, the siblings behind them on the other. -/
theorem builds_renestWithin (text : List Char) (fuel start lower stop : Nat) (nodes : List Markup.Node)
    (laid : Laid lower stop nodes) (enough : Markup.Node.sizeAll nodes ≤ fuel) :
    Builds text start stop nodes (nodesOf text start stop (renestWithin fuel nodes)) := by
  induction fuel generalizing start lower stop nodes with
  | zero =>
    cases nodes with
    | nil => exact .done
    | cons node rest =>
      obtain ⟨_,_,_⟩ := exists_succ_of_size enough
      contradiction
  | succ fuel ih =>
    cases nodes with
    | nil => exact .done
    | cons node siblings =>
      obtain ⟨_,_,own,later⟩ := laid.of_cons
      obtain ⟨_,same,size,rest⟩ := exists_succ_of_size enough
      cases same
      have behind := ih node.span.stop _ stop siblings later rest
      cases own with
      | @element span tag children endTag attributes content closed below =>
        rw [Markup.Node.size] at size
        cases found : writtenEnd? tag endTag siblings with
        | none =>
          rw [renestWithin_of_none fuel span children found,nodesOf_element]
          split
          next closing => exact .single closing behind
          next opened =>
            rw [Bool.not_eq_true] at opened
            refine .kept opened found (ih _ tag.span.stop _ children ?_ (by omega)) behind
            rw [contentSpan_eq span tag endTag content.le]
            exact ⟨content,below⟩
        | some parts =>
          obtain ⟨adopted,close,after⟩ := parts
          have opened := open_of_writtenEnd? found
          rw [renestWithin_of_some fuel span children found,
            nodesOf_element,if_neg (by simp [opened])]
          obtain ⟨rfl,written,rfl⟩ := of_writtenEnd? found
          obtain ⟨middle,taken,others⟩ := Laid.append_iff.mp later
          obtain ⟨upTo,_,_,last⟩ := others.of_cons
          have inner : Laid tag.span.stop close.start (children ++ adopted) :=
            Laid.append_iff.mpr ⟨_,⟨content,below⟩,taken.follow.to_le upTo,taken.orderly⟩
          simp only [Markup.Node.sizeAll_append,Markup.Node.sizeAll,Markup.Node.size] at enough
          rw [contentSpan_eq _ tag (some close) inner.follow.le]
          have inside := ih tag.span.stop _ _ _ inner (by rw [Markup.Node.sizeAll_append]; omega)
          have rest := ih close.stop _ _ after last (by omega)
          exact @Builds.adopting text start stop span tag children none _ adopted close after _ _ found
            inside rest
      | raw => exact .bare rfl behind
      | comment => exact .bare rfl behind
      | strayEnd => exact .bare rfl behind

end VueScope.Template

namespace VueScope.Component

open Template
open Markup.Node (elementsAll)
open Template.Node (headingsAll)

/-- Building a template ends, whatever end tags stand astray. The elements of the tree are those of
the markup, each once and in the order of the file, and they are those that the tree has where no
element takes back siblings. -/
theorem renesting_keeps_elements (text : List Char) (span : Markup.Span) (tag : Markup.StartTag)
    (children : List Markup.Node) (endTag : Option Markup.Span)
    (orderly : (Markup.Node.element span tag children endTag).Orderly)
    (opened : (Markup.Node.element span tag children endTag).Opened
      fun start tag => start < tag.span.stop)
    (markup : isMarkup (templateOf text span tag children endTag).block.lang = true) :
    let inner := contentSpan span tag endTag
    ∃ tree, (templateOf text span tag children endTag).tree = some tree ∧
      (tag.selfClosing = false →
        ∀ other, Builds text inner.start inner.stop children other ↔ other = tree) ∧
      headingsAll tree = (elementsAll children).map (headingOf text) ∧
      (elementsAll children).Pairwise (fun first second => first.1 < second.1) ∧
      headingsAll tree = headingsAll (nodesOf text inner.start inner.stop children) := by
  have ascending := orderly.ascending opened
  have sorted := (List.pairwise_cons.mp ascending.sorted).2
  cases orderly with
  | element attributes content closed below =>
    cases opened with
    | element room alone opened =>
      have plain := headingsAll_nodesOf text (contentSpan span tag endTag).start
        (contentSpan span tag endTag).stop children opened
      cases closing : tag.selfClosing with
      | true =>
        refine ⟨[],tree_of_selfClosing closing markup,nofun,?_,sorted,?_⟩
        · rw [alone closing]
          rfl
        · rw [plain,alone closing]
          rfl
      | false =>
        have kept := headingsAll_nodesOf text (contentSpan span tag endTag).start
          (contentSpan span tag endTag).stop (Markup.renest children)
          (Markup.opened_renestWithin _ _ children opened)
        rw [Markup.renest,(Markup.renested _ _).elementsAll,← Markup.renest] at kept
        refine ⟨_,tree_templateOf closing markup,fun _ other => ?_,kept,
          sorted,kept.trans plain.symm⟩
        have built : Builds text (contentSpan span tag endTag).start (contentSpan span tag endTag).stop
            children (nodesOf text (contentSpan span tag endTag).start
              (contentSpan span tag endTag).stop (Markup.renest children)) := by
          apply builds_renestWithin text _ _ tag.span.stop _ children ?_ (Nat.le_refl _)
          rw [contentSpan_eq span tag endTag content.le]
          exact ⟨content,below⟩
        constructor
        · intro other
          exact other.unique built
        · rintro rfl
          exact built

/-- A division closes the paragraph around it early. The tree has both, and the paragraph ends behind
the division. -/
theorem paragraph_takes_back_its_division :
    let text := "<template><p><div></div></p></template>".toList
    let found : List Heading := [⟨"p".toList,10,[]⟩,⟨"div".toList,13,[]⟩]
    ∃ span tag children endTag tree,
      .element span tag children endTag ∈ (Markup.read (Markup.mask text)).nodes ∧
      (templateOf text span tag children endTag).tree = some tree ∧
      (∀ other, Builds text (contentSpan span tag endTag).start (contentSpan span tag endTag).stop
        children other ↔ other = tree) ∧
      (elementsAll children).map (headingOf text) = found ∧ headingsAll tree = found ∧
      elementEnds tree = [28] := by
  intro text found
  have viewed : ((parse "a.vue" text).toOption.bind fun parsed =>
      parsed.descriptor.template.bind fun template => template.tree.map fun tree =>
        (template.block.lang,headingsAll tree,elementEnds tree)) = some (none,found,[28]) := by
    decide +kernel
  obtain ⟨parsed,template,split,present,seen⟩ := exists_of_template viewed
  obtain ⟨tree,built,same⟩ := Option.map_eq_some_iff.mp seen
  simp only [Prod.mk.injEq] at same
  obtain ⟨lang,headings,ends⟩ := same
  obtain ⟨span,tag,children,endTag,member,_,rfl⟩ := exists_template_element split present
  rw [show Markup.readFile _ = _ from Markup.passesFaults_of_none rfl] at member
  obtain ⟨stop,laid⟩ := Markup.laid_read (Markup.mask text)
  have opened := Markup.opened_read (Markup.mask text) _ member
  have markup : isMarkup (templateOf text span tag children endTag).block.lang = true := by
    rw [lang]
    rfl
  obtain ⟨other,whole,loop,kept,_,_⟩ := renesting_keeps_elements text span tag children endTag
    (laid.orderly _ member) (opened.imp fun _ _ read => read.room) markup
  cases built.symm.trans whole
  refine ⟨span,tag,children,endTag,tree,member,built,loop ?_,kept.symm.trans headings,headings,ends⟩
  rw [Bool.eq_false_iff]
  intro closing
  rw [tree_of_selfClosing closing markup] at built
  cases built
  exact absurd ends nofun

end VueScope.Component
