import VueScope.Proofs.Markup.Opened
import VueScope.Proofs.Template.Nesting

/-! The loops of a template that do not split, read off its markup. Nesting elements as their author did
moves no attribute, so they are reported in the order of the file. -/
namespace VueScope.Markup

mutual

/-- The attributes of an element and, behind them, those of the elements in it. What a self-closing tag
holds does not count. -/
def Node.attributesIn : Node → List Attribute
  | .element _ tag children _ =>
    tag.attributes ++ if tag.selfClosing then [] else attributesInAll children
  | .raw _ _ _ _ => []
  | .comment _ => []
  | .strayEnd _ _ => []

def Node.attributesInAll : List Node → List Attribute
  | [] => []
  | node :: rest => node.attributesIn ++ attributesInAll rest

end

open Node (attributesInAll)

theorem Node.attributesInAll_append (first second : List Node) :
    attributesInAll (first ++ second) = attributesInAll first ++ attributesInAll second := by
  induction first with
  | nil => rfl
  | cons node rest ih => rw [List.cons_append,attributesInAll,attributesInAll,ih,List.append_assoc]

theorem Renested.attributesInAll {nodes others : List Node} (renested : Renested nodes others) :
    attributesInAll others = attributesInAll nodes := by
  induction renested with
  | same => rfl
  | kept _ later => rw [Node.attributesInAll,Node.attributesInAll,later]
  | within _ _ inner later => simp only [Node.attributesInAll,Node.attributesIn,inner,later]
  | taking found _ _ inner later =>
    simp only [Node.attributesInAll,Node.attributesIn,inner,later,Node.attributesInAll_append,
      open_of_writtenEnd? found,Bool.false_eq_true,if_false,List.append_assoc,List.nil_append]

theorem follow_attributesInAll {lower upper : Nat} {nodes : List Node}
    (follow : Follow lower upper (nodes.map Node.span))
    (each : ∀ node ∈ nodes, node.span.start ≤ node.span.stop →
      Follow node.span.start node.span.stop (node.attributesIn.flatMap Attribute.spans)) :
    Follow lower upper ((attributesInAll nodes).flatMap Attribute.spans) := by
  induction nodes generalizing lower with
  | nil => exact follow
  | cons node rest ih =>
    obtain ⟨before,width,later⟩ := follow
    obtain ⟨own,others⟩ := List.forall_mem_cons.mp each
    rw [attributesInAll,List.flatMap_append]
    exact ((own width).from_le before).append (ih later others)

theorem Node.Orderly.follow_attributesIn {node : Node} (orderly : node.Orderly)
    (width : node.span.start ≤ node.span.stop) :
    Follow node.span.start node.span.stop (node.attributesIn.flatMap Attribute.spans) := by
  induction orderly with
  | @element span tag children endTag attributes content closed below ih =>
    rw [Node.attributesIn,List.flatMap_append]
    refine attributes.append ?_
    split
    · exact Nat.le_trans content.le closed
    · exact (follow_attributesInAll content ih).to_le closed
  | raw => exact width
  | comment => exact width
  | strayEnd => exact width

end VueScope.Markup

namespace VueScope.Template

open Text Markup
open Markup.Node (attributesInAll)

variable (text : List Char) (attr : Markup.Attribute)

def writesLoop : Bool :=
  let name := (sliceBytes text attr.name).1
  DirectiveName.isDirective name && (DirectiveName.parse name).name = "for".toList

/-- Where the expression of a loop is written that is not empty and does not split. -/
def loopFault? : Option Int :=
  attr.value.bind fun value =>
    let (content,start) := sliceBytes text value
    if writesLoop text attr && !content.isEmpty && (Loop.parse? ⟨content,start,false⟩).isNone then
      some start
    else none

def Directive.unsplit? (directive : Directive) : Option Int :=
  if directive.name = "for".toList && directive.loop.isNone then
    directive.expression.map Expression.offset
  else none

theorem unsplit?_directiveOf
    (directive : DirectiveName.isDirective (sliceBytes text attr.name).1 = true) :
    (directiveOf (sliceBytes text attr.name).1 (sliceBytes text attr.name).2
      (attr.value.map (sliceBytes text))).unsplit? = loopFault? text attr := by
  unfold loopFault? writesLoop directiveOf Directive.unsplit?
  dsimp only
  by_cases loop : (DirectiveName.parse (sliceBytes text attr.name).1).name = "for".toList
  · cases attr.value with
    | none => simp [loop]
    | some value => by_cases empty : (sliceBytes text value).1 = [] <;> simp [directive,loop,empty]
  · simp only [decide_eq_false loop,Bool.false_and,Bool.and_false,Bool.false_eq_true,if_false]
    cases attr.value <;> rfl

theorem filterMap_unsplit? (attributes : List Markup.Attribute) :
    (directives (attributes.map (propOf text))).filterMap Directive.unsplit? =
      attributes.filterMap (loopFault? text) := by
  induction attributes with
  | nil => rfl
  | cons attr rest ih =>
    cases directive : DirectiveName.isDirective (sliceBytes text attr.name).1 with
    | false =>
      have plain : loopFault? text attr = none := by
        cases value : attr.value <;> simp [loopFault?,writesLoop,directive,value]
      have built : propOf text attr = .plain ⟨_,_,_⟩ := if_neg (Bool.eq_false_iff.mp directive)
      rw [List.map_cons,built,List.filterMap_cons_none plain]
      exact ih
    | true =>
      have built : propOf text attr = .directive (directiveOf _ _ _) := if_pos directive
      rw [List.map_cons,built,List.filterMap_cons,← unsplit?_directiveOf text attr directive,← ih]
      exact List.filterMap_cons

theorem badLoopsAll_append (first second : List Node) :
    badLoopsAll (first ++ second) = badLoopsAll first ++ badLoopsAll second := by
  induction first with
  | nil => rfl
  | cons node rest ih => rw [List.cons_append,badLoopsAll,badLoopsAll,ih,List.append_assoc]

theorem badLoopsAll_nodesOfGap (start stop : Nat) :
    badLoopsAll (nodesOfGap text start stop) = [] := by
  apply nodesOfGap_induction fun nodes => badLoopsAll nodes = []
  · rfl
  · exact fun _ _ _ none => none
  · exact fun _ _ _ none => none

mutual

theorem badLoops_nodeOf? (text : List Char) (node : Markup.Node) :
    badLoopsAll (nodeOf? text node).toList = node.attributesIn.filterMap (loopFault? text) := by
  cases node with
  | element span tag children endTag =>
    rw [nodeOf?,Option.toList_some,badLoopsAll,badLoopsAll,List.append_nil,badLoops,
      Markup.Node.attributesIn,List.filterMap_append]
    refine congr (congrArg _ (filterMap_unsplit? text tag.attributes)) ?_
    split
    · rfl
    · exact badLoopsAll_nodesOf text _ _ children
  | raw _ _ _ _ => rfl
  | comment _ => rfl
  | strayEnd _ _ => rfl

theorem badLoopsAll_nodesOf (text : List Char) (start stop : Nat) (nodes : List Markup.Node) :
    badLoopsAll (nodesOf text start stop nodes) = (attributesInAll nodes).filterMap (loopFault? text) := by
  cases nodes with
  | nil => exact badLoopsAll_nodesOfGap text start stop
  | cons node rest =>
    rw [nodesOf,badLoopsAll_append,badLoopsAll_append,badLoopsAll_nodesOfGap,badLoops_nodeOf?,
      badLoopsAll_nodesOf,attributesInAll,List.filterMap_append,List.nil_append]

end

/-! Their order. -/

structure Rising (lower upper : Int) (offsets : List Int) : Prop where
  inside : ∀ offset ∈ offsets, lower ≤ offset ∧ offset ≤ upper
  sorted : offsets.Pairwise (· ≤ ·)

namespace Rising

variable {lower middle upper : Int} {first second : List Int}

theorem nil : Rising lower upper [] :=
  ⟨nofun,.nil⟩

theorem single {offset : Int} (after : lower ≤ offset) (before : offset ≤ upper) : Rising lower upper [offset] :=
  ⟨List.forall_mem_singleton.mpr ⟨after,before⟩,List.pairwise_singleton _ _⟩

theorem widen {left right : Int} (rising : Rising lower upper first) (before : left ≤ lower)
    (after : upper ≤ right) : Rising left right first := by
  refine ⟨fun offset member => ?_,rising.sorted⟩
  have bounds := rising.inside offset member
  exact ⟨Int.le_trans before bounds.1,Int.le_trans bounds.2 after⟩

theorem append (before : Rising lower middle first) (after : Rising middle upper second)
    (lowest : lower ≤ middle) (highest : middle ≤ upper) : Rising lower upper (first ++ second) := by
  constructor
  · exact List.forall_mem_append.mpr ⟨(before.widen (Int.le_refl _) highest).inside,
      (after.widen lowest (Int.le_refl _)).inside⟩
  · refine List.pairwise_append.mpr ⟨before.sorted,after.sorted,?_⟩
    intro early here late there
    exact Int.le_trans (before.inside early here).2 (after.inside late there).1

end Rising

theorem rising_loopFault? {lower upper : Nat}
    (follow : Follow lower upper attr.spans) :
    Rising (charOffset text lower) (charOffset text upper) (loopFault? text attr).toList := by
  unfold loopFault?
  cases written : attr.value with
  | none => exact .nil
  | some value =>
    rw [Attribute.spans,written] at follow
    obtain ⟨before,width,after,wide,upTo⟩ := follow
    rw [Option.bind_some]
    dsimp only
    split
    · refine .single (charOffset_cast_mono text ?_) (charOffset_cast_mono text ?_)
      · exact Nat.le_trans before (Nat.le_trans width after)
      · exact Nat.le_trans wide upTo
    · exact .nil

theorem rising_loopFaults {lower upper : Nat} (attributes : List Markup.Attribute)
    (follow : Follow lower upper (attributes.flatMap Attribute.spans)) :
    Rising (charOffset text lower) (charOffset text upper) (attributes.filterMap (loopFault? text)) := by
  induction attributes generalizing lower with
  | nil => exact .nil
  | cons attr rest ih =>
    rw [List.flatMap_cons] at follow
    obtain ⟨middle,own,later⟩ := Follow.append_iff.mp follow
    have whole := (rising_loopFault? text attr own).append (ih later) (charOffset_cast_mono text own.le)
      (charOffset_cast_mono text later.le)
    cases found : loopFault? text attr with
    | none =>
      rw [List.filterMap_cons_none found]
      simpa only [found,Option.toList_none,List.nil_append] using whole
    | some offset =>
      rw [List.filterMap_cons_some found]
      simpa only [found,Option.toList_some,List.cons_append,List.nil_append] using whole

end VueScope.Template
