import VueScope.Proofs.Component.Nesting
import VueScope.Proofs.Identifiers.OrderedMap
import VueScope.Proofs.Template.LoopFaults

/-! The blocks of a component and the diagnostics of its blocks, each said of the top-level nodes alone. A
component keeps the first template, the first script and the first setup script, and every style and
custom block. -/
namespace VueScope.Component

open Text Template
open Markup.Node (attributesInAll)

def describe (filename : String) (text : List Char) (nodes : List Markup.Node) : Descriptor where
  filename := filename
  template := nodes.findSome? (templateIn? text)
  script := nodes.findSome? (scriptIn? text false)
  scriptSetup := nodes.findSome? (scriptIn? text true)
  styles := nodes.filterMap (styleIn? text)
  customBlocks := nodes.filterMap (customIn? text)

def occurs (text : List Char) (nodes : List Markup.Node) (kind : SoleKind) : Bool :=
  nodes.any fun node => soleKind? text node = some kind

def faultsFrom (text : List Char) (earlier : List Markup.Node) : List Markup.Node → List Diagnostic
  | [] => []
  | node :: rest => faultsAt text (occurs text earlier) node ++ faultsFrom text (earlier ++ [node]) rest

def hasAttribute (text : List Char) (name : String) (tag : Markup.StartTag) : Bool :=
  tag.attributes.any fun attr => (sliceBytes text attr.name).1 = name.toList

variable (filename : String) (text : List Char)

theorem setup_script (span : Markup.Span) (tag : Markup.StartTag) (endTag : Option Markup.Span) :
    (blockOf text "script" span tag endTag).setup = hasAttribute text "setup" tag := by
  change (attributesOf text tag).contains "setup" = _
  rw [Bool.eq_iff_iff,attributesOf,OrderedMap.contains_ofList_iff,hasAttribute,List.any_eq_true,List.map_map,
    List.mem_map]
  constructor
  · rintro ⟨attr,member,same⟩
    exact ⟨attr,member,decide_eq_true (by rw [← same]; exact String.toList_ofList.symm)⟩
  · rintro ⟨attr,member,same⟩
    refine ⟨attr,member,?_⟩
    rw [Function.comp_apply,of_decide_eq_true same,String.ofList_toList]

theorem loopFaults_element (span : Markup.Span) (tag : Markup.StartTag)
    (children : List Markup.Node) (endTag : Option Markup.Span)
    (named : tag.name = "template".toList) :
    loopFaults text (.element span tag children endTag) =
      if isMarkup (templateOf text span tag children endTag).block.lang && !tag.selfClosing then
        ((attributesInAll children).filterMap (loopFault? text)).map .invalidLoop
      else [] := by
  rw [loopFaults,templateIn?,if_pos named,Option.bind_some]
  cases markup : isMarkup (templateOf text span tag children endTag).block.lang with
  | false =>
    have none : (templateOf text span tag children endTag).tree = none := if_neg (Bool.eq_false_iff.mp markup)
    rw [none]
    rfl
  | true =>
    cases closing : tag.selfClosing with
    | true =>
      rw [tree_of_selfClosing closing markup]
      rfl
    | false =>
      rw [tree_templateOf closing markup,Option.getD_some,badLoopsAll_nodesOf,
        Markup.renest,(Markup.renested _ _).attributesInAll]
      rfl

/-! The run over the nodes. -/

theorem holds_describe (nodes : List Markup.Node) :
    (describe filename text nodes).holds = occurs text nodes := by
  have template (node : Markup.Node) :
      (templateIn? text node).isSome = decide (soleKind? text node = some .template) := by
    cases own : templateIn? text node <;> cases other : scriptBlock? text node <;>
      simp [soleKind?,own,other]
  have script (setup : Bool) (node : Markup.Node) :
      (scriptIn? text setup node).isSome = decide (soleKind? text node = some (.script setup)) := by
    cases own : scriptBlock? text node with
    | none => cases other : templateIn? text node <;> simp [scriptIn?,soleKind?,own,other]
    | some block =>
      have other : templateIn? text node = none := by
        cases node with
        | raw => rfl
        | element => contradiction
        | comment => contradiction
        | strayEnd => contradiction
      simp [scriptIn?,soleKind?,own,other,Option.isSome_filter]
  funext kind
  cases kind with
  | template => simp only [Descriptor.holds,describe,List.isSome_findSome?,template,occurs]
  | script setup =>
    cases setup <;> simp only [Descriptor.holds,describe,List.isSome_findSome?,script,occurs]

theorem describe_concat (nodes : List Markup.Node) (node : Markup.Node) :
    describe filename text (nodes ++ [node]) = (describe filename text nodes).extend text node := by
  have one {α : Type} (f : Markup.Node → Option α) : [node].findSome? f = f node := by
    rw [List.findSome?_cons]
    cases f node <;> rfl
  have some {α : Type} (f : Markup.Node → Option α) : [node].filterMap f = (f node).toList := by
    rw [List.filterMap_cons]
    cases f node <;> rfl
  simp only [describe,Descriptor.extend,List.findSome?_append,List.filterMap_append,one,some]

variable (earlier nodes : List Markup.Node)

theorem foldl_addNode (faults : List Diagnostic) :
    nodes.foldl (addNode text) (describe filename text earlier,faults) =
      (describe filename text (earlier ++ nodes),faults ++ faultsFrom text earlier nodes) := by
  induction nodes generalizing earlier faults with
  | nil => rw [List.foldl_nil,faultsFrom,List.append_nil,List.append_nil]
  | cons node rest ih =>
    rw [List.foldl_cons,addNode_eq,← describe_concat,holds_describe,ih,faultsFrom,List.append_assoc,
      List.append_assoc,List.singleton_append]

theorem hasBlocks_describe :
    (describe filename text (earlier ++ nodes)).hasBlocks =
      ((describe filename text earlier).hasBlocks || nodes.any isBlock) := by
  induction nodes generalizing earlier with
  | nil => rw [List.append_nil,List.any_nil,Bool.or_false]
  | cons node rest ih =>
    rw [← List.singleton_append,← List.append_assoc,ih,describe_concat,hasBlocks_extend,List.singleton_append,
      List.any_cons,Bool.or_assoc]

theorem faultsFrom_of_no_block
    (none : nodes.any isBlock = false) : faultsFrom text earlier nodes = [] := by
  induction nodes generalizing earlier with
  | nil => rfl
  | cons node rest ih =>
    obtain ⟨other,others⟩ := Bool.or_eq_false_iff.mp ((List.any_cons).symm.trans none)
    rw [faultsFrom,faultsAt_of_not_isBlock text _ node other,ih _ others]
    rfl

theorem assemble_describe (reading : Markup.Reading) :
    assemble filename text reading =
      if !reading.sound && !reading.nodes.any isBlock then .error (.noUsableBlock filename text)
      else .ok ⟨describe filename text reading.nodes,faultsFrom text [] reading.nodes,reading.sound⟩ := by
  have run : reading.nodes.foldl (addNode text) (Descriptor.empty filename,[]) =
      (describe filename text reading.nodes,faultsFrom text [] reading.nodes) :=
    foldl_addNode filename text [] reading.nodes []
  have blocks : (describe filename text reading.nodes).hasBlocks = reading.nodes.any isBlock :=
    hasBlocks_describe filename text [] reading.nodes
  rw [assemble_eq,run]
  dsimp only
  rw [blocks]

theorem refused_iff (reading : Markup.Reading) :
    (∃ failure, assemble filename text reading = .error failure) ↔
      reading.sound = false ∧ ∀ node ∈ reading.nodes, isBlock node = false := by
  have none : reading.nodes.any isBlock = false ↔ ∀ node ∈ reading.nodes, isBlock node = false := by
    simp only [List.any_eq_false,Bool.not_eq_true]
  rw [assemble_describe,← none]
  cases reading.sound <;> cases reading.nodes.any isBlock <;> simp

/-! The order of diagnostics. -/

theorem rising_loopFaults_node (node : Markup.Node) (orderly : node.Orderly) :
    Rising (charOffset text node.span.start) (charOffset text node.span.stop)
      ((loopFaults text node).map Diagnostic.offset) := by
  cases orderly with
  | @element span tag children endTag attributes content closed below =>
    by_cases named : tag.name = "template".toList
    · rw [loopFaults_element text span tag children endTag named]
      split
      · have inner := Markup.follow_attributesInAll content fun child member =>
          (below child member).follow_attributesIn
        have offsets (found : List Int) : (found.map Diagnostic.invalidLoop).map Diagnostic.offset = found := by
          rw [List.map_map]
          exact List.map_id _
        rw [offsets]
        exact (rising_loopFaults text _ inner).widen (charOffset_cast_mono text attributes.le)
          (charOffset_cast_mono text closed)
      · exact .nil
    · rw [loopFaults,templateIn?,if_neg named]
      exact .nil
  | raw => exact .nil
  | comment => exact .nil
  | strayEnd => exact .nil

theorem rising_faultsAt (taken : SoleKind → Bool) (node : Markup.Node) (orderly : node.Orderly)
    (width : node.span.start ≤ node.span.stop) :
    Rising (charOffset text node.span.start) (charOffset text node.span.stop)
      ((faultsAt text taken node).map Diagnostic.offset) := by
  unfold faultsAt
  split
  · exact .nil
  next kind _ =>
    split
    · have offset : (kind.duplicate (charOffset text node.span.start)).offset =
          charOffset text node.span.start := by
        cases kind with
        | template => rfl
        | script setup => cases setup <;> rfl
      rw [List.map_singleton,offset]
      exact .single (Int.le_refl _) (charOffset_cast_mono text width)
    · exact rising_loopFaults_node text node orderly

theorem rising_faultsFrom {lower upper : Nat}
    (laid : Markup.Laid lower upper nodes) :
    Rising (charOffset text lower) (charOffset text upper)
      ((faultsFrom text earlier nodes).map Diagnostic.offset) := by
  induction nodes generalizing earlier lower with
  | nil => exact .nil
  | cons node rest ih =>
    obtain ⟨before,width,own,later⟩ := laid.of_cons
    rw [faultsFrom,List.map_append]
    have first := (rising_faultsAt text (occurs text earlier) node own width).widen
      (charOffset_cast_mono text before) (Int.le_refl _)
    exact first.append (ih (earlier ++ [node]) later)
      (charOffset_cast_mono text (Nat.le_trans before width)) (charOffset_cast_mono text later.follow.le)

/-- The blocks of a component and what is reported of them. Whatever the top-level nodes are, the component
has the first template, script and setup script among them and all styles and custom blocks. It reports
further ones, and the loops of the kept template that are written and do not split. Without a block it
reports neither, so that a file is refused if and only if it is no markup and has no block. The
diagnostics of a file stand in its order, if nodes that are read behind a fault do. -/
theorem first_blocks_are_kept [Recovery] (filename : String) (text : List Char) :
    (∀ reading : Markup.Reading, assemble filename text reading =
      if !reading.sound && !reading.nodes.any isBlock then .error (.noUsableBlock filename text)
      else .ok ⟨describe filename text reading.nodes,faultsFrom text [] reading.nodes,reading.sound⟩) ∧
    (∀ span tag endTag, (blockOf text "script" span tag endTag).setup = hasAttribute text "setup" tag) ∧
    (∀ span tag children endTag, tag.name = "template".toList →
      loopFaults text (.element span tag children endTag) =
        if isMarkup (templateOf text span tag children endTag).block.lang && !tag.selfClosing then
          ((attributesInAll children).filterMap (loopFault? text)).map .invalidLoop
        else []) ∧
    (∀ nodes : List Markup.Node, nodes.any isBlock = false → faultsFrom text [] nodes = []) ∧
    ((∃ failure, parse filename text = .error failure) ↔
      (Markup.readFile (Markup.mask text)).sound = false ∧
        ∀ node ∈ (Markup.readFile (Markup.mask text)).nodes, isBlock node = false) ∧
    (Recovery.InOrder → ((faultsFrom text [] (Markup.readFile (Markup.mask text)).nodes).map
      Diagnostic.offset).Pairwise (· ≤ ·)) := by
  refine ⟨assemble_describe filename text,setup_script text,loopFaults_element text,
    faultsFrom_of_no_block text [],refused_iff filename text _,fun ordered => ?_⟩
  obtain ⟨stop,laid⟩ := Markup.laid_readFile ordered (Markup.mask text)
  exact (rising_faultsFrom text [] _ laid).sorted

example : (parse "a.vue" ("<template><p v-for='x'/></template><script></script>" ++
      "<template><p v-for='y'/></template><script></script><script setup></script>").toList).toOption.map
        Parsed.diagnostics =
    some [.invalidLoop 20,.duplicateTemplate 52,.duplicateScript 87] := by
  decide +kernel

end VueScope.Component
