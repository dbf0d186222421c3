import VueScope.Proofs.Markup.Cursor
import VueScope.Proofs.Markup.Shift
import VueScope.Template.Build
import VueScope.Template.Occurrence

/-! The template of a text that has something before it. Its nodes, and the names it uses, are those
of the text alone, further behind. Markup counts bytes and templates count code points, so each
is shifted by its own measure of what stands before. -/
namespace VueScope.Text

variable (lead text : List Char)

theorem slice_append_shift (start stop : Nat) :
    slice (lead ++ text) (start + lead.length) (stop + lead.length) = slice text start stop := by
  rw [slice,slice,Nat.add_sub_add_right,Nat.add_comm start,List.drop_length_add_append]

end VueScope.Text

namespace VueScope.Template

open Text

def Expression.shift (amount : Nat) (expression : Expression) : Expression :=
  { expression with offset := expression.offset + amount }

def Loop.shift (amount : Nat) (loop : Loop) : Loop :=
  ⟨loop.source.shift amount,loop.value.map (Expression.shift amount),
    loop.key.map (Expression.shift amount),loop.index.map (Expression.shift amount)⟩

def Directive.shift (amount : Nat) (directive : Directive) : Directive :=
  { directive with
    offset := directive.offset + amount
    argument := directive.argument.map (Expression.shift amount)
    expression := directive.expression.map (Expression.shift amount)
    loop := directive.loop.map (Loop.shift amount) }

def ElementProp.shift (amount : Nat) : ElementProp → ElementProp
  | plain attr => plain { attr with offset := attr.offset + amount }
  | directive given => directive (given.shift amount)

namespace Node

mutual

def shift (amount : Nat) : Node → Node
  | element tag start stop props children =>
    element tag (start + amount) (stop + amount) (props.map (ElementProp.shift amount))
      (shiftAll amount children)
  | text content offset => text content (offset + amount)
  | interpolation content offset => interpolation (content.shift amount) (offset + amount)

def shiftAll (amount : Nat) : List Node → List Node
  | [] => []
  | node :: rest => shift amount node :: shiftAll amount rest

end

theorem shiftAll_append (amount : Nat) (first second : List Node) :
    shiftAll amount (first ++ second) = shiftAll amount first ++ shiftAll amount second := by
  induction first with
  | nil => rfl
  | cons node rest ih => rw [List.cons_append,shiftAll,shiftAll,ih,List.cons_append]

end Node

section Expressions

variable (amount : Nat)

theorem Expression.shift_mk (content : List Char) (offset more : Int) (isStatic : Bool) :
    (⟨content,offset + amount + more,isStatic⟩ : Expression) =
      Expression.shift amount ⟨content,offset + more,isStatic⟩ := by
  rw [Int.add_right_comm]
  rfl

theorem Loop.located_shift (content part : List Char) (base start : Int) :
    located content part (base + amount) start = (located content part base start).shift amount :=
  Expression.shift_mk amount part base _ false

theorem Loop.parse?_shift (expression : Expression) :
    Loop.parse? (expression.shift amount) = (Loop.parse? expression).map (Loop.shift amount) := by
  obtain ⟨content,offset,isStatic⟩ := expression
  simp only [parse?,Expression.shift]
  cases divide? content with
  | none => rfl
  | some parts =>
    obtain ⟨left,divider,rest⟩ := parts
    dsimp only
    cases iterators? (trim (stripParens (trim left))) with
    | none =>
      simp only [Option.map_some,Loop.shift,Expression.shift_mk,Option.map_map,Option.map_none,
        Function.comp_def]
    | some found =>
      simp only [Option.map_some,Loop.shift,Expression.shift_mk,Option.map_map,Function.comp_def,
        located_shift]

def directiveWith (written : List Char) (offset : Nat) (expression : Option Expression) : Directive :=
  let parsed := DirectiveName.parse written
  ⟨parsed.name,written,offset,
    parsed.argument.map fun given =>
      ⟨given.content,((offset + given.start : Nat) : Int),given.isStatic⟩,
    parsed.modifiers,expression,
    if parsed.name = "for".toList then expression.bind Loop.parse? else none⟩

def expressionOf (value : List Char × Nat) : Option Expression :=
  if value.1.isEmpty then none else some ⟨value.1,value.2,false⟩

theorem directiveOf_eq (written : List Char) (offset : Nat) (value : Option (List Char × Nat)) :
    directiveOf written offset value = directiveWith written offset (value.bind expressionOf) := by
  cases value <;> rfl

theorem directiveWith_shift (written : List Char) (offset : Nat) (expression : Option Expression) :
    directiveWith written (offset + amount) (expression.map (Expression.shift amount)) =
      (directiveWith written offset expression).shift amount := by
  have argument (given : Argument) : (⟨given.content,((offset + amount + given.start : Nat) : Int),
      given.isStatic⟩ : Expression) =
        Expression.shift amount ⟨given.content,((offset + given.start : Nat) : Int),given.isStatic⟩ := by
    rw [Nat.add_right_comm,Int.natCast_add]
    rfl
  simp only [directiveWith,Directive.shift,argument,Option.map_map,Function.comp_def]
  congr 1
  split
  · cases expression with
    | none => rfl
    | some given => exact Loop.parse?_shift amount given
  · rfl

theorem directiveOf_shift (written : List Char) (offset : Nat) (value : Option (List Char × Nat)) :
    directiveOf written (offset + amount) (value.map fun given => (given.1,given.2 + amount)) =
      (directiveOf written offset value).shift amount := by
  have moved : (value.map fun given => (given.1,given.2 + amount)).bind expressionOf =
      (value.bind expressionOf).map (Expression.shift amount) := by
    cases value with
    | none => rfl
    | some given =>
      simp only [Option.map_some,Option.bind_some,expressionOf]
      split <;> rfl
  rw [directiveOf_eq,directiveOf_eq,moved,directiveWith_shift]

theorem nodesOfPieces_shift (offset : Nat) (pieces : List Markup.Piece) :
    nodesOfPieces (offset + amount) pieces = Node.shiftAll amount (nodesOfPieces offset pieces) := by
  induction pieces generalizing offset with
  | nil => rfl
  | cons piece rest ih =>
    simp only [nodesOfPieces]
    rw [Nat.add_right_comm,ih]
    cases piece with
    | text content =>
      dsimp only
      split <;> rfl
    | interpolation body =>
      rw [Node.shiftAll,Node.shift,Expression.shift,← Int.natCast_add]
      dsimp only
      congr 4
      omega

end Expressions

section Build

variable (lead text : List Char)

theorem sliceBytes_shift (span : Markup.Span) :
    sliceBytes (lead ++ text) (span.shift (byteLength lead)) =
      ((sliceBytes text span).1,(sliceBytes text span).2 + lead.length) := by
  simp only [sliceBytes,Markup.Span.shift,charOffset_append_shift,slice_append_shift]

theorem nodesOfGap_shift (start stop : Nat) :
    nodesOfGap (lead ++ text) (start + byteLength lead) (stop + byteLength lead) =
      Node.shiftAll lead.length (nodesOfGap text start stop) := by
  have segment := sliceBytes_shift lead text ⟨start,stop⟩
  rw [Markup.Span.shift] at segment
  simp only [nodesOfGap,Nat.add_le_add_iff_right,segment]
  split
  · rfl
  · exact nodesOfPieces_shift lead.length _ _

theorem propOf_shift (attr : Markup.Attribute) :
    propOf (lead ++ text) (attr.shift (byteLength lead)) = (propOf text attr).shift lead.length := by
  have values : (attr.value.map (Markup.Span.shift (byteLength lead))).map (sliceBytes (lead ++ text)) =
      (attr.value.map (sliceBytes text)).map fun given => (given.1,given.2 + lead.length) := by
    simp only [Option.map_map,Function.comp_def,sliceBytes_shift]
  simp only [propOf,Markup.Attribute.shift,sliceBytes_shift,values]
  split
  · rw [directiveOf_shift]
    rfl
  · simp only [ElementProp.shift,Option.map_map,Function.comp_def]

theorem contentSpan_shift (amount : Nat) (span : Markup.Span) (tag : Markup.StartTag)
    (endTag : Option Markup.Span) :
    contentSpan (span.shift amount) (tag.shift amount) (endTag.map (Markup.Span.shift amount)) =
      (contentSpan span tag endTag).shift amount := by
  cases endTag <;> simp [contentSpan,Markup.Span.shift,Markup.StartTag.shift,Nat.add_max_add_right]

mutual

theorem nodeOf?_shift : (node : Markup.Node) →
    nodeOf? (lead ++ text) (node.shift (byteLength lead)) =
      (nodeOf? text node).map (Node.shift lead.length)
  | .element span tag children endTag => by
    have inner := nodesOf_shift (contentSpan span tag endTag).start (contentSpan span tag endTag).stop
      children
    have between := contentSpan_shift (byteLength lead) span tag endTag
    have props : (tag.attributes.map (Markup.Attribute.shift (byteLength lead))).map
        (propOf (lead ++ text)) =
          (tag.attributes.map (propOf text)).map (ElementProp.shift lead.length) := by
      simp only [List.map_map,Function.comp_def,propOf_shift]
    have start := charOffset_append_shift lead text span.start
    have stop := charOffset_append_shift lead text span.stop
    rw [Markup.Node.shift,nodeOf?,nodeOf?,between]
    obtain ⟨tagSpan,name,attributes,selfClosing⟩ := tag
    simp only [Markup.StartTag.shift,Markup.Span.shift,start,stop,props,inner,Option.map_some,Node.shift]
    cases selfClosing <;> rfl
  | .raw _ _ _ _ => rfl
  | .comment _ => rfl
  | .strayEnd _ _ => rfl

theorem nodesOf_shift (start stop : Nat) : (nodes : List Markup.Node) →
    nodesOf (lead ++ text) (start + byteLength lead) (stop + byteLength lead)
        (Markup.Node.shiftAll (byteLength lead) nodes) =
      Node.shiftAll lead.length (nodesOf text start stop nodes)
  | [] => nodesOfGap_shift lead text start stop
  | node :: rest => by
    have first := nodeOf?_shift node
    have later := nodesOf_shift node.span.stop stop rest
    have gap := nodesOfGap_shift lead text start node.span.start
    have single (found : Option Node) : (found.map (Node.shift lead.length)).toList =
        Node.shiftAll lead.length found.toList := by cases found <;> rfl
    simp only [Markup.Node.shiftAll,nodesOf,Markup.Node.span_shift,Markup.Span.shift,first,later,gap,
      single,Node.shiftAll_append]

end

end Build

section Names

variable (amount : Nat)

def Scanned.shift (scanned : Scanned) : Scanned :=
  { scanned with expression := scanned.expression.shift amount }

def Occurrence.shift (occurrence : Occurrence) : Occurrence :=
  { occurrence with start := occurrence.start + amount }

theorem directives_shift (props : List ElementProp) :
    directives (props.map (ElementProp.shift amount)) =
      (directives props).map (Directive.shift amount) := by
  simp only [directives,List.filterMap_map,List.map_filterMap]
  congr 1
  funext prop
  cases prop <;> rfl

theorem findDirective?_shift (name : List Char) (props : List ElementProp) :
    findDirective? name (props.map (ElementProp.shift amount)) =
      (findDirective? name props).map (Directive.shift amount) := by
  rw [findDirective?,directives_shift,List.find?_map]
  rfl

theorem isVerbatim_shift (props : List ElementProp) :
    isVerbatim (props.map (ElementProp.shift amount)) = isVerbatim props := by
  rw [isVerbatim,directives_shift,List.any_map]
  rfl

theorem loopOf?_shift (props : List ElementProp) :
    loopOf? (props.map (ElementProp.shift amount)) = (loopOf? props).map (Loop.shift amount) := by
  rw [loopOf?,findDirective?_shift,loopOf?]
  cases findDirective? "for".toList props <;> rfl

theorem scannedInDirective_shift (scope : List String) (directive : Directive) :
    scannedInDirective scope (directive.shift amount) =
      (scannedInDirective scope directive).map (Scanned.shift amount) := by
  have listed (found : Option Expression) : (found.map (Expression.shift amount)).toList =
      found.toList.map (Expression.shift amount) := by cases found <;> rfl
  have dynamic (found : List Expression) :
      (found.map (Expression.shift amount)).filter (fun argument => !argument.isStatic) =
        (found.filter fun argument => !argument.isStatic).map (Expression.shift amount) :=
    List.filter_map
  obtain ⟨name,rawName,offset,argument,modifiers,expression,loop⟩ := directive
  rw [Directive.shift]
  simp only [scannedInDirective,listed,dynamic]
  by_cases apart : (decide (name = "for".toList) || decide (name = "slot".toList)) = true
  · rw [if_pos apart,if_pos apart,List.append_nil,List.append_nil,List.map_map,List.map_map]
    rfl
  · rw [if_neg apart,if_neg apart,← List.map_append,List.map_map,List.map_map]
    rfl

variable [Recovery]

theorem Loop.names_shift (loop : Loop) : (loop.shift amount).names = loop.names := by
  obtain ⟨source,value,key,index⟩ := loop
  cases value <;> cases key <;> cases index <;> rfl

theorem slotNames_shift (props : List ElementProp) :
    slotNames (props.map (ElementProp.shift amount)) = slotNames props := by
  rw [slotNames,findDirective?_shift,slotNames]
  cases findDirective? "slot".toList props with
  | none => rfl
  | some directive =>
    obtain ⟨_,_,_,_,_,expression,_⟩ := directive
    cases expression <;> rfl

mutual

theorem scanned_shift (scope : List String) : (node : Node) →
    scanned scope (node.shift amount) = (scanned scope node).map (Scanned.shift amount)
  | .text _ _ => rfl
  | .interpolation _ _ => rfl
  | .element _ _ _ props children => by
    let own := ((loopOf? props).map Loop.names).getD [] ++ scope
    have below := scannedInAll_shift (slotNames props ++ own) children
    have names : (((loopOf? props).map (Loop.shift amount)).map Loop.names).getD [] ++ scope = own := by
      simp only [own,Option.map_map,Function.comp_def,Loop.names_shift]
    have source : ((loopOf? props).map (Loop.shift amount)).toList.map (⟨·.source,scope⟩) =
        ((loopOf? props).toList.map (⟨·.source,scope⟩)).map (Scanned.shift amount) := by
      cases loopOf? props <;> rfl
    have searched : ((directives props).map (Directive.shift amount)).flatMap (scannedInDirective own) =
        ((directives props).flatMap (scannedInDirective own)).map (Scanned.shift amount) := by
      simp only [List.flatMap_map,List.map_flatMap,scannedInDirective_shift]
    simp only [Node.shift,scanned,isVerbatim_shift,loopOf?_shift,slotNames_shift,directives_shift]
    split
    · rfl
    · rw [names,source,searched,below,List.map_append,List.map_append]

theorem scannedInAll_shift (scope : List String) : (nodes : List Node) →
    scannedInAll scope (Node.shiftAll amount nodes) =
      (scannedInAll scope nodes).map (Scanned.shift amount)
  | [] => rfl
  | node :: rest => by
    rw [Node.shiftAll,scannedInAll,scannedInAll,scanned_shift scope node,
      scannedInAll_shift scope rest,List.map_append]

end

end Names

end VueScope.Template
