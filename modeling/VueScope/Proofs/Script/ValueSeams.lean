import VueScope.Proofs.Script.StatementEdges
import VueScope.Script.Binders

/-! The values of the variables that a script declares. In the text of their statement they stand apart from
the words around them. -/
namespace VueScope.Script

open Text Shape

variable {text : List Char} {found : Node} {start : Nat}

namespace Shape

theorem exists_of_mem_locateAll {shapes : List Shape} (member : found ∈ locateAll start text shapes) :
    ∃ before shape after, shapes = before ++ shape :: after ∧
      locate? (start + widthAll before) (text.drop (widthAll before)) shape = some found := by
  induction shapes generalizing start text with
  | nil => contradiction
  | cons shape rest ih =>
    rw [locateAll,List.mem_append,Option.mem_toList] at member
    rcases member with here | later
    · exact ⟨[],shape,rest,rfl,here⟩
    · obtain ⟨before,other,after,rfl,located⟩ := ih later
      exact ⟨shape :: before,other,after,rfl,by
        simpa [widthAll,Nat.add_assoc,List.drop_drop] using located⟩

theorem eq_node_of_locate? {shape : Shape} (located : locate? start text shape = some found)
    (filled : found.children ≠ []) :
    ∃ parts, shape = node found.kind found.field parts ∧ found.start = start ∧
      found.text = text.take (widthAll parts) ∧ found.children = locateAll start text parts := by
  cases shape with
  | blank => contradiction
  | leaf =>
    cases located
    exact absurd rfl filled
  | node kind role parts =>
    cases located
    exact ⟨parts,rfl,rfl,rfl,rfl⟩

theorem eq_of_locate? {shape : Shape} (located : locate? start text shape = some found) :
    shape.role? = found.field ∧ found.start = start ∧ found.text = text.take shape.width := by
  cases shape with
  | blank => contradiction
  | leaf
  | node kind role parts =>
    cases located
    exact ⟨rfl,rfl,rfl⟩

end Shape

theorem apart_of_slice {before : List Char} {width place size : Nat} (inside : place + size ≤ width)
    (front : Seam (before ++ text.take place) (text.drop place))
    (back : startsWithWord (text.drop (place + size)) = false) :
    let whole := text.take width
    let part := (text.drop place).take size
    whole.drop place = part ++ whole.drop (place + part.length) ∧
      Seam (whole.take place) (whole.drop place) ∧ Seam part (whole.drop (place + part.length)) := by
  intro whole part
  have rest : whole.drop place = (text.drop place).take (width - place) := List.drop_take
  have same : part = (whole.drop place).take size := by
    rw [rest,List.take_take,Nat.min_eq_left (by omega)]
  have behind : whole.drop (place + part.length) = (whole.drop place).drop size := by
    rw [← List.drop_drop,same,List.length_take,← List.drop_eq_drop_min]
  refine ⟨?_,?_,?_⟩
  · rw [behind,same,List.take_append_drop]
  · rw [List.take_take,Nat.min_eq_left (by omega),rest]
    have opens := front.back
    rw [← List.take_append_drop (width - place) (text.drop place)] at opens
    exact opens.front
  · apply Seam.of_right
    rw [behind,rest,List.drop_take,List.drop_drop]
    cases left : text.drop (place + size) with
    | nil => rw [List.take_nil]; rfl
    | cons c later =>
      rw [left,startsWithWord_cons] at back
      cases width - place - size with
      | zero => rfl
      | succ => exact back

section Statement

variable {dialect : Dialect} {source : List Char} {root statement : Node}
  (parsed : parse? dialect source = some root) (among : statement ∈ root.children)
  (declares : statement.isVariableDeclaration = true)

include parsed among declares

theorem exists_declaration (filled : statement.children ≠ []) :
    ∃ parts, statement.text = (source.drop statement.start).take (widthAll parts) ∧
      statement.children = locateAll statement.start (source.drop statement.start) parts ∧
      DeclaredAll (source.take statement.start) (source.drop statement.start) parts := by
  have isDeclaration : statement.kind.declaresVariables = true := by
    rw [Node.isVariableDeclaration,Bool.or_eq_true,decide_eq_true_eq,decide_eq_true_eq] at declares
    rcases declares with kind | kind <;> rw [kind]
  unfold parse? at parsed
  split at parsed
  next shapes rest ran =>
    cases parsed
    have spaced := (Edged.taken rfl [] ran).spaced fun _ => Seam.nil_left source
    obtain ⟨before,shape,after,rfl,located⟩ := exists_of_mem_locateAll among
    obtain ⟨parts,rfl,starts,text,children⟩ := eq_node_of_locate? located filled
    have own := ((spacedAll_append _ _ _ _).mp spaced).2.1
    rw [Nat.zero_add] at starts
    rw [← starts] at text children own
    exact ⟨parts,text,by rwa [Nat.zero_add] at children,own.1 isDeclaration⟩
  · contradiction

theorem hasToken_default_eq_false : statement.hasToken .defaultKeyword = false := by
  rw [Node.hasToken,List.any_eq_false]
  intro token inside isDefault
  obtain ⟨parts,_,children,declared⟩ :=
    exists_declaration parsed among declares (List.ne_nil_of_mem inside)
  rw [children] at inside
  obtain ⟨_,shape,_,rfl,located⟩ := exists_of_mem_locateAll inside
  have kind : token.kind = .defaultKeyword := of_decide_eq_true isDefault
  cases ((declaredAll_append _ _ _ _).mp declared).2.1 with
  | @bare shape bare =>
    cases shape with
    | blank => contradiction
    | leaf own =>
      cases located
      rw [IsBare,show own = .defaultKeyword from kind] at bare
      contradiction
    | node => exact bare.elim
  | declarator =>
    cases located
    contradiction

theorem value_stands_apart {declarator value : Node} (inside : declarator ∈ statement.children)
    (kind : declarator.kind = .variableDeclarator) (given : declarator.child? .value = some value) :
    let place := value.start - statement.start
    statement.text.drop place = value.text ++ statement.text.drop (place + value.text.length) ∧
      Seam (statement.text.take place) (statement.text.drop place) ∧
      Seam value.text (statement.text.drop (place + value.text.length)) := by
  have isValue : value.field = some .value := by simpa using List.find?_some given
  have part : value ∈ declarator.children := List.mem_of_find?_eq_some given
  obtain ⟨parts,text,children,declared⟩ :=
    exists_declaration parsed among declares (List.ne_nil_of_mem inside)
  rw [children] at inside
  obtain ⟨early,shape,late,rfl,located⟩ := exists_of_mem_locateAll inside
  obtain ⟨inner,rfl,_,_,children⟩ := eq_node_of_locate? located (List.ne_nil_of_mem part)
  have ended := ((declaredAll_append _ _ _ _).mp declared).2.1
  rw [kind] at ended
  obtain ⟨stops,last⟩ : startsWithWord _ = false ∧ ValueLast _ _ _ := by
    cases ended with
    | bare bare => exact bare.elim
    | declarator stops last => exact ⟨stops,last⟩
  rw [children] at part
  obtain ⟨lead,shape,tail,rfl,placed⟩ := exists_of_mem_locateAll part
  obtain ⟨role,begins,written⟩ := eq_of_locate? placed
  obtain ⟨rfl,seam⟩ := last lead shape tail rfl (role.trans isValue)
  have place : value.start - statement.start = widthAll early + widthAll lead := by omega
  have width : widthAll (lead ++ [shape]) = widthAll lead + shape.width := by
    simp [widthAll_append,widthAll]
  rw [width,List.drop_drop,← Nat.add_assoc] at stops
  rw [List.append_assoc,← List.take_add,List.drop_drop] at seam
  have fits : widthAll early + widthAll lead + shape.width ≤
      widthAll (early ++ .node declarator.kind declarator.field (lead ++ [shape]) :: late) := by
    rw [widthAll_append,widthAll,Shape.width,width]
    omega
  rw [place,text,written,List.drop_drop]
  exact apart_of_slice fits seam stops

end Statement

end VueScope.Script
