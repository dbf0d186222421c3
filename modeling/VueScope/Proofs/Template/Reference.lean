import VueScope.Proofs.Recovery
import VueScope.Template.Reference

/-! The names that an expression refers to stand in the expression, as whole words. It may have been read in
parentheses, but these hold no name, so the offset is right once it is shifted back. If it does not
parse, they stand in it all the same, but not as whole words. -/
namespace VueScope.Template

open Text Script

theorem parts_of_parenthesized {content part before after : List Char} (name : IsName part)
    (written : '(' :: content ++ [')'] = before ++ part ++ after) :
    ∃ lead trail, before = '(' :: lead ∧ after = trail ++ [')'] ∧ content = lead ++ part ++ trail := by
  cases before with
  | nil =>
    -- a name at the very front would start with the opening parenthesis
    obtain ⟨first,rest,rfl⟩ := List.exists_cons_of_ne_nil name.nonempty
    have opening : '(' = first := (List.cons.inj written).1
    exact absurd opening.symm (name.noParenthesis first List.mem_cons_self).1
  | cons c before =>
    obtain ⟨opening,inside⟩ := List.cons.inj written
    subst opening
    change content ++ [')'] = before ++ part ++ after at inside
    rcases List.eq_nil_or_concat after with rfl | ⟨trail,last,rfl⟩
    · -- a name at the very end would end with the closing one
      obtain ⟨front,last,rfl⟩ := (List.eq_nil_or_concat part).resolve_left name.nonempty
      rw [List.append_nil,List.concat_eq_append,← List.append_assoc] at inside
      have closing : ')' = last := List.singleton_inj.mp (List.append_inj' inside rfl).2
      exact absurd closing.symm (name.noParenthesis last (by simp)).2
    · rw [List.concat_eq_append,← List.append_assoc] at inside
      obtain ⟨same,closing⟩ := List.append_inj' inside rfl
      rw [List.concat_eq_append,← closing]
      exact ⟨before,trail,rfl,rfl,same⟩

theorem bounded_of_parenthesized {content part : List Char} {offset : Int} (name : IsName part)
    (bounded : Bounded ('(' :: content ++ [')']) part offset) :
    Bounded content part (offset - 1) := by
  obtain ⟨before,after,written,rfl,begins,ends⟩ := bounded
  obtain ⟨lead,trail,rfl,rfl,parts⟩ := parts_of_parenthesized name written
  have inside : Seam lead part := @Seam.back ['('] lead part begins
  exact ⟨lead,trail,parts,by simp,inside,ends.front⟩

variable {content : List Char} {tree : ExpressionTree} {node : Script.Node}

theorem exists_parse_of_read? (read : ExpressionTree.read? content = some tree) :
    ∃ source, parse? .typescript source = some tree.root := by
  unfold ExpressionTree.read? at read
  split at read
  next root parsed =>
    cases read
    exact ⟨_,parsed⟩
  · obtain ⟨root,parsed,rfl⟩ := Option.map_eq_some_iff.mp read
    exact ⟨_,parsed⟩

theorem bounded_of_read? (read : ExpressionTree.read? content = some tree)
    (member : node ∈ tree.root.preorder) (named : node.kind.isName = true) :
    Bounded content node.text ((node.start : Int) - tree.shift) := by
  unfold ExpressionTree.read? at read
  split at read
  next root parsed =>
    cases read
    have names := names_of_parse? parsed member named
    exact bounded_of_parenthesized names.isName names.bounded
  · obtain ⟨root,parsed,rfl⟩ := Option.map_eq_some_iff.mp read
    simpa using (names_of_parse? parsed member named).bounded

variable [Recovery] {reference : Reference}

theorem read_eq_of_read? (read : ExpressionTree.read? content = some tree) :
    ExpressionTree.read content = tree := by
  rw [ExpressionTree.read,read,Option.getD_some]

theorem read_eq_of_none (read : ExpressionTree.read? content = none) :
    ExpressionTree.read content = ⟨Recovery.script .typescript content,0⟩ := by
  rw [ExpressionTree.read,read,Option.getD_none]

theorem bounded_reference (parses : (ExpressionTree.read? content).isSome)
    (member : reference ∈ references content) :
    reference.name ≠ "" ∧ Bounded content reference.name.toList reference.offset := by
  obtain ⟨tree,read⟩ := Option.isSome_iff_exists.mp parses
  rw [references,read_eq_of_read? read] at member
  obtain ⟨node,free,rfl⟩ := List.mem_map.mp member
  obtain ⟨inside,named⟩ := Script.Node.mem_of_freeIdentifiers [] tree.root node free
  obtain ⟨_,parsed⟩ := exists_parse_of_read? read
  refine ⟨ne_empty_of_parse? parsed inside named,?_⟩
  simpa [Script.Node.name] using bounded_of_read? read inside named

theorem standsAt_reference (holds : Recovery.HoldsText) (member : reference ∈ references content) :
    StandsAt content reference.name.toList reference.offset := by
  cases read : ExpressionTree.read? content with
  | some tree => exact (bounded_reference (by rw [read]; rfl) member).2.stands
  | none =>
    rw [references,read_eq_of_none read] at member
    obtain ⟨node,free,rfl⟩ := List.mem_map.mp member
    have inside := (Script.Node.mem_of_freeIdentifiers [] _ node free).1
    simpa [Script.Node.name] using (holds .typescript content node inside).1

end VueScope.Template
