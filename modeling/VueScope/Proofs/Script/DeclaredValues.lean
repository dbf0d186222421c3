import VueScope.Proofs.Script.GrammarEdges

/-! Where the value of a variable stands. It follows `=` and ends its declarator, and behind that a comma
or the end of the statement comes, so that no word runs on into the value or out of it. -/
namespace VueScope.Script

open Text

variable {parts : List Shape} {place : Semicolon.Place}

namespace Shape

/-- No part is the value of its construct. -/
def Unvalued (shapes : List Shape) : Prop :=
  ∀ shape ∈ shapes, shape.role? ≠ some .value

theorem Unvalued.append {first second : List Shape} (before : Unvalued first) (after : Unvalued second) :
    Unvalued (first ++ second) := by
  intro shape member
  rcases List.mem_append.mp member with early | late
  · exact before shape early
  · exact after shape late

theorem Unvalued.valueLast (unvalued : Unvalued parts) (before text : List Char) :
    ValueLast before text parts := by
  rintro lead part after rfl isValue
  exact absurd isValue (unvalued part (by simp))

theorem valueLast_concat {before text : List Char} {value : Shape} (unvalued : Unvalued parts)
    (seam : Seam (before ++ text.take (widthAll parts)) (text.drop (widthAll parts))) :
    ValueLast before text (parts ++ [value]) := by
  intro lead part after same isValue
  rcases List.eq_nil_or_concat' after with rfl | ⟨init,last,rfl⟩
  · obtain ⟨rfl,_⟩ := List.append_inj' same rfl
    exact ⟨rfl,seam⟩
  · -- a value before the last part would be one of the others
    have whole : parts ++ [value] = (lead ++ part :: init) ++ [last] := by simpa using same
    obtain ⟨rfl,_⟩ := List.append_inj' whole rfl
    exact absurd isValue (unvalued part (by simp))

theorem ValueLast.drop {before text : List Char} {lead : List Shape}
    (last : ValueLast before text (lead ++ parts)) :
    ValueLast (before ++ text.take (widthAll lead)) (text.drop (widthAll lead)) parts := by
  rintro others part after rfl isValue
  have found := last (lead ++ others) part after (by simp) isValue
  rwa [widthAll_append,List.take_add,← List.append_assoc,← List.drop_drop] at found

theorem seam_of_trivia {before text : List Char} {lead : List Shape} (spaced : SpacedAll before text lead)
    (trivia : ∀ shape ∈ lead, shape.isTrivia = true) (seam : Seam before text) :
    Seam (before ++ text.take (widthAll lead)) (text.drop (widthAll lead)) := by
  induction lead generalizing before text with
  | nil => simpa [widthAll] using seam
  | cons shape rest ih =>
    have own : Seam (before ++ text.take shape.width) (text.drop shape.width) := by
      rcases (isTrivia_iff shape).mp (trivia shape List.mem_cons_self) with
        ⟨width,rfl⟩ | ⟨role,width,rfl⟩
      · exact spaced.1
      · exact spaced.1.2 rfl
    have later := ih spaced.2 (fun other member => trivia other (List.mem_cons_of_mem _ member)) own
    rwa [List.append_assoc,← List.take_add,List.drop_drop] at later

theorem isBare_of_trivia {shape : Shape} (trivia : shape.isTrivia = true) : shape.IsBare := by
  rcases (isTrivia_iff shape).mp trivia with ⟨width,rfl⟩ | ⟨role,width,rfl⟩
  · trivial
  · rfl

theorem declaredAll_of_isBare {shapes : List Shape} (bare : ∀ shape ∈ shapes, shape.IsBare)
    (before text : List Char) : DeclaredAll before text shapes := by
  induction shapes generalizing before text with
  | nil => trivial
  | cons shape rest ih =>
    obtain ⟨own,others⟩ := List.forall_mem_cons.mp bare
    exact ⟨.bare own,ih others _ _⟩

end Shape

open Shape

instance (kind : Kind) [other : IsFalse kind.isDefault] : AsksNothing IsBare kind :=
  ⟨fun _ => trivial,fun _ => rfl,fun _ => other.eq⟩

section Singles

variable {parser : Parser} {edges : Edges} [Edged parser edges] [Single parser]
  {text rest : List Char} {shapes : List Shape}

theorem Single.exists_lead (sound : edges.sound = true) (ran : parser.run text = .taken shapes rest) :
    ∃ lead shape, shapes = lead ++ [shape] ∧ IsSingle lead shape ∧ ∀ part ∈ lead, part.role? = none := by
  obtain ⟨lead,shape,rfl,single⟩ := Single.taken ran
  exact ⟨lead,shape,rfl,single,Edged.free_lead sound ran single⟩

theorem unvalued_of_single (sound : edges.sound = true) (ran : parser.run text = .taken shapes rest) :
    Unvalued shapes := by
  obtain ⟨lead,shape,rfl,single,roles⟩ := Single.exists_lead sound ran
  intro part member
  rcases List.mem_append.mp member with early | last
  · simp [roles part early]
  · simp [List.mem_singleton.mp last,single.free]

theorem unvalued_of_field {role : Field} (other : role ≠ .value) (sound : edges.sound = true)
    (ran : (Parser.field role parser).run text = .taken shapes rest) : Unvalued shapes := by
  obtain ⟨inner,found,rfl⟩ := Outcome.map_eq_taken_iff.mp ran
  obtain ⟨lead,shape,rfl,single,roles⟩ := Single.exists_lead sound found
  intro part member isValue
  have among := List.mem_filterMap.mpr ⟨part,member,isValue⟩
  rw [single.roles roles role] at among
  exact other (List.mem_singleton.mp among).symm

end Singles

/-! Where a declarator ends. -/

theorem Lexeme.startsWithWord_of_comment {text : List Char} {width : Nat}
    (found : Lexeme.commentLength? text = some width) : startsWithWord text = false := by
  rcases Option.or_eq_some_iff.mp found with line | ⟨_,block⟩
  · unfold Lexeme.lineCommentLength? at line
    split at line
    · rfl
    · contradiction
  · unfold Lexeme.blockCommentLength? at block
    split at block
    · rfl
    · contradiction

namespace Parser

theorem startsWithWord_or_trivia (text : List Char) :
    startsWithWord text = false ∨ trivia text = ([],text) := by
  cases text with
  | nil => exact .inl rfl
  | cons c rest =>
    rw [trivia,List.length_cons]
    simp only [trivia.loop]
    split
    next gap => exact .inl (Lexeme.isWordChar_of_isGap gap)
    · split
      · exact .inr rfl
      next width found => exact .inl (Lexeme.startsWithWord_of_comment found)

variable {shapes : List Shape}

theorem startsWithWord_of_mark {c : Char} (plain : isWordChar c = false) {written : String}
    (same : written.toList = [c]) {text rest : List Char}
    (ran : (mark written).run text = .taken shapes rest) : startsWithWord text = false := by
  rcases startsWithWord_or_trivia text with stops | none
  · exact stops
  · unfold mark token at ran
    simp only [none,same] at ran
    split at ran
    · contradiction
    next width found =>
      obtain ⟨after,dropped,_⟩ := Option.map_eq_some_iff.mp found
      rw [eq_append_of_dropPrefix? _ _ _ dropped]
      exact plain

theorem startsWithWord_of_lineEnd {dialect : Dialect} {text rest : List Char}
    (ran : (lineEnd dialect place).run text = .taken shapes rest) : startsWithWord text = false := by
  cases text with
  | nil => rfl
  | cons c later =>
    simp only [lineEnd,List.length_cons,lineEnd.loop] at ran
    split at ran
    next inserted => exact Semicolon.startsWithWord_of_inserted inserted
    · rw [startsWithWord_cons]
      cases gap : Lexeme.isGap c with
      | true => exact Lexeme.isWordChar_of_isGap gap
      | false =>
        rw [List.takeWhile_cons_of_neg (by simp [gap])] at ran
        dsimp only [List.length_nil,List.drop_zero] at ran
        split at ran
        · contradiction
        next width found => exact Lexeme.startsWithWord_of_comment found

theorem startsWithWord_of_semicolon {dialect : Dialect} {text rest : List Char}
    (ran : (semicolon dialect place).run text = .taken shapes rest) :
    startsWithWord text = false := by
  rcases run_or ran with ended | marked
  · exact startsWithWord_of_lineEnd ended
  · exact startsWithWord_of_mark (by decide : isWordChar ';' = false) rfl marked

end Parser

namespace Grammar

open VueScope.Script.Parser

variable (dialect : Dialect) (rules : Rules) [∀ rule, Edged (rules rule) (edgesOf rule)]
  [SingleRules rules] {text rest : List Char} {shapes : List Shape}

variable (before : List Char)

theorem seam_of_initializer {mode : Mode}
    (ran : (initializer rules mode).run text = .taken shapes rest) :
    ∃ lead value, shapes = lead ++ [value] ∧ Unvalued lead ∧
      Seam (before ++ text.take (widthAll lead)) (text.drop (widthAll lead)) := by
  obtain ⟨equals,middle,found,marked,valued,rfl⟩ := run_seq ran
  obtain ⟨inner,read,rfl⟩ := Outcome.map_eq_taken_iff.mp (run_required valued)
  have first := Edged.taken rfl before marked
  have seam := first.seam rfl (by simp [Edges.whole])
  have spaced := (Edged.taken rfl (before ++ text.take (widthAll equals)) read).spaced fun _ => seam
  obtain ⟨lead,value,rfl,single,roles⟩ := Single.exists_lead rfl read
  have here := seam_of_trivia ((spacedAll_append _ _ _ _).mp spaced).1 single.lead seam
  rw [first.rest_eq,List.append_assoc,← List.take_add,List.drop_drop] at here
  refine ⟨equals ++ lead.map (label .value),value.label .value,by simp,?_,?_⟩
  · refine (unvalued_of_single rfl marked).append fun part member => ?_
    obtain ⟨own,inside,rfl⟩ := List.mem_map.mp member
    simp [label_of_isTrivia (single.lead own inside) (roles own inside),roles own inside]
  · rwa [widthAll_append,widthAll_map_label]

theorem valueLast_of_declarator
    (ran : (declarator dialect rules).run text = .taken shapes rest) :
    ∃ lead parts, shapes = lead ++ [.node .variableDeclarator none parts] ∧
      (∀ shape ∈ lead, shape.isTrivia = true) ∧
      ValueLast (before ++ text.take (widthAll lead)) (text.drop (widthAll lead)) parts := by
  obtain ⟨inner,read,rfl⟩ := Outcome.map_eq_taken_iff.mp ran
  have whole : inner.takeWhile isTrivia ++ inner.dropWhile isTrivia = inner :=
    List.takeWhile_append_dropWhile
  have last : ValueLast before text inner := by
    rcases run_or read with definite | usual
    · -- a name, an exclamation mark and a type
      obtain ⟨name,_,_,named,afterName,rfl⟩ := run_seq (run_when definite)
      obtain ⟨goes,_,_,went,onward,rfl⟩ := run_seq afterName
      obtain ⟨sure,_,typed,marked,ascribed,rfl⟩ := run_seq onward
      obtain ⟨rfl,_⟩ := run_check went
      have unvalued := (unvalued_of_field (by decide) rfl named).append
        ((unvalued_of_single rfl marked).append (unvalued_of_field (by decide) rfl ascribed))
      exact unvalued.valueLast before text
    · obtain ⟨name,_,_,named,afterName,rfl⟩ := run_seq usual
      obtain ⟨typed,_,valued,ascribed,afterType,rfl⟩ := run_seq afterName
      have target : Unvalued name := unvalued_of_field (by decide) rfl named
      have ascribing : Unvalued typed := by
        rcases run_maybe ascribed with found | ⟨rfl,_⟩
        · exact unvalued_of_field (by decide) rfl found
        · simp [Unvalued]
      rcases run_maybe afterType with initialized | ⟨rfl,_⟩
      · obtain ⟨goes,_,_,went,given,rfl⟩ := run_seq initialized
        obtain ⟨rfl,rfl⟩ := run_check went
        rw [(Edged.taken rfl [] ascribed).rest_eq,(Edged.taken rfl [] named).rest_eq,List.drop_drop] at given
        obtain ⟨others,value,rfl,unvalued,seam⟩ := seam_of_initializer rules
          (before ++ text.take (widthAll name + widthAll typed)) given
        rw [List.append_assoc,← List.take_add,List.drop_drop,Nat.add_assoc,← widthAll_append,
          ← widthAll_append] at seam
        have last : ValueLast before text (name ++ (typed ++ others) ++ [value]) :=
          valueLast_concat (target.append (ascribing.append unvalued)) seam
        simpa using last
      · rw [List.append_nil]
        exact (target.append ascribing).valueLast before text
  rw [← whole] at last
  exact ⟨_,_,rfl,fun shape member => List.mem_takeWhile_imp member,last.drop⟩

theorem declaredAll_of_declarator
    (ran : (declarator dialect rules).run text = .taken shapes rest)
    (stops : startsWithWord rest = false) : DeclaredAll before text shapes := by
  have covered := (Edged.taken rfl [] ran).rest_eq
  obtain ⟨lead,parts,rfl,trivia,last⟩ := valueLast_of_declarator dialect rules before ran
  refine (declaredAll_append _ _ _ _).mpr
    ⟨declaredAll_of_isBare (fun shape member => isBare_of_trivia (trivia shape member)) _ _,?_,trivial⟩
  refine .declarator ?_ last
  rw [covered,widthAll_append,← List.drop_drop] at stops
  simpa [widthAll,Shape.width] using stops

theorem declaredAll_of_many (fuel : Nat) (before : List Char)
    (ran : many.loop (mark "," >> declarator dialect rules) fuel text = .taken shapes rest)
    (stops : startsWithWord rest = false) :
    startsWithWord text = false ∧ DeclaredAll before text shapes := by
  have nothing {text : List Char} {shapes : List Shape} (before : List Char)
      (ran : Outcome.taken [] text = .taken shapes rest) :
      startsWithWord text = false ∧ DeclaredAll before text shapes := by
    cases ran
    exact ⟨stops,trivial⟩
  induction fuel generalizing before text shapes with
  | zero => exact nothing before ran
  | succ fuel ih =>
    rw [many.loop] at ran
    split at ran
    · contradiction
    · exact nothing before ran
    next found middle one =>
      split at ran
      · obtain ⟨more,others,rfl⟩ := Outcome.map_eq_taken_iff.mp ran
        obtain ⟨comma,_,item,marked,declared,rfl⟩ := run_seq one
        have first := (Edged.taken rfl [] marked).rest_eq
        subst first
        have second := (Edged.taken rfl [] declared).rest_eq
        rw [List.drop_drop,← widthAll_append] at second
        subst second
        -- what follows a declarator starts with a comma, or is the rest
        obtain ⟨ends,later⟩ := ih _ others
        refine ⟨startsWithWord_of_mark (by decide : isWordChar ',' = false) rfl marked,?_⟩
        rw [declaredAll_append,declaredAll_append]
        exact ⟨⟨declaredAll_of_isBare (Gives.each marked) _ _,
          declaredAll_of_declarator dialect rules _ declared ends⟩,later⟩
      · exact nothing before ran

theorem declaredAll_of_declarators
    (ran : (declarators dialect rules).run text = .taken shapes rest) :
    DeclaredAll before text shapes := by
  obtain ⟨listed,middle,several,goes⟩ := Outcome.bind_eq_taken_iff.mp ran
  obtain ⟨last,ended,rfl⟩ := Outcome.map_eq_taken_iff.mp goes
  have stops := startsWithWord_of_semicolon ended
  obtain ⟨first,_,more,one,others,rfl⟩ := run_seq several
  have covered := (Edged.taken rfl [] one).rest_eq
  subst covered
  obtain ⟨ends,later⟩ := declaredAll_of_many dialect rules _ _ others stops
  rw [declaredAll_append,declaredAll_append]
  exact ⟨⟨declaredAll_of_declarator dialect rules _ one ends,later⟩,
    declaredAll_of_isBare (Gives.each ended) _ _⟩

/-- A declaration of variables: a word, and what it declares. -/
theorem edged_declaration (kind : Kind) (declares : kind.declaresVariables = true) (word : Parser)
    {edges : Edges} [Edged word edges] [Gives IsBare word] :
    Edged (node kind (word >> declarators dialect rules)) (edges.seq .naming) where
  fits sound before text := by
    have parts := Edges.sound_seq sound
    apply Outcome.fits_map
    intro shapes rest ran
    refine (Edged.taken sound before ran).declare (composed_of_declaresVariables declares _) fun _ => ?_
    obtain ⟨early,_,late,went,goes,rfl⟩ := run_seq ran
    have covered := (Edged.taken parts.1 [] went).rest_eq
    subst covered
    exact (declaredAll_append _ _ _ _).mpr ⟨declaredAll_of_isBare (Gives.each went) _ _,
      declaredAll_of_declarators dialect rules _ goes⟩

end Grammar

end VueScope.Script
