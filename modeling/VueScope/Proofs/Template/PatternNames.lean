import VueScope.Proofs.Script.WrittenPattern
import VueScope.Template.Reference

/-! The names that a template pattern binds. The pattern is read as the parameters of a function, and
exactly the names that it binds are found, but for one that is read as a value. -/
namespace VueScope.Script

open VueScope.Script.Parser VueScope.Script.Grammar

variable {shapes : List Shape} {bindings : List Binding}

section Parameters

variable {text middle rest : List Char} {names : List String}

def TakesWord (parser : Parser) (text : List Char) : Prop :=
  Absent parser text ∨ ∃ shapes, wordAhead text ≠ "" ∧ parser.run text = .taken shapes (behindWord text)

theorem takesWord_name (kind : Kind) (test : String → Bool) (text : List Char) :
    TakesWord (name kind test) text := by
  by_cases word : wordAhead text = ""
  · exact .inl (.name (.inl word))
  · cases passed : test (wordAhead text) with
    | false => exact .inl (.name (.inr passed))
    | true =>
      refine .inr ⟨_,word,run_token ?_⟩
      rw [wordAhead_eq_empty_iff] at word
      simp only [wordAhead] at passed
      simp [word,passed]

theorem takesWord_keyword {written : String} (some : written ≠ "") (text : List Char) :
    TakesWord (keyword written) text := by
  by_cases same : wordAhead text = written
  · have size : (Lexeme.word (ahead text)).length = written.length := by
      rw [← same,wordAhead,String.length_ofList]
    refine .inr ⟨(trivia text).1 ++ [.leaf .keyword none written.length],same.trans_ne some,?_⟩
    rw [behindWord,size]
    unfold keyword keywordAs
    exact run_token (if_pos same)
  · exact .inl (.keyword same)

theorem run_modifier_absent {parser : Parser} (takes : TakesWord parser text)
    (quiet : wordAhead text = "" ∨ Comes ('=' :: closing) (behindWord text)) :
    (maybe (modifier .typescript parser)).run text = .taken [] text := by
  apply run_maybe_absent
  rcases takes with absent | ⟨shapes,word,ran⟩
  · exact absent.andThen _
  · have comes := quiet.resolve_left word
    rw [Absent,modifier,run_andThen ran,Absent.check]
    · rfl
    · simp [comes.wordAhead_eq,comes.nextIs_eq_false '{' rfl,comes.nextIs_eq_false '[' rfl,
        comes.operatorAhead_ne "..." rfl]

abbrev modifiers (rules : Rules) : Parser :=
  many (decorator .typescript rules) >>
  maybe (modifier .typescript
    (name .accessibilityModifier (["public", "private", "protected"].contains ·))) >>
  maybe (modifier .typescript (name .overrideModifier (· = "override"))) >>
  maybe (modifier .typescript (keyword "readonly"))

theorem run_modifiers (rules : Rules) (plain : nextIs '@' text = false)
    (quiet : wordAhead text = "" ∨ Comes ('=' :: closing) (behindWord text)) :
    (modifiers rules).run text = .taken [] text := by
  have decorated : (many (decorator .typescript rules)).run text = .taken [] text :=
    loops_of_absent (.node (.andThen (.mark rfl plain) _) _) _ (Nat.le_refl _)
  rw [run_andThen decorated,run_andThen (run_modifier_absent (takesWord_name _ _ _) quiet),
    run_andThen (run_modifier_absent (takesWord_name _ _ _) quiet),
    run_modifier_absent (takesWord_keyword (by decide) _) quiet]
  rfl

theorem run_branch {first : Parser} {choose : List Char → Kind × Parser} {kind : Kind} {later : Parser}
    {more : List Shape} (ran : first.run text = .taken shapes middle)
    (chosen : choose middle = (kind,later)) (went : later.run middle = .taken more rest) :
    (branch first choose).run text = .taken (Shape.wrap kind (shapes ++ more)) rest := by
  simp only [branch,ran,Outcome.bind,chosen,went,Outcome.map]

theorem reads_typedParameter {suits : Kind → Bool} (rules : Rules) (plain : nextIs '@' text = false)
    (quiet : wordAhead text = "" ∨ Comes ('=' :: closing) (behindWord text)) {subject tail : Parser}
    {edges : Edges} [Edged subject edges] (sound : edges.sound = true)
    (reads : ReadsOne suits subject text middle names) (comes : Comes ('=' :: closing) middle)
    {more : List Shape} (went : tail.run middle = .taken more rest)
    (covered : rest = middle.drop (Shape.widthAll more)) :
    Reads (branch (modifiers rules >> field .pattern subject) fun text =>
        if operatorAhead text = "?" then (.optionalParameter,optionalMark >> tail)
        else (.requiredParameter,tail)) text rest names := by
  obtain ⟨lead,shape,ran,part,binds⟩ := reads
  have first : (field .pattern subject).run text =
      .taken ((lead ++ [shape]).map (Shape.label .pattern)) middle := by
    simp only [field,ran,Outcome.map]
  have whole : Shape.Binds text (Shape.wrap .requiredParameter
      ([] ++ ((lead ++ [shape]).map (Shape.label .pattern) ++ more))) rest names :=
    part.binds (Edged.free_lead sound ran part.toIsSingle) [] rfl (List.forall_mem_nil _) binds covered
      ⟨rfl,fun _ _ _ _ _ => rfl⟩
  refine ⟨_,run_branch ((run_andThen (run_modifiers rules plain quiet)).trans (by rw [first]; rfl)) ?_ went,whole⟩
  exact if_neg (comes.operatorAhead_ne _ rfl)

theorem Written.quiet (written : Written .target text rest bindings) (comes : Comes ('=' :: closing) rest) :
    nextIs '@' text = false ∧ (wordAhead text = "" ∨ Comes ('=' :: closing) (behindWord text)) := by
  have empty {c : Char} (next : nextIs c text = true) (none : ∀ tail, Lexeme.word (c :: tail) = []) :
      wordAhead text = "" :=
    (wordAhead_eq_empty_iff text).mpr (ahead_of_nextIs next ▸ none _)
  cases written with
  | name word _ => exact ⟨nextIs_eq_false_of_word word fun _ => rfl,.inr comes⟩
  | @list item _ _ _ opens =>
    cases item <;> exact ⟨nextIs_of_ne opens (by decide),.inl (empty opens fun _ => rfl)⟩

theorem absent_type (rules : Rules) (comes : Comes ('=' :: closing) text) :
    Absent (field .type (ascription .typescript rules none)) text :=
  .field (.node (.andThen (.mark (c := ':') rfl (comes.nextIs_eq_false _ rfl)) _) _) _

variable {depth : Nat}

theorem reads_target (target : Written .target text middle bindings)
    (deep : depthPerChar * text.length ≤ depth + depthPerChar * middle.length)
    (comes : Comes ('=' :: closing) middle)
    (went : (maybe (initializer (unfolded depth) .inner)).run middle =
      .taken shapes rest) (covered : rest = middle.drop (Shape.widthAll shapes)) :
    Reads (parameter .typescript (unfolded depth)) text rest (noticed bindings) := by
  obtain ⟨plain,quiet⟩ := target.quiet comes
  obtain ⟨lead,shape,ran,part,binds⟩ : ReadsOne isUndefaulted
      (destination .typescript (unfolded depth)) text middle (noticed bindings) :=
    target.read (Nat.le_trans deep (by omega)) comes
  have edged := edged_rules .typescript depth
  refine Reads.orElse_right ?_ (reads_typedParameter _ plain quiet rfl
    (⟨lead,shape,run_orElse_of_taken _ ran,part,binds⟩ : ReadsOne isUndefaulted _ text middle _) comes ?_ covered)
  · have absent := (absent_restPattern target.not_dots (unfolded depth)).field .pattern
    simp only [Absent,branch,run_andThen (run_modifiers (unfolded depth) plain quiet),absent,
      Outcome.map,Outcome.bind]
  · rw [run_andThen (run_maybe_absent (absent_type _ comes)),went]
    rfl

theorem reads_parameter (written : Written (.item .element) text rest bindings)
    (deep : depthPerChar * text.length ≤ depth + depthPerChar * rest.length) (ends : nextIs ')' rest = true) :
    Reads (parameter .typescript (unfolded depth)) text rest (noticed bindings) := by
  have follows : Comes ('=' :: closing) rest := ⟨')',by decide,ends⟩
  cases written with
  | element target =>
    refine reads_target target deep follows (run_maybe_absent (.andThen (.symbol ?_) _)) rfl
    exact operatorAhead_ne ends (by decide) (by decide)
  | elementOr target default value =>
    have inner := target.length_le
    have less := Written.length_default default value
    simp only [depthPerChar,Written.Form.least] at deep inner
    obtain ⟨shapes,went,covered⟩ := run_default .value depth default value (by simp only [depthPerChar]; omega)
    refine reads_target target ?_ (.of_default default) (run_orElse_of_taken _ went) covered
    simp only [depthPerChar]
    omega
  | remaining dots target =>
    have less : ((ahead text).drop 3).length < text.length := length_behind_operator dots (by decide)
    obtain ⟨tail,whole⟩ := exists_of_operatorAhead dots (by decide)
    have empty : wordAhead text = "" := (wordAhead_eq_empty_iff text).mpr (whole ▸ rfl)
    have plain : nextIs '@' text = false := by simp [nextIs,whole]
    have edged := edged_rules .typescript depth
    refine Reads.orElse_left _ (reads_typedParameter _ plain (.inl empty) rfl
      (readsOne_restPattern dots (target.read ?_ follows)) follows
      (run_maybe_absent ((absent_type _ follows).andThen _)) rfl)
    simp only [depthPerChar,Written.Form.slack] at deep ⊢
    omega

theorem run_parameters (written : Written (.item .element) text rest bindings) (depth : Nat)
    (deep : depthPerChar * text.length ≤ depth + depthPerChar * rest.length) (ends : nextIs ')' rest = true) :
    ∃ shapes, (unfolded (depth + 1) .parameters).run ('(' :: text) =
        .taken [.node .formalParameters none (.leaf .mark none 1 :: shapes)] ((ahead rest).drop 1) ∧
      Shape.namesAt 0 ('(' :: text) (.leaf .mark none 1 :: shapes) = noticed bindings := by
  have comma : Absent (mark ",") rest := .mark (c := ',') rfl (nextIs_of_ne ends (by decide))
  have alone : Reads (many (mark "," >> parameter .typescript (unfolded depth))) rest rest [] :=
    ⟨[],loops_of_absent (comma.andThen _) _ (Nat.le_refl _),.nothing rest⟩
  have trailing : Reads (maybe (mark ",")) rest rest [] := ⟨[],run_maybe_absent comma,.nothing rest⟩
  obtain ⟨shapes,ran,binds⟩ := ((((reads_parameter written deep ends).andThen alone).andThen trailing).orElse_left
    done).andThen (reads_mark ")" rfl ends)
  refine ⟨shapes,?_,?_⟩
  · have opened : (mark "(").run ('(' :: text) = .taken [.leaf .mark none 1] text := rfl
    change (Parser.node .formalParameters (mark "(" >> _)).run _ = _
    simp only [Parser.node,run_andThen opened]
    exact congrArg _ (congrArg _ ran)
  · change Shape.namesAt 1 text shapes = _
    simpa using binds.names_eq 1

theorem run_chain_of_all {first : Parser} (wraps : List Wrap) (ran : first.run text = .taken shapes []) :
    (chain first wraps).run text = .taken shapes [] := by
  simp only [chain,ran,Outcome.bind,List.length_nil,chain.grow]

theorem run_body (depth : Nat) : (arrowBody .typescript (unfolded (depth + 3)) .outer).run
    " => 0".toList = .taken [.blank 1,.leaf .mark none 2,.blank 1,.leaf .number (some .body) 1] [] :=
  rfl

def functionOf (parameters : List Shape) : Shape :=
  .node .arrowFunction none [.node .formalParameters (some .parameters) parameters,.blank 1,.leaf .mark none 2,
    .blank 1,.leaf .number (some .body) 1]

theorem run_signedArrow {shapes : List Shape}
    (ran : (unfolded (depth + 3) .parameters).run ('(' :: text) =
      .taken [.node .formalParameters none shapes] " => 0".toList) :
    (signedArrow .typescript (unfolded (depth + 3)) .outer).run ('(' :: text) =
      .taken [functionOf shapes] [] := by
  have untimed : (maybe (asyncMark .typescript Mode.outer.place)).run ('(' :: text) =
      .taken [] ('(' :: text) := rfl
  have untyped : (maybe (typeParameters .typescript (unfolded (depth + 3)))).run
      ('(' :: text) = .taken [] ('(' :: text) := rfl
  have listed : (field .parameters (unfolded (depth + 3) .parameters)).run ('(' :: text) =
      .taken [.node .formalParameters (some .parameters) shapes] " => 0".toList := by
    simp only [field,ran,Outcome.map]
    rfl
  have signature : (callSignature .typescript (unfolded (depth + 3)) Mode.outer.typedArrow
      none).run ('(' :: text) =
      .taken [.node .formalParameters (some .parameters) shapes] " => 0".toList := by
    rw [callSignature,run_andThen untyped,run_andThen listed]
    rfl
  simp only [signedArrow,Parser.node]
  rw [run_andThen untimed,run_andThen signature,run_body]
  rfl

theorem run_program {shapes : List Shape} (arrowed : hasArrow ('(' :: text) = true)
    (ran : (unfolded (depth + 3) .parameters).run ('(' :: text) =
      .taken [.node .formalParameters none shapes] " => 0".toList) :
    (program .typescript (depth + 8)).run ('(' :: text) =
      .taken [.node .expressionStatement none [functionOf shapes]] [] := by
  have signed : (arrow .typescript (unfolded (depth + 3)) .outer).run ('(' :: text) =
      .taken [functionOf shapes] [] := by
    have next : ahead ('(' :: text) = '(' :: text := rfl
    have word : Lexeme.word ('(' :: text) = [] := rfl
    simp [arrow,look,next,word,arrowed,run_signedArrow ran]
  have primary : (primary .typescript (unfolded (depth + 3)) .outer).run ('(' :: text) =
      .taken [functionOf shapes] [] :=
    run_orElse_of_taken _ signed
  have unary : (unfolded (depth + 4) (.unary .outer)).run ('(' :: text) =
      .taken [functionOf shapes] [] :=
    run_chain_of_all _ primary
  have expression : (unfolded (depth + 6) (.expression .outer)).run ('(' :: text) =
      .taken [functionOf shapes] [] :=
    run_chain_of_all _ (run_chain_of_all _ unary)
  have sequence : (unfolded (depth + 7) (.sequence .outer)).run ('(' :: text) =
      .taken [functionOf shapes] [] := by
    change (sequence.branchSequence _ _).run _ = _
    simp only [sequence.branchSequence,expression,Outcome.bind]
    rfl
  have statement : (unfolded (depth + 8) .statement).run ('(' :: text) =
      .taken [.node .expressionStatement none [functionOf shapes]] [] := by
    change (expressionStatement .typescript _).run _ = _
    simp only [expressionStatement,Parser.node,run_andThen sequence]
    rfl
  have looped : (many (unfolded (depth + 8) .statement)).run ('(' :: text) =
      .taken [.node .expressionStatement none [functionOf shapes]] [] :=
    Loops.step statement (Nat.zero_lt_succ _) (loops_of_absent rfl) _ (Nat.le_refl _)
  have first : (maybe hashBang).run ('(' :: text) = .taken [] ('(' :: text) := rfl
  rw [program,run_andThen first,run_andThen looped]
  rfl

end Parameters

theorem isSpace_of_word {c : Char} {tail : List Char} (word : Lexeme.word (c :: tail) ≠ []) :
    Text.isSpace c = false := by
  by_contra space
  rw [Bool.not_eq_false] at space
  apply word
  have gap : Lexeme.startsName c = false := by
    simp only [Text.isSpace,Bool.or_eq_true,Bool.and_eq_true,decide_eq_true_eq] at space
    rcases space with white | control
    · simp [Lexeme.startsName,Lexeme.isGap,white]
    · have low : c.toNat < 0x20 := by omega
      simp [Lexeme.startsName,low]
  have plain : Lexeme.codePointLength? (c :: tail) = none := by
    unfold Lexeme.codePointLength?
    split <;> simp_all [Text.isSpace,Text.isWhite]
  simp [Lexeme.word,gap,plain]

/-- Something solid stands at the front of a text, and the rest follows behind it. -/
def StartsSolid (text rest : List Char) : Prop :=
  rest.length < (ahead text).length ∧ ∃ c ∈ (ahead text).head?, Text.isSpace c = false

theorem startsSolid_of_nextIs {c : Char} {text middle rest : List Char} (next : nextIs c text = true)
    (solid : Text.isSpace c = false) (inner : middle.length ≤ ((ahead text).drop 1).length)
    (less : rest.length < middle.length) : StartsSolid text rest := by
  rw [List.length_drop] at inner
  refine ⟨by omega,c,?_,solid⟩
  rw [ahead_of_nextIs next]
  rfl

theorem Written.startsSolid {text rest : List Char} (written : Written (.item .element) text rest bindings) :
    StartsSolid text rest := by
  have target {text rest : List Char} (target : Written .target text rest bindings) : StartsSolid text rest := by
    cases target with
    | name word _ =>
      rw [ne_eq,wordAhead_eq_empty_iff] at word
      have fits := Lexeme.word_length_le (ahead text)
      have positive := List.length_pos_iff.mpr word
      refine ⟨by rw [List.length_drop]; omega,?_⟩
      cases found : ahead text with
      | nil => exact absurd (by rw [found]; rfl) word
      | cons c tail => exact ⟨c,rfl,isSpace_of_word (found ▸ word)⟩
    | @list item _ _ _ opens items closes =>
      cases item <;> exact startsSolid_of_nextIs opens rfl items.length_le (length_behind_next closes)
  cases written with
  | element only => exact target only
  | elementOr only default value =>
    obtain ⟨less,solid⟩ := target only
    exact ⟨Nat.lt_trans (length_default default value) less,solid⟩
  | remaining dots only =>
    obtain ⟨tail,whole⟩ := exists_of_operatorAhead dots (by decide)
    have less := only.length_le
    rw [List.length_drop] at less
    exact ⟨by simp only [Form.least] at less; omega,'.',by rw [whole]; rfl,rfl⟩

theorem isBlank_of_startsSolid {content tail rest : List Char} (starts : StartsSolid (content ++ tail) rest)
    (less : tail.length ≤ rest.length) : Text.isBlank content = false := by
  obtain ⟨longer,c,first,solid⟩ := starts
  rw [ahead_eq_drop] at longer first
  have short : Shape.widthAll (trivia (content ++ tail)).1 < content.length := by
    rw [List.length_drop,List.length_append] at longer
    omega
  rw [List.drop_append_of_le_length (Nat.le_of_lt short)] at first
  have member : c ∈ content := by
    have some : content.drop (Shape.widthAll (trivia (content ++ tail)).1) ≠ [] := by simpa using short
    rw [List.head?_append_of_ne_nil _ some] at first
    exact List.mem_of_mem_drop (List.mem_of_mem_head? first)
  simp only [Text.isBlank,List.all_eq_false]
  exact ⟨c,member,by simp [solid]⟩

end VueScope.Script

namespace VueScope.Template

open Script Parser

/-- The names of a pattern are those that it binds. White space and comments may follow it. -/
theorem pattern_names_are_those_bound [Recovery] (content rest : List Char) (bindings : List Binding)
    (written : Written (.item .element) (content ++ ") => 0".toList) rest bindings)
    (ends : ahead rest = ") => 0".toList) :
    patternNames content = (bindings.filter Binding.isNoticed).map Binding.name := by
  have least : ") => 0".toList.length ≤ rest.length := by
    rw [← ends,ahead_eq_drop,List.length_drop]
    omega
  have solid := isBlank_of_startsSolid written.startsSolid least
  have arrowed : Grammar.hasArrow ('(' :: (content ++ ") => 0".toList)) = true := by
    rw [Grammar.hasArrow,Text.isSome_breakOn?_iff]
    exact ⟨'(' :: content ++ [')', ' '],[' ', '0'],by simp⟩
  obtain ⟨depth,deep⟩ : ∃ depth, depthPerChar * (('(' :: content ++ ") => 0".toList).length + 2) = depth + 8 :=
    ⟨depthPerChar * (('(' :: content ++ ") => 0".toList).length + 2) - 8,by simp [depthPerChar]; omega⟩
  obtain ⟨shapes,ran,names⟩ := run_parameters written (depth + 2)
    (by simp [depthPerChar] at deep ⊢; omega) (by rw [nextIs,ends]; rfl)
  rw [ends] at ran
  have parsed := run_program arrowed ran
  rw [patternNames,solid,tree,parse?,deep,List.cons_append,parsed]
  exact names

theorem nested_names_are_bound : patternNames "\x7ba,k:[b=1,,...c]\x7d ".toList = ["a","b","c"] := by
  have first : Written .target "b=1,,...c]\x7d ) => 0".toList "=1,,...c]\x7d ) => 0".toList [⟨"b",false⟩] :=
    .name (by decide) rfl
  have last : Written .target "c]\x7d ) => 0".toList "]\x7d ) => 0".toList [⟨"c",false⟩] :=
    .name (by decide) rfl
  have value : Written.IsValue "1,,...c]\x7d ) => 0".toList ",,...c]\x7d ) => 0".toList := by
    intro depth deep
    obtain ⟨depth,rfl⟩ : ∃ less, depth = less + 3 := ⟨depth - 3,by simp [depthPerChar] at deep; omega⟩
    exact ⟨_,rfl⟩
  have remaining : Written (.row .element) ",...c]\x7d ) => 0".toList "]\x7d ) => 0".toList [⟨"c",false⟩] :=
    .leftOut rfl (.last (.remaining rfl last))
  have elements : Written (.row .element) "b=1,,...c]\x7d ) => 0".toList "]\x7d ) => 0".toList
      [⟨"b",false⟩,⟨"c",false⟩] :=
    .more (.elementOr first rfl value) rfl remaining
  have array : Written .target "[b=1,,...c]\x7d ) => 0".toList "\x7d ) => 0".toList [⟨"b",false⟩,⟨"c",false⟩] :=
    @Written.list .element "[b=1,,...c]\x7d ) => 0".toList _ _ rfl elements rfl
  have key : Written.IsKey "k:[b=1,,...c]\x7d ) => 0".toList ":[b=1,,...c]\x7d ) => 0".toList :=
    fun _ _ => ⟨_,rfl⟩
  have shorthand : Written (.item .entry) "a,k:[b=1,,...c]\x7d ) => 0".toList ",k:[b=1,,...c]\x7d ) => 0".toList
      [⟨"a",true⟩] :=
    .shorthand (by decide)
  have entries : Written (.row .entry) "a,k:[b=1,,...c]\x7d ) => 0".toList "\x7d ) => 0".toList
      [⟨"a",true⟩,⟨"b",false⟩,⟨"c",false⟩] :=
    .more shorthand rfl (.last (.pair key rfl (.element array)))
  have whole : Written .target "\x7ba,k:[b=1,,...c]\x7d ) => 0".toList " ) => 0".toList
      [⟨"a",true⟩,⟨"b",false⟩,⟨"c",false⟩] :=
    @Written.list .entry "\x7ba,k:[b=1,,...c]\x7d ) => 0".toList _ _ rfl entries rfl
  exact pattern_names_are_those_bound "\x7ba,k:[b=1,,...c]\x7d ".toList _ _ (.element whole) rfl

/-- A parameter of this name is read as a value, and so its name is missing. -/
theorem parameter_undefined_is_missing :
    Written (.item .element) ("undefined".toList ++ ") => 0".toList) ") => 0".toList [⟨"undefined",false⟩] ∧
      patternNames "undefined".toList = [] :=
  ⟨.element (.name (by decide) rfl),by decide +kernel⟩

end VueScope.Template
