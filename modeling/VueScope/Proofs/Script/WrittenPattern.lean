import VueScope.Proofs.Script.Reads

/-! How binding patterns are written, and that the grammar reads every one of them. -/
namespace VueScope.Script

open VueScope.Script.Parser VueScope.Script.Grammar

abbrev behindWord (text : List Char) : List Char :=
  (ahead text).drop (Lexeme.word (ahead text)).length

abbrev unfolded (depth : Nat) : Rules :=
  Grammar.rules .typescript depth

/-- A name that a pattern binds, and whether it is written as a shorthand for an entry. -/
structure Binding where
  name : String
  shorthand : Bool
deriving DecidableEq

namespace Written

/-- The text up to the rest is one construct, to whatever depth the grammar is unfolded. One depth would
not do, since the first alternative that succeeds may fail at another depth. -/
def Takes (parser : Rules → Parser) (text rest : List Char) : Prop :=
  ∀ depth, depthPerChar * text.length ≤ depth + depthPerChar * rest.length →
    ∃ shapes, (parser (unfolded depth)).run text = .taken shapes rest

abbrev IsValue : List Char → List Char → Prop :=
  Takes fun rules => rules (.expression .inner)

/-- A key of an entry is a word, a string, a number, or an expression in brackets. -/
abbrev IsKey : List Char → List Char → Prop :=
  Takes propertyName

inductive Item where
  | element
  | entry

namespace Item

def opener : Item → Char
  | element => '['
  | entry => '{'

def closer : Item → Char
  | element => ']'
  | entry => '}'

end Item

inductive Form where
  /-- A name, or something taken apart. -/
  | target
  | item (item : Item)
  /-- Items with commas between them, each of which may be left out. -/
  | row (item : Item)

end Written

open Written (Form Item Takes IsValue IsKey)

/-- A form of a binding pattern stands at the front of a text, the rest follows, and names are bound. -/
inductive Written : Form → List Char → List Char → List Binding → Prop where
  | name {text : List Char} (word : wordAhead text ≠ "")
      (free : isOperandWord .typescript (wordAhead text) = false) :
      Written .target text (behindWord text) [⟨wordAhead text,false⟩]
  | list {item : Item} {text middle : List Char} {bindings : List Binding}
      (opens : nextIs item.opener text = true)
      (items : Written (.row item) ((ahead text).drop 1) middle bindings)
      (closes : nextIs item.closer middle = true) : Written .target text ((ahead middle).drop 1) bindings
  | element {text rest : List Char} {bindings : List Binding} (target : Written .target text rest bindings) :
      Written (.item .element) text rest bindings
  | elementOr {text middle rest : List Char} {bindings : List Binding}
      (target : Written .target text middle bindings) (default : operatorAhead middle = "=")
      (value : IsValue ((ahead middle).drop 1) rest) : Written (.item .element) text rest bindings
  | remaining {item : Item} {text rest : List Char} {bindings : List Binding} (dots : operatorAhead text = "...")
      (target : Written .target ((ahead text).drop 3) rest bindings) : Written (.item item) text rest bindings
  | shorthand {text : List Char} (word : wordAhead text ≠ "") :
      Written (.item .entry) text (behindWord text) [⟨wordAhead text,true⟩]
  | shorthandOr {text rest : List Char} (word : wordAhead text ≠ "")
      (default : operatorAhead (behindWord text) = "=")
      (value : IsValue ((ahead (behindWord text)).drop 1) rest) :
      Written (.item .entry) text rest [⟨wordAhead text,true⟩]
  | pair {text middle rest : List Char} {bindings : List Binding} (key : IsKey text middle)
      (colon : nextIs ':' middle = true)
      (element : Written (.item .element) ((ahead middle).drop 1) rest bindings) :
      Written (.item .entry) text rest bindings
  | none {item : Item} (text : List Char) : Written (.row item) text text []
  | last {item : Item} {text rest : List Char} {bindings : List Binding}
      (only : Written (.item item) text rest bindings) : Written (.row item) text rest bindings
  | leftOut {item : Item} {text rest : List Char} {bindings : List Binding} (comma : nextIs ',' text = true)
      (later : Written (.row item) ((ahead text).drop 1) rest bindings) : Written (.row item) text rest bindings
  | more {item : Item} {text middle rest : List Char} {bindings others : List Binding}
      (first : Written (.item item) text middle bindings) (comma : nextIs ',' middle = true)
      (later : Written (.row item) ((ahead middle).drop 1) rest others) :
      Written (.row item) text rest (bindings ++ others)

/-- Whether the name is noticed. Outside of a shorthand `undefined` is read as a value. -/
def Binding.isNoticed (binding : Binding) : Bool :=
  binding.shorthand || binding.name ≠ "undefined"

def noticed (bindings : List Binding) : List String :=
  (bindings.filter Binding.isNoticed).map Binding.name

variable {text middle rest : List Char} {names : List String} {bindings : List Binding} {depth : Nat}

/-! The text gets shorter. -/

theorem length_behind_next {c : Char} (next : nextIs c text = true) :
    ((ahead text).drop 1).length < text.length := by
  have less := length_ahead_le text
  rw [ahead_of_nextIs next] at less ⊢
  exact less

theorem length_behind_operator {written : String} (next : operatorAhead text = written) (some : written ≠ "") :
    ((ahead text).drop written.length).length < text.length := by
  have less := length_ahead_le text
  obtain ⟨tail,whole⟩ := exists_of_operatorAhead next some
  have positive : 0 < written.toList.length :=
    List.length_pos_iff.mpr fun none => some (String.toList_eq_nil_iff.mp none)
  rw [whole,List.length_append] at less
  rw [whole,← String.length_toList,List.drop_left]
  omega

theorem length_behind_word (word : wordAhead text ≠ "") : (behindWord text).length < text.length := by
  have less := length_ahead_le text
  have fits := Lexeme.word_length_le (ahead text)
  rw [ne_eq,wordAhead_eq_empty_iff,← List.length_eq_zero_iff] at word
  rw [List.length_drop]
  omega

namespace Written

theorem Takes.length_le {parser : Rules → Parser} {edges : Edges}
    (edged : ∀ depth, Edged (parser (unfolded depth)) edges) (sound : edges.sound = true)
    (takes : Takes parser text rest) : rest.length ≤ text.length := by
  obtain ⟨shapes,ran⟩ := takes _ (Nat.le_add_right _ _)
  have := edged (depthPerChar * text.length)
  rw [(Edged.taken sound [] ran).rest_eq,List.length_drop]
  omega

theorem length_default (default : operatorAhead text = "=") (value : IsValue ((ahead text).drop 1) rest) :
    rest.length < text.length :=
  Nat.lt_of_le_of_lt (value.length_le (fun depth => edged_rules .typescript depth _) rfl)
    (length_behind_operator default (by decide))

theorem IsKey.length_le (key : IsKey text rest) : rest.length ≤ text.length :=
  Takes.length_le (fun depth => have := edged_rules .typescript depth; inferInstance) rfl key

def Form.least : Form → Nat
  | target => 1
  | item _ => 1
  | row _ => 0

theorem length_le {form : Form} (written : Written form text rest bindings) :
    rest.length + form.least ≤ text.length := by
  induction written with
  | name word _ => exact length_behind_word word
  | list opens _ closes ih =>
    have first := length_behind_next opens
    have last := length_behind_next closes
    simp only [Form.least] at ih ⊢
    omega
  | element _ ih => exact ih
  | elementOr _ default value ih =>
    have fewer := length_default default value
    simp only [Form.least] at ih ⊢
    omega
  | remaining dots _ ih => exact Nat.le_of_lt (Nat.lt_of_le_of_lt ih (length_behind_operator dots (by decide)))
  | shorthand word => exact length_behind_word word
  | shorthandOr word default value =>
    exact Nat.le_of_lt (Nat.lt_of_le_of_lt (length_default default value) (length_behind_word word))
  | pair key colon _ ih =>
    have sign := length_behind_next colon
    have fewer := key.length_le
    simp only [Form.least] at ih ⊢
    omega
  | none text => exact Nat.le_refl _
  | last _ ih => exact Nat.le_of_succ_le ih
  | leftOut comma _ ih =>
    have sign := length_behind_next comma
    simp only [Form.least] at ih ⊢
    omega
  | more _ comma _ first later =>
    have sign := length_behind_next comma
    simp only [Form.least] at first later ⊢
    omega

end Written

/-! What is absent where a sign comes next. -/

def Comes (signs : List Char) (text : List Char) : Prop :=
  ∃ c ∈ signs, nextIs c text = true

def closing : List Char := [',', ')', ']', '}']

namespace Comes

variable {signs : List Char}

theorem mono {more : List Char} (comes : Comes signs text) (le : signs ⊆ more) : Comes more text := by
  obtain ⟨c,among,next⟩ := comes
  exact ⟨c,le among,next⟩

theorem of_default (next : operatorAhead text = "=") : Comes ('=' :: closing) text := by
  obtain ⟨tail,whole⟩ := exists_of_operatorAhead next (by decide)
  exact ⟨'=',List.mem_cons_self,by simp [nextIs,whole]⟩

theorem nextIs_eq_false (comes : Comes signs text) (d : Char) (other : signs.contains d = false) :
    nextIs d text = false := by
  obtain ⟨c,among,next⟩ := comes
  apply nextIs_of_ne next
  rintro rfl
  simp [among] at other

theorem operatorAhead_ne (comes : Comes signs text) (written : String)
    (other : (written.toList.head?.any fun c => !signs.contains c) = true) : operatorAhead text ≠ written := by
  obtain ⟨c,among,next⟩ := comes
  apply Parser.operatorAhead_ne next
  · intro starts
    simp [starts,among] at other
  · rintro rfl
    contradiction

theorem wordAhead_eq (comes : Comes ('=' :: closing) text) : wordAhead text = "" := by
  obtain ⟨c,among,next⟩ := comes
  rw [wordAhead_eq_empty_iff,ahead_of_nextIs next]
  simp only [closing,List.mem_cons,List.not_mem_nil,or_false] at among
  rcases among with rfl | rfl | rfl | rfl | rfl <;> rfl

end Comes

theorem absent_suffixes (rules : Rules) (comes : Comes ('=' :: closing) text) :
    ∀ wrap ∈ suffixes .typescript rules, Absent wrap.rest text := by
  have chained : Absent (Parser.node .optionalChain (symbol "?.")) text :=
    .node (.symbol (comes.operatorAhead_ne _ rfl)) _
  have called : Absent (Parser.field .arguments (arguments rules)) text :=
    .field (.node (.andThen (.check (comes.nextIs_eq_false _ rfl)) _) _) _
  have typed : Absent (Parser.field .typeArguments (typeArguments rules)) text := by
    refine .field (.node (.andThen (.check ?_) _) _) _
    rw [comes.nextIs_eq_false _ rfl,Bool.false_and]
  simp only [suffixes,optionalAccesses,memberAccess,subscriptAccess,taggedTemplate,List.cons_append,
    List.nil_append,List.forall_mem_cons]
  exact ⟨.andThen (.symbol (comes.operatorAhead_ne _ rfl)) _,
    .andThen (.mark (c := '[') rfl (comes.nextIs_eq_false _ rfl)) _,called,
    .andThen (.check (comes.nextIs_eq_false _ rfl)) _,.andThen chained _,.andThen chained _,.andThen chained _,
    .andThen typed _,by simp⟩

theorem absent_access (none : wordAhead text = "") (depth : Nat) : Absent (unfolded depth .access) text := by
  cases depth with
  | zero => rfl
  | succ depth =>
    exact .chain (.orElse (.orElse (.name (.inl none)) (.name (.inl none)))
      (.orElse (.keyword (by simp [none])) (.keyword (by simp [none])))) _

theorem absent_destination (none : wordAhead text = "") (brace : nextIs '{' text = false)
    (bracket : nextIs '[' text = false) (depth : Nat) :
    Absent (destination .typescript (unfolded depth)) text := by
  simp only [Absent,destination,look,brace,bracket,Bool.or_self,Bool.false_eq_true,if_false,target,trial,
    absent_access none depth,Outcome.bind]

theorem absent_restPattern (other : operatorAhead text ≠ "...") (rules : Rules) :
    Absent (restPattern .typescript rules) text :=
  .node (.andThen (.symbol other) _) _

/-! Names, and what is taken apart. -/

theorem readsOne_reference (word : wordAhead text ≠ "")
    (free : isOperandWord .typescript (wordAhead text) = false) :
    ReadsOne (fun kind => kind = .identifier || kind = .undefined) (reference .typescript) text
      (behindWord text) (noticed [⟨wordAhead text,false⟩]) := by
  by_cases special : wordAhead text = "undefined"
  · have reads : ReadsOne (fun kind => kind = .identifier || kind = .undefined)
        (name .undefined (· = "undefined")) text _ [] :=
      readsOne_name rfl rfl word (by simp [special]) fun _ => rfl
    have whole : noticed [⟨wordAhead text,false⟩] = [] := by simp [noticed,Binding.isNoticed,special]
    rw [whole]
    exact reads.through (run_orElse_of_taken _)
  · have names (start : Nat) : Shape.namesAt start (ahead text)
        [.leaf .identifier none (Lexeme.word (ahead text)).length] = [wordAhead text] := by
      simp only [Shape.namesAt,Shape.locateAll,Shape.locate?,Lexeme.take_word]
      rfl
    have reads : ReadsOne (fun kind => kind = .identifier || kind = .undefined)
        (identifier .typescript) text _ [wordAhead text] :=
      readsOne_name rfl rfl word (by simp [special,free]) names
    have whole : noticed [⟨wordAhead text,false⟩] = [wordAhead text] := by
      simp [noticed,Binding.isNoticed,special]
    rw [whole]
    exact reads.through (run_orElse_of_absent _ (.name (.inr (by simp [special])))).trans

/-- Kinds that a default value may follow. -/
def isUndefaulted (kind : Kind) : Bool :=
  kind ≠ .assignmentPattern && kind ≠ .restPattern

theorem readsOne_target (word : wordAhead text ≠ "")
    (free : isOperandWord .typescript (wordAhead text) = false)
    (comes : Comes ('=' :: closing) (behindWord text)) (depth : Nat) :
    ReadsOne isUndefaulted (target .typescript (unfolded (depth + 1))) text
      (behindWord text) (noticed [⟨wordAhead text,false⟩]) := by
  obtain ⟨lead,shape,ran,part,binds⟩ := readsOne_reference word free
  obtain ⟨kind,kind?,named,fitting⟩ := part.kind
  have access : (unfolded (depth + 1) .access).run text = .taken (lead ++ [shape]) (behindWord text) := by
    apply run_chain _ (run_orElse_of_taken _ ran)
    exact List.forall_mem_append.mpr ⟨absent_suffixes _ comes,
      List.forall_mem_singleton.mpr (.symbol (comes.operatorAhead_ne _ rfl))⟩
  have assignable : isTarget .typescript (some kind) = true ∧ isUndefaulted kind = true := by
    simp only [Bool.or_eq_true,decide_eq_true_eq] at fitting
    rcases fitting with rfl | rfl <;> exact ⟨rfl,rfl⟩
  refine ⟨lead,shape,?_,⟨part.toIsSingle,kind,kind?,named,assignable.2⟩,binds⟩
  simp only [target,trial,access,Outcome.bind,Shape.mainKind?_of_isSingle part.toIsSingle,kind?,assignable.1,
    if_true]

theorem readsOne_destination (opens : nextIs '{' text = true ∨ nextIs '[' text = true)
    (reads : ReadsOne isUndefaulted (unfolded depth .destructuring) text rest names)
    (comes : Comes ('=' :: closing) rest) :
    ReadsOne isUndefaulted (destination .typescript (unfolded depth)) text rest names := by
  have unaccessed : (!(['.', '[', '('].any fun c => nextIs c rest) && operatorAhead rest ≠ "?.") = true := by
    simp [comes.nextIs_eq_false '.' rfl,comes.nextIs_eq_false '[' rfl,comes.nextIs_eq_false '(' rfl,
      comes.operatorAhead_ne "?." rfl]
  refine reads.through fun ran => ?_
  simp only [destination,look]
  rw [if_pos (by simpa using opens)]
  apply run_orElse_of_taken
  rw [run_andThen ran]
  simp only [check,unaccessed,if_true,Outcome.map,List.append_nil]

def Written.Item.parser (depth : Nat) : Item → Parser
  | element => patternWithDefault (unfolded depth)
  | entry => patternEntry .typescript (unfolded depth)

theorem readsOne_destructuring {item : Item} (opens : nextIs item.opener text = true)
    (closes : nextIs item.closer middle = true)
    (row : ReadsRow (item.parser depth) ((ahead text).drop 1) middle names) :
    ReadsOne isUndefaulted (unfolded (depth + 1) .destructuring) text ((ahead middle).drop 1) names := by
  cases item with
  | element =>
    have reads := row.listOf (reads_mark "[" rfl opens) (reads_mark "]" rfl closes)
    refine (reads.node rfl ⟨rfl,fun _ _ _ _ _ => rfl⟩ : ReadsOne _ (.node .arrayPattern _) _ _ _).through ?_
    intro shapes ran
    change (destructuring .typescript _).run text = _
    simp only [destructuring,look,nextIs_of_ne opens (by decide : '[' ≠ '{'),Bool.false_eq_true,if_false]
    exact ran
  | entry =>
    have brace : nextIs '{' text = true := opens
    have reads := row.listOf (reads_mark "\x7b" rfl opens) (reads_mark "\x7d" rfl closes)
    refine (reads.node rfl ⟨rfl,fun _ _ _ _ _ => rfl⟩ : ReadsOne _ (.node .objectPattern _) _ _ _).through ?_
    intro shapes ran
    change (destructuring .typescript _).run text = _
    simp only [destructuring,look,brace,if_true]
    exact ran

theorem readsOne_restPattern (dots : operatorAhead text = "...")
    (reads : ReadsOne isUndefaulted (destination .typescript (unfolded depth)) ((ahead text).drop 3) rest names) :
    ReadsOne (fun _ => true) (restPattern .typescript (unfolded depth)) text rest names :=
  ((reads_symbol dots).andThen reads.reads).node rfl ⟨rfl,fun _ _ _ _ _ => rfl⟩

/-! Default values. -/

theorem run_default (role : Field) (depth : Nat) (default : operatorAhead text = "=")
    (value : IsValue ((ahead text).drop 1) rest)
    (deep : depthPerChar * text.length ≤ depth + depthPerChar * (rest.length + 1)) :
    ∃ shapes, (symbol "=" >> required (field role (unfolded depth (.expression .inner)))).run text =
      .taken shapes rest ∧ rest = text.drop (Shape.widthAll shapes) := by
  have fewer : ((ahead text).drop 1).length < text.length := length_behind_operator default (by decide)
  obtain ⟨sign,equals,_⟩ : Reads (symbol "=") text ((ahead text).drop 1) [] := reads_symbol default
  obtain ⟨shapes,ran⟩ := value depth (by simp only [depthPerChar] at deep ⊢; omega)
  have edged := edged_rules .typescript depth
  have went : (symbol "=" >> required (field role (unfolded depth (.expression .inner)))).run text =
      .taken (sign ++ shapes.map (Shape.label role)) rest := by
    rw [run_andThen equals]
    simp only [required,field,ran,Outcome.map]
  exact ⟨_,went,(Edged.taken rfl [] went).rest_eq⟩

theorem readsOne_element {suits : Kind → Bool} (comes : Comes closing rest)
    (reads : ReadsOne suits (unfolded depth .pattern) text rest names) :
    ReadsOne suits (patternWithDefault (unfolded depth)) text rest names :=
  reads.through fun ran => run_chain _ ran
    (List.forall_mem_singleton.mpr (.andThen (.symbol (comes.operatorAhead_ne _ rfl)) _))

theorem readsOne_pattern {suits : Kind → Bool} (other : operatorAhead text ≠ "...")
    (reads : ReadsOne suits (destination .typescript (unfolded depth)) text rest names) :
    ReadsOne suits (unfolded (depth + 1) .pattern) text rest names := by
  refine reads.through fun ran => ?_
  change (Grammar.pattern .typescript _).run text = _
  simpa only [Grammar.pattern,look,other,if_false] using ran

/-- Something with a default value behind it, where nothing that has one gets another. -/
theorem readsOne_chain {suits : Kind → Bool} {first : Parser} {edges : Edges} [Edged first edges] {kind : Kind}
    {accepts : Option Kind → Bool} (sound : edges.sound = true) (reads : ReadsOne suits first text middle names)
    (default : operatorAhead middle = "=") (value : IsValue ((ahead middle).drop 1) rest)
    (deep : depthPerChar * middle.length ≤ depth + depthPerChar * (rest.length + 1))
    (accepted : ∀ kind, suits kind = true → accepts (some kind) = true) (ends : accepts (some kind) = false)
    (inside : kind.BindsPart .left) :
    ReadsOne (fun _ => true) (chain first [⟨kind,some .left,accepts,symbol "=" >>
      required (field .right (unfolded depth (.expression .inner)))⟩]) text rest names := by
  obtain ⟨lead,shape,ran,part,binds⟩ := reads
  obtain ⟨own,kind?,_,fitting⟩ := part.kind
  obtain ⟨more,went,covered⟩ := run_default .right depth default value deep
  have accepting : accepts (Shape.mainKind? (lead ++ [shape])) = true := by
    rw [Shape.mainKind?_of_isSingle part.toIsSingle,kind?,accepted own fitting]
  have wrapped := run_chain_once ⟨kind,some .left,accepts,_⟩ rfl ran accepting went
    (Written.length_default default value) ends
  refine ⟨_,_,wrapped,⟨Shape.isSingle_wrap kind _,kind,rfl,inside.named,rfl⟩,?_⟩
  exact part.binds (Edged.free_lead sound ran part.toIsSingle) [] rfl (List.forall_mem_nil _) binds covered inside

/-! Entries. -/

theorem absent_propertyName (rules : Rules) {c : Char} {tail : List Char} (found : ahead text = c :: tail)
    (word : Lexeme.word (c :: tail) = []) (hash : c ≠ '#') (string : Lexeme.stringLength? (c :: tail) = none)
    (number : Lexeme.numberLength? (c :: tail) = none) (bracket : c ≠ '[') :
    Absent (propertyName rules) text := by
  have hidden : Absent privateName text := by
    apply Absent.token
    rw [found]
    split
    · simp_all
    · rfl
  exact .orElse (.name (.inl ((wordAhead_eq_empty_iff text).mpr (found ▸ word)))) (.orElse hidden
    (.orElse (.token (by rw [found,string])) (.orElse (.token (by rw [found,number]))
      (.node (.andThen (.mark (c := '[') rfl (by simpa [nextIs,found] using bracket)) _) _))))

theorem operatorAhead_ne_dots_of_word (word : wordAhead text ≠ "") : operatorAhead text ≠ "..." := by
  intro dots
  obtain ⟨tail,whole⟩ := exists_of_operatorAhead dots (by decide)
  exact word ((wordAhead_eq_empty_iff text).mpr (whole ▸ rfl))

theorem operatorAhead_ne_dots_of_key (key : IsKey text rest) : operatorAhead text ≠ "..." := by
  intro dots
  obtain ⟨tail,whole⟩ := exists_of_operatorAhead dots (by decide)
  obtain ⟨shapes,ran⟩ := key _ (Nat.le_add_right _ _)
  rw [absent_propertyName _ whole rfl (by decide) rfl rfl (by decide)] at ran
  contradiction

theorem readsOne_shorthand (word : wordAhead text ≠ "") :
    ReadsOne (· = .shorthandPattern) (Parser.name .shorthandPattern fun _ => true) text (behindWord text)
      [wordAhead text] := by
  refine readsOne_name rfl rfl word rfl fun start => ?_
  simp only [Shape.namesAt,Shape.locateAll,Shape.locate?,Lexeme.take_word]
  rfl

theorem reads_entry (word : wordAhead text ≠ "") (comes : Comes ('=' :: closing) (behindWord text))
    (reads : Reads (chain (Parser.name .shorthandPattern fun _ => true)
      [⟨.objectAssignmentPattern,some .left,fun kind => kind = some .shorthandPattern,
        symbol "=" >> required (field .right (unfolded depth (.expression .inner)))⟩])
      text rest names) : Reads (Item.entry.parser depth) text rest names := by
  obtain ⟨shapes,taken⟩ : ∃ shapes, (Parser.name .propertyIdentifier fun _ => true).run text =
      .taken shapes (behindWord text) :=
    ⟨_,run_token (by rw [ne_eq,wordAhead_eq_empty_iff] at word; simp [word])⟩
  have key : (field .key (propertyName (unfolded depth))).run text =
      .taken (shapes.map (Shape.label .key)) (behindWord text) := by
    simp only [field,propertyName,run_orElse_of_taken _ taken,Outcome.map]
  refine .orElse_right (absent_restPattern (operatorAhead_ne_dots_of_word word) _)
    (.orElse_right (.node ?_ _) (reads.orElse_left _))
  rw [Absent,run_andThen key,Absent.andThen (.mark rfl (comes.nextIs_eq_false _ rfl)) _]
  rfl

theorem reads_pair (key : IsKey text middle)
    (deep : depthPerChar * text.length ≤ depth + depthPerChar * middle.length) (colon : nextIs ':' middle = true)
    (reads : ReadsOne (fun _ => true) (patternWithDefault (unfolded depth)) ((ahead middle).drop 1) rest names) :
    Reads (Item.entry.parser depth) text rest names := by
  obtain ⟨shapes,ran⟩ := key depth deep
  obtain ⟨sign,marked,nothing⟩ := reads_mark ":" rfl colon
  obtain ⟨lead,shape,went,part,binds⟩ := reads
  have edged := edged_rules .typescript depth
  have single : Single (propertyName (unfolded depth)) := by
    unfold propertyName
    infer_instance
  have marking : Single (mark ":") := by
    unfold mark
    infer_instance
  have keyed : (field .key (propertyName (unfolded depth))).run text =
      .taken (shapes.map (Shape.label .key)) middle := by
    simp only [field,ran,Outcome.map]
  have front : (field .key (propertyName (unfolded depth)) >> mark ":").run text =
      .taken (shapes.map (Shape.label .key) ++ sign) ((ahead middle).drop 1) := by
    rw [run_andThen keyed,marked,Outcome.map]
  have unvalued : Shape.Unvalued (shapes.map (Shape.label .key) ++ sign) :=
    (unvalued_of_field (by decide) rfl keyed).append (unvalued_of_single rfl marked)
  have whole : Shape.Binds text (Shape.wrap .pairPattern ((shapes.map (Shape.label .key) ++ sign) ++
      ((lead ++ [shape]).map (Shape.label .value) ++ []))) rest names :=
    part.binds (Edged.free_lead rfl went part.toIsSingle) _ (Edged.taken rfl [] front).rest_eq unvalued binds rfl
      ⟨rfl,fun _ _ _ _ _ => rfl⟩
  refine .orElse_right (absent_restPattern (operatorAhead_ne_dots_of_key key) _) (.orElse_left _ ⟨_,?_,whole⟩)
  simp only [Parser.node]
  rw [run_andThen keyed,run_andThen marked]
  simp only [field,went,Outcome.map]
  rw [List.append_nil,List.append_assoc]

theorem absent_element (comes : Comes [',', ']'] text) (depth : Nat) :
    Absent (patternWithDefault (unfolded depth)) text := by
  refine Absent.chain ?_ _
  cases depth with
  | zero => rfl
  | succ depth =>
    change (Grammar.pattern .typescript _).run text = .absent
    simp only [Grammar.pattern,look,comes.operatorAhead_ne "..." rfl,if_false]
    exact absent_destination (comes.mono (by simp [closing])).wordAhead_eq (comes.nextIs_eq_false _ rfl)
      (comes.nextIs_eq_false _ rfl) depth

theorem absent_entry (comes : Comes [',', '}'] text) (depth : Nat) :
    Absent (patternEntry .typescript (unfolded depth)) text := by
  have key : Absent (propertyName (unfolded depth)) text := by
    obtain ⟨c,among,next⟩ := comes
    have found := ahead_of_nextIs next
    simp only [List.mem_cons,List.not_mem_nil,or_false] at among
    rcases among with rfl | rfl <;> exact absent_propertyName _ found rfl (by decide) rfl rfl (by decide)
  have inner : Absent (unfolded depth .destructuring) text := by
    cases depth with
    | zero => rfl
    | succ depth =>
      change (destructuring .typescript _).run text = .absent
      simp only [destructuring,look,comes.nextIs_eq_false '{' rfl,Bool.false_eq_true,if_false]
      exact Absent.node (.andThen (.mark rfl (comes.nextIs_eq_false _ rfl)) _) _
  have word := (comes.mono (by simp [closing])).wordAhead_eq
  exact .orElse (absent_restPattern (comes.operatorAhead_ne _ rfl) _) (.orElse
    (.node (.andThen (.field key _) _) _) (.orElse (.chain (.name (.inl word)) _)
      (.node (.andThen (.field inner _) _) _)))

namespace Written

def Form.Ends : Form → List Char → Prop
  | target => Comes ('=' :: closing)
  | item _ => Comes closing
  | row own => fun rest => nextIs own.closer rest = true

/-- How many levels of the grammar a form can do without, at the depth its characters ask for. -/
def Form.slack : Form → Nat
  | target => 8
  | item _ => 4
  | row _ => 4

def Form.Read (depth : Nat) : Form → List Char → List Char → List String → Prop
  | target => ReadsOne isUndefaulted (destination .typescript (unfolded depth))
  | item .element => ReadsOne (fun _ => true) (Item.parser depth .element)
  | item .entry => Reads (Item.parser depth .entry)
  | row own => ReadsRow (own.parser depth)

theorem Form.Read.reads {item : Item} (read : (Form.item item).Read depth text rest names) :
    Reads (item.parser depth) text rest names := by
  cases item with
  | element => exact ReadsOne.reads read
  | entry => exact read

theorem absent_item {item : Item} (comes : Comes [',',item.closer] text) (depth : Nat) :
    Absent (item.parser depth) text := by
  cases item with
  | element => exact absent_element comes depth
  | entry => exact absent_entry comes depth

theorem Item.ends {item : Item} (closes : nextIs item.closer text = true) :
    nextIs ',' text = false ∧ Comes closing text := by
  cases item with
  | element => exact ⟨nextIs_of_ne closes (by decide),']',by simp [closing],closes⟩
  | entry => exact ⟨nextIs_of_ne closes (by decide),'}',by simp [closing],closes⟩

theorem not_dots (written : Written .target text rest bindings) : operatorAhead text ≠ "..." := by
  cases written with
  | name word _ => exact operatorAhead_ne_dots_of_word word
  | @list item _ _ _ opens => cases item <;> exact operatorAhead_ne opens (by decide) (by decide)

theorem nextIs_eq_false_of_word {c : Char} (word : wordAhead text ≠ "")
    (none : ∀ tail, Lexeme.word (c :: tail) = []) : nextIs c text = false := by
  by_contra opens
  rw [Bool.not_eq_false] at opens
  exact word ((wordAhead_eq_empty_iff text).mpr (ahead_of_nextIs opens ▸ none _))

/-- The grammar reads what is written, at the depth that its characters ask for. -/
theorem read {form : Form} (written : Written form text rest bindings)
    (deep : depthPerChar * text.length ≤ depth + form.slack + depthPerChar * rest.length)
    (ends : form.Ends rest) : form.Read depth text rest (noticed bindings) := by
  have wider {text : List Char} (comes : Comes closing text) : Comes ('=' :: closing) text :=
    comes.mono (List.subset_cons_self _ _)
  induction written generalizing depth with
  | @name text word free =>
    have less := length_behind_word word
    rcases depth with _ | depth
    · simp only [depthPerChar,Form.slack] at deep
      omega
    refine (readsOne_target word free ends depth).through fun ran => ?_
    simpa only [destination,look,nextIs_eq_false_of_word word fun _ => (rfl : Lexeme.word ('{' :: _) = []),
      nextIs_eq_false_of_word word fun _ => (rfl : Lexeme.word ('[' :: _) = []),Bool.or_self,Bool.false_eq_true,
      if_false] using ran
  | @list item text middle _ opens items closes ih =>
    have first := length_behind_next opens
    have last := length_behind_next closes
    have inner := items.length_le
    simp only [depthPerChar,Form.slack,Form.least] at deep inner ih
    rcases depth with _ | depth
    · omega
    refine readsOne_destination ?_ (readsOne_destructuring opens closes (ih (by omega) closes)) ends
    cases item with
    | element => exact .inr opens
    | entry => exact .inl opens
  | element target ih =>
    have inner := target.length_le
    simp only [depthPerChar,Form.slack,Form.least] at deep inner ih
    rcases depth with _ | depth
    · omega
    exact (readsOne_element ends (readsOne_pattern target.not_dots (ih (by omega) (wider ends)))).imp
      fun _ _ => rfl
  | elementOr target default value ih =>
    have inner := target.length_le
    have less := length_default default value
    simp only [depthPerChar,Form.slack,Form.least] at deep inner ih
    rcases depth with _ | depth
    · omega
    have edged := edged_rules .typescript (depth + 1)
    refine readsOne_chain rfl (readsOne_pattern target.not_dots (ih (by omega) (.of_default default))) default
      value ?_ ?_ rfl ⟨rfl,fun _ _ _ _ _ => rfl⟩
    · simp only [depthPerChar]
      omega
    · simp [isUndefaulted]
  | @remaining item text rest bindings dots target ih =>
    have inner := target.length_le
    have less : ((ahead text).drop 3).length < text.length := length_behind_operator dots (by decide)
    simp only [depthPerChar,Form.slack,Form.least] at deep inner ih
    cases item with
    | element =>
      rcases depth with _ | depth
      · omega
      refine readsOne_element ends ((readsOne_restPattern dots (@ih depth (by omega) (wider ends))).through
        fun ran => ?_)
      change (Grammar.pattern .typescript _).run text = _
      simpa only [Grammar.pattern,look,dots,if_true] using ran
    | entry => exact Reads.orElse_left _ (readsOne_restPattern dots (@ih depth (by omega) (wider ends))).reads
  | shorthand word =>
    refine reads_entry word (wider ends) ((readsOne_shorthand word).through fun ran => run_chain _ ran ?_).reads
    exact List.forall_mem_singleton.mpr (.andThen (.symbol (Comes.operatorAhead_ne ends _ rfl)) _)
  | shorthandOr word default value =>
    have first := length_behind_word word
    refine reads_entry word (.of_default default) ((readsOne_chain rfl (readsOne_shorthand word) default
      value ?_ (by simp) rfl ⟨rfl,fun _ _ _ _ _ => rfl⟩).reads)
    simp only [depthPerChar,Form.slack] at deep ⊢
    omega
  | pair key colon element ih =>
    have less := length_behind_next colon
    have inner := element.length_le
    have fewer := key.length_le
    simp only [depthPerChar,Form.slack,Form.least] at deep inner ih
    exact reads_pair key (by simp only [depthPerChar]; omega) colon (@ih depth (by omega) ends)
  | none text => exact ReadsRow.none (absent_item ⟨_,by simp,ends⟩ depth) (Item.ends ends).1
  | last only ih => exact ReadsRow.last (ih deep (Item.ends ends).2).reads (Item.ends ends).1
  | leftOut comma later ih =>
    have less := length_behind_next comma
    simp only [depthPerChar,Form.slack] at deep ih
    exact ReadsRow.leftOut (absent_item ⟨',',by simp,comma⟩ depth) comma (ih (by omega) ends)
  | more first comma later ih others =>
    have less := length_behind_next comma
    have fewer := first.length_le
    have left := later.length_le
    simp only [depthPerChar,Form.slack,Form.least] at deep fewer left ih others
    rw [noticed,List.filter_append,List.map_append]
    exact ReadsRow.cons (@ih depth (by omega) ⟨',',by simp [closing],comma⟩).reads comma
      (others (by omega) ends)

end Written

end VueScope.Script
