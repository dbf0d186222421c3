import VueScope.Proofs.Script.Layout

/-! Reading a text forward: which names are bound by what a parser takes. One rule for each way to put
parsers together says what the whole reads, given what its parts read. -/
namespace VueScope.Script

structure Kind.BindsAll (kind : Kind) : Prop where
  named : kind.isNamed = true
  bound : ∀ field start stop text children,
    Node.boundIdentifiers ⟨kind,field,start,stop,text,children⟩ = Node.boundInAll children

structure Kind.BindsPart (kind : Kind) (role : Field) : Prop where
  named : kind.isNamed = true
  bound : ∀ field start stop text children,
    Node.boundIdentifiers ⟨kind,field,start,stop,text,children⟩ = Node.boundInPart role children

namespace Node

theorem map_name_boundIdentifiers (kind : Kind) (field other : Option Field) (start stop : Nat)
    (text : List Char) (children : List Node) :
    (boundIdentifiers ⟨kind,field,start,stop,text,children⟩).map name =
      (boundIdentifiers ⟨kind,other,start,stop,text,children⟩).map name := by
  simp only [boundIdentifiers_eq]
  split <;> rfl

theorem boundInPart_append_cons {field : Field} {before after : List Node} {part : Node}
    (others : ∀ node ∈ before, node.field ≠ some field) (plays : part.field = some field) :
    boundInPart field (before ++ part :: after) = part.boundIdentifiers := by
  have none : before.find? (fun node => node.field = some field) = none := by
    simpa [List.find?_eq_none] using others
  rw [boundInPart_eq,List.find?_append,none,Option.none_or,List.find?_cons_of_pos (by simp [plays]),
    Option.toList_some,List.flatMap_singleton]

end Node

variable {shape : Shape} {suits : Kind → Bool}

namespace Shape

theorem locateAll_append (start : Nat) (text : List Char) (first second : List Shape) :
    locateAll start text (first ++ second) = locateAll start text first ++
      locateAll (start + widthAll first) (text.drop (widthAll first)) second := by
  induction first generalizing start text with
  | nil => rfl
  | cons shape rest ih =>
    simp only [List.cons_append,locateAll,widthAll,ih,List.drop_drop,Nat.add_assoc,List.append_assoc]

def namesAt (start : Nat) (text : List Char) (shapes : List Shape) : List String :=
  (Node.boundInAll (locateAll start text shapes)).map Node.name

theorem namesAt_append (start : Nat) (text : List Char) (first second : List Shape) :
    namesAt start text (first ++ second) = namesAt start text first ++
      namesAt (start + widthAll first) (text.drop (widthAll first)) second := by
  simp [namesAt,locateAll_append,Node.boundInAll_eq]

theorem namesAt_of_isTrivia (start : Nat) (text : List Char) {shapes : List Shape}
    (trivia : ∀ shape ∈ shapes, shape.isTrivia = true) : namesAt start text shapes = [] := by
  induction shapes generalizing start text with
  | nil => rfl
  | cons shape rest ih =>
    obtain ⟨own,later⟩ := List.forall_mem_cons.mp trivia
    rcases (isTrivia_iff shape).mp own with ⟨width,rfl⟩ | ⟨role,width,rfl⟩
    · exact ih _ _ later
    · exact ih _ _ later

variable {back lead : List Shape}

theorem takeWhile_append_cons {outer : List Shape} (solid : shape.isTrivia = false) :
    (outer ++ shape :: back).takeWhile isTrivia = outer.takeWhile isTrivia := by
  induction outer with
  | nil => simp [solid]
  | cons first rest ih => simp [List.takeWhile_cons,ih]

theorem dropWhile_append_cons {outer : List Shape} (solid : shape.isTrivia = false) :
    (outer ++ shape :: back).dropWhile isTrivia = outer.dropWhile isTrivia ++ shape :: back := by
  induction outer with
  | nil => simp [solid]
  | cons first rest ih =>
    simp only [List.cons_append,List.dropWhile_cons,ih]
    split <;> simp

theorem namesAt_wrap {kind : Kind} (named : kind.isNamed = true) (start : Nat) (text : List Char)
    (shapes : List Shape) :
    let lead := widthAll (shapes.takeWhile isTrivia)
    let parts := shapes.dropWhile isTrivia
    namesAt start text (wrap kind shapes) = Node.boundNames ⟨kind,none,start + lead,
      start + lead + widthAll parts,(text.drop lead).take (widthAll parts),
      locateAll (start + lead) (text.drop lead) parts⟩ := by
  rw [wrap,namesAt_append,namesAt_of_isTrivia _ _ fun _ among => List.mem_takeWhile_imp among,
    List.nil_append,namesAt]
  simp only [locateAll,locate?,Option.toList_some,Node.boundInAll,named,if_true,List.append_nil,
    Node.boundNames]

/-- Shapes that cover the front of a text and bind names in it. -/
structure Binds (text : List Char) (shapes : List Shape) (rest : List Char) (names : List String) : Prop where
  rest_eq : rest = text.drop (widthAll shapes)
  names_eq : ∀ start, namesAt start text shapes = names

namespace Binds

variable {text middle rest : List Char} {first second shapes : List Shape} {names more : List String}

theorem length_le (binds : Binds text shapes rest names) : rest.length ≤ text.length := by
  rw [binds.rest_eq,List.length_drop]
  omega

theorem nothing (text : List Char) : Binds text [] text [] :=
  ⟨rfl,fun _ => rfl⟩

theorem append (before : Binds text first middle names) (after : Binds middle second rest more) :
    Binds text (first ++ second) rest (names ++ more) := by
  constructor
  · rw [widthAll_append,← List.drop_drop,← before.rest_eq,after.rest_eq]
  · intro start
    rw [namesAt_append,before.names_eq,← before.rest_eq,after.names_eq]

theorem wrap {kind : Kind} (binds : Binds text shapes rest names) (all : kind.BindsAll) :
    Binds text (Shape.wrap kind shapes) rest names := by
  refine ⟨by rw [widthAll_wrap,binds.rest_eq],fun start => ?_⟩
  rw [namesAt_wrap all.named,Node.boundNames,all.bound]
  conv_rhs => rw [← binds.names_eq start,← List.takeWhile_append_dropWhile (p := isTrivia) (l := shapes)]
  rw [namesAt_append,namesAt_of_isTrivia _ _ fun _ among => List.mem_takeWhile_imp among]
  rfl

end Binds

theorem isTrivia_label (role : Field) (shape : Shape) : (shape.label role).isTrivia = shape.isTrivia := by
  match shape with
  | blank _ => rfl
  | leaf kind none width => rw [label]; split <;> simp_all [isTrivia]
  | leaf kind (some _) width => rfl
  | node _ none _ => rfl
  | node _ (some _) _ => rfl

theorem locate?_label {own : Kind} (role : Field) (single : IsSingle lead shape)
    (kind : shape.kind? = some own) (start : Nat) (text : List Char) :
    ∃ stop written children, locate? start text shape = some ⟨own,none,start,stop,written,children⟩ ∧
      locate? start text (shape.label role) = some ⟨own,some role,start,stop,written,children⟩ := by
  have plays := role?_label_of_single role single
  have free := single.free
  cases shape with
  | blank => contradiction
  | leaf =>
    cases kind
    cases free
    rw [label] at plays ⊢
    split at plays
    · contradiction
    next other => exact ⟨_,_,_,rfl,by rw [if_neg other]; rfl⟩
  | node =>
    cases kind
    cases free
    exact ⟨_,_,_,rfl,rfl⟩

/-- One construct of a suitable kind behind white space and comments. -/
structure IsPart (suits : Kind → Bool) (lead : List Shape) (shape : Shape) : Prop extends
    IsSingle lead shape where
  kind : ∃ kind, shape.kind? = some kind ∧ kind.isNamed = true ∧ suits kind = true

theorem IsPart.binds {suits : Kind → Bool} {kind : Kind} {role : Field}
    {shape : Shape} {text middle after rest : List Char} {names : List String} (part : IsPart suits lead shape)
    (free : ∀ other ∈ lead, other.role? = none) (front : List Shape)
    (starts : middle = text.drop (widthAll front)) (unplayed : ∀ other ∈ front, other.role? ≠ some role)
    (binds : Binds middle (lead ++ [shape]) after names) (ends : rest = after.drop (widthAll back))
    (inside : kind.BindsPart role) :
    Binds text (wrap kind (front ++ ((lead ++ [shape]).map (label role) ++ back))) rest names := by
  obtain ⟨own,kind?,named,_⟩ := part.kind
  refine ⟨?_,fun start => ?_⟩
  · rw [widthAll_wrap,widthAll_append,widthAll_append,widthAll_map_label,← List.drop_drop,← List.drop_drop,
      ← starts,← binds.rest_eq,ends]
  have parts : front ++ ((lead ++ [shape]).map (label role) ++ back) =
      (front ++ lead) ++ shape.label role :: back := by
    simp [part.map_label free]
  have place : widthAll ((front ++ lead).takeWhile isTrivia) + widthAll ((front ++ lead).dropWhile isTrivia) =
      widthAll front + widthAll lead := by
    rw [← widthAll_append,List.takeWhile_append_dropWhile,widthAll_append]
  have solid : (shape.label role).isTrivia = false := by rw [isTrivia_label,part.solid]
  obtain ⟨stop,written,children,plain,labelled⟩ :=
    locate?_label role part.toIsSingle kind? (start + widthAll front + widthAll lead)
      (middle.drop (widthAll lead))
  have names_eq := binds.names_eq (start + widthAll front)
  rw [namesAt_append,namesAt_of_isTrivia _ _ part.lead,List.nil_append,namesAt] at names_eq
  simp only [locateAll,plain,Option.toList_some,Node.boundInAll,List.append_nil,named,if_true] at names_eq
  rw [namesAt_wrap inside.named,Node.boundNames,inside.bound,parts,takeWhile_append_cons solid,
    dropWhile_append_cons solid,locateAll_append,locateAll,List.drop_drop,place,← List.drop_drop,← starts,
    Nat.add_assoc,place,← Nat.add_assoc,labelled,Option.toList_some,List.singleton_append,
    Node.boundInPart_append_cons _ rfl,Node.map_name_boundIdentifiers,names_eq]
  intro node among
  obtain ⟨_,other,_,parts,located⟩ := exists_of_mem_locateAll among
  have held : other ∈ (front ++ lead).dropWhile isTrivia := by simp [parts]
  rw [← (eq_of_locate? located).1]
  rcases List.mem_append.mp (List.dropWhile_subset _ held) with early | late
  · exact unplayed other early
  · simp [free other late]

theorem mainKind?_wrap (kind : Kind) (shapes : List Shape) :
    mainKind? (Shape.wrap kind shapes) = some kind := by
  rw [mainKind?,Shape.wrap,dropWhile_append_cons rfl,List.dropWhile_eq_nil_iff.mpr]
  · rfl
  · exact fun _ among => List.mem_takeWhile_imp among

theorem mainKind?_of_isSingle (single : IsSingle lead shape) :
    mainKind? (lead ++ [shape]) = shape.kind? := by
  rw [mainKind?,dropWhile_append_cons single.solid,List.dropWhile_eq_nil_iff.mpr single.lead]
  rfl

end Shape

open Shape

abbrev Absent (parser : Parser) (text : List Char) : Prop :=
  parser.run text = .absent

namespace Parser

variable {first second parser : Parser} {text middle rest : List Char} {shapes more : List Shape}

theorem run_orElse_of_absent (second : Parser) (absent : Absent first text) :
    (first <|> second).run text = second.run text := by
  change (Parser.or first fun _ => second).run text = _
  simp only [Parser.or,absent]

theorem run_orElse_of_taken (second : Parser) (ran : first.run text = .taken shapes rest) :
    (first <|> second).run text = .taken shapes rest := by
  change (Parser.or first fun _ => second).run text = _
  simp only [Parser.or,ran]

theorem run_maybe_absent (absent : Absent parser text) :
    (maybe parser).run text = .taken [] text :=
  run_orElse_of_absent done absent

theorem run_andThen (ran : first.run text = .taken shapes middle) :
    (first >> second).run text = (second.run middle).map fun more => shapes ++ more := by
  change (Parser.seq first fun _ => second).run text = _
  simp only [Parser.seq,ran,Outcome.bind]

theorem run_chain (wraps : List Wrap) (ran : first.run text = .taken shapes rest)
    (absent : ∀ wrap ∈ wraps, Absent wrap.rest rest) :
    (chain first wraps).run text = .taken shapes rest := by
  have none : chain.apply shapes rest wraps = .absent := by
    induction wraps with
    | nil => rfl
    | cons wrap others ih =>
      obtain ⟨own,later⟩ := List.forall_mem_cons.mp absent
      rw [chain.apply,own,ih later]
      split <;> rfl
  simp only [chain,ran,Outcome.bind]
  cases rest.length <;> simp only [chain.grow,none]

theorem run_chain_once (wrap : Wrap) {role : Field} (plays : wrap.role = some role)
    (ran : first.run text = .taken shapes middle) (accepts : wrap.accepts (mainKind? shapes) = true)
    (went : wrap.rest.run middle = .taken more rest) (shorter : rest.length < middle.length)
    (ends : wrap.accepts (some wrap.kind) = false) :
    (chain first [wrap]).run text =
      .taken (Shape.wrap wrap.kind (shapes.map (label role) ++ more)) rest := by
  obtain ⟨fuel,size⟩ : ∃ fuel, middle.length = fuel + 1 := ⟨middle.length - 1,by omega⟩
  have last (inner : List Shape) : chain.apply (Shape.wrap wrap.kind inner) rest [wrap] = .absent := by
    simp [chain.apply,mainKind?_wrap,ends]
  simp only [chain,ran,Outcome.bind,size,chain.grow,chain.apply,accepts,if_true,went,plays]
  rw [← size,if_pos shorter]
  cases fuel <;> simp only [chain.grow,last]

/-- What a loop takes, if it is given as many rounds as there are characters. -/
def Loops (parser : Parser) (text : List Char) (shapes : List Shape) (rest : List Char) : Prop :=
  ∀ fuel, text.length ≤ fuel → many.loop parser fuel text = .taken shapes rest

theorem loops_of_absent (absent : Absent parser text) : Loops parser text [] text := by
  intro fuel _
  cases fuel <;> simp only [many.loop,absent]

theorem Loops.step (ran : parser.run text = .taken shapes middle) (shorter : middle.length < text.length)
    (loops : Loops parser middle more rest) : Loops parser text (shapes ++ more) rest := by
  intro fuel enough
  obtain ⟨fuel,rfl⟩ : ∃ less, fuel = less + 1 := ⟨fuel - 1,by omega⟩
  simp only [many.loop,ran,shorter,if_true,loops fuel (by omega),Outcome.map]

/-! What stands ahead. -/

theorem ahead_eq_drop (text : List Char) : ahead text = text.drop (widthAll (trivia text).1) :=
  (fits_trivia text.length [] text).rest_eq

theorem length_ahead_le (text : List Char) : (ahead text).length ≤ text.length := by
  rw [ahead_eq_drop,List.length_drop]
  omega

theorem ahead_of_nextIs {c : Char} (next : nextIs c text = true) : ahead text = c :: (ahead text).tail := by
  simp only [nextIs,decide_eq_true_eq] at next
  exact List.eq_cons_of_mem_head? next

theorem nextIs_of_ne {c d : Char} (next : nextIs c text = true) (other : c ≠ d) : nextIs d text = false := by
  simp only [nextIs,decide_eq_true_eq,decide_eq_false_iff_not] at next ⊢
  simp [next,other]

theorem exists_of_operatorAhead {written : String} (next : operatorAhead text = written) (some : written ≠ "") :
    ∃ tail, ahead text = written.toList ++ tail := by
  subst next
  obtain ⟨⟨rest,whole⟩,_⟩ := Lexeme.operator_spec some
  exact ⟨rest,whole⟩

theorem operatorAhead_ne {c : Char} {written : String} (next : nextIs c text = true)
    (other : written.toList.head? ≠ some c) (some : written ≠ "") : operatorAhead text ≠ written := by
  intro same
  obtain ⟨tail,whole⟩ := exists_of_operatorAhead same some
  rw [ahead_of_nextIs next] at whole
  cases found : written.toList with
  | nil => exact some (String.toList_eq_nil_iff.mp found)
  | cons first later =>
    rw [found,List.cons_append] at whole
    exact other (by rw [found,List.head?_cons,(List.cons.inj whole).1])

theorem wordAhead_eq_empty_iff (text : List Char) : wordAhead text = "" ↔ Lexeme.word (ahead text) = [] := by
  simp [wordAhead]

theorem run_token {kind : Kind} {width? : List Char → Option Nat} {width : Nat}
    (found : width? (ahead text) = some width) :
    (token kind width?).run text =
      .taken ((trivia text).1 ++ [.leaf kind none width]) ((ahead text).drop width) := by
  simp only [ahead] at found
  simp only [token,found,ahead]

end Parser

open VueScope.Script.Parser hiding node

/-! What is absent. -/

namespace Absent

variable {first parser : Parser} {text : List Char} {kind : Kind} {written : String}

theorem andThen (absent : Absent first text) (second : Parser) : Absent (first >> second) text := by
  change (Parser.seq first fun _ => second).run text = _
  simp only [Parser.seq,absent,Outcome.bind]

theorem orElse {second : Parser} (absent : Absent first text) (later : Absent second text) :
    Absent (first <|> second) text :=
  (run_orElse_of_absent second absent).trans later

theorem chain (absent : Absent first text) (wraps : List Wrap) : Absent (chain first wraps) text := by
  simp only [Absent,Parser.chain,absent,Outcome.bind]

theorem field (absent : Absent parser text) (role : Field) : Absent (field role parser) text := by
  simp only [Absent,Parser.field,absent,Outcome.map]

theorem node (absent : Absent parser text) (kind : Kind) : Absent (Parser.node kind parser) text := by
  simp only [Absent,Parser.node,absent,Outcome.map]

theorem check {test : List Char → Bool} (failed : test text = false) : Absent (check test) text := by
  simp [Absent,Parser.check,failed]

theorem token {width? : List Char → Option Nat} (none : width? (ahead text) = none) :
    Absent (token kind width?) text := by
  simp only [ahead] at none
  simp only [Absent,Parser.token,none]

theorem mark {c : Char} (same : written.toList = [c]) (other : nextIs c text = false) :
    Absent (mark written) text := by
  apply token
  simp only [nextIs,decide_eq_false_iff_not] at other
  rw [same]
  cases found : ahead text with
  | nil => rfl
  | cons first rest =>
    have differs : c ≠ first := by
      rintro rfl
      simp [found] at other
    simp [Text.dropPrefix?,differs]

theorem symbol (other : operatorAhead text ≠ written) : Absent (Parser.symbol written) text :=
  token (if_neg other)

theorem keyword (other : wordAhead text ≠ written) : Absent (keywordAs kind written) text :=
  token (if_neg other)

theorem name {test : String → Bool} (other : wordAhead text = "" ∨ test (wordAhead text) = false) :
    Absent (name kind test) text := by
  apply token
  rcases other with none | refused
  · simp [(wordAhead_eq_empty_iff text).mp none]
  · simp only [wordAhead] at refused
    simp [refused]

end Absent

/-! What is read. -/

/-- A parser takes the text up to the rest, and what it takes binds names. -/
def Reads (parser : Parser) (text rest : List Char) (names : List String) : Prop :=
  ∃ shapes, parser.run text = .taken shapes rest ∧ Binds text shapes rest names

/-- A parser takes one construct of a suitable kind, and it binds names. -/
def ReadsOne (suits : Kind → Bool) (parser : Parser) (text rest : List Char) (names : List String) : Prop :=
  ∃ lead shape, parser.run text = .taken (lead ++ [shape]) rest ∧ IsPart suits lead shape ∧
    Binds text (lead ++ [shape]) rest names

section Rules

variable {first second parser other : Parser} {text middle rest : List Char} {names more : List String}

theorem ReadsOne.reads {suits : Kind → Bool} (reads : ReadsOne suits parser text rest names) :
    Reads parser text rest names := by
  obtain ⟨lead,shape,ran,_,binds⟩ := reads
  exact ⟨_,ran,binds⟩

theorem ReadsOne.imp {wider : Kind → Bool} (reads : ReadsOne suits parser text rest names)
    (le : ∀ kind, suits kind = true → wider kind = true) : ReadsOne wider parser text rest names := by
  obtain ⟨lead,shape,ran,part,binds⟩ := reads
  obtain ⟨kind,kind?,named,fitting⟩ := part.kind
  exact ⟨lead,shape,ran,⟨part.toIsSingle,kind,kind?,named,le kind fitting⟩,binds⟩

theorem ReadsOne.through (reads : ReadsOne suits parser text rest names)
    (same : ∀ {shapes}, parser.run text = .taken shapes rest → other.run text = .taken shapes rest) :
    ReadsOne suits other text rest names := by
  obtain ⟨lead,shape,ran,part⟩ := reads
  exact ⟨lead,shape,same ran,part⟩

theorem Reads.andThen (reads : Reads first text middle names) (goes : Reads second middle rest more) :
    Reads (first >> second) text rest (names ++ more) := by
  obtain ⟨shapes,ran,binds⟩ := reads
  obtain ⟨others,went,next⟩ := goes
  exact ⟨shapes ++ others,by rw [run_andThen ran,went,Outcome.map],binds.append next⟩

theorem Reads.orElse_left (second : Parser) (reads : Reads first text rest names) :
    Reads (first <|> second) text rest names := by
  obtain ⟨shapes,ran,binds⟩ := reads
  exact ⟨shapes,run_orElse_of_taken second ran,binds⟩

theorem Reads.orElse_right (absent : Absent first text) (reads : Reads second text rest names) :
    Reads (first <|> second) text rest names := by
  obtain ⟨shapes,ran,binds⟩ := reads
  exact ⟨shapes,(run_orElse_of_absent second absent).trans ran,binds⟩

theorem Reads.node {kind : Kind} (reads : Reads parser text rest names) (fitting : suits kind = true)
    (all : kind.BindsAll) : ReadsOne suits (Parser.node kind parser) text rest names := by
  obtain ⟨shapes,ran,binds⟩ := reads
  refine ⟨_,_,?_,⟨isSingle_wrap kind shapes,kind,rfl,all.named,fitting⟩,binds.wrap all⟩
  simp only [Parser.node,ran,Outcome.map,wrap]

end Rules

section Tokens

variable {text : List Char} {written : String} {c : Char}

theorem binds_token {kind : Kind} [solid : IsFalse kind.isComment] {width : Nat} {names : List String}
    (binds : ∀ start, namesAt start (ahead text) [.leaf kind none width] = names) :
    IsSingle (trivia text).1 (.leaf kind none width) ∧
      Binds text ((trivia text).1 ++ [.leaf kind none width]) ((ahead text).drop width) names := by
  have lead := isTrivia_of_trivia text.length text
  have before : Binds text (trivia text).1 (ahead text) [] :=
    ⟨ahead_eq_drop text,fun start => namesAt_of_isTrivia start text lead⟩
  refine ⟨⟨lead,?_,rfl⟩,before.append ⟨by simp [widthAll,Shape.width],binds⟩⟩
  have other := solid.eq
  cases kind <;> first | rfl | contradiction

theorem reads_mark (written : String) (same : written.toList = [c]) (next : nextIs c text = true) :
    Reads (mark written) text ((ahead text).drop 1) [] := by
  have length : written.length = 1 := by rw [← String.length_toList,same]; rfl
  refine ⟨_,run_token ?_,(binds_token fun _ => rfl).2⟩
  rw [ahead_of_nextIs next,same,length]
  simp [Text.dropPrefix?]

theorem reads_symbol (next : operatorAhead text = written) :
    Reads (symbol written) text ((ahead text).drop written.length) [] :=
  ⟨_,run_token (if_pos next),(binds_token fun _ => rfl).2⟩

theorem readsOne_name {suits : Kind → Bool} {kind : Kind} [IsFalse kind.isComment] {test : String → Bool}
    {names : List String} (fitting : suits kind = true) (named : kind.isNamed = true)
    (some : wordAhead text ≠ "") (passed : test (wordAhead text) = true)
    (binds : ∀ start, namesAt start (ahead text) [.leaf kind none (Lexeme.word (ahead text)).length] = names) :
    ReadsOne suits (name kind test) text ((ahead text).drop (Lexeme.word (ahead text)).length) names := by
  obtain ⟨single,binds⟩ := binds_token binds
  refine ⟨_,_,run_token ?_,⟨single,kind,rfl,named,fitting⟩,binds⟩
  simp only [wordAhead] at passed
  rw [ne_eq,wordAhead_eq_empty_iff] at some
  simp [some,passed]

end Tokens

/-- Items with commas between them, each of which may be left out. -/
def ReadsRow (item : Parser) (text rest : List Char) (names : List String) : Prop :=
  ∃ shapes middle more, (maybe item).run text = .taken shapes middle ∧
    Loops (mark "," >> maybe item) middle more rest ∧ middle.length ≤ text.length ∧
    Binds text (shapes ++ more) rest names

namespace ReadsRow

variable {item : Parser} {text middle rest : List Char} {names more : List String}

theorem behind (comma : nextIs ',' text = true) (row : ReadsRow item ((ahead text).drop 1) rest names) :
    ∃ shapes, Loops (mark "," >> maybe item) text shapes rest ∧ Binds text shapes rest names := by
  obtain ⟨lead,marked,nothing⟩ := reads_mark "," rfl comma
  obtain ⟨shapes,middle,more,ran,loops,fewer,binds⟩ := row
  have shorter : middle.length < text.length := by
    have less := length_ahead_le text
    rw [ahead_of_nextIs comma] at fewer less
    simp only [List.drop_succ_cons,List.drop_zero,List.length_cons] at fewer less
    omega
  refine ⟨_,.step ((run_andThen marked).trans (by rw [ran,Outcome.map])) shorter loops,?_⟩
  rw [List.append_assoc]
  exact nothing.append binds

theorem none (absent : Absent item text) (closed : nextIs ',' text = false) : ReadsRow item text text [] :=
  ⟨[],text,[],run_maybe_absent absent,loops_of_absent (.andThen (.mark rfl closed) _),Nat.le_refl _,
    .nothing text⟩

theorem last (reads : Reads item text rest names) (closed : nextIs ',' rest = false) :
    ReadsRow item text rest names := by
  obtain ⟨shapes,ran,binds⟩ := reads
  exact ⟨shapes,rest,[],run_orElse_of_taken done ran,loops_of_absent (.andThen (.mark rfl closed) _),
    binds.length_le,by rwa [List.append_nil]⟩

theorem leftOut (absent : Absent item text) (comma : nextIs ',' text = true)
    (row : ReadsRow item ((ahead text).drop 1) rest names) : ReadsRow item text rest names := by
  obtain ⟨shapes,loops,binds⟩ := row.behind comma
  exact ⟨[],text,shapes,run_maybe_absent absent,loops,Nat.le_refl _,binds⟩

theorem cons (reads : Reads item text middle names) (comma : nextIs ',' middle = true)
    (row : ReadsRow item ((ahead middle).drop 1) rest more) : ReadsRow item text rest (names ++ more) := by
  obtain ⟨shapes,ran,binds⟩ := reads
  obtain ⟨others,loops,next⟩ := row.behind comma
  exact ⟨shapes,middle,others,run_orElse_of_taken done ran,loops,binds.length_le,binds.append next⟩

theorem listOf {opening closing : Parser} {last : List Char} (opens : Reads opening text middle [])
    (row : ReadsRow item middle rest names) (closes : Reads closing rest last []) :
    Reads (listOf opening item closing) text last names := by
  obtain ⟨outer,opened,first⟩ := opens
  obtain ⟨shapes,after,more,ran,loops,_,binds⟩ := row
  obtain ⟨others,closed,final⟩ := closes
  have looped : (many (mark "," >> maybe item)).run after = .taken more rest :=
    loops after.length (Nat.le_refl _)
  refine ⟨outer ++ (shapes ++ (more ++ others)),?_,?_⟩
  · rw [Parser.listOf,run_andThen opened,run_andThen ran,run_andThen looped,closed]
    rfl
  · rw [← List.append_assoc shapes]
    simpa using first.append (binds.append final)

end ReadsRow

end VueScope.Script
