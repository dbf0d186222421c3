import Mathlib.Data.List.Infix
import VueScope.Proofs.Template.LoopParts

/-! Loops that are written out are read back. What is written between the parentheses holds no
word that could divide the loop, so the word behind them does, and each alias is found where
it was written. -/
namespace VueScope.Text

/-- A text holds a word, between white space or the ends of the text. -/
def HasWord (text word : List Char) : Prop :=
  ∃ before after, text = before ++ word ++ after ∧ (∀ c ∈ before.getLast?, isSpace c = true) ∧
    ∀ c ∈ after.head?, isSpace c = true

namespace HasWord

variable {text first second word : List Char} {c : Char}

theorem of_cons (some : word ≠ []) (absent : c ∉ word) (has : HasWord (c :: text) word) :
    HasWord text word := by
  obtain ⟨before,after,parts,ended,started⟩ := has
  cases before with
  | nil =>
    obtain ⟨d,rest,rfl⟩ := List.exists_cons_of_ne_nil some
    cases parts
    exact absurd List.mem_cons_self absent
  | cons d before =>
    obtain ⟨rfl,rest⟩ := List.cons.inj parts
    refine ⟨before,after,rest,fun e last => ended e ?_,started⟩
    rw [List.getLast?_cons,Option.mem_def.mp last]
    rfl

theorem of_concat (some : word ≠ []) (absent : c ∉ word) (has : HasWord (text ++ [c]) word) :
    HasWord text word := by
  obtain ⟨before,after,parts,ended,started⟩ := has
  rcases List.eq_nil_or_concat' after with rfl | ⟨lead,d,rfl⟩
  · obtain ⟨lead,d,rfl⟩ := (List.eq_nil_or_concat' word).resolve_left some
    rw [List.append_nil,← List.append_assoc] at parts
    cases List.append_inj_right' parts rfl
    exact absurd (List.mem_append_right _ List.mem_cons_self) absent
  · rw [← List.append_assoc] at parts
    refine ⟨before,lead,List.append_inj_left' parts rfl,ended,fun e first => started e ?_⟩
    rw [List.head?_append,Option.mem_def.mp first]
    rfl

theorem of_append_cons (space : isSpace c = true) (solid : ∀ d ∈ word, isSpace d = false)
    (has : HasWord (first ++ c :: second) word) : HasWord first word ∨ HasWord second word := by
  obtain ⟨before,after,parts,ended,started⟩ := has
  have absent : c ∉ word := by
    intro member
    rw [solid c member] at space
    contradiction
  rcases List.append_eq_append_iff.mp parts with ⟨more,cut,rest⟩ | ⟨more,rfl,rest⟩
  · cases more with
    | nil =>
      rw [List.append_nil] at cut
      exact .inl ⟨before,[],by rw [List.append_nil,cut],ended,by simp⟩
    | cons d more =>
      obtain ⟨rfl,rfl⟩ := List.cons.inj rest
      -- the space stands before the word, or else in it
      rw [← List.singleton_append,← List.append_assoc] at cut
      rcases List.append_eq_append_iff.mp cut with ⟨lead,front,rfl⟩ | ⟨lead,rfl,rfl⟩
      · rcases List.eq_nil_or_concat' lead with rfl | ⟨inner,d,rfl⟩
        · exact .inr ⟨[],after,rfl,by simp,started⟩
        · rw [← List.append_assoc] at front
          cases List.append_inj_right' front rfl
          exact absurd (List.mem_append_left _ (List.mem_append_right _ List.mem_cons_self)) absent
      · refine .inr ⟨lead,after,rfl,fun e last => ended e ?_,started⟩
        rw [List.getLast?_append,Option.mem_def.mp last]
        rfl
  · refine .inl ⟨before,more,rfl,ended,fun e first => started e ?_⟩
    rw [rest,List.head?_append,Option.mem_def.mp first]
    rfl

end HasWord

theorem mem_splitOnP_of_hasWord {text word : List Char} (solid : ∀ c ∈ word, isSpace c = false)
    (has : HasWord text word) : word ∈ text.splitOnP isSpace := by
  obtain ⟨before,after,rfl,ended,started⟩ := has
  have alone : word ∈ (word ++ after).splitOnP isSpace := by
    cases after with
    | nil => rw [List.append_nil,List.splitOnP_eq_singleton solid,List.mem_singleton]
    | cons c after =>
      rw [List.splitOnP_append_cons _ _ (started c rfl),List.splitOnP_eq_singleton solid]
      exact List.mem_cons_self
  rw [List.append_assoc]
  rcases List.eq_nil_or_concat' before with rfl | ⟨lead,c,rfl⟩
  · exact alone
  · rw [List.append_assoc,List.singleton_append,
      List.splitOnP_append_cons _ _ (ended c (by simp))]
    exact List.mem_append_right _ alone

end VueScope.Text

namespace VueScope.Template.Loop

open Text

variable {c : Char} {lead key : List Char}

section

variable {word : List Char} (divides : IsWord word)
include divides

theorem IsWord.mem (member : c ∈ word) :
    c ∈ ['i','n','o','f'] := by
  rcases divides with rfl | rfl
  · exact List.mem_append_left ['o','f'] member
  · exact List.mem_append_right ['i','n'] member

theorem IsWord.ne_nil : word ≠ [] := by
  rcases divides with rfl | rfl <;> exact List.cons_ne_nil _ _

theorem IsWord.solid : ∀ c ∈ word, isSpace c = false := by
  have letters : ['i','n','o','f'].all (fun c => !isSpace c) = true := by decide
  intro c member
  simpa using List.all_eq_true.mp letters c (divides.mem member)

theorem IsWord.length_eq : word.length = 2 := by
  rcases divides with rfl | rfl <;> rfl

end

variable {text name : List Char}

theorem Splits.unique {left divider source middle rest : List Char}
    (one : Splits text left divider source) (other : Splits text lead middle rest)
    (same : left.length = lead.length) : left = lead ∧ divider = middle ∧ source = rest := by
  obtain ⟨rfl,⟨before,word,after,rfl,divides,_,blanks,_,between⟩,starts⟩ := one
  obtain ⟨parts,⟨early,next,late,rfl,divides',_,blanks',_,between'⟩,starts'⟩ := other
  simp only [List.append_assoc] at parts
  obtain ⟨rfl,behind⟩ := List.append_inj parts same
  have words := congrArg (List.dropWhile isSpace) behind
  rw [dropWhile_blank_append blanks,dropWhile_blank_append blanks',
    dropWhile_of_starts (divides.starts _),dropWhile_of_starts (divides'.starts _)] at words
  obtain ⟨rfl,sources⟩ := List.append_inj words (divides.length_eq.trans divides'.length_eq.symm)
  have rests := congrArg (List.dropWhile isSpace) sources
  rw [dropWhile_blank_append between,dropWhile_blank_append between',dropWhile_of_starts starts,
    dropWhile_of_starts starts'] at rests
  subst rests
  rw [← List.append_assoc,← List.append_assoc,← List.append_assoc early,← List.append_assoc] at behind
  exact ⟨rfl,List.append_cancel_right behind,rfl⟩

theorem exists_append_of_last {rest front back : List Char} (last : text.getLast? = some c)
    (absent : c ∉ front) (same : text ++ rest = front ++ back) :
    ∃ more, text = front ++ more ∧ more.getLast? = some c ∧ more ++ rest = back := by
  rcases List.append_eq_append_iff.mp same with ⟨more,rfl,_⟩ | ⟨more,rfl,rfl⟩
  · exact absurd (List.mem_append_left _ (List.mem_of_getLast? last)) absent
  · refine ⟨more,rfl,?_,rfl⟩
    rw [List.getLast?_append] at last
    cases ended : more.getLast? with
    | none =>
      rw [ended,Option.none_or] at last
      exact absurd (List.mem_of_getLast? last) absent
    | some d => rwa [ended,Option.some_or] at last

theorem hasWord_of_splits {left divider source : List Char} (closed : left.getLast? = some ')')
    (splits : Splits (left ++ text) lead divider source) (early : lead.length < left.length) :
    ∃ word, IsWord word ∧ HasWord left word := by
  obtain ⟨parts,⟨before,word,after,rfl,divides,filled,blanks,some,between⟩,_⟩ := splits
  obtain ⟨more,rfl,rest⟩ : ∃ more, left = lead ++ more ∧
      before ++ (word ++ (after ++ source)) = more ++ text := by
    simp only [List.append_assoc] at parts
    rcases List.append_eq_append_iff.mp parts with ⟨more,rfl,_⟩ | split
    · rw [List.length_append] at early
      omega
    · exact split
  have longer : more ≠ [] := by
    rintro rfl
    simp at early
  rw [List.getLast?_append_of_ne_nil _ longer] at closed
  -- the parenthesis is neither white space nor a letter of the word
  obtain ⟨more,rfl,closed,rest⟩ := exists_append_of_last closed (fun member => by
    have space := List.all_eq_true.mp blanks _ member
    contradiction) rest.symm
  obtain ⟨more,rfl,_,rest⟩ := exists_append_of_last closed (fun member => by
    have letter := divides.mem member
    contradiction) rest
  refine ⟨word,divides,lead ++ before,more,by simp,?_,?_⟩
  · intro c ended
    rw [List.getLast?_append_of_ne_nil _ filled] at ended
    exact List.all_eq_true.mp blanks c (List.mem_of_getLast? ended)
  · intro c started
    have first : (more ++ text).head? = .some c := by
      rw [List.head?_append,Option.mem_def.mp started,Option.some_or]
    rw [rest,List.head?_append_of_ne_nil _ some] at first
    exact List.all_eq_true.mp between c (List.mem_of_mem_head? first)

/-- The aliases of a loop as they are written between parentheses. -/
inductive Aliases where
  | single (value : List Char)
  | keyed (value key : List Char)
  | indexed (value key index : List Char)

namespace Aliases

def first : Aliases → List Char
  | single value => value
  | keyed value _ => value
  | indexed value _ _ => value

def names : Aliases → List (List Char)
  | single _ => []
  | keyed _ key => [key]
  | indexed _ key index => [key,index]

def written (aliases : Aliases) : List Char :=
  aliases.first ++ aliases.names.flatMap (',' :: ' ' :: ·)

/-- `(value, key, index) in source`, or with another word. -/
def print (aliases : Aliases) (word source : List Char) : List Char :=
  '(' :: aliases.written ++ [')'] ++ (' ' :: word ++ [' ']) ++ source

end Aliases

def Undivided (text : List Char) : Prop :=
  ∀ word ∈ text.splitOnP isSpace, ¬IsWord word

/-- What can be written as the value of a loop: every comma stands before a closing brace or bracket. -/
structure IsValue (value : List Char) : Prop where
  tight : Tight value
  undivided : Undivided value
  bare : value.head? ≠ some '('
  enclosed : ∀ after, ',' :: after <:+ value → ∃ c ∈ after, c = '}' ∨ c = ']'

/-- What can be written as the key or the index of a loop. -/
structure IsName (name : List Char) : Prop where
  tight : Tight name
  undivided : Undivided name
  plain : ∀ c ∈ name, c ≠ ',' ∧ c ≠ '}' ∧ c ≠ ']'

namespace Aliases

structure Readable (aliases : Aliases) : Prop where
  value : IsValue aliases.first
  names : ∀ name ∈ aliases.names, IsName name

theorem tight_append {first : List Char} {names : List (List Char)} (value : Tight first)
    (others : ∀ name ∈ names, Tight name) : Tight (first ++ names.flatMap (',' :: ' ' :: ·)) := by
  induction names generalizing first with
  | nil => simpa using value
  | cons name names ih =>
    obtain ⟨next,later⟩ := List.forall_mem_cons.mp others
    have longer : Tight (first ++ (',' :: ' ' :: name)) := by
      refine ⟨by simp [value.some],?_,?_⟩
      · rw [List.head?_append_of_ne_nil _ value.some]
        exact value.head
      · have behind : first ++ ',' :: ' ' :: name = (first ++ [',',' ']) ++ name := by simp
        rw [behind,List.getLast?_append_of_ne_nil _ next.some]
        exact next.last
    rw [List.flatMap_cons,← List.append_assoc]
    exact ih longer later

theorem hasWord_of_append {first word : List Char} {names : List (List Char)}
    (divides : IsWord word) (absent : c ∉ word)
    (has : HasWord (first ++ names.flatMap (',' :: ' ' :: ·) ++ [c]) word) :
    HasWord first word ∨ ∃ name ∈ names, HasWord name word := by
  induction names generalizing first with
  | nil =>
    rw [List.flatMap_nil,List.append_nil] at has
    exact .inl (has.of_concat divides.ne_nil absent)
  | cons name names ih =>
    have parts : first ++ (name :: names).flatMap (',' :: ' ' :: ·) ++ [c] =
        (first ++ [',']) ++ ' ' :: (name ++ names.flatMap (',' :: ' ' :: ·) ++ [c]) := by
      simp
    rw [parts] at has
    have comma : ',' ∉ word := fun member => absurd (divides.mem member) (by decide)
    rcases has.of_append_cons (by decide) divides.solid with here | later
    · exact .inl (here.of_concat divides.ne_nil comma)
    · rcases ih later with next | ⟨other,member,behind⟩
      · exact .inr ⟨name,List.mem_cons_self,next⟩
      · exact .inr ⟨other,List.mem_cons_of_mem _ member,behind⟩

variable {aliases : Aliases} {word source : List Char}

theorem Readable.not_hasWord (readable : aliases.Readable) (divides : IsWord word) :
    ¬HasWord ('(' :: aliases.written ++ [')']) word := by
  intro has
  have opening : '(' ∉ word := fun member => absurd (divides.mem member) (by decide)
  have closing : ')' ∉ word := fun member => absurd (divides.mem member) (by decide)
  rcases hasWord_of_append divides closing (has.of_cons divides.ne_nil opening) with
    value | ⟨name,member,inside⟩
  · exact readable.value.undivided _ (mem_splitOnP_of_hasWord divides.solid value) divides
  · exact (readable.names name member).undivided _ (mem_splitOnP_of_hasWord divides.solid inside) divides

theorem splits_print (divides : IsWord word) (tight : Tight source) :
    Splits (aliases.print word source) ('(' :: aliases.written ++ [')']) (' ' :: word ++ [' ']) source := by
  refine ⟨rfl,⟨[' '],word,[' '],rfl,divides,List.cons_ne_nil _ _,by decide,List.cons_ne_nil _ _,
    by decide⟩,?_⟩
  obtain ⟨c,rest,rfl⟩ := List.exists_cons_of_ne_nil tight.some
  exact ⟨c,rfl,tight.head c rfl⟩

theorem Readable.divide?_print (readable : aliases.Readable) (divides : IsWord word)
    (tight : Tight source) :
    divide? (aliases.print word source) =
      some ('(' :: aliases.written ++ [')'],' ' :: word ++ [' '],source) := by
  have meant : Splits (aliases.print word source) _ _ _ := splits_print divides tight
  obtain ⟨lead,middle,rest,found,early⟩ := meant.exists_divide?
  have splits := splits_of_divide? found
  have late : ('(' :: aliases.written ++ [')']).length ≤ lead.length := by
    refine Nat.le_of_not_lt fun before => ?_
    have parts := splits
    rw [print,List.append_assoc] at parts
    obtain ⟨other,dividing,has⟩ := hasWord_of_splits List.getLast?_concat parts before
    exact readable.not_hasWord dividing has
  obtain ⟨rfl,rfl,rfl⟩ := splits.unique meant (Nat.le_antisymm early late)
  exact found

end Aliases

theorem aliasText_parens (tight : Tight text) : aliasText ('(' :: text ++ [')']) = text := by
  have outer : Tight ('(' :: text ++ [')']) := by
    refine ⟨List.cons_ne_nil _ _,?_,?_⟩
    · rintro _ ⟨⟩
      decide
    · rw [List.getLast?_concat]
      rintro _ ⟨⟩
      decide
  rw [aliasText,outer.trim_eq]
  have inner : stripParens ('(' :: text ++ [')']) = text := by
    simp [stripParens]
  rw [inner,tight.trim_eq]

theorem aliasStart_parens (tight : Tight text) (bare : text.head? ≠ some '(') :
    aliasStart ('(' :: text ++ [')']) = 1 := by
  obtain ⟨c,rest,rfl⟩ := List.exists_cons_of_ne_nil tight.some
  have other : c ≠ '(' := fun same => bare (congrArg some same)
  rw [aliasStart,aliasText_parens tight,List.cons_append,find?_cons_of_ne other,find?_append_self]
  rfl

theorem iterators?_append {value : List Char} (rest : List Char)
    (enclosed : ∀ after, ',' :: after <:+ value → ∃ c ∈ after, c = '}' ∨ c = ']') :
    iterators? (value ++ rest) =
      (iterators? rest).map fun parts => (value ++ parts.1,parts.2.1,parts.2.2) := by
  induction value with
  | nil => simp
  | cons c value ih =>
    have later := ih fun after inside => enclosed after (inside.trans (List.suffix_cons c value))
    have covered : (decide (c = ',') && !(value ++ rest).any closesPattern) = false := by
      by_cases comma : c = ','
      · subst comma
        obtain ⟨d,member,closes⟩ := enclosed value (List.suffix_refl _)
        have found : (value ++ rest).any closesPattern = true :=
          List.any_eq_true.mpr ⟨d,List.mem_append_left _ member,by simpa [closesPattern] using closes⟩
        simp [found]
      · simp [comma]
    rw [List.cons_append,iterators?,later,covered]
    simp [Function.comp_def]

theorem nonEmpty_of_tight {part : List Char} (tight : Tight part) : nonEmpty part = some part :=
  if_neg (by simpa using tight.some)

theorem IsName.trim_cons (plain : IsName name) : trim (' ' :: name) = name := by
  have space : isSpace ' ' = true := by decide
  rw [trim,trimLeft,List.dropWhile_cons,if_pos space]
  exact plain.tight.trim_eq

theorem IsName.located_eq (plain : IsName name) (rest : List Char) (base : Int) :
    located (lead ++ (',' :: ' ' :: name ++ rest)) name base lead.length =
      ⟨name,base + (lead.length + 2 : Nat),false⟩ := by
  obtain ⟨c,more,rfl⟩ := List.exists_cons_of_ne_nil plain.tight.some
  have comma : c ≠ ',' := (plain.plain c List.mem_cons_self).1
  have space : c ≠ ' ' := by
    rintro rfl
    have solid := plain.tight.head ' ' rfl
    contradiction
  have found : find? (c :: more) (',' :: ' ' :: (c :: more) ++ rest) = some 2 := by
    rw [List.cons_append,List.cons_append,find?_cons_of_ne comma,find?_cons_of_ne space,
      find?_append_self]
    rfl
  have inside : lead.length ≤ (lead ++ (',' :: ' ' :: (c :: more) ++ rest)).length := by
    rw [List.length_append]
    omega
  rw [located,Int.toNat_natCast,findFrom?,if_pos inside,List.drop_left,found,Option.map_some,Nat.add_comm]

theorem IsName.searchEnd_eq (plain : IsName name) (rest : List Char) :
    searchEnd (lead ++ (',' :: ' ' :: name ++ rest)) name lead.length =
      (lead ++ (',' :: ' ' :: name)).length := by
  rw [searchEnd,nonEmpty_of_tight plain.tight,Option.map_some,plain.located_eq rest 0]
  simp only [List.length_append,List.length_cons]
  omega

theorem IsName.comma_not_mem (plain : IsName name) : ',' ∉ ' ' :: name := by
  rw [List.mem_cons,not_or]
  exact ⟨by decide,fun member => (plain.plain ',' member).1 rfl⟩

theorem IsName.closes_eq_false (plain : IsName name) : (' ' :: name).any closesPattern = false := by
  rw [List.any_cons,Bool.or_eq_false_iff]
  refine ⟨by decide,List.any_eq_false.mpr fun c member => ?_⟩
  have other := plain.plain c member
  simp [closesPattern,other]

theorem iterators?_of_key (plain : IsName key) :
    iterators? (',' :: ' ' :: key) = some ([],' ' :: key,none) := by
  rw [iterators?,plain.closes_eq_false,splitOn_of_not_mem plain.comma_not_mem]
  rfl

theorem iterators?_of_index {index : List Char} (named : IsName key) (numbered : IsName index) :
    iterators? (',' :: ' ' :: key ++ ',' :: ' ' :: index) = some ([],' ' :: key,some (' ' :: index)) := by
  have closes : (' ' :: key ++ ',' :: ' ' :: index).any closesPattern = false := by
    rw [List.any_append,named.closes_eq_false,List.any_cons,numbered.closes_eq_false]
    rfl
  rw [List.cons_append,iterators?,closes,splitOn_append named.comma_not_mem,
    splitOn_of_not_mem numbered.comma_not_mem]
  rfl

def Aliases.loop (aliases : Aliases) (base : Int) (word source : List Char) : Loop :=
  let written (part : List Char) (place : Nat) : Expression := ⟨part,base + place,false⟩
  let last := written source (aliases.written.length + word.length + 4)
  match aliases with
  | single value => ⟨last,written value 1,none,none⟩
  | keyed value key => ⟨last,written value 1,written key (value.length + 3),none⟩
  | indexed value key index =>
    ⟨last,written value 1,written key (value.length + 3),written index (value.length + key.length + 5)⟩

theorem sourceOf_print (aliases : Aliases) (word : List Char) {source : List Char} (base : Int)
    (isStatic : Bool) (tight : Tight source) :
    sourceOf ⟨aliases.print word source,base,isStatic⟩ ('(' :: aliases.written ++ [')'])
        (' ' :: word ++ [' ']) source =
      ⟨source,base + (aliases.written.length + word.length + 4 : Nat),false⟩ := by
  have width : ('(' :: aliases.written ++ [')']).length + (' ' :: word ++ [' ']).length =
      aliases.written.length + word.length + 4 := by
    simp only [List.length_append,List.length_cons,List.length_nil]
    omega
  rw [sourceOf,tight.trimRight_eq,width]

section ReadBack

variable {aliases : Aliases} {word source : List Char} (base : Int) (isStatic : Bool)
  (readable : aliases.Readable) (divides : IsWord word) (tight : Tight source)

include readable

theorem Aliases.Readable.tight_written : Tight aliases.written :=
  tight_append readable.value.tight fun name member => (readable.names name member).tight

theorem Aliases.Readable.aliasStart_eq : aliasStart ('(' :: aliases.written ++ [')']) = 1 := by
  apply aliasStart_parens readable.tight_written
  rw [written,List.head?_append_of_ne_nil _ readable.value.tight.some]
  exact readable.value.bare

include divides tight

theorem parse?_print_of_value (alone : iterators? aliases.written = none) :
    parse? ⟨aliases.print word source,base,isStatic⟩ =
      some ⟨⟨source,base + (aliases.written.length + word.length + 4 : Nat),false⟩,
        some ⟨aliases.written,base + (1 : Nat),false⟩,none,none⟩ := by
  have text := aliasText_parens readable.tight_written
  have alone : iterators? (aliasText ('(' :: aliases.written ++ [')'])) = none := by
    rw [text]
    exact alone
  rw [parse?_of_value (readable.divide?_print divides tight) alone,text,readable.aliasStart_eq,
    sourceOf_print aliases word base isStatic tight,nonEmpty_of_tight readable.tight_written]
  rfl

theorem parse?_print_of_names {behind : List Char} {index : Option (List Char)} (named : IsName key)
    (parts : iterators? aliases.written = some (aliases.first,' ' :: key,index))
    (content : aliases.print word source =
      ('(' :: aliases.first) ++ (',' :: ' ' :: key ++ behind)) :
    parse? ⟨aliases.print word source,base,isStatic⟩ =
      some ⟨⟨source,base + (aliases.written.length + word.length + 4 : Nat),false⟩,
        some ⟨aliases.first,base + (1 : Nat),false⟩,
        some ⟨key,base + (aliases.first.length + 3 : Nat),false⟩,
        (index.bind fun index => nonEmpty (trim index)).map fun part =>
          located (aliases.print word source) part base
            (('(' :: aliases.first) ++ (',' :: ' ' :: key)).length⟩ := by
  have valued := readable.value.tight
  have parts : iterators? (aliasText ('(' :: aliases.written ++ [')'])) =
      some (aliases.first,' ' :: key,index) := by
    rw [aliasText_parens readable.tight_written]
    exact parts
  have away : ((1 : Nat) + aliases.first.length : Int) = ('(' :: aliases.first).length := by
    rw [List.length_cons,Nat.add_comm]
    rfl
  rw [parse?_of_iterators (readable.divide?_print divides tight) parts,readable.aliasStart_eq,
    sourceOf_print aliases word base isStatic tight,valued.trim_eq,named.trim_cons,
    nonEmpty_of_tight valued,nonEmpty_of_tight named.tight,away,content,named.searchEnd_eq]
  simp only [Option.map_some,named.located_eq]
  rfl

end ReadBack

/-- What is written out as a loop is read back, whatever words the source holds. -/
theorem printed_loops_are_read_back (aliases : Aliases) (word source : List Char) (base : Int)
    (isStatic : Bool) (readable : aliases.Readable) (divides : IsWord word) (tight : Tight source) :
    parse? ⟨aliases.print word source,base,isStatic⟩ = some (aliases.loop base word source) := by
  have enclosed := readable.value.enclosed
  cases aliases with
  | single value =>
    have whole : (Aliases.single value).written = value := List.append_nil value
    rw [parse?_print_of_value base isStatic readable divides tight (iterators?_append [] enclosed),
      Aliases.loop,whole]
  | keyed value key =>
    have named := readable.names key List.mem_cons_self
    have parts : iterators? (Aliases.keyed value key).written = some (value ++ [],' ' :: key,none) := by
      rw [Aliases.written,iterators?_append _ enclosed,Aliases.names,List.flatMap_singleton,
        iterators?_of_key named]
      rfl
    rw [List.append_nil] at parts
    have content : (Aliases.keyed value key).print word source =
        ('(' :: value) ++ (',' :: ' ' :: key ++ ([')'] ++ (' ' :: word ++ [' ']) ++ source)) := by
      simp [Aliases.print,Aliases.written,Aliases.first,Aliases.names]
    exact parse?_print_of_names base isStatic readable divides tight named parts content
  | indexed value key index =>
    have named := readable.names key List.mem_cons_self
    have numbered := readable.names index (List.mem_cons_of_mem _ List.mem_cons_self)
    have parts : iterators? (Aliases.indexed value key index).written =
        some (value ++ [],' ' :: key,some (' ' :: index)) := by
      rw [Aliases.written,iterators?_append _ enclosed,Aliases.names,List.flatMap_cons,
        List.flatMap_singleton,iterators?_of_index named numbered]
      rfl
    rw [List.append_nil] at parts
    let behind := [')'] ++ (' ' :: word ++ [' ']) ++ source
    have content : (Aliases.indexed value key index).print word source =
        ('(' :: value) ++ (',' :: ' ' :: key ++ (',' :: ' ' :: index ++ behind)) := by
      simp [behind,Aliases.print,Aliases.written,Aliases.first,Aliases.names]
    have width : (('(' :: value) ++ (',' :: ' ' :: key)).length + 2 = value.length + key.length + 5 := by
      simp only [List.length_append,List.length_cons]
      omega
    have last : located ((Aliases.indexed value key index).print word source) index base
        (('(' :: value) ++ (',' :: ' ' :: key)).length =
          ⟨index,base + (value.length + key.length + 5 : Nat),false⟩ := by
      rw [content,← List.append_assoc,numbered.located_eq,width]
    rw [parse?_print_of_names base isStatic readable divides tight named parts content,Option.bind_some,
      numbered.trim_cons,nonEmpty_of_tight numbered.tight,Option.map_some]
    dsimp only [Aliases.first]
    rw [last]
    rfl

/-- The key is part of the value and of the index, and the source holds both words. -/
theorem repeated_key_is_read_back :
    let aliases : Aliases := .indexed "\x7b a, b: [a, c] \x7d".toList "a".toList "a) (a".toList
    aliases.print "of".toList "a in b of c".toList =
        "(\x7b a, b: [a, c] \x7d, a, a) (a) of a in b of c".toList ∧
      aliases.Readable ∧ IsWord "of".toList ∧ Tight "a in b of c".toList ∧
      parse? ⟨aliases.print "of".toList "a in b of c".toList,7,false⟩ =
        some (aliases.loop 7 "of".toList "a in b of c".toList) := by
  intro aliases
  have undivided (text : List Char) (checked : (text.splitOnP isSpace).all (fun word =>
      decide (word ≠ ['i','n']) && decide (word ≠ ['o','f'])) = true) : Undivided text := by
    intro word member
    simpa [IsWord] using List.all_eq_true.mp checked word member
  have enclosed (text : List Char) (checked : text.tails.all (fun tail =>
      tail.head? != some ',' || tail.tail.any closesPattern) = true) (after : List Char)
      (inside : ',' :: after <:+ text) : ∃ c ∈ after, c = '}' ∨ c = ']' := by
    have closed := List.all_eq_true.mp checked _ ((List.mem_tails _ _).mpr inside)
    simpa [closesPattern] using closed
  have named (text : List Char) (tight : Tight text) (words : Undivided text)
      (checked : text.all (fun c => c != ',' && c != '}' && c != ']') = true) : IsName text := by
    refine ⟨tight,words,fun c member => ?_⟩
    simpa [and_assoc] using List.all_eq_true.mp checked c member
  have readable : aliases.Readable := by
    refine ⟨⟨by decide +kernel,undivided _ (by decide +kernel),by decide,enclosed _ (by decide +kernel)⟩,
      List.forall_mem_cons.mpr ⟨?_,List.forall_mem_singleton.mpr ?_⟩⟩
    · exact named _ (by decide +kernel) (undivided _ (by decide +kernel)) (by decide +kernel)
    · exact named _ (by decide +kernel) (undivided _ (by decide +kernel)) (by decide +kernel)
  have tight : Tight "a in b of c".toList := by decide +kernel
  exact ⟨by decide +kernel,readable,.inr rfl,tight,
    printed_loops_are_read_back aliases _ _ 7 false readable (.inr rfl) tight⟩

end VueScope.Template.Loop
