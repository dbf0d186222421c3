import VueScope.Proofs.Template.Anchored
import VueScope.Proofs.Text.Search

/-! The names of directives are read as they are written. A name, an argument and modifiers that are put
together to an attribute name come apart again, whatever colons the argument holds and whatever dots
stand between its brackets. A shorthand is read like the name it is short for. -/
namespace VueScope.Template.DirectiveName

open Text

def nameLetters : List Char :=
  "abcdefghijklmnopqrstuvwxyz0123456789-".toList

/-- Something is written, and no white space in it. -/
structure Solid (part : List Char) : Prop where
  some : part ≠ []
  unbroken : ∀ c ∈ part, isSpace c = false

theorem solid_iff_all (part : List Char) :
    (part ≠ [] ∧ part.all (!isSpace ·) = true) ↔ Solid part := by
  simp only [List.all_eq_true,Bool.not_eq_true']
  exact ⟨fun parts => ⟨parts.1,parts.2⟩,fun solid => ⟨solid.some,solid.unbroken⟩⟩

instance (part : List Char) : Decidable (Solid part) :=
  decidable_of_iff _ (solid_iff_all part)

/-- An argument as it is written: a name, or an expression in brackets. -/
inductive WrittenArgument where
  | fixed (content : List Char) (solid : Solid content) (undotted : '.' ∉ content)
      (bare : content.head? ≠ some '[')
  | computed (content : List Char) (solid : Solid content) (inside : ']' ∉ content)

namespace WrittenArgument

def content : WrittenArgument → List Char
  | fixed content _ _ _ => content
  | computed content _ _ => content

def isStatic : WrittenArgument → Bool
  | fixed _ _ _ _ => true
  | computed _ _ _ => false

def written : WrittenArgument → List Char
  | fixed content _ _ _ => content
  | computed content _ _ => '[' :: (content ++ [']'])

def lead : WrittenArgument → Nat
  | fixed _ _ _ _ => 0
  | computed _ _ _ => 1

end WrittenArgument

structure Modifier where
  content : List Char
  solid : Solid content
  undotted : '.' ∉ content

def dotted (modifiers : List Modifier) : List Char :=
  modifiers.flatMap fun modifier => '.' :: modifier.content

/-- The parts that the name of a directive is written with. -/
structure Spelling where
  name : List Char
  named : name ≠ []
  letters : ∀ c ∈ name, c ∈ nameLetters
  argument : Option WrittenArgument
  modifiers : List Modifier

namespace Spelling

def written (spelling : Spelling) : List Char :=
  'v' :: '-' :: (spelling.name ++
    (spelling.argument.elim [] (fun argument => ':' :: argument.written) ++ dotted spelling.modifiers))

end Spelling

/-- The attribute name that starts with a sigil, right before the argument. -/
def abbreviated (sigil : Char) (argument : WrittenArgument) (modifiers : List Modifier) : List Char :=
  sigil :: (argument.written ++ dotted modifiers)

def sigils : List (Char × List Char) :=
  [(':',"bind".toList),('.',"bind".toList),('@',"on".toList),('#',"slot".toList)]

/-! What follows the name. -/

theorem splitOn_dotted {modifier : List Char} (undotted : '.' ∉ modifier) (others : List Modifier) :
    splitOn '.' (modifier ++ dotted others) = modifier :: others.map Modifier.content := by
  induction others generalizing modifier with
  | nil =>
    rw [dotted,List.flatMap_nil,List.append_nil]
    exact splitOn_of_not_mem undotted
  | cons next others ih =>
    have behind := ih next.undotted
    rw [dotted,List.flatMap_cons,List.cons_append,splitOn_append undotted]
    rw [dotted] at behind
    rw [behind,List.map_cons]

theorem modifiersOf_dotted (modifiers : List Modifier) :
    modifiersOf (dotted modifiers) = modifiers.map Modifier.content := by
  cases modifiers with
  | nil => rfl
  | cons modifier others => exact splitOn_dotted modifier.undotted others

theorem takeWhile_append_dotted {test : Char → Bool} {part : List Char} (all : ∀ c ∈ part, test c = true)
    (stops : test '.' = false) (modifiers : List Modifier) :
    (part ++ dotted modifiers).takeWhile test = part := by
  rw [List.takeWhile_append_of_pos all]
  cases modifiers with
  | nil => exact List.append_nil part
  | cons modifier others =>
    rw [dotted,List.flatMap_cons,List.cons_append,List.takeWhile_cons,stops]
    exact List.append_nil part

theorem takeWhile_ne_append {stop : Char} {part : List Char} (absent : stop ∉ part) (rest : List Char) :
    (part ++ stop :: rest).takeWhile (· ≠ stop) = part := by
  have all : ∀ c ∈ part, decide (c ≠ stop) = true := by
    intro c member
    exact decide_eq_true fun same => absent (same ▸ member)
  rw [List.takeWhile_append_of_pos all,List.takeWhile_cons]
  simp

theorem argumentLength_written (argument : WrittenArgument) (modifiers : List Modifier) :
    argumentLength (argument.written ++ dotted modifiers) = argument.written.length := by
  cases argument with
  | fixed content solid undotted bare =>
    have all : ∀ c ∈ content, decide (c ≠ '.') = true := by
      intro c member
      exact decide_eq_true fun same => undotted (same ▸ member)
    have upTo := takeWhile_append_dotted all (by decide) modifiers
    obtain ⟨c,rest,rfl⟩ := List.exists_cons_of_ne_nil solid.some
    have other : c ≠ '[' := by simpa using bare
    simp only [argumentLength,WrittenArgument.written,List.cons_append] at upTo ⊢
    rw [upTo]
    simp [other]
  | computed content solid inside =>
    have upTo := takeWhile_ne_append inside (dotted modifiers)
    have some : content.isEmpty = false := by simpa using solid.some
    have wide : content.length ≠ (content ++ ']' :: dotted modifiers).length := by
      rw [List.length_append,List.length_cons]
      omega
    simp only [argumentLength,WrittenArgument.written,List.cons_append,List.append_assoc,
      List.nil_append,upTo,some,wide]
    simp

theorem argumentOf_written (argument : WrittenArgument) (start : Nat) :
    argumentOf argument.written start =
      ⟨argument.content,start + argument.lead,argument.isStatic⟩ := by
  cases argument with
  | fixed content solid undotted bare =>
    obtain ⟨c,rest,rfl⟩ := List.exists_cons_of_ne_nil solid.some
    have other : c ≠ '[' := by simpa using bare
    unfold argumentOf
    split
    next inner same => exact absurd (List.cons.inj same).1 other
    · rfl
  | computed content solid inside =>
    simp [argumentOf,WrittenArgument.written,WrittenArgument.content,WrittenArgument.lead,
      WrittenArgument.isStatic]

theorem tailOf_written (start : Nat) (sigil : Char) (argument : WrittenArgument)
    (modifiers : List Modifier) :
    tailOf start true (sigil :: (argument.written ++ dotted modifiers)) =
      (some ⟨argument.content,start + 1 + argument.lead,argument.isStatic⟩,
        modifiers.map Modifier.content) := by
  have room : argument.written.length ≠ 0 := by
    cases argument with
    | fixed content solid _ _ => simpa [WrittenArgument.written] using solid.some
    | computed => exact Nat.succ_ne_zero _
  simp only [tailOf,if_true,argumentLength_written,if_neg room,List.take_left,List.drop_left,
    argumentOf_written,modifiersOf_dotted]

theorem tailOf_dotted (start : Nat) (modifiers : List Modifier) :
    tailOf start false (dotted modifiers) = (none,modifiers.map Modifier.content) := by
  have parts := modifiersOf_dotted modifiers
  cases modifiers with
  | nil => rfl
  | cons modifier others =>
    rw [← parts]
    rfl

/-! The whole name. -/

theorem continuesName_of_mem {c : Char} (letter : c ∈ nameLetters) : continuesName c = true :=
  List.all_eq_true.mp (by decide : nameLetters.all continuesName = true) c letter

theorem startsName_of_mem {c : Char} (letter : c ∈ nameLetters) : startsName c = true :=
  List.all_eq_true.mp (by decide : nameLetters.all startsName = true) c letter

theorem isDirective_written (spelling : Spelling) : isDirective spelling.written = true := by
  obtain ⟨c,rest,name⟩ := List.exists_cons_of_ne_nil spelling.named
  have letter := spelling.letters c (name ▸ List.mem_cons_self)
  rw [Spelling.written,name]
  exact startsName_of_mem letter

theorem parse_written (spelling : Spelling) :
    parse spelling.written =
      ⟨spelling.name,spelling.argument.map fun argument =>
          ⟨argument.content,spelling.name.length + 3 + argument.lead,argument.isStatic⟩,
        spelling.modifiers.map Modifier.content⟩ := by
  have all : ∀ c ∈ spelling.name, continuesName c = true :=
    fun c member => continuesName_of_mem (spelling.letters c member)
  cases argued : spelling.argument with
  | none =>
    have upTo := takeWhile_append_dotted all (by decide) spelling.modifiers
    have unled : (dotted spelling.modifiers).head? ≠ some ':' := by
      cases spelling.modifiers with
      | nil => decide
      | cons modifier others => exact fun same => absurd (Option.some.inj same) (by decide)
    simp only [Spelling.written,argued,Option.elim_none,List.nil_append,parse,upTo,List.drop_left,
      decide_eq_false unled,tailOf_dotted,Option.map_none]
  | some argument =>
    have upTo : (spelling.name ++ ':' :: (argument.written ++ dotted spelling.modifiers)).takeWhile
        continuesName = spelling.name := by
      rw [List.takeWhile_append_of_pos all,List.takeWhile_cons]
      exact List.append_nil _
    simp only [Spelling.written,argued,Option.elim_some,List.cons_append,parse,upTo,List.drop_left,
      List.head?_cons,decide_true,tailOf_written,Option.map_some]

theorem parse_abbreviated {sigil : Char} {name : List Char} (short : (sigil,name) ∈ sigils)
    (argument : WrittenArgument) (modifiers : List Modifier) :
    isDirective (abbreviated sigil argument modifiers) = true ∧
      parse (abbreviated sigil argument modifiers) =
        ⟨name,some ⟨argument.content,1 + argument.lead,argument.isStatic⟩,
          modifiers.map Modifier.content ++ if sigil = '.' then ["prop".toList] else []⟩ := by
  have tail := tailOf_written 0 sigil argument modifiers
  rw [Nat.zero_add] at tail
  unfold abbreviated
  simp only [sigils,List.mem_cons,List.not_mem_nil,or_false,Prod.mk.injEq] at short
  rcases short with ⟨rfl,rfl⟩ | ⟨rfl,rfl⟩ | ⟨rfl,rfl⟩ | ⟨rfl,rfl⟩
  · exact ⟨rfl,by simp [parse,tail,shorthand]⟩
  · exact ⟨rfl,by simp [parse,tail,shorthand]⟩
  · exact ⟨rfl,by simp [parse,tail,shorthand]⟩
  · exact ⟨rfl,by simp [parse,tail,shorthand]⟩

def meaning (argument : Expression) : List Char × Bool :=
  (argument.content,argument.isStatic)

theorem propOf_of_isDirective {text : List Char} {attr : Markup.Attribute}
    (directive : isDirective (sliceBytes text attr.name).1 = true) :
    propOf text attr = .directive (directiveOf (sliceBytes text attr.name).1
      (sliceBytes text attr.name).2 (attr.value.map (sliceBytes text))) :=
  if_pos directive

/-- An attribute name that is put together of a name, an argument and modifiers is read back as these,
with the argument where it is written. Behind a sigil in place of a name and its colon the same
argument and modifiers are read, with the name that the sigil is short for; the dot adds a
modifier. -/
theorem directive_names_are_read_back (spelling : Spelling) (text : List Char)
    (attr : Markup.Attribute) (written : (sliceBytes text attr.name).1 = spelling.written) :
    ∃ directive, propOf text attr = .directive directive ∧ directive.name = spelling.name ∧
      directive.argument = spelling.argument.map (fun argument =>
        ⟨argument.content,(((sliceBytes text attr.name).2 +
          (spelling.name.length + 3 + argument.lead) : Nat) : Int),argument.isStatic⟩) ∧
      (∀ argument ∈ directive.argument, StandsAt text argument.content argument.offset) ∧
      directive.modifiers = spelling.modifiers.map Modifier.content ∧
      ∀ argument, spelling.argument = some argument → ∀ sigil, (sigil,spelling.name) ∈ sigils →
        ∀ (other : List Char) (short : Markup.Attribute),
          (sliceBytes other short.name).1 = abbreviated sigil argument spelling.modifiers →
          ∃ shortened, propOf other short = .directive shortened ∧ shortened.name = directive.name ∧
            shortened.argument.map meaning = directive.argument.map meaning ∧
            (∀ argument ∈ shortened.argument, StandsAt other argument.content argument.offset) ∧
            shortened.modifiers =
              directive.modifiers ++ if sigil = '.' then ["prop".toList] else [] := by
  have read : propOf text attr = .directive (directiveOf (sliceBytes text attr.name).1
      (sliceBytes text attr.name).2 (attr.value.map (sliceBytes text))) :=
    propOf_of_isDirective (written ▸ isDirective_written spelling)
  have parts := parse_written spelling
  rw [← written] at parts
  refine ⟨_,read,?_,?_,fun argument => (anchored_propOf read).argument argument,?_,?_⟩
  · simp only [directiveOf,parts]
  · simp only [directiveOf,parts,Option.map_map,Function.comp_def]
  · simp only [directiveOf,parts]
  · intro argument argued sigil short other attr abbreviates
    obtain ⟨directive,pieces⟩ := parse_abbreviated short argument spelling.modifiers
    rw [← abbreviates] at directive pieces
    have seen := propOf_of_isDirective directive
    refine ⟨_,seen,?_,?_,fun argument => (anchored_propOf seen).argument argument,?_⟩
    · simp only [directiveOf,parts,pieces]
    · simp only [directiveOf,parts,pieces,argued,Option.map_some,meaning]
    · simp only [directiveOf,parts,pieces]

/-- A dot between brackets starts no modifier, in full and behind the sigil. -/
theorem dotted_argument_is_read_back :
    let text := "é v-on:[a.b].once.left".toList
    ∃ directive shortened, propOf text ⟨⟨3,23⟩,none⟩ = .directive directive ∧
      directive.name = "on".toList ∧ directive.argument = some ⟨"a.b".toList,8,false⟩ ∧
      directive.modifiers = ["once".toList,"left".toList] ∧
      propOf "@[a.b].once.left".toList ⟨⟨0,16⟩,none⟩ = .directive shortened ∧
      shortened.name = directive.name ∧
      shortened.argument.map meaning = some ("a.b".toList,false) ∧
      shortened.modifiers = directive.modifiers := by
  intro text
  let argument := WrittenArgument.computed "a.b".toList (by decide) (by decide)
  let spelling : Spelling := ⟨"on".toList,by decide,
    fun c member => List.contains_iff_mem.mp (List.all_eq_true.mp rfl c member),some argument,
    [⟨"once".toList,by decide,by decide⟩,⟨"left".toList,by decide,by decide⟩]⟩
  obtain ⟨directive,read,name,argued,_,modifiers,short⟩ :=
    directive_names_are_read_back spelling text ⟨⟨3,23⟩,none⟩ (by decide)
  obtain ⟨shortened,seen,same,said,_,others⟩ := short argument rfl '@' (by decide)
    "@[a.b].once.left".toList ⟨⟨0,16⟩,none⟩ (by decide)
  rw [argued] at said
  rw [if_neg (by decide),List.append_nil] at others
  exact ⟨directive,shortened,read,name,argued,modifiers,seen,same,said,others⟩

end VueScope.Template.DirectiveName
