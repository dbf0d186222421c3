import VueScope.Proofs.Script.Closing
import VueScope.Proofs.Script.Limits

/-! Names in a tree are whole words of the text. Two parsers in a row put a name right after a
word only if the first may end in a word and the second may start with a name. What a parser may
do at its two ends is computed from its parts, together with whether such a pair occurs. -/
namespace VueScope.Script

open Text

/-- A name of some width at the front of a text, into which no word runs on and out of which none does. -/
structure WholeName (before text : List Char) (width : Nat) : Prop where
  le : width ≤ text.length
  isName : IsName (text.take width)
  front : Seam before text
  back : Seam (text.take width) (text.drop width)

@[reducible] def Kind.isDefault : Kind → Bool
  | .defaultKeyword => true
  | _ => false

variable {kind : Kind} {wraps : List Parser.Wrap} {width? : List Char → Option Nat}

namespace Shape

/-- A token, white space or a comment, but not the word that marks a default export. -/
def IsBare : Shape → Prop
  | blank _ => True
  | leaf kind _ _ => kind.isDefault = false
  | node _ _ _ => False

/-- A value is the last part, and no word runs on into it. -/
def ValueLast (before text : List Char) (parts : List Shape) : Prop :=
  ∀ lead part after, parts = lead ++ part :: after → part.role? = some .value →
    after = [] ∧ Seam (before ++ text.take (widthAll lead)) (text.drop (widthAll lead))

/-- A token of a declaration, or a declarator: no word goes on behind it, and none runs on into its
value. -/
inductive Declared (before text : List Char) : Shape → Prop
  | bare {shape : Shape} (bare : shape.IsBare) : Declared before text shape
  | declarator {role : Option Field} {parts : List Shape}
      (stops : startsWithWord (text.drop (widthAll parts)) = false) (last : ValueLast before text parts) :
      Declared before text (node .variableDeclarator role parts)

def DeclaredAll (before text : List Char) : List Shape → Prop
  | [] => True
  | shape :: rest =>
    Declared before text shape ∧
      DeclaredAll (before ++ text.take shape.width) (text.drop shape.width) rest

mutual

/-- Names are whole: no word runs on into a name of the shape or out of it, where the shape stands between
a text before it and the text that it covers the front of. None runs on out of white space and comments,
nor into the values of declarations. -/
def Spaced (before text : List Char) : Shape → Prop
  | blank width => Seam (before ++ text.take width) (text.drop width)
  | leaf kind _ width =>
    (kind.isName = true → WholeName before text width) ∧
      (kind.isComment = true → Seam (before ++ text.take width) (text.drop width))
  | node kind _ children =>
    (kind.declaresVariables = true → DeclaredAll before text children) ∧ SpacedAll before text children

def SpacedAll (before text : List Char) : List Shape → Prop
  | [] => True
  | shape :: rest =>
    Spaced before text shape ∧
      SpacedAll (before ++ text.take shape.width) (text.drop shape.width) rest

end

theorem spacedAll_append (before text : List Char) (first second : List Shape) :
    SpacedAll before text (first ++ second) ↔ SpacedAll before text first ∧
      SpacedAll (before ++ text.take (widthAll first)) (text.drop (widthAll first)) second := by
  induction first generalizing before text with
  | nil => simp [SpacedAll,widthAll]
  | cons shape rest ih =>
    simp [SpacedAll,widthAll,ih,and_assoc,List.drop_drop,List.take_add,List.append_assoc]

theorem declaredAll_append (before text : List Char) (first second : List Shape) :
    DeclaredAll before text (first ++ second) ↔ DeclaredAll before text first ∧
      DeclaredAll (before ++ text.take (widthAll first)) (text.drop (widthAll first)) second := by
  induction first generalizing before text with
  | nil => simp [DeclaredAll,widthAll]
  | cons shape rest ih =>
    simp [DeclaredAll,widthAll,ih,and_assoc,List.drop_drop,List.take_add,List.append_assoc]

theorem spaced_label (before text : List Char) (field : Field) (shape : Shape) :
    (shape.label field).Spaced before text ↔ shape.Spaced before text := by
  match shape with
  | blank _ => rfl
  | leaf kind none width => rw [label]; split <;> rfl
  | leaf kind (some _) width => rfl
  | node _ none _ => simp [label,Spaced]
  | node _ (some _) _ => rfl

theorem spacedAll_map_label (before text : List Char) (field : Field) (shapes : List Shape) :
    SpacedAll before text (shapes.map (label field)) ↔ SpacedAll before text shapes := by
  induction shapes generalizing before text with
  | nil => rfl
  | cons shape rest ih => simp [SpacedAll,width_label,spaced_label,ih]

theorem spacedAll_wrap {before text : List Char} {shapes : List Shape}
    (declared : kind.declaresVariables = true → DeclaredAll before text shapes)
    (spaced : SpacedAll before text shapes) : SpacedAll before text (wrap kind shapes) := by
  have parts : shapes.takeWhile isTrivia ++ shapes.dropWhile isTrivia = shapes :=
    List.takeWhile_append_dropWhile
  rw [← parts,spacedAll_append] at spaced
  rw [← parts,declaredAll_append] at declared
  exact (spacedAll_append _ _ _ _).mpr ⟨spaced.1,⟨fun declares => (declared declares).2,spaced.2⟩,trivial⟩

end Shape

open Shape

/-- What a parser may do at the ends of what it takes. -/
structure Edges where
  /-- The first thing it takes may be a name. -/
  opens : Bool
  /-- It may end in a word that goes on. -/
  loose : Bool
  /-- It may take nothing. -/
  empty : Bool
  /-- No part of it that may be loose is followed by one that may open. -/
  sound : Bool := true

namespace Edges

/-- It takes something, starts with no name and ends where no word goes on. -/
def sealed : Edges := ⟨false,false,false,true⟩

/-- Nothing, white space or comments. -/
def void : Edges := ⟨false,false,true,true⟩

/-- A name, or what starts like one. -/
def naming : Edges := ⟨true,false,false,true⟩

/-- A token that may end in a word. -/
def ragged : Edges := ⟨false,true,true,true⟩

/-- A construct that starts with a mark or a word of its own, and may end in a word. -/
def trailing : Edges := ⟨false,true,false,true⟩

def any : Edges := ⟨true,true,true,true⟩

def word (kind : Kind) : Edges := ⟨kind.isName,false,false,true⟩

/-- A word or an operator that is not the beginning of a longer one. -/
def whole (written : String) : Edges := ⟨false,false,written == "",true⟩

def mark (written : String) : Edges := ⟨false,endsInWord written.toList,written == "",true⟩

def seq (first second : Edges) : Edges where
  opens := first.opens || first.empty && second.opens
  loose := second.loose || second.empty && first.loose
  empty := first.empty && second.empty
  sound := first.sound && second.sound && !(first.loose && second.opens)

def or (first second : Edges) : Edges where
  opens := first.opens || second.opens
  loose := first.loose || second.loose
  empty := first.empty || second.empty
  sound := first.sound && second.sound

def many (edges : Edges) : Edges where
  opens := edges.opens
  loose := edges.loose
  empty := true
  sound := edges.sound && !(edges.loose && edges.opens)

/-- Whether the second edges allow all that the first ones do. -/
def le (first second : Edges) : Bool :=
  (second.opens || !first.opens) && (second.loose || !first.loose) &&
    (second.empty || !first.empty) && (!second.sound || first.sound)

theorem void_seq (edges : Edges) : void.seq edges = edges := by
  cases edges
  simp [void,seq]

theorem seq_void (edges : Edges) : edges.seq void = edges := by
  cases edges
  simp [void,seq]

theorem sound_seq {edges more : Edges} (sound : (edges.seq more).sound = true) :
    edges.sound = true ∧ more.sound = true := by
  simp only [seq,Bool.and_eq_true] at sound
  exact sound.1

theorem sound_or {edges more : Edges} (sound : (edges.or more).sound = true) :
    edges.sound = true ∧ more.sound = true := by
  simpa only [or,Bool.and_eq_true] using sound

theorem sound_of_le {edges more : Edges} (le : edges.le more = true) (sound : more.sound = true) :
    edges.sound = true := by
  simp only [Edges.le,sound,Bool.and_eq_true,Bool.not_true,Bool.false_or] at le
  exact le.2

theorem le_refl (edges : Edges) : edges.le edges = true := by
  obtain ⟨a,b,c,d⟩ := edges
  revert a b c d
  decide

end Edges

/-- Shapes that are built as their kinds ask for, cover the front of a text and do at its ends what the
edges allow. -/
structure Fits (edges : Edges) (before text : List Char) (shapes : List Shape) (rest : List Char) : Prop
    where
  rest_eq : rest = text.drop (widthAll shapes)
  built : ∀ shape ∈ shapes, shape.Built
  spaced : (edges.opens = true → Seam before text) → SpacedAll before text shapes
  seam : edges.loose = false → (edges.empty = true → Seam before text) →
    Seam (before ++ text.take (widthAll shapes)) rest

namespace Fits

variable {edges more : Edges} {before text middle rest : List Char} {shapes others : List Shape}

theorem weaken (fits : Fits edges before text shapes rest) (sound : more.sound = true)
    (le : edges.le more = true) : Fits more before text shapes rest := by
  simp only [Edges.le,sound,Bool.and_eq_true,Bool.or_eq_true,Bool.not_eq_true',Bool.not_true] at le
  obtain ⟨⟨⟨opens,loose⟩,empty⟩,_⟩ := le
  refine ⟨fits.rest_eq,fits.built,?_,?_⟩
  · intro safe
    apply fits.spaced
    intro mayOpen
    exact safe (opens.resolve_right (by simp [mayOpen]))
  · intro tight safe
    apply fits.seam
    · exact loose.resolve_left (by simp [tight])
    · intro mayBeEmpty
      exact safe (empty.resolve_right (by simp [mayBeEmpty]))

theorem nothing (before text : List Char) : Fits .void before text [] text := by
  refine ⟨rfl,List.forall_mem_nil _,fun _ => trivial,?_⟩
  intro _ safe
  simpa [widthAll] using safe rfl

theorem append (sound : (edges.seq more).sound = true) (first : Fits edges before text shapes middle)
    (second : Fits more (before ++ text.take (widthAll shapes)) middle others rest) :
    Fits (edges.seq more) before text (shapes ++ others) rest := by
  have link := first.rest_eq
  subst link
  simp only [Edges.seq,Bool.and_eq_true,Bool.not_eq_true',Bool.and_eq_false_imp] at sound
  refine ⟨?_,List.forall_mem_append.mpr ⟨first.built,second.built⟩,?_,?_⟩
  · rw [second.rest_eq,widthAll_append,List.drop_drop]
  · intro safe
    simp only [Edges.seq,Bool.or_eq_true,Bool.and_eq_true] at safe
    refine (spacedAll_append _ _ _ _).mpr ⟨first.spaced fun opens => safe (.inl opens),?_⟩
    apply second.spaced
    intro opens
    -- what opens comes after nothing loose, so the place before it is a seam
    have tight : edges.loose = false :=
      Bool.eq_false_iff.mpr fun loose => by simp [sound.2 loose] at opens
    exact first.seam tight fun empty => safe (.inr ⟨empty,opens⟩)
  · intro tight safe
    simp only [Edges.seq,Bool.or_eq_false_iff,Bool.and_eq_false_imp,Bool.and_eq_true] at tight safe
    have ends := second.seam tight.1 fun empty =>
      first.seam (tight.2 empty) fun none => safe ⟨none,empty⟩
    rwa [widthAll_append,List.take_add,← List.append_assoc]

theorem void_append (sound : more.sound = true) (lead : Fits .void before text shapes middle)
    (second : Fits more (before ++ text.take (widthAll shapes)) middle others rest) :
    Fits more before text (shapes ++ others) rest := by
  have whole := lead.append (by rwa [Edges.void_seq]) second
  rwa [Edges.void_seq] at whole

theorem label (field : Field) (fits : Fits edges before text shapes rest) :
    Fits edges before text (shapes.map (Shape.label field)) rest := by
  refine ⟨by rw [widthAll_map_label,fits.rest_eq],List.forall_mem_map.mpr fun shape member => ?_,
    fun safe => (spacedAll_map_label _ _ _ _).mpr (fits.spaced safe),?_⟩
  · exact (fits.built shape member).label field
  · rw [widthAll_map_label]
    exact fits.seam

theorem declare (fits : Fits edges before text shapes rest)
    (composed : Composed kind (shapes.dropWhile isTrivia))
    (declared : kind.declaresVariables = true → DeclaredAll before text shapes) :
    Fits edges before text (Shape.wrap kind shapes) rest := by
  refine ⟨by rw [widthAll_wrap,fits.rest_eq],built_wrap composed fits.built,
    fun safe => spacedAll_wrap declared (fits.spaced safe),?_⟩
  rw [widthAll_wrap]
  exact fits.seam

theorem compose (fits : Fits edges before text shapes rest)
    (settled : Settled kind (shapes.dropWhile isTrivia)) :
    Fits edges before text (Shape.wrap kind shapes) rest :=
  fits.declare settled.toComposed (by simp [settled.noDeclaration])

theorem wrap (kind : Kind) (plain : kind.isSpecial = false) (fits : Fits edges before text shapes rest) :
    Fits edges before text (Shape.wrap kind shapes) rest :=
  fits.compose (settled_of_not_isSpecial plain _)

theorem leaf (before text : List Char) (kind : Kind) (field : Option Field) (width : Nat)
    (named : kind.isName = true → width ≤ text.length ∧ IsName (text.take width))
    (spaced : kind.isName = true → (edges.opens = true → Seam before text) →
      Seam before text ∧ Seam (text.take width) (text.drop width))
    (comment : kind.isComment = true →
      field = none ∧ Seam (before ++ text.take width) (text.drop width))
    (seam : edges.loose = false → (edges.empty = true → Seam before text) →
      Seam (before ++ text.take width) (text.drop width)) :
    Fits edges before text [.leaf kind field width] (text.drop width) := by
  refine ⟨by simp [widthAll,Shape.width],List.forall_mem_singleton.mpr (.leaf fun same => ?_),
    fun safe => ⟨⟨fun isName => ?_,fun isComment => (comment isComment).2⟩,trivial⟩,?_⟩
  · exact (comment (kind.isComment_iff.mpr same)).1
  · obtain ⟨le,own⟩ := named isName
    obtain ⟨front,back⟩ := spaced isName safe
    exact ⟨le,own,front,back⟩
  · simpa [widthAll,Shape.width] using seam

end Fits

def Outcome.Fits (edges : Edges) (before text : List Char) : Outcome → Prop
  | taken shapes rest => Script.Fits edges before text shapes rest
  | absent => True
  | broken => True

namespace Outcome

variable {edges more : Edges} {before text middle : List Char} {outcome : Outcome}

theorem Fits.weaken (fits : outcome.Fits edges before text) (sound : more.sound = true)
    (le : edges.le more = true) : outcome.Fits more before text := by
  cases outcome with
  | taken shapes rest => exact Script.Fits.weaken fits sound le
  | absent => trivial
  | broken => trivial

theorem fits_map {change : List Shape → List Shape}
    (changed : ∀ shapes rest, outcome = taken shapes rest →
      Script.Fits edges before text (change shapes) rest) :
    (outcome.map change).Fits edges before text := by
  cases outcome with
  | taken shapes rest => exact changed shapes rest rfl
  | absent => trivial
  | broken => trivial

theorem fits_bind {next : List Shape → List Char → Outcome}
    (continued : ∀ shapes rest, outcome = taken shapes rest →
      (next shapes rest).Fits edges before text) :
    (outcome.bind next).Fits edges before text := by
  cases outcome with
  | taken shapes rest => exact continued shapes rest rfl
  | absent => trivial
  | broken => trivial

theorem fits_append {shapes : List Shape} (sound : (edges.seq more).sound = true)
    (first : Script.Fits edges before text shapes middle)
    (second : outcome.Fits more (before ++ text.take (widthAll shapes)) middle) :
    (outcome.map fun more => shapes ++ more).Fits (edges.seq more) before text := by
  apply fits_map
  rintro others rest rfl
  exact first.append sound second

theorem fits_wrap {kind : Kind} (plain : kind.isSpecial = false) (fits : outcome.Fits edges before text) :
    (outcome.map (Shape.wrap kind)).Fits edges before text := by
  apply fits_map
  rintro shapes rest rfl
  exact Script.Fits.wrap kind plain fits

end Outcome

/-- A parser that takes off the text what its edges allow, unless they are unsound. -/
class Edged (parser : Parser) (edges : outParam Edges) : Prop where
  fits : edges.sound = true → ∀ before text, (parser.run text).Fits edges before text

namespace Edged

variable {parser : Parser} {edges more : Edges}

theorem taken [edged : Edged parser edges] (sound : edges.sound = true) (before : List Char)
    {text rest : List Char} {shapes : List Shape} (ran : parser.run text = .taken shapes rest) :
    Fits edges before text shapes rest := by
  have fitted := edged.fits sound before text
  rwa [ran] at fitted

theorem free_lead [Edged parser edges] (sound : edges.sound = true) {text rest : List Char}
    {lead : List Shape} {shape : Shape} (ran : parser.run text = .taken (lead ++ [shape]) rest)
    (single : IsSingle lead shape) : ∀ part ∈ lead, part.role? = none := by
  intro part member
  have built := (Edged.taken sound [] ran).built part (List.mem_append_left _ member)
  exact built.role?_of_isTrivia (single.lead part member)

theorem weaken (edged : Edged parser edges) (le : edges.le more = true) : Edged parser more where
  fits sound before text := by
    exact (edged.fits (Edges.sound_of_le le sound) before text).weaken sound le

theorem relax [edged : Edged parser edges] (le : edges.le more = true) : Edged parser more :=
  edged.weaken le

end Edged

/-- A kind of construct that begins as another parser takes it, and the edges of the rest of it. -/
class EdgedChoice (first : Parser) (choice : Kind × Parser) (edges : outParam Edges) : Prop where
  settled : ∀ {text last : List Char} {shapes : List Shape},
    (first >> choice.2).run text = .taken shapes last → Settled choice.1 (shapes.dropWhile isTrivia)
  edged : Edged choice.2 edges

def Parser.Wrap.inner (wrap : Parser.Wrap) (shapes : List Shape) : List Shape :=
  match wrap.role with
  | some role => shapes.map (label role)
  | none => shapes

def Parser.Wrap.GoesAround (wrap : Parser.Wrap) (shapes : List Shape) : Prop :=
  ∀ {more : List Shape} {text last : List Char}, wrap.rest.run text = .taken more last →
    Settled wrap.kind ((wrap.inner shapes ++ more).dropWhile isTrivia)

def Parser.Wrap.GoesAroundOne (wrap : Parser.Wrap) : Prop :=
  ∀ {lead : List Shape} {shape : Shape}, IsSingle lead shape → wrap.GoesAround (lead ++ [shape])

/-- Wraps that go on from the construct that came first as the edges allow. -/
class EdgedWraps (wraps : List Parser.Wrap) (edges : outParam Edges) : Prop where
  goes : ∀ wrap ∈ wraps, wrap.GoesAroundOne
  fits : edges.sound = true → ∀ wrap ∈ wraps, ∀ before text,
    (wrap.rest.run text).Fits edges before text

class EdgedWrap (wrap : Parser.Wrap) (edges : outParam Edges) : Prop where
  goes : wrap.GoesAroundOne
  edged : Edged wrap.rest edges

/-- Wraps whose constructs have no layout, and so go around anything. -/
class FreeWraps (wraps : List Parser.Wrap) : Prop where
  plain : ∀ wrap ∈ wraps, wrap.kind.isSpecial = false

theorem EdgedWraps.weaken {edges more : Edges} (edged : EdgedWraps wraps edges) (le : edges.le more = true) :
    EdgedWraps wraps more where
  goes := edged.goes
  fits sound wrap member before text := by
    exact (edged.fits (Edges.sound_of_le le sound) wrap member before text).weaken sound le

theorem EdgedWraps.relax {edges more : Edges} [edged : EdgedWraps wraps edges] (le : edges.le more = true) :
    EdgedWraps wraps more :=
  edged.weaken le

theorem EdgedWrap.relax {wrap : Parser.Wrap} {edges more : Edges} [edged : EdgedWrap wrap edges]
    (le : edges.le more = true) : EdgedWrap wrap more :=
  ⟨edged.goes,edged.edged.weaken le⟩

namespace Parser

instance : Edged done .void := ⟨fun _ => Fits.nothing⟩

instance : Edged fail .sealed := ⟨fun _ _ _ => trivial⟩

instance (first second : Parser) (edges more : Edges) [Edged first edges] [later : Edged second more] :
    Edged (first >> second) (edges.seq more) where
  fits sound before text := by
    have parts := Edges.sound_seq sound
    apply Outcome.fits_bind
    intro shapes rest ran
    exact Outcome.fits_append sound (Edged.taken parts.1 before ran) (later.fits parts.2 _ rest)

theorem le_or_left (edges more : Edges) : edges.le (edges.or more) = true := by
  obtain ⟨a,b,c,d⟩ := edges
  obtain ⟨e,f,g,h⟩ := more
  revert a b c d e f g h
  decide

theorem le_or_right (edges more : Edges) : more.le (edges.or more) = true := by
  obtain ⟨a,b,c,d⟩ := edges
  obtain ⟨e,f,g,h⟩ := more
  revert a b c d e f g h
  decide

instance edged_or (first second : Parser) (edges more : Edges) [before : Edged first edges]
    [after : Edged second more] : Edged (first <|> second) (edges.or more) where
  fits sound lead text := by
    change Outcome.Fits _ lead text (match first.run text with
      | .absent => second.run text
      | found => found)
    split
    · exact (after.weaken (le_or_right edges more)).fits sound lead text
    · exact (before.weaken (le_or_left edges more)).fits sound lead text

instance (parser : Parser) (edges : Edges) [Edged parser edges] :
    Edged (Parser.maybe parser) (edges.or .void) := by
  unfold Parser.maybe
  infer_instance

instance (parser : Parser) (edges : Edges) [edged : Edged parser edges] :
    Edged (required parser) edges where
  fits sound before text := by
    unfold required
    dsimp only
    split
    · trivial
    · exact edged.fits sound before text

instance (parser : Parser) (edges : Edges) [edged : Edged parser edges] :
    Edged (trial parser) edges where
  fits sound before text := by
    unfold trial
    dsimp only
    split
    · trivial
    · exact edged.fits sound before text

instance (test : List Char → Bool) : Edged (Parser.check test) .void where
  fits _ before text := by
    unfold Parser.check
    dsimp only
    split
    · exact Fits.nothing before text
    · trivial

instance edged_look (choose : List Char → Parser) (edges : Edges)
    [edged : ∀ text, Edged (choose text) edges] : Edged (look choose) edges :=
  ⟨fun sound before text => (edged text).fits sound before text⟩

instance edged_ite (condition : Prop) [Decidable condition] (first second : Parser)
    (edges more : Edges) [before : Edged first edges] [after : Edged second more] :
    Edged (if condition then first else second) (edges.or more) := by
  split
  · exact before.weaken (le_or_left edges more)
  · exact after.weaken (le_or_right edges more)

instance (condition : Bool) (parser : Parser) (edges : Edges) [edged : Edged parser edges] :
    Edged (when condition parser) edges := by
  unfold when
  split
  · exact edged
  · exact ⟨fun _ _ _ => trivial⟩

theorem seq_many_le (edges : Edges) : (edges.seq edges.many).le edges.many = true := by
  obtain ⟨a,b,c,d⟩ := edges
  revert a b c d
  decide

theorem fits_many (parser : Parser) (edges : Edges) [Edged parser edges]
    (sound : edges.many.sound = true) (fuel : Nat) (before text : List Char) :
    (many.loop parser fuel text).Fits edges.many before text := by
  have nothing (before text : List Char) : Fits edges.many before text [] text :=
    (Fits.nothing before text).weaken sound (by simp [Edges.le,Edges.void,Edges.many])
  have own : edges.sound = true := by
    simp only [Edges.many,Bool.and_eq_true] at sound
    exact sound.1
  have step : (edges.seq edges.many).sound = true := by
    simp only [Edges.many,Edges.seq,Bool.and_eq_true] at sound ⊢
    exact ⟨⟨own,sound⟩,sound.2⟩
  induction fuel generalizing before text with
  | zero => exact nothing before text
  | succ fuel ih =>
    rw [many.loop]
    split
    · trivial
    · exact nothing before text
    next shapes rest ran =>
      split
      · exact (Outcome.fits_append step (Edged.taken own before ran) (ih _ rest)).weaken sound
          (seq_many_le edges)
      · exact nothing before text

instance (parser : Parser) (edges : Edges) [Edged parser edges] : Edged (many parser) edges.many :=
  ⟨fun sound before text => fits_many parser edges sound text.length before text⟩

instance (item separator : Parser) (edges more : Edges) [Edged item edges] [Edged separator more] :
    Edged (separated item separator) (edges.seq (more.seq edges).many) := by
  unfold separated
  infer_instance

variable {edges : Edges}

theorem edged_node {parser : Parser} [Edged parser edges]
    (composed : ∀ {text rest : List Char} {shapes : List Shape}, parser.run text = .taken shapes rest →
      Settled kind (shapes.dropWhile isTrivia)) : Edged (node kind parser) edges where
  fits sound before text := by
    apply Outcome.fits_map
    intro shapes rest ran
    exact (Edged.taken sound before ran).compose (composed ran)

instance (kind : Kind) (parser : Parser) (edges : Edges) [plain : IsFalse kind.isSpecial]
    [Edged parser edges] : Edged (node kind parser) edges :=
  edged_node fun _ => settled_of_not_isSpecial plain.eq _

instance (kind : Kind) (parser : Parser) (edges : Edges) [Rationed kind] [Keeps kind.limits parser]
    [Edged parser edges] : Edged (node kind parser) edges :=
  edged_node settled_of_keeps

instance (role : Field) (parser : Parser) (edges : Edges) [Edged parser edges] :
    Edged (field role parser) edges where
  fits sound before text := by
    apply Outcome.fits_map
    intro shapes rest ran
    exact (Edged.taken sound before ran).label role

instance (first : Parser) (kind : Kind) (parser : Parser) (edges : Edges) [plain : IsFalse kind.isSpecial]
    [edged : Edged parser edges] : EdgedChoice first (kind,parser) edges :=
  ⟨fun _ => settled_of_not_isSpecial plain.eq _,edged⟩

instance (first : Parser) (kind : Kind) (parser : Parser) (edges : Edges) [Rationed kind]
    [Keeps kind.limits (first >> parser)] [edged : Edged parser edges] :
    EdgedChoice first (kind,parser) edges :=
  ⟨settled_of_keeps,edged⟩

instance (condition : Prop) [Decidable condition] (parser : Parser) (first second : Kind × Parser)
    (edges more : Edges) [before : EdgedChoice parser first edges]
    [after : EdgedChoice parser second more] :
    EdgedChoice parser (if condition then first else second) (edges.or more) := by
  split
  · exact ⟨before.settled,before.edged.weaken (le_or_left edges more)⟩
  · exact ⟨after.settled,after.edged.weaken (le_or_right edges more)⟩

instance (first : Parser) (edges more : Edges) [Edged first edges]
    (choose : List Char → Kind × Parser) [chosen : ∀ text, EdgedChoice first (choose text) more] :
    Edged (branch first choose) (edges.seq more) where
  fits sound before text := by
    have parts := Edges.sound_seq sound
    apply Outcome.fits_bind
    intro shapes rest ran
    have later := (chosen rest).edged
    apply Outcome.fits_map
    intro others last went
    have whole := (Edged.taken parts.1 before ran).append sound (Edged.taken parts.2 _ went)
    exact whole.compose ((chosen rest).settled (run_seq_of_taken ran went))

/-! One construct after another around what came first. -/

instance : EdgedWraps [] .sealed := ⟨List.forall_mem_nil _,fun _ => List.forall_mem_nil _⟩

instance (kind : Kind) (role : Option Field) (accepts : Option Kind → Bool) (rest : Parser)
    (edges : Edges) [plain : IsFalse kind.isSpecial] [edged : Edged rest edges] :
    EdgedWrap ⟨kind,role,accepts,rest⟩ edges :=
  ⟨fun _ _ _ _ _ => settled_of_not_isSpecial plain.eq _,edged⟩

instance (kind : Kind) (role : Field) (accepts : Option Kind → Bool) (rest : Parser) (edges : Edges)
    [Rationed kind] [keeps : ∀ base : {parser : Parser // Single parser},
      Keeps kind.limits (field role base.val >> rest)] [edged : Edged rest edges] :
    EdgedWrap ⟨kind,some role,accepts,rest⟩ edges where
  edged := edged
  goes {lead shape} single more text last ran := by
    -- What came first stands for any parser that would take it.
    let base : Parser := ⟨fun text => .taken (lead ++ [shape]) text⟩
    have whole := keeps ⟨base,⟨fun _ => ⟨lead,shape,rfl,single⟩⟩⟩
    have based : (field role base).run text = .taken ((lead ++ [shape]).map (label role)) text := rfl
    exact settled_of_keeps (run_seq_of_taken based ran)

instance : FreeWraps [] := ⟨List.forall_mem_nil _⟩

instance (kind : Kind) (role : Option Field) (accepts : Option Kind → Bool) (rest : Parser)
    (wraps : List Wrap) [plain : IsFalse kind.isSpecial] [later : FreeWraps wraps] :
    FreeWraps (⟨kind,role,accepts,rest⟩ :: wraps) :=
  ⟨List.forall_mem_cons.mpr ⟨plain.eq,later.plain⟩⟩

theorem edgedWraps_of_mem {wraps first second : List Wrap} {edges more : Edges}
    [before : EdgedWraps first edges] [after : EdgedWraps second more]
    (split : ∀ wrap ∈ wraps, wrap ∈ first ∨ wrap ∈ second) : EdgedWraps wraps (edges.or more) where
  goes wrap member := by
    rcases split wrap member with early | late
    · exact before.goes wrap early
    · exact after.goes wrap late
  fits sound wrap member lead text := by
    have parts := Edges.sound_or sound
    rcases split wrap member with early | late
    · exact (before.fits parts.1 wrap early lead text).weaken sound (le_or_left edges more)
    · exact (after.fits parts.2 wrap late lead text).weaken sound (le_or_right edges more)

theorem edgedWraps_singleton {wrap : Wrap} {edges : Edges} [edged : EdgedWrap wrap edges] :
    EdgedWraps [wrap] edges where
  goes := List.forall_mem_singleton.mpr edged.goes
  fits sound := List.forall_mem_singleton.mpr (edged.edged.fits sound)

instance (first : Wrap) (wraps : List Wrap) (edges more : Edges) [EdgedWrap first edges]
    [EdgedWraps wraps more] : EdgedWraps (first :: wraps) (edges.or more) :=
  have : EdgedWraps [first] edges := edgedWraps_singleton
  edgedWraps_of_mem fun _ member => (List.mem_cons.mp member).imp_left List.mem_singleton.mpr

instance (first second : List Wrap) (edges more : Edges) [EdgedWraps first edges]
    [EdgedWraps second more] : EdgedWraps (first ++ second) (edges.or more) :=
  edgedWraps_of_mem fun _ => List.mem_append.mp

instance (condition : Prop) [Decidable condition] (first second : List Wrap) (edges more : Edges)
    [EdgedWraps first edges] [EdgedWraps second more] :
    EdgedWraps (if condition then first else second) (edges.or more) := by
  have chosen (wrap : Wrap) (member : wrap ∈ if condition then first else second) :
      wrap ∈ first ∨ wrap ∈ second := by
    split at member
    · exact .inl member
    · exact .inr member
  exact edgedWraps_of_mem chosen

theorem fits_apply (wraps : List Wrap) {more : Edges} [edged : EdgedWraps wraps more]
    (sound : (edges.seq more).sound = true) (tried : List Wrap) (inside : tried ⊆ wraps)
    {before text rest : List Char} {shapes : List Shape} (goes : ∀ wrap ∈ wraps, wrap.GoesAround shapes)
    (first : Fits edges before text shapes rest) :
    (chain.apply shapes rest tried).Fits (edges.seq more) before text := by
  have parts := Edges.sound_seq sound
  induction tried with
  | nil => trivial
  | cons wrap others ih =>
    have later := ih fun other member => inside (List.mem_cons_of_mem _ member)
    have own := edged.fits parts.2 wrap (inside List.mem_cons_self)
    rw [chain.apply]
    split
    · split
      · exact later
      · trivial
      next found last ran =>
        have after := own (before ++ text.take (widthAll shapes)) rest
        rw [ran] at after
        have composed := goes wrap (inside List.mem_cons_self) ran
        unfold Wrap.inner at composed
        cases role : wrap.role with
        | none =>
          rw [role] at composed
          exact (first.append sound after).compose composed
        | some own =>
          rw [role] at composed
          rw [← widthAll_map_label own] at after
          exact ((first.label own).append sound after).compose composed
    · exact later

theorem le_seq_many (edges more : Edges) : edges.le (edges.seq more.many) = true := by
  obtain ⟨a,b,c,d⟩ := edges
  obtain ⟨e,f,g,h⟩ := more
  revert a b c d e f g h
  decide

theorem seq_many_seq_le (edges more : Edges) :
    ((edges.seq more.many).seq more).le (edges.seq more.many) = true := by
  obtain ⟨a,b,c,d⟩ := edges
  obtain ⟨e,f,g,h⟩ := more
  revert a b c d e f g h
  decide

theorem fits_grow (wraps : List Wrap) {more : Edges} [EdgedWraps wraps more]
    (sound : (edges.seq more.many).sound = true) (ready : List Shape → Prop)
    (goes : ∀ shapes, ready shapes → ∀ wrap ∈ wraps, wrap.GoesAround shapes)
    (stays : ∀ {shapes rest found last}, chain.apply shapes rest wraps = .taken found last → ready found)
    (fuel : Nat) (before text rest : List Char) (shapes : List Shape) (starts : ready shapes)
    (first : Fits (edges.seq more.many) before text shapes rest) :
    (chain.grow wraps fuel shapes rest).Fits (edges.seq more.many) before text := by
  have step := Edges.sound_of_le (seq_many_seq_le edges more) sound
  induction fuel generalizing rest shapes with
  | zero => exact first
  | succ fuel ih =>
    have applied := fits_apply wraps step wraps (List.Subset.refl _)
      (goes shapes starts) first
    rw [chain.grow]
    split
    · exact first
    · trivial
    next found last ran =>
      rw [ran] at applied
      split
      · exact ih last found (stays ran) (applied.weaken sound (seq_many_seq_le edges more))
      · exact first

instance edged_chain (first : Parser) (wraps : List Wrap) (edges more : Edges) [Single first]
    [Edged first edges] [edged : EdgedWraps wraps more] :
    Edged (chain first wraps) (edges.seq more.many) where
  fits sound before text := by
    have parts := Edges.sound_seq sound
    apply Outcome.fits_bind
    intro shapes rest ran
    refine fits_grow wraps sound
      (fun shapes => ∃ lead shape, shapes = lead ++ [shape] ∧ IsSingle lead shape) ?_ ?_ _ before text rest
      shapes (Single.taken ran) ((Edged.taken parts.1 before ran).weaken sound (le_seq_many edges more))
    · rintro _ ⟨lead,shape,rfl,one⟩ wrap member
      exact edged.goes wrap member one
    · intro shapes rest found last applied
      have one := single_apply shapes rest wraps
      rwa [applied] at one

instance edged_free_chain (first : Parser) (wraps : List Wrap) (edges more : Edges) [Edged first edges]
    [EdgedWraps wraps more] [free : FreeWraps wraps] : Edged (chain first wraps) (edges.seq more.many) where
  fits sound before text := by
    have parts := Edges.sound_seq sound
    apply Outcome.fits_bind
    intro shapes rest ran
    refine fits_grow wraps sound (fun _ => True) ?_ (fun _ => trivial) _ before text rest shapes trivial
      ((Edged.taken parts.1 before ran).weaken sound (le_seq_many edges more))
    intro shapes _ wrap member more text last _
    exact settled_of_not_isSpecial (free.plain wrap member) _

/-! Tokens. -/

theorem fits_gap (before : List Char) {text : List Char}
    (some : (text.takeWhile Lexeme.isGap).length ≠ 0) :
    Fits .void before text [.blank (text.takeWhile Lexeme.isGap).length]
      (text.drop (text.takeWhile Lexeme.isGap).length) := by
  have taken := List.prefix_iff_eq_take.mp (List.takeWhile_prefix (l := text) Lexeme.isGap)
  have seam : Seam (before ++ text.take (text.takeWhile Lexeme.isGap).length)
      (text.drop (text.takeWhile Lexeme.isGap).length) := by
    rw [← taken]
    apply Seam.join
    · intro none
      rw [none] at some
      contradiction
    · apply Seam.of_left
      apply endsInWord_of_forall
      intro c member
      exact Lexeme.isWordChar_of_isGap (List.mem_takeWhile_imp member)
  refine ⟨by simp [widthAll,Shape.width],List.forall_mem_singleton.mpr .blank,fun _ => ⟨seam,trivial⟩,
    fun _ _ => ?_⟩
  simpa only [widthAll,Shape.width,Nat.add_zero] using seam

theorem fits_comment (before : List Char) {text : List Char} {width : Nat}
    (found : Lexeme.commentLength? text = some width) :
    Fits .void before text [.leaf .comment none width] (text.drop width) :=
  have closes := Lexeme.closes_commentLength? before text width found
  Fits.leaf before text .comment none width (by simp) (by simp) (fun _ => ⟨rfl,closes⟩) fun _ _ => closes

theorem fits_trivia (fuel : Nat) (before text : List Char) :
    Fits .void before text (trivia.loop fuel text).1 (trivia.loop fuel text).2 := by
  induction fuel generalizing before text with
  | zero => exact Fits.nothing before text
  | succ fuel ih =>
    cases text with
    | nil => exact Fits.nothing before []
    | cons c rest =>
      simp only [trivia.loop]
      split
      next gap =>
        have some : ((c :: rest).takeWhile Lexeme.isGap).length ≠ 0 := by
          rw [List.takeWhile_cons_of_pos gap]
          simp
        exact (fits_gap before some).void_append rfl (ih _ _)
      · split
        · exact Fits.nothing before _
        next width found => exact (fits_comment before found).void_append rfl (ih _ _)

def TokenEdges (kind : Kind) (width? : List Char → Option Nat) (edges : Edges) : Prop :=
  ∀ before text width, width? text = some width →
    Fits edges before text [.leaf kind none width] (text.drop width)

theorem edged_immediate (ends : TokenEdges kind width? edges) : Edged (immediate kind width?) edges where
  fits _ before text := by
    simp only [immediate]
    split
    · trivial
    next width found => exact ends before text width found

theorem edged_token (ends : TokenEdges kind width? edges) : Edged (token kind width?) edges where
  fits sound before text := by
    have lead := fits_trivia text.length before text
    simp only [token,trivia]
    split
    · trivial
    next width found => exact lead.void_append sound (ends _ _ width found)

theorem tokenEdges_ragged (kind : Kind) [unnamed : IsFalse kind.isName]
    [solid : IsFalse kind.isComment] (width? : List Char → Option Nat) : TokenEdges kind width? .ragged := by
  intro before text width _
  apply Fits.leaf
  · simp [unnamed.eq]
  · simp [unnamed.eq]
  · simp [solid.eq]
  · simp [Edges.ragged]

theorem tokenEdges_sealed (kind : Kind) [unnamed : IsFalse kind.isName] [solid : IsFalse kind.isComment]
    (closes : Lexeme.Closes width?) : TokenEdges kind width? .sealed := by
  intro before text width found
  apply Fits.leaf
  · simp [unnamed.eq]
  · simp [unnamed.eq]
  · simp [solid.eq]
  · exact fun _ _ => closes before text width found

instance (kind : Kind) [IsFalse kind.isName] [IsFalse kind.isComment]
    (width? : List Char → Option Nat) :
    Edged (token kind width?) .ragged :=
  edged_token (tokenEdges_ragged kind width?)

instance (kind : Kind) [IsFalse kind.isName] [IsFalse kind.isComment]
    (width? : List Char → Option Nat) :
    Edged (immediate kind width?) .ragged :=
  edged_immediate (tokenEdges_ragged kind width?)

instance : Edged Parser.string .sealed :=
  edged_token (tokenEdges_sealed .string Lexeme.closes_stringLength?)

theorem beq_empty_of_toList {written : String} (none : written.toList = []) :
    (written == "") = true := by
  rw [beq_iff_eq]
  exact String.toList_eq_nil_iff.mp none

instance (written : String) : Edged (mark written) (.mark written) := by
  apply edged_token
  intro before text width found
  obtain ⟨rest,dropped,rfl⟩ := Option.map_eq_some_iff.mp found
  have same := eq_append_of_dropPrefix? _ _ _ dropped
  have width : written.length = written.toList.length := String.length_toList.symm
  apply Fits.leaf
  · exact fun named => by simp at named
  · exact fun named => by simp at named
  · exact fun comment => by simp at comment
  · intro tight safe
    rw [same,width,List.take_left,List.drop_left]
    apply Seam.join
    · intro none
      have here := safe (beq_empty_of_toList none)
      rwa [same,none] at here
    · exact Seam.of_left tight

instance : Edged openBrace .sealed := by
  unfold openBrace
  exact Edged.relax rfl

instance : Edged closeBrace .sealed := by
  unfold closeBrace
  exact Edged.relax rfl

instance (written : String) : Edged (Parser.symbol written) (.whole written) := by
  apply edged_token
  intro before text width found
  dsimp only at found
  split at found
  next same =>
    cases found
    apply Fits.leaf
    · exact fun named => by simp at named
    · exact fun named => by simp at named
    · exact fun comment => by simp at comment
    · intro _ safe
      have width : written.length = written.toList.length := String.length_toList.symm
      by_cases none : written = ""
      · subst none
        simpa using safe rfl
      · obtain ⟨⟨rest,text_eq⟩,ends⟩ := Lexeme.operator_spec (by rwa [same])
        rw [same] at text_eq ends
        rw [text_eq,width,List.take_left,List.drop_left]
        apply Seam.join
        · intro empty
          exact absurd (String.toList_eq_nil_iff.mp empty) none
        · exact Seam.of_left ends
  · contradiction

instance (kind : Kind) [unnamed : IsFalse kind.isName] [solid : IsFalse kind.isComment]
    (written : String) : Edged (keywordAs kind written) (.whole written) := by
  apply edged_token
  intro before text width found
  dsimp only at found
  split at found
  next same =>
    cases found
    apply Fits.leaf
    · simp [unnamed.eq]
    · simp [unnamed.eq]
    · simp [solid.eq]
    · intro _ safe
      by_cases none : written = ""
      · subst none
        simpa using safe rfl
      · apply Seam.of_right
        have width : written.length = (Lexeme.word text).length := by
          rw [← same,String.length_ofList]
        rw [width]
        apply Lexeme.startsWithWord_drop_word
        intro empty
        rw [empty] at same
        exact none same.symm
  · contradiction

instance (written : String) : Edged (keyword written) (.whole written) := by
  unfold keyword
  infer_instance

instance (kind : Kind) [solid : IsFalse kind.isComment] (test : String → Bool) :
    Edged (name kind test) (.word kind) := by
  apply edged_token
  intro before text width found
  dsimp only at found
  split at found
  next accepted =>
    cases found
    simp only [Bool.and_eq_true,Bool.not_eq_true',List.isEmpty_eq_false_iff] at accepted
    have ends := Lexeme.startsWithWord_drop_word text accepted.1
    apply Fits.leaf
    · rw [Lexeme.take_word]
      exact fun _ => ⟨Lexeme.word_length_le text,Lexeme.word_isName text accepted.1⟩
    · exact fun named safe => ⟨safe named,Seam.of_right ends⟩
    · simp [solid.eq]
    · exact fun _ _ => Seam.of_right ends
  · contradiction

instance (opening item closing : Parser) (edges more final : Edges) [Edged opening edges]
    [Edged item more] [Edged closing final] :
    Edged (listOf opening item closing)
      (edges.seq ((more.or .void).seq ((((Edges.mark ",").seq (more.or .void)).many).seq final))) := by
  unfold listOf
  infer_instance

/-! The end of a statement. -/

theorem fits_lineEnd (dialect : Dialect) (place : Semicolon.Place) (fuel : Nat)
    {before whole : List Char} (text : List Char) (shapes : List Shape)
    (lead : Fits .void before whole shapes text) :
    (lineEnd.loop dialect place fuel shapes text).Fits .sealed before whole := by
  -- a place where a statement may end is a seam, whatever stands before it
  have ended {text : List Char} {shapes : List Shape} (lead : Fits .void before whole shapes text)
      (stops : startsWithWord text = false) : Fits .sealed before whole shapes text :=
    ⟨lead.rest_eq,lead.built,fun _ => lead.spaced (by simp [Edges.void]),fun _ _ => Seam.of_right stops⟩
  induction fuel generalizing text shapes with
  | zero =>
    rw [lineEnd.loop]
    split
    next none =>
      rw [List.isEmpty_iff] at none
      exact ended lead (by rw [none]; rfl)
    · trivial
  | succ fuel ih =>
    rw [lineEnd.loop]
    split
    next inserted => exact ended lead (Semicolon.startsWithWord_of_inserted inserted)
    · dsimp only
      split
      · trivial
      next length comment =>
        apply ih
        rw [List.append_assoc]
        apply lead.void_append rfl
        have gap (before : List Char) : Fits .void before text
            (if (text.takeWhile Lexeme.isGap).length = 0 then [] else
              [.blank (text.takeWhile Lexeme.isGap).length])
            (text.drop (text.takeWhile Lexeme.isGap).length) := by
          split
          next none =>
            rw [none]
            exact Fits.nothing before text
          next some => exact fits_gap before some
        exact (gap _).void_append rfl (fits_comment _ comment)

instance (dialect : Dialect) (place : Semicolon.Place) : Edged (lineEnd dialect place) .sealed :=
  ⟨fun _ before text =>
    fits_lineEnd dialect place text.length text [] (Fits.nothing before text)⟩

instance (dialect : Dialect) (place : Semicolon.Place) :
    Edged (Parser.semicolon dialect place) .sealed := by
  unfold Parser.semicolon
  exact Edged.relax rfl

instance (dialect : Dialect) (place : Option Semicolon.Place) :
    Edged (goesOn dialect place) .void := by
  unfold goesOn
  infer_instance

end Parser

end VueScope.Script
