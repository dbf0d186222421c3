import VueScope.Proofs.Markup.OpenElements

/-! The start tags of elements. What holds of the start tag of every element that is read still holds
when the elements are nested as their author did. -/
namespace VueScope.Markup

theorem Cursor.Passes.offset_lt {first second : Cursor} (passed : first.Passes second) :
    first.offset < second.offset := by
  obtain ⟨⟨taken,parts,offset⟩,shorter⟩ := passed
  cases taken with
  | nil => simp [parts] at shorter
  | cons c cs =>
    have room := c.utf8Size_pos
    rw [Text.byteLength] at offset
    omega

/-- Every element has a start tag as asked for, with the offset where the element starts. One that
its start tag closes holds nothing. -/
inductive Node.Opened (asked : Nat → StartTag → Prop) : Node → Prop
  | element {span tag children endTag} (own : asked span.start tag)
      (alone : tag.selfClosing = true → children = [])
      (below : ∀ child ∈ children, child.Opened asked) :
      Opened asked (.element span tag children endTag)
  | raw {kind span tag endTag} : Opened asked (.raw kind span tag endTag)
  | comment {span} : Opened asked (.comment span)
  | strayEnd {span name} : Opened asked (.strayEnd span name)

theorem Node.Opened.imp {asked wanted : Nat → StartTag → Prop} {node : Node}
    (opened : node.Opened asked) (weaker : ∀ start tag, asked start tag → wanted start tag) :
    node.Opened wanted := by
  induction opened with
  | element own alone _ ih => exact .element (weaker _ _ own) alone ih
  | raw => exact .raw
  | comment => exact .comment
  | strayEnd => exact .strayEnd

theorem open_of_writtenEnd? {tag : StartTag} {endTag : Option Span} {siblings : List Node}
    {parts : List Node × Span × List Node} (found : writtenEnd? tag endTag siblings = some parts) :
    tag.selfClosing = false := by
  unfold writtenEnd? at found
  split at found
  · contradiction
  next unclosed =>
    simp only [Bool.or_eq_true,not_or,Bool.not_eq_true] at unclosed
    exact unclosed.1.1

variable {kept : Node → Prop} {origin : Cursor}

/-- What holds of all nodes holds of them still when elements take back their siblings, if it holds
of an element whose content is nested anew and of one that ends further on. -/
theorem Renested.forall_mem
    (below : ∀ {span tag children endTag}, kept (.element span tag children endTag) →
      ∀ child ∈ children, kept child)
    (nested : ∀ {span tag children endTag nodes}, kept (.element span tag children endTag) →
      Renested children nodes → (∀ node ∈ nodes, kept node) → kept (.element span tag nodes endTag))
    (extended : ∀ {span close tag children endTag siblings parts nodes},
      kept (.element span tag children endTag) → writtenEnd? tag endTag siblings = some parts →
      (∀ node ∈ nodes, kept node) → kept (.element ⟨span.start,close⟩ tag nodes (some parts.2.1)))
    {nodes others : List Node} (renested : Renested nodes others) (all : ∀ node ∈ nodes, kept node) :
    ∀ node ∈ others, kept node := by
  induction renested with
  | same => exact all
  | kept _ later =>
    obtain ⟨first,others⟩ := List.forall_mem_cons.mp all
    exact List.forall_mem_cons.mpr ⟨first,later others⟩
  | within renested _ inner later =>
    obtain ⟨first,others⟩ := List.forall_mem_cons.mp all
    exact List.forall_mem_cons.mpr ⟨nested first renested (inner (below first)),later others⟩
  | taking found _ _ inner later =>
    obtain ⟨first,others⟩ := List.forall_mem_cons.mp all
    obtain ⟨taken,rest⟩ := List.forall_mem_append.mp others
    have whole := inner (List.forall_mem_append.mpr ⟨below first,taken⟩)
    exact List.forall_mem_cons.mpr ⟨extended first found whole,later (List.forall_mem_cons.mp rest).2⟩

theorem opened_renestWithin (asked : Nat → StartTag → Prop) (fuel : Nat) (nodes : List Node)
    (opened : ∀ node ∈ nodes, node.Opened asked) :
    ∀ node ∈ renestWithin fuel nodes, node.Opened asked := by
  refine Renested.forall_mem ?_ ?_ ?_ (renested fuel nodes) opened
  · rintro span tag children endTag ⟨own,alone,below⟩
    exact below
  · rintro span tag children endTag nodes ⟨own,alone,below⟩ renested inner
    refine .element own ?_ inner
    intro closing
    rw [alone closing] at renested
    cases renested
    rfl
  · rintro span close tag children endTag siblings parts nodes ⟨own,alone,below⟩ found inner
    refine .element own ?_ inner
    intro closing
    rw [open_of_writtenEnd? found] at closing
    contradiction

def TagAt (origin : Cursor) (start : Nat) (tag : StartTag) : Prop :=
  ∃ opening inside, origin.Reaches opening ∧ opening.offset = start ∧
    readStartTag? opening = some (tag,.ofChars tag.name,inside)

theorem TagAt.room {start : Nat} {tag : StartTag} (read : TagAt origin start tag) :
    start < tag.span.stop := by
  obtain ⟨opening,inside,_,rfl,read⟩ := read
  obtain ⟨passed,span,_⟩ := of_readStartTag? read
  rw [span]
  exact passed.offset_lt

theorem opened_move {here next : Cursor} {node : Node} {openTags : List TagName}
    (reached : origin.Reaches here) (moved : move openTags here = .leaf node next) :
    node.Opened (TagAt origin) := by
  have made := made_move openTags here
  rw [moved] at made
  cases made with
  | comment _ => exact .comment
  | strayEnd _ => exact .strayEnd
  | raw _ => exact .raw
  | single read _ => exact .element ⟨here,next,reached,rfl,read⟩ (fun _ => rfl) nofun

/-- What holds of every node that opens no element, and of an element if it holds of its content,
holds of all that is read. -/
theorem forall_content
    (leaf : ∀ {openTags here node next}, origin.Reaches here → move openTags here = .leaf node next →
      kept node)
    (paired : ∀ {openTags here after tag}, origin.Reaches here →
      readStartTag? here = some (tag,.ofChars tag.name,after) → tag.selfClosing = false →
      let inner := content (.ofChars tag.name :: openTags) after
      (∀ child ∈ inner.1, kept child) →
        kept (.element ⟨here.offset,inner.2.2.offset⟩ tag inner.1 inner.2.1)) (openTags : List TagName)
    (cursor : Cursor) (reached : origin.Reaches cursor) :
    ∀ node ∈ (content openTags cursor).1, kept node := by
  -- by induction on what is left of the text, both in an element and behind it
  induction bound : cursor.rest.length using Nat.strongRecOn generalizing cursor openTags with
  | ind length ih =>
    subst bound
    have here := reached.trans cursor.reaches_skipWhite
    have shorter := cursor.reaches_skipWhite.length_le
    have made := made_move openTags cursor.skipWhite
    rw [content_eq]
    generalize cursor.skipWhite = place at here shorter made
    -- whatever the move passes, what is left gets shorter
    have behind (next : Cursor) (passed : place.Passes next) :
        ∀ node ∈ (content openTags next).1, kept node :=
      ih _ (Nat.lt_of_lt_of_le passed.2 shorter) openTags next (here.trans passed.1) rfl
    cases moved : move openTags place with
    | stop => exact List.forall_mem_nil _
    | close after => exact List.forall_mem_nil _
    | skip next sound =>
      rw [moved] at made
      cases made with
      | skip passed => exact behind next passed
    | leaf node next =>
      have forward := forward_move openTags place
      rw [moved] at forward
      exact List.forall_mem_cons.mpr ⟨leaf here moved,behind next forward.1⟩
    | descend tag name after =>
      rw [moved] at made
      cases made with
      | descend read unclosed =>
        have passed := (of_readStartTag? read).1
        have inner := (laid_readContent (after.rest.length + 1) (.ofChars tag.name :: openTags) after).reached
        have content := ih _ (Nat.lt_of_lt_of_le passed.2 shorter) (.ofChars tag.name :: openTags) after
          (here.trans passed.1) rfl
        exact List.forall_mem_cons.mpr ⟨paired here read unclosed content,behind _ (passed.reaches inner)⟩

theorem opened_read (text : List Char) :
    ∀ node ∈ (read text).nodes, node.Opened (TagAt ⟨0,text⟩) := by
  refine forall_content (opened_move) ?_ [] ⟨0,text⟩ (.refl _)
  intro openTags here after tag reached read unclosed inner below
  refine .element ⟨here,after,reached,rfl,read⟩ ?_ below
  intro closing
  rw [unclosed] at closing
  contradiction

end VueScope.Markup
