import VueScope.Proofs.Markup.TagMoves

/-! What is read behind the tag of a void element. Text is taken into the element up to the next tag,
whatever the tag is; comments and end tags that close nothing are passed over. -/
namespace VueScope.Markup

/-- Whether a void element ends here without an end tag: at a start tag, at an end tag for an element
around it, or with the text. -/
def endsTrail (openTags : List TagName) : List Char → Bool
  | [] => true
  | '<' :: '!' :: _ => false
  | '<' :: '/' :: written => closesOuter openTags (tagNameHere written)
  | '<' :: _ => true
  | _ => false

/-- The stretches of text behind a void tag, the first one from an offset on, and where the element
ends. The open elements are named from the inside out. -/
inductive Trails (openTags : List TagName) : Nat → Cursor → List Span → Cursor → Prop
  | ended {start here} (ends : endsTrail openTags here.rest = true) :
      Trails openTags start here [⟨start,here.offset⟩] here
  /-- The end tag that a void element should not have. -/
  | closed {start here after rest written own} (slash : here.rest = '<' :: '/' :: rest)
      (read : readEndTag? here = some (written,own,after)) (innermost : openTags.head? = some own) :
      Trails openTags start here [⟨start,here.offset⟩] after
  | strayEnd {start here after last rest written name stretches} (slash : here.rest = '<' :: '/' :: rest)
      (lost : endsTrail openTags here.rest = false) (other : openTags.head? ≠ some name)
      (read : readEndTag? here = some (written,name,after))
      (later : Trails openTags after.offset after stretches last) :
      Trails openTags start here (⟨start,here.offset⟩ :: stretches) last
  | comment {start here last length stretches} (found : commentLength? here.rest = some length)
      (later : Trails openTags (here.advance length).offset (here.advance length) stretches last) :
      Trails openTags start here (⟨start,here.offset⟩ :: stretches) last
  | text {start here last stretches}
      (later : Trails openTags start (here.skipWhile (· ≠ '<')) stretches last) :
      Trails openTags start here stretches last
  | doctype {start here last length stretches} (found : doctypeLength? here.rest = some length)
      (later : Trails openTags start (here.advance length) stretches last) :
      Trails openTags start here stretches last
  /-- Neither a comment nor a document type. -/
  | noDeclaration {start here last rest stretches} (bang : here.rest = '<' :: '!' :: rest)
      (comment : commentLength? here.rest = none) (doctype : doctypeLength? here.rest = none)
      (later : Trails openTags start (here.advance 1) stretches last) :
      Trails openTags start here stretches last
  | noEndTag {start here last rest stretches} (slash : here.rest = '<' :: '/' :: rest)
      (lost : endsTrail openTags here.rest = false) (unread : readEndTag? here = none)
      (later : Trails openTags start (here.advance 2) stretches last) :
      Trails openTags start here stretches last

/-- What lies between two offsets apart from some spans. -/
def stretchesAround (start stop : Nat) : List Span → List Span
  | [] => [⟨start,stop⟩]
  | span :: rest => ⟨start,span.start⟩ :: stretchesAround span.stop stop rest

/-- A node that holds nothing and gives none in a template. -/
def Node.isMark : Node → Bool
  | .comment _ => true
  | .strayEnd _ _ => true
  | .element _ _ _ _ => false
  | .raw _ _ _ _ => false

structure TrailRead (openTags : List TagName) (start : Nat) (cursor : Cursor) : Prop where
  trails : Trails openTags start cursor
    (stretchesAround start (((content openTags cursor).2.1.map Span.start).getD
      (content openTags cursor).2.2.offset) ((content openTags cursor).1.map Node.span))
    (content openTags cursor).2.2
  marks : ∀ node ∈ (content openTags cursor).1, node.isMark = true

namespace TrailRead

variable {openTags : List TagName} {start : Nat} {here next : Cursor}

section

variable (settled : here.skipWhite = here)
include settled

theorem of_stop (moved : move openTags here = .stop)
    (ends : endsTrail openTags here.rest = true) : TrailRead openTags start here := by
  have same := content_eq openTags here
  rw [settled,moved] at same
  constructor
  · rw [same]
    exact .ended ends
  · rw [same]
    exact List.forall_mem_nil _

theorem of_close (moved : move openTags here = .close next)
    (closed : Trails openTags start here [⟨start,here.offset⟩] next) :
    TrailRead openTags start here := by
  have same := content_eq openTags here
  rw [settled,moved] at same
  constructor
  · rw [same]
    exact closed
  · rw [same]
    exact List.forall_mem_nil _

theorem of_skip {sound : Bool}
    (moved : move openTags here = .skip next sound)
    (step : ∀ stretches last, Trails openTags start next stretches last →
      Trails openTags start here stretches last)
    (later : TrailRead openTags start next) : TrailRead openTags start here := by
  have same := content_eq openTags here
  rw [settled,moved] at same
  constructor
  · rw [same]
    exact step _ _ later.trails
  · rw [same]
    exact later.marks

theorem of_leaf {node : Node}
    (moved : move openTags here = .leaf node next) (span : node.span = ⟨here.offset,next.offset⟩)
    (mark : node.isMark = true)
    (step : ∀ stretches last, Trails openTags next.offset next stretches last →
      Trails openTags start here (⟨start,here.offset⟩ :: stretches) last)
    (later : TrailRead openTags next.offset next) : TrailRead openTags start here := by
  have same := content_eq openTags here
  rw [settled,moved] at same
  constructor
  · rw [same]
    dsimp only
    rw [List.map_cons,stretchesAround,span]
    exact step _ _ later.trails
  · rw [same]
    exact List.forall_mem_cons.mpr ⟨mark,later.marks⟩

end

theorem of_text (later : TrailRead openTags start (here.skipWhile (· ≠ '<'))) :
    TrailRead openTags start here := by
  have same := content_of_text openTags here
  constructor
  · have trails := later.trails
    rw [same] at trails
    exact .text trails
  · rw [← same]
    exact later.marks

end TrailRead

section Bracket

variable {own : TagName} {outer : List TagName} {here : Cursor} {rest : List Char}

theorem trailRead_declaration (start : Nat) (bang : here.rest = '<' :: '!' :: rest)
    (ih : ∀ next : Cursor, next.rest.length < here.rest.length →
      ∀ start, TrailRead (own :: outer) start next) : TrailRead (own :: outer) start here := by
  have settled := skipWhite_of_bracket bang
  have forward := forward_move (own :: outer) here
  have moved : move (own :: outer) here = moveAtDeclaration here := by
    unfold move
    rw [bang]
    rfl
  cases comment : commentLength? here.rest with
  | some length =>
    rw [moveAtDeclaration,comment] at moved
    rw [moved] at forward
    exact .of_leaf settled moved rfl rfl (fun _ _ => .comment comment) (ih _ forward.1.2 _)
  | none =>
    cases doctype : doctypeLength? here.rest with
    | some length =>
      simp only [moveAtDeclaration,comment,doctype] at moved
      rw [moved] at forward
      exact .of_skip settled moved (fun _ _ => .doctype doctype) (ih _ forward.2 _)
    | none =>
      simp only [moveAtDeclaration,comment,doctype] at moved
      rw [moved] at forward
      exact .of_skip settled moved (fun _ _ => .noDeclaration bang comment doctype) (ih _ forward.2 _)

theorem trailRead_endTag (start : Nat) (slash : here.rest = '<' :: '/' :: rest)
    (ih : ∀ next : Cursor, next.rest.length < here.rest.length →
      ∀ start, TrailRead (own :: outer) start next) : TrailRead (own :: outer) start here := by
  have settled := skipWhite_of_bracket slash
  have forward := forward_move (own :: outer) here
  have moved : move (own :: outer) here = moveAtEndTag (own :: outer) here rest := by
    unfold move
    rw [slash]
    rfl
  have ends : endsTrail (own :: outer) here.rest = closesOuter (own :: outer) (tagNameHere rest) := by
    rw [slash]
    rfl
  unfold moveAtEndTag at moved
  split at moved
  next closes => exact .of_stop settled moved (ends.trans closes)
  next lost =>
    have lost := ends.trans (Bool.eq_false_iff.mpr lost)
    split at moved
    next unread =>
      rw [moved] at forward
      exact .of_skip settled moved (fun _ _ => .noEndTag slash lost unread) (ih _ forward.2 _)
    next written name after read =>
      split at moved
      next innermost => exact .of_close settled moved (.closed slash read innermost)
      next other =>
        rw [if_neg (by simp)] at moved
        rw [moved] at forward
        exact .of_leaf settled moved rfl rfl (fun _ _ => .strayEnd slash lost other read)
          (ih _ forward.1.2 _)

theorem trailRead_startTag (void : own.isVoid = true) (start : Nat) (bracket : here.rest = '<' :: rest)
    (noBang : rest.head? ≠ some '!') (noSlash : rest.head? ≠ some '/') :
    TrailRead (own :: outer) start here := by
  have ends : endsTrail (own :: outer) here.rest = true := by
    rw [bracket]
    unfold endsTrail
    split
    · rfl
    next same => exact absurd (congrArg List.head? (List.cons.inj same).2) noBang
    next same => exact absurd (congrArg List.head? (List.cons.inj same).2) noSlash
    · rfl
    next other => exact absurd rfl (other rest)
  have moved : move (own :: outer) here = .stop := by
    rw [move_of_bracket _ bracket noBang noSlash,moveAtStartTag,if_pos (by simp [closedByStart,void])]
  exact .of_stop (skipWhite_of_bracket bracket) moved ends

end Bracket

theorem trailRead_of_isVoid {own : TagName} (outer : List TagName) (void : own.isVoid = true)
    (cursor : Cursor) (start : Nat) : TrailRead (own :: outer) start cursor := by
  -- by induction on what is left of the text, from one angle bracket to the next
  induction bound : cursor.rest.length using Nat.strongRecOn generalizing cursor start with
  | ind length ih =>
    subst bound
    apply TrailRead.of_text
    have shorter := (cursor.reaches_skipWhile (· ≠ '<')).length_le
    have head := cursor.head_skipWhile (· ≠ '<')
    generalize cursor.skipWhile (· ≠ '<') = here at *
    have ih (next : Cursor) (less : next.rest.length < here.rest.length) (start : Nat) :
        TrailRead (own :: outer) start next := ih _ (Nat.lt_of_lt_of_le less shorter) next start rfl
    cases written : here.rest with
    | nil =>
      refine .of_stop (here.skipWhile_of_head _ (by simp [written])) ?_ (by rw [written]; rfl)
      unfold move
      rw [written]
    | cons c rest =>
      have bracket : c = '<' := by simpa using head c (by simp [written])
      subst bracket
      by_cases bang : rest.head? = some '!'
      · obtain ⟨rest,rfl⟩ := List.head?_eq_some_iff.mp bang
        exact trailRead_declaration start written ih
      · by_cases slash : rest.head? = some '/'
        · obtain ⟨rest,rfl⟩ := List.head?_eq_some_iff.mp slash
          exact trailRead_endTag start written ih
        · exact trailRead_startTag void start written bang slash

end VueScope.Markup
