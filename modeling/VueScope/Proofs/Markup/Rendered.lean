import VueScope.Proofs.Markup.Authored

/-! How authored elements stand in the nodes that are read. An element that was closed early stands
beside part of its content, and its end tag stands stray behind that. Before the end tag is
read, its content and that of the elements around it are still to be continued. -/
namespace VueScope.Markup

def Strays (name : TagName) (nodes : List Node) : Prop :=
  ∃ span written, .strayEnd span written ∈ nodes ∧ TagName.ofChars written = name

theorem strays_append (name : TagName) (first second : List Node) :
    Strays name (first ++ second) ↔ Strays name first ∨ Strays name second := by
  simp only [Strays,List.mem_append,or_and_right,exists_or]

inductive Renders : List Node → List Authored → Prop
  | nil : Renders [] []
  | comment {span nodes forest} (later : Renders nodes forest) : Renders (.comment span :: nodes) forest
  | raw {kind span tag endTag nodes forest} (later : Renders nodes forest) :
      Renders (.raw kind span tag endTag :: nodes) (.raw tag :: forest)
  /-- A self-closing script leaves no node. -/
  | skipped {tag nodes forest} (later : Renders nodes forest) : Renders nodes (.raw tag :: forest)
  | leaf {tag stop below nodes forest} (single : tag.isSingle = true)
      (inside : Renders below []) (later : Renders nodes forest) :
      Renders (.element ⟨tag.span.start,stop⟩ tag below none :: nodes) (.leaf tag :: forest)
  | closed {tag close below children nodes forest} (paired : tag.isSingle = false)
      (inside : Renders below children) (later : Renders nodes forest) :
      Renders (.element ⟨tag.span.start,close.stop⟩ tag below (some close) :: nodes)
        (.element tag children close :: forest)
  | early {tag stop below adopted close written children nodes forest} (paired : tag.isSingle = false)
      (own : ¬Strays (.ofChars tag.name) adopted)
      (named : TagName.ofChars written = .ofChars tag.name)
      (inside : Renders (below ++ adopted) children) (later : Renders nodes forest) :
      Renders (.element ⟨tag.span.start,stop⟩ tag below none :: adopted ++
        .strayEnd close written :: nodes) (.element tag children close :: forest)

theorem Renders.append {first second : List Node} {front back : List Authored}
    (before : Renders first front) (after : Renders second back) :
    Renders (first ++ second) (front ++ back) := by
  induction before with
  | nil => exact after
  | comment _ ih => exact .comment ih
  | raw _ ih => exact .raw ih
  | skipped _ ih => exact .skipped ih
  | leaf single inside _ _ ih => exact .leaf single inside ih
  | closed paired inside _ _ ih => exact .closed paired inside ih
  | early paired own named inside _ _ ih =>
    rw [List.append_assoc,List.cons_append]
    exact .early paired own named inside ih

/-- The content of an open element: the elements in it that are whole, and then perhaps one
that was closed early, with its own content. -/
inductive Pending where
  | whole (done : List Authored)
  | early (done : List Authored) (tag : StartTag) (inner : Pending)

namespace Pending

def names : Pending → List TagName
  | whole _ => []
  | early _ tag inner => .ofChars tag.name :: inner.names

/-- The elements around the place that is reached, outermost first, each with the elements in
it that are whole. -/
def chain (tag : StartTag) : Pending → List (StartTag × List Authored)
  | whole done => [(tag,done)]
  | early done next inner => (tag,done) :: inner.chain next

def add (nodes : List Authored) : Pending → Pending
  | whole done => whole (done ++ nodes)
  | early done tag inner => early done tag (inner.add nodes)

def enter (content : Pending) (tag : StartTag) (inner : Pending) : Pending :=
  match content with
  | whole done => early done tag inner
  | early done next deeper => early done next (deeper.enter tag inner)

def leave (close : Span) : Pending → Pending
  | whole done => whole done
  | early done tag (whole children) => whole (done ++ [.element tag children close])
  | early done tag inner => early done tag (inner.leave close)

theorem names_add (nodes : List Authored) (content : Pending) :
    (content.add nodes).names = content.names := by
  induction content with
  | whole _ => rfl
  | early _ _ _ ih => simp [add,names,ih]

theorem names_enter (tag : StartTag) (inner content : Pending) :
    (content.enter tag inner).names = content.names ++ .ofChars tag.name :: inner.names := by
  induction content with
  | whole _ => rfl
  | early _ _ _ ih => simp [enter,names,ih]

theorem chain_enter (own tag : StartTag) (inner content : Pending) :
    (content.enter tag inner).chain own = content.chain own ++ inner.chain tag := by
  induction content generalizing own with
  | whole _ => rfl
  | early _ next _ ih => simp [enter,chain,ih next]

end Pending

/-- Nodes that hold the content of an open element so far. -/
inductive Rendered : List Node → Pending → Prop
  | whole {nodes done} (all : Renders nodes done) : Rendered nodes (.whole done)
  | early {before below adopted done tag stop inner} (first : Renders before done)
      (paired : tag.isSingle = false) (own : ¬Strays (.ofChars tag.name) adopted)
      (inside : Rendered (below ++ adopted) inner) :
      Rendered (before ++ .element ⟨tag.span.start,stop⟩ tag below none :: adopted)
        (.early done tag inner)

namespace Rendered

variable {nodes more : List Node} {content inner : Pending} {added : List Authored}

theorem renders {done : List Authored} (rendered : Rendered nodes (.whole done)) : Renders nodes done := by
  cases rendered with
  | whole all => exact all

theorem append (rendered : Rendered nodes content) (behind : Renders more added)
    (free : ∀ name ∈ content.names, ¬Strays name more) :
    Rendered (nodes ++ more) (content.add added) := by
  induction rendered with
  | whole all => exact .whole (all.append behind)
  | early first paired own inside ih =>
    obtain ⟨here,deeper⟩ := List.forall_mem_cons.mp free
    rw [List.append_assoc,List.cons_append]
    refine .early first paired ?_ ?_
    · rw [strays_append]
      exact fun either => either.elim own here
    · rw [← List.append_assoc]
      exact ih deeper

theorem enter {tag : StartTag} {stop : Nat} (rendered : Rendered nodes content)
    (inside : Rendered more inner) (paired : tag.isSingle = false) :
    Rendered (nodes ++ [.element ⟨tag.span.start,stop⟩ tag more none]) (content.enter tag inner) := by
  induction rendered with
  | whole all =>
    refine .early all paired ?_ ?_
    · rintro ⟨_,_,member,_⟩
      contradiction
    · rwa [List.append_nil]
  | early first other own _ ih =>
    rw [List.append_assoc,List.cons_append]
    refine .early first other ?_ ?_
    · rw [strays_append]
      rintro (earlier | ⟨_,_,member,_⟩)
      · exact own earlier
      · simp at member
    · rw [← List.append_assoc]
      exact ih

theorem leave {written : List Char} {close : Span} {outer : List TagName}
    (rendered : Rendered nodes content) (names : content.names = outer ++ [.ofChars written])
    (other : TagName.ofChars written ∉ outer) :
    Rendered (nodes ++ [.strayEnd close written]) (content.leave close) := by
  induction rendered generalizing outer with
  | whole _ => simp [Pending.names] at names
  | @early before below adopted done tag stop inner first paired own inside ih =>
    cases inner with
    | whole children =>
      -- the innermost one: nothing behind it ends it before this end tag
      have same : TagName.ofChars tag.name = .ofChars written := by
        cases outer with
        | nil => simpa [Pending.names] using names
        | cons _ _ => simp [Pending.names] at names
      rw [List.append_assoc]
      exact .whole (first.append (.early paired own same.symm inside.renders .nil))
    | early more next deeper =>
      cases outer with
      | nil => simp [Pending.names] at names
      | cons name outer =>
        simp only [Pending.names,List.cons_append,List.cons.injEq] at names
        obtain ⟨different,others⟩ := not_or.mp (mt List.mem_cons.mpr other)
        rw [List.append_assoc,List.cons_append]
        refine .early first paired ?_ ?_
        · rw [strays_append]
          rintro (earlier | ⟨_,_,member,same⟩)
          · exact own earlier
          · cases List.mem_singleton.mp member
            exact different (same.trans names.1)
        · rw [← List.append_assoc]
          exact ih (by simpa [Pending.names] using names.2) others

end Rendered

end VueScope.Markup
