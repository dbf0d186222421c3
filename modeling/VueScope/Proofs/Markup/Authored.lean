import VueScope.Markup.Reader
import VueScope.Markup.Renest

/-! Markup as its author nests it: every element that is not void is self-closing or has an end
tag of its own, whatever the element rules make of it. The rules close some elements early. Which
ones can be followed from tag to tag, and so can whether their end tags still find them. -/
namespace VueScope.Markup

def StartTag.isRaw (tag : StartTag) : Bool :=
  (TagName.ofChars tag.name).isScript || (TagName.ofChars tag.name).isStyle

/-- The tag of an element without an end tag: it is self-closing, or the element is void. -/
def StartTag.isSingle (tag : StartTag) : Bool :=
  tag.selfClosing || neverClosed tag.name

/-- An element as its author wrote it. -/
inductive Authored where
  | element (tag : StartTag) (children : List Authored) (close : Span)
  /-- An element without an end tag. -/
  | leaf (tag : StartTag)
  /-- A script or style element. -/
  | raw (tag : StartTag)

structure Opens (cursor : Cursor) (tag : StartTag) (inside : Cursor) : Prop where
  read : readStartTag? cursor = some (tag,.ofChars tag.name,inside)
  named : ∃ rest, cursor.rest = '<' :: rest ∧ tagNameHere rest = tag.name

theorem opens_iff (cursor inside : Cursor) (tag : StartTag) :
    Opens cursor tag inside ↔ readStartTag? cursor = some (tag,.ofChars tag.name,inside) ∧
      cursor.rest.take 1 = ['<'] ∧ tagNameHere (cursor.rest.drop 1) = tag.name := by
  constructor
  · rintro ⟨read,rest,written,named⟩
    simp [read,written,named]
  · rintro ⟨read,bracket,named⟩
    refine ⟨read,_,?_,named⟩
    rw [← List.singleton_append,← bracket,List.take_append_drop]

instance (cursor inside : Cursor) (tag : StartTag) : Decidable (Opens cursor tag inside) :=
  decidable_of_iff' _ (opens_iff cursor inside tag)

structure Closes (cursor : Cursor) (name : TagName) (after : Cursor) : Prop where
  read : ∃ written, readEndTag? cursor = some (written,name,after)
  named : ∃ rest, cursor.rest = '<' :: '/' :: rest ∧ TagName.ofChars (tagNameHere rest) = name

theorem closes_iff (cursor after : Cursor) (name : TagName) :
    Closes cursor name after ↔ (readEndTag? cursor).map Prod.snd = some (name,after) ∧
      cursor.rest.take 2 = ['<','/'] ∧ .ofChars (tagNameHere (cursor.rest.drop 2)) = name := by
  constructor
  · rintro ⟨⟨found,read⟩,rest,written,named⟩
    simp [read,written,named]
  · rintro ⟨read,bracket,named⟩
    obtain ⟨⟨found,_⟩,read,rfl⟩ := Option.map_eq_some_iff.mp read
    refine ⟨⟨found,read⟩,_,?_,named⟩
    rw [← List.take_append_drop 2 cursor.rest,bracket]
    simp

instance (cursor after : Cursor) (name : TagName) : Decidable (Closes cursor name after) :=
  decidable_of_iff' _ (closes_iff cursor after name)

/-- Where a script or style element ends that holds what follows its start tag. -/
def RawEnds (tag : StartTag) (inside after : Cursor) : Prop :=
  if tag.selfClosing then after = inside
  else
    let name := TagName.ofChars tag.name
    ∃ endTag, readRawEnd? name (inside.advance (rawTextLength name.name inside.rest)) =
      some (endTag,after)

/-- The text from one place to another is written as a row of elements, with text, comments and
document types between them. -/
inductive Written : Cursor → List Authored → Cursor → Prop
  | done {cursor} : Written cursor [] cursor
  | text {cursor stop nodes} (later : Written (cursor.skipWhile (· ≠ '<')) nodes stop) :
      Written cursor nodes stop
  | comment {cursor stop nodes length} (found : commentLength? cursor.rest = some length)
      (later : Written (cursor.advance length) nodes stop) : Written cursor nodes stop
  | doctype {cursor stop nodes length} (found : doctypeLength? cursor.rest = some length)
      (later : Written (cursor.advance length) nodes stop) : Written cursor nodes stop
  | raw {cursor inside after stop tag nodes} (opened : Opens cursor tag inside)
      (kind : tag.isRaw = true) (ended : RawEnds tag inside after) (later : Written after nodes stop) :
      Written cursor (.raw tag :: nodes) stop
  | leaf {cursor inside stop tag nodes} (opened : Opens cursor tag inside)
      (kind : tag.isRaw = false) (single : tag.isSingle = true) (later : Written inside nodes stop) :
      Written cursor (.leaf tag :: nodes) stop
  | element {cursor inside finish after stop tag children nodes} (opened : Opens cursor tag inside)
      (kind : tag.isRaw = false) (paired : tag.isSingle = false)
      (below : Written inside children finish) (closed : Closes finish (.ofChars tag.name) after)
      (later : Written after nodes stop) :
      Written cursor (.element tag children ⟨finish.offset,after.offset⟩ :: nodes) stop

def TagName.holds (parent child : TagName) : Bool :=
  !parent.isVoid && parent.canContain child

/-- An open element, and the elements inside it that were closed early and whose end tags are
still to come, innermost first. -/
structure Level where
  name : TagName
  early : List TagName
deriving DecidableEq

/-- The open elements at a start tag. Those that do not hold it are closed early. -/
def opened? (name : TagName) (levels : List Level) : Option (List Level) :=
  let ended := (levels.takeWhile fun level => !level.name.holds name).flatMap fun level =>
    level.early ++ [level.name]
  match levels.dropWhile fun level => !level.name.holds name with
  | [] => none
  | level :: outer => some ({ level with early := ended ++ level.early } :: outer)

/-- The open elements behind an end tag. The end tag of an element that was closed early is lost
in a void element, taken by an element around it that is open, or found by an element
around it that was closed early, if that has the same name. -/
def closed? (afterVoid : Bool) : List Level → Option (List Level)
  | [] => none
  | ⟨_,[]⟩ :: outer => some outer
  | ⟨name,first :: early⟩ :: outer =>
    if afterVoid || (name :: early ++ outer.map Level.name).contains first then none
    else some (⟨name,early⟩ :: outer)

/-- Whether elements end with one that is void and has no slash. -/
def endsVoid (nodes : List Authored) : Bool :=
  match nodes.getLast? with
  | some (.leaf tag) => !tag.selfClosing
  | _ => false

mutual

/-- The open elements behind an element; none if an end tag does not find its element. -/
def trace? (levels : List Level) : Authored → Option (List Level)
  | .leaf tag => opened? (.ofChars tag.name) levels
  | .raw tag => opened? (.ofChars tag.name) levels
  | .element tag children _ =>
    (opened? (.ofChars tag.name) levels).bind fun around =>
      (traceAll? (⟨.ofChars tag.name,[]⟩ :: around) children).bind (closed? (endsVoid children))

def traceAll? (levels : List Level) : List Authored → Option (List Level)
  | [] => some levels
  | node :: rest => (trace? levels node).bind fun next => traceAll? next rest

end

/-- Every end tag in an element of the given name finds its element. -/
def Recoverable (name : TagName) (nodes : List Authored) : Prop :=
  (traceAll? [⟨name,[]⟩] nodes).isSome = true

instance (name : TagName) (nodes : List Authored) : Decidable (Recoverable name nodes) :=
  inferInstanceAs (Decidable (_ = true))

end VueScope.Markup
