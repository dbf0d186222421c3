import VueScope.Markup.Mask
import VueScope.Markup.TagName
import VueScope.Recovery

/-! Reading markup. Elements may be closed by their own end tag, by the end tag of
an element around them, or by a start tag that cannot stand inside them; void
elements are closed by the next tag of any kind. -/
namespace VueScope.Markup

/-- A place in the text: the bytes before it and the characters after it. -/
structure Cursor where
  offset : Nat
  rest : List Char
deriving DecidableEq

variable (cursor : Cursor) (openTags : List TagName) (here : Cursor) (text : List Char) (written : List Char)

namespace Cursor

def advance (count : Nat) : Cursor :=
  ⟨cursor.offset + Text.byteLength (cursor.rest.take count), cursor.rest.drop count⟩

def skipWhile (test : Char → Bool) : Cursor :=
  cursor.advance (cursor.rest.takeWhile test).length

def skipWhite : Cursor :=
  cursor.skipWhile Text.isWhite

end Cursor

def isTagChar (c : Char) : Bool :=
  Text.isAlphanumeric c || c = '-' || c = ':'

def isNameChar (c : Char) : Bool :=
  !(Text.isWhite c || ['<', '>', '"', '\'', '/', '='].contains c)

def isBareValueChar (c : Char) : Bool :=
  !(Text.isWhite c || ['<', '>', '"', '\'', '='].contains c)

def tagNameHere : List Char :=
  text.takeWhile isTagChar

def readQuoted? (quote : Char) (cursor : Cursor) : Option (Span × Cursor) :=
  let stop := cursor.skipWhile (· ≠ quote)
  match stop.rest with
  | [] => none
  | _ :: _ => some (⟨cursor.offset, stop.offset⟩, stop.advance 1)

def readValue? : Option (Span × Cursor) :=
  match cursor.rest with
  | '"' :: _ => readQuoted? '"' (cursor.advance 1)
  | '\'' :: _ => readQuoted? '\'' (cursor.advance 1)
  | _ =>
    let stop := cursor.skipWhile isBareValueChar
    if stop.offset = cursor.offset then none else some (⟨cursor.offset, stop.offset⟩, stop)

def readAttribute? : Option (Attribute × Cursor) :=
  let stop := cursor.skipWhile isNameChar
  if stop.offset = cursor.offset then
    none
  else
    let name : Span := ⟨cursor.offset, stop.offset⟩
    let next := stop.skipWhite
    match next.rest with
    | '=' :: _ =>
      match readValue? (next.advance 1).skipWhite with
      | none => none
      | some (value, after) => some (⟨name, some value⟩, after)
    | _ => some (⟨name, none⟩, stop)

/-- The attributes of a start tag and how the tag ends: `true` for `/>`. -/
def readAttributes? : Nat → Cursor → Option (List Attribute × Bool × Cursor)
  | 0, _ => none
  | fuel + 1, cursor =>
    let here := cursor.skipWhite
    match here.rest with
    | '>' :: _ => some ([], false, here.advance 1)
    | '/' :: '>' :: _ => some ([], true, here.advance 2)
    | _ =>
      match readAttribute? here with
      | none => none
      | some (attr, next) =>
        match readAttributes? fuel next with
        | none => none
        | some (attributes, selfClosing, after) => some (attr :: attributes, selfClosing, after)

def readStartTag? : Option (StartTag × TagName × Cursor) :=
  let nameStart := (cursor.advance 1).skipWhite
  let written := tagNameHere nameStart.rest
  if written.isEmpty then
    none
  else
    let nameStop := nameStart.advance written.length
    match readAttributes? (nameStop.rest.length + 1) nameStop with
    | none => none
    | some (attributes, selfClosing, after) =>
      some (⟨⟨cursor.offset, after.offset⟩, written, attributes, selfClosing⟩,
        TagName.ofChars written, after)

def readEndTag? : Option (List Char × TagName × Cursor) :=
  let nameStart := (cursor.advance 2).skipWhite
  let written := tagNameHere nameStart.rest
  if written.isEmpty then
    none
  else
    let nameStop := nameStart.advance written.length
    let close := nameStop.skipWhite
    match close.rest with
    | '>' :: _ => some (written, TagName.ofChars written, close.advance 1)
    | _ => none

/-- The comment that begins here: it ends at the first `>` after two dashes. -/
def commentLength? : Option Nat :=
  match Text.dropPrefix? "<!--".toList text with
  | none => none
  | some inner => (close 0 4 inner)
where
  close (dashes length : Nat) : List Char → Option Nat
    | [] => none
    | '-' :: rest => close (dashes + 1) (length + 1) rest
    | '>' :: rest => if 2 ≤ dashes then some (length + 1) else close 0 (length + 1) rest
    | _ :: rest => close 0 (length + 1) rest

def doctypeLength? : Option Nat :=
  match text with
  | '<' :: '!' :: rest =>
    match Text.dropPrefix? "doctype".toList (rest.map Char.toLower) with
    | none => none
    | some _ =>
      let inner := (rest.drop 7).takeWhile (· ≠ '>')
      if inner.isEmpty || inner.length = (rest.drop 7).length then none else some (inner.length + 10)
  | _ => none

def entityLength? : Option Nat :=
  match text with
  | '&' :: '#' :: x :: rest =>
    if x = 'x' || x = 'X' then
      numbered 3 ((rest.takeWhile isHexDigit).take 6).length rest
    else
      numbered 2 (((x :: rest).takeWhile Char.isDigit).take 5).length (x :: rest)
  | '&' :: rest => numbered 1 ((rest.takeWhile Char.isAlpha).take 30).length rest
  | _ => none
where
  isHexDigit (c : Char) : Bool :=
    c.isDigit || ('a' ≤ c && c ≤ 'f') || ('A' ≤ c && c ≤ 'F')
  numbered (lead digits : Nat) (rest : List Char) : Option Nat :=
    if digits = 0 then none
    else
      match rest.drop digits with
      | ';' :: _ => some (lead + digits + 1)
      | _ => some (lead + digits)

/-- Raw text up to the first `</` with the element's name. A mismatch inside a
partial match starts over after the mismatch. -/
def rawTextLength (name : List Char) (text : List Char) : Nat :=
  scan delimiter 0 0 text
where
  delimiter : List Char := '<' :: '/' :: name
  scan (expected : List Char) (held length : Nat) : List Char → Nat
    | [] => length
    | c :: rest =>
      match expected with
      | [] => length
      | e :: later =>
        if c.toLower = e then
          if later.isEmpty then length else scan later (held + 1) length rest
        else
          scan delimiter 0 (length + held + 1) rest

/-- The end tag after raw text, when it names the same element. -/
def readRawEnd? (tag : TagName) (cursor : Cursor) : Option (Span × Cursor) :=
  match cursor.rest with
  | '<' :: '/' :: _ =>
    match readEndTag? cursor with
    | none => none
    | some (_, name, after) => if name = tag then some (⟨cursor.offset, after.offset⟩, after) else none
  | _ => none

/-- What stood inside an element, and how the element ended. -/
structure Content where
  nodes : List Node
  endTag : Option Span
  cursor : Cursor
  sound : Bool

namespace Content

def cons (node : Node) (content : Content) : Content :=
  { content with nodes := node :: content.nodes }

def unsound (content : Content) : Content :=
  { content with sound := false }

end Content

/-- Whether an end tag written here closes the innermost open element on behalf
of another one further out. -/
def closesOuter : Bool :=
  let tag := TagName.ofChars written
  !written.isEmpty && openTags.head? ≠ some tag && openTags.any (TagName.sameEntry · tag)

/-- Whether a start tag written here closes the innermost open element. -/
def closedByStart : Bool :=
  match openTags with
  | [] => false
  | top :: _ => top.isVoid || (!written.isEmpty && !top.canContain (TagName.ofChars written))

/-- What the reader does at a place, once white space is passed. -/
inductive Move where
  /-- The innermost open element ends here, without an end tag of its own. -/
  | stop
  /-- The innermost open element ends with the end tag written here. -/
  | close (after : Cursor)
  /-- Something is passed over that gives no node. It may be no markup. -/
  | skip (next : Cursor) (sound : Bool)
  /-- A node is read that opens no element. -/
  | leaf (node : Node) (next : Cursor)
  /-- An element opens. -/
  | descend (tag : StartTag) (name : TagName) (after : Cursor)

def moveAtDeclaration : Move :=
  match commentLength? here.rest with
  | some length =>
    let after := here.advance length
    .leaf (.comment ⟨here.offset, after.offset⟩) after
  | none =>
    match doctypeLength? here.rest with
    | some length => .skip (here.advance length) true
    | none => .skip (here.advance 1) false

def moveAtEndTag : Move :=
  if closesOuter openTags (tagNameHere written) then
    .stop
  else
    match readEndTag? here with
    | none => .skip (here.advance 2) false
    | some (name, tag, after) =>
      if openTags.head? = some tag then .close after
      else if openTags.isEmpty then .skip after false
      else .leaf (.strayEnd ⟨here.offset, after.offset⟩ name) after

def moveAtElement (tag : StartTag) (name : TagName) (after : Cursor) : Move :=
  if name.isScript || name.isStyle then
    if tag.selfClosing then
      .skip after false
    else
      let body := after.advance (rawTextLength name.name after.rest)
      match readRawEnd? name body with
      | none => .skip body false
      | some (endTag, next) =>
        let kind := if name.isScript then RawKind.script else RawKind.style
        .leaf (.raw kind ⟨here.offset, next.offset⟩ tag endTag) next
  else if tag.selfClosing then
    .leaf (.element ⟨here.offset, after.offset⟩ tag [] none) after
  else
    .descend tag name after

def moveAtStartTag : Move :=
  if closedByStart openTags (tagNameHere written) then
    .stop
  else
    match readStartTag? here with
    | none => .skip (here.advance 1) false
    | some (tag, name, after) => moveAtElement here tag name after

def moveAtReference : Move :=
  match entityLength? here.rest with
  | some length => .skip (here.advance length) true
  | none => .skip (here.advance 1) false

def move : Move :=
  match here.rest with
  | [] => .stop
  | '<' :: '!' :: _ => moveAtDeclaration here
  | '<' :: '/' :: written => moveAtEndTag openTags here written
  | '<' :: written => moveAtStartTag openTags here written
  | '>' :: _ => .skip (here.advance 1) false
  | '&' :: _ => moveAtReference here
  | _ => .skip (here.skipWhile fun c => c ≠ '<' && c ≠ '>' && c ≠ '&') true

/-- Reads nodes until the innermost of the open elements ends. -/
def readContent : Nat → List TagName → Cursor → Content
  | 0, _, cursor => ⟨[], none, cursor, false⟩
  | fuel + 1, openTags, cursor =>
    let here := cursor.skipWhite
    match move openTags here with
    | .stop => ⟨[], none, here, true⟩
    | .close after => ⟨[], some ⟨here.offset, after.offset⟩, after, true⟩
    | .skip next true => readContent fuel openTags next
    | .skip next false => (readContent fuel openTags next).unsound
    | .leaf node next => (readContent fuel openTags next).cons node
    | .descend tag name after =>
      let inner := readContent fuel (name :: openTags) after
      let outer := readContent fuel openTags inner.cursor
      let node := Node.element ⟨here.offset, inner.cursor.offset⟩ tag inner.nodes inner.endTag
      { outer with nodes := node :: outer.nodes, sound := inner.sound && outer.sound }

def read (text : List Char) : Reading :=
  let content := readContent (text.length + 1) [] ⟨0, text⟩
  ⟨content.nodes, content.sound⟩

/-- The reading of a whole file. Where it has faults, it may be read in another way than by passing
over them. -/
def readFile [Recovery] : Reading :=
  let own := read text
  if own.sound then own
  else
    match Recovery.markup text with
    | some nodes => ⟨nodes, false⟩
    | none => own

end VueScope.Markup
