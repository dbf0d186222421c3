import VueScope.Markup.Interpolation
import VueScope.Text.Alphanumeric
import VueScope.Text.Bytes
import VueScope.Text.Space

/-! The bodies of interpolations hold expressions, in which `<` opens no tag. They
are blanked out before the markup is read: every character gives way to as many
spaces as it has bytes, so byte offsets stay valid. Comments, scripts and styles
are raw regions, in which `{{` opens no interpolation. -/
namespace VueScope.Markup

variable (text : List Char) (c : Char)

/-- Letters that are equal without regard to case, written as the small ASCII letter. -/
def foldCase : Char :=
  let n := c.toNat
  if n = 0x130 || n = 0x131 then 'i'
  else if n = 0x17F then 's'
  else if n = 0x212A then 'k'
  else c.toLower

/-- The small form of a letter. The long s and the dotless i are small letters of
their own. -/
def smallLetter : Char :=
  let n := c.toNat
  if n = 0x130 then 'i'
  else if n = 0x212A then 'k'
  else c.toLower

/-- What follows a word. The letters of the text are folded before they are compared. -/
def dropWord? (fold : Char → Char) (word text : List Char) : Option (List Char) :=
  match word, text with
  | [], rest => some rest
  | _ :: _, [] => none
  | w :: ws, c :: cs => if w = fold c then dropWord? fold ws cs else none

/-- Letters and numbers of every script, and the underscore. -/
def continuesWord : Bool :=
  Text.isAlphanumeric c || c = '_'

/-- What follows `</`, the word in letters of either case, blanks and `>`. -/
def afterEndTag? (word text : List Char) : Option (List Char) :=
  match Text.dropPrefix? ['<', '/'] text with
  | none => none
  | some name =>
    match dropWord? smallLetter word name with
    | none => none
    | some rest =>
      match rest.dropWhile Text.isSpace with
      | '>' :: after => some after
      | _ => none

def afterFirstEndTag? (word : List Char) : List Char → Option (List Char)
  | [] => none
  | c :: cs =>
    match afterEndTag? word (c :: cs) with
    | some after => some after
    | none => afterFirstEndTag? word cs

/-- What follows an element of the word that starts here: its start tag up to the
first `>`, then everything up to the first end tag that repeats the word as it is
written there. -/
def afterRawElement? (word text : List Char) : Option (List Char) :=
  match text with
  | '<' :: name =>
    match dropWord? foldCase word name with
    | none => none
    | some rest =>
      match rest with
      | [] => none
      | next :: _ =>
        if continuesWord next then none
        else
          match Text.breakOn? ['>'] rest with
          | none => none
          | some (_, content) =>
            afterFirstEndTag? ((name.take word.length).map smallLetter) content
  | _ => none

def afterComment? : Option (List Char) :=
  match Text.dropPrefix? "<!--".toList text with
  | none => none
  | some inner => (Text.breakOn? "-->".toList inner).map Prod.snd

def afterRawRegion? : Option (List Char) :=
  (afterComment? text).or
    ((afterRawElement? "script".toList text).or (afterRawElement? "style".toList text))

inductive Stretch where
  /-- Text in which interpolations count. -/
  | live (content : List Char)
  | raw (content : List Char)
deriving DecidableEq, Repr

namespace Stretch

def source : Stretch → List Char
  | live content => content
  | raw content => content

def consLive : List Stretch → List Stretch
  | live content :: rest => live (c :: content) :: rest
  | stretches => live [c] :: stretches

/-- Cuts a text at its raw regions, each the first that starts after the one before. -/
def splitWithin : Nat → List Char → List Stretch
  | _, [] => []
  | 0, text => [live text]
  | fuel + 1, c :: cs =>
    match afterRawRegion? (c :: cs) with
    | some after =>
      raw ((c :: cs).take ((c :: cs).length - after.length)) :: splitWithin fuel after
    | none => consLive c (splitWithin fuel cs)

def split : List Stretch :=
  splitWithin text.length text

end Stretch

def blank : List Char :=
  List.replicate c.utf8Size ' '

def maskPiece : Piece → List Char
  | .text content => content
  | .interpolation body => Piece.opening ++ body.flatMap blank ++ Piece.closing

def maskStretch : Stretch → List Char
  | .live content => (Piece.split content).flatMap maskPiece
  | .raw content => content

/-- The text with every interpolation body blanked out, byte for byte. -/
def mask : List Char :=
  (Stretch.split text).flatMap maskStretch

end VueScope.Markup
