import VueScope.Text.Find

/-! Text split at its interpolations. An interpolation is the leftmost `{{` with
the nearest `}}` after it; its body is everything between the two. -/
namespace VueScope.Markup

inductive Piece where
  | text (content : List Char)
  | interpolation (body : List Char)
deriving DecidableEq, Repr

namespace Piece

def opening : List Char := ['{', '{']

def closing : List Char := ['}', '}']

def source : Piece → List Char
  | text content => content
  | interpolation body => opening ++ body ++ closing

/-- The first interpolation: the text before it, its body, and the text after it. -/
def firstInterpolation? (text : List Char) : Option (List Char × List Char × List Char) :=
  match Text.breakOn? opening text with
  | none => none
  | some (before, after) =>
    match Text.breakOn? closing after with
    | none => none
    | some (body, rest) => some (before, body, rest)

/-- Cuts at most `count` interpolations off the front. -/
def splitUpTo : Nat → List Char → List Piece
  | 0, content => [text content]
  | count + 1, content =>
    match firstInterpolation? content with
    | none => [text content]
    | some (before, body, rest) => text before :: interpolation body :: splitUpTo count rest

/-- Every interpolation with the text around it: texts and interpolations alternate,
and both ends are texts. -/
def split (content : List Char) : List Piece :=
  splitUpTo content.length content

end Piece

end VueScope.Markup
