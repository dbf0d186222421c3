import VueScope.Template.Ast
import VueScope.Text.Find
import VueScope.Text.Space

/-! Splitting loop expressions: aliases, the word `in` or `of` with white space
around it, and the source. The first such word divides. -/
namespace VueScope.Template.Loop

/-- What follows a dividing word: the white space after it, and the source, which
starts with something other than white space. -/
def afterWord? (text : List Char) : Option (List Char × List Char) :=
  let word := (Text.dropPrefix? ['i', 'n'] text).or (Text.dropPrefix? ['o', 'f'] text)
  match word with
  | none => none
  | some rest =>
    let source := rest.dropWhile Text.isSpace
    if source.isEmpty || source.length = rest.length then none else some (rest, source)

/-- The text before the divider, the divider, and the source. A divider starts
where a run of white space starts. -/
def divide? : List Char → Option (List Char × List Char × List Char)
  | [] => none
  | c :: cs =>
    let later := (divide? cs).map fun (left, divider, source) => (c :: left, divider, source)
    if Text.isSpace c then
      let word := cs.dropWhile Text.isSpace
      match afterWord? word with
      | none => later
      | some (_, source) =>
        some ([], (c :: cs).take ((c :: cs).length - source.length), source)
    else
      later

def stripParens (text : List Char) : List Char :=
  let opened := match text with
    | '(' :: rest => rest
    | _ => text
  match opened.reverse with
  | ')' :: rest => rest.reverse
  | _ => opened

def closesPattern (c : Char) : Bool :=
  c = '}' || c = ']'

/-- The key and index after the value: up to two comma-led parts at the end, in
which no pattern closes. -/
def iterators? : List Char → Option (List Char × List Char × Option (List Char))
  | [] => none
  | c :: cs =>
    let later := (iterators? cs).map fun (value, key, index) => (c :: value, key, index)
    if c = ',' && !cs.any closesPattern then
      match Text.splitOn ',' cs with
      | [key] => some ([], key, none)
      | [key, index] => some ([], key, some index)
      | _ => later
    else
      later

def located (content part : List Char) (base start : Int) : Expression :=
  let found : Int := match Text.findFrom? part content start.toNat with
    | some place => place
    | none => -1
  ⟨part, base + found, false⟩

def nonEmpty (part : List Char) : Option (List Char) :=
  if part.isEmpty then none else some part

/-- Reads `(value, key, index) in source`; nothing when no word divides. -/
def parse? (expression : Expression) : Option Loop :=
  let content := expression.content
  match divide? content with
  | none => none
  | some (left, divider, rest) =>
    let source : Expression :=
      ⟨Text.trimRight rest, expression.offset + (left.length + divider.length : Nat), false⟩
    let aliases := Text.trim (stripParens (Text.trim left))
    let start := (Text.find? aliases left).getD 0
    let valueAt (value : List Char) : Option Expression :=
      (nonEmpty value).map fun part => ⟨part, expression.offset + (start : Int), false⟩
    match iterators? aliases with
    | none => some ⟨source, valueAt aliases, none, none⟩
    | some (before, keyPart, indexPart) =>
      let value := Text.trim before
      let keyContent := Text.trim keyPart
      let afterValue : Int := start + value.length
      let key := (nonEmpty keyContent).map fun part => located content part 0 afterValue
      let afterKey : Int := match key with
        | some found => found.offset + keyContent.length
        | none => afterValue
      let index := (indexPart.map Text.trim).bind nonEmpty |>.map fun part =>
        located content part expression.offset afterKey
      some ⟨source, valueAt value,
        key.map fun found => { found with offset := expression.offset + found.offset }, index⟩

end VueScope.Template.Loop
