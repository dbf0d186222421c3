/-! The identifier-like word that touches an offset. -/
namespace VueScope.Text

def isWordChar (c : Char) : Bool :=
  c.isAlphanum || c = '_' || c = '$'

structure Word where
  text : List Char
  start : Nat
  stop : Nat
deriving DecidableEq, Repr

/-- The longest run of word characters that ends or begins at the offset, as one word. -/
def wordAt (text : List Char) (offset : Int) : Option Word :=
  if offset < 0 || text.length < offset then
    none
  else
    let place := offset.toNat
    let before := ((text.take place).reverse.takeWhile isWordChar).length
    let after := ((text.drop place).takeWhile isWordChar).length
    if before + after = 0 then
      none
    else
      let start := place - before
      some ⟨(text.drop start).take (before + after), start, place + after⟩

end VueScope.Text
