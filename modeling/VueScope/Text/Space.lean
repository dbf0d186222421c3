/-! White space and trimming on code points. Trimming removes white space from the
ends and nothing else. -/
namespace VueScope.Text

def isWhite (c : Char) : Bool :=
  let n := c.toNat
  (0x09 ≤ n && n ≤ 0x0D) || n == 0x20 || n == 0x85 || n == 0xA0 || n == 0x1680 ||
    (0x2000 ≤ n && n ≤ 0x200A) || n == 0x2028 || n == 0x2029 || n == 0x202F || n == 0x205F ||
    n == 0x3000

/-- What trimming removes and what separates words: white space and the four
information separators. -/
def isSpace (c : Char) : Bool :=
  isWhite c || (0x1C ≤ c.toNat && c.toNat ≤ 0x1F)

def trimLeft (text : List Char) : List Char :=
  text.dropWhile isSpace

def trimRight (text : List Char) : List Char :=
  (text.reverse.dropWhile isSpace).reverse

def trim (text : List Char) : List Char :=
  trimRight (trimLeft text)

def isBlank (text : List Char) : Bool :=
  text.all isSpace

end VueScope.Text
