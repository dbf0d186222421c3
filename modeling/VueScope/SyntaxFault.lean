import VueScope.Text.Bytes
import VueScope.Text.Quoted
import VueScope.Text.Space

/-! Faults in a syntax tree that was read in spite of them. Spans count bytes. -/
namespace VueScope

inductive FaultTree where
  | node (type : String) (hasError isMissing : Bool) (start stop row column : Nat)
      (children : List FaultTree)
deriving Repr

namespace FaultTree

instance : Inhabited FaultTree := ⟨node "" false false 0 0 0 0 []⟩

def type : FaultTree → String
  | node type _ _ _ _ _ _ _ => type

def hasError : FaultTree → Bool
  | node _ hasError _ _ _ _ _ _ => hasError

def isMissing : FaultTree → Bool
  | node _ _ isMissing _ _ _ _ _ => isMissing

def start : FaultTree → Nat
  | node _ _ _ start _ _ _ _ => start

def stop : FaultTree → Nat
  | node _ _ _ _ stop _ _ _ => stop

def point : FaultTree → Nat × Nat
  | node _ _ _ _ _ row column _ => (row, column)

def isUnexpected (tree : FaultTree) : Bool :=
  tree.type = "ERROR"

/-- Unexpected text, or a token that should be there and is not. -/
def isFault (tree : FaultTree) : Bool :=
  tree.isUnexpected || tree.isMissing

mutual

/-- The first fault. A tree that claims an error and shows none is the fault itself. -/
def first? : FaultTree → Option FaultTree
  | tree@(node _ hasError _ _ _ _ _ children) =>
    if !hasError then none
    else if tree.isFault then some tree
    else some ((firstIn? children).getD tree)

def firstIn? : List FaultTree → Option FaultTree
  | [] => none
  | tree :: rest =>
    match first? tree with
    | some found => some found
    | none => firstIn? rest

end

mutual

def outermost : FaultTree → List FaultTree
  | tree@(node _ hasError _ _ _ _ _ children) =>
    if !hasError then []
    else if tree.isFault then [tree]
    else outermostIn children

def outermostIn : List FaultTree → List FaultTree
  | [] => []
  | tree :: rest => outermost tree ++ outermostIn rest

end

private def endsSnippet (c : Char) : Bool :=
  let n := c.toNat
  (0x0A ≤ n && n ≤ 0x0D) || (0x1C ≤ n && n ≤ 0x1E) || n == 0x85 || n == 0x2028 || n == 0x2029

private def snippetLength : Nat := 40

def snippet (source : List Char) (fault : FaultTree) : List Char :=
  ((Text.trim (Text.charsBetween source fault.start fault.stop)).takeWhile
    fun c => !endsSnippet c).take snippetLength

def describe (source : List Char) (fault : FaultTree) : String :=
  let (row, column) := fault.point
  let place := toString (row + 1) ++ ":" ++ toString (column + 1)
  if fault.isMissing then "Missing '" ++ fault.type ++ "' at " ++ place
  else "Unexpected token at " ++ place ++ ": " ++ String.ofList (Text.quoted (fault.snippet source))

def markupFaults (text : List Char) (tree : FaultTree) : List (String × Nat) :=
  tree.outermost.map fun fault =>
    (if fault.isUnexpected then "Invalid markup" else "Missing '" ++ fault.type ++ "'",
      Text.charOffset text fault.start)

end FaultTree

end VueScope
