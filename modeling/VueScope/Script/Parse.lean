import VueScope.Recovery
import VueScope.Script.Grammar.Element
import VueScope.Script.Grammar.Statement

/-! Reading a whole script. -/
namespace VueScope.Script

open VueScope.Script.Grammar VueScope.Script.Parser

/-- What each construct looks like, given all of them. -/
def Grammar.body (dialect : Dialect) (rules : Rules) : Rule → Parser
  | .statement => statement dialect rules
  | .block place => block dialect rules place
  | .expression mode => expression dialect rules mode
  | .sequence mode => sequence rules mode
  | .operation mode level => operation dialect rules mode level
  | .unary mode => unary dialect rules mode
  | .construction mode => construction dialect rules mode
  | .access => access dialect rules
  | .pattern => pattern dialect rules
  | .destructuring => destructuring dialect rules
  | .parameters => parameters dialect rules
  | .object => object dialect rules
  | .classBody => classBody dialect rules
  | .element => element dialect rules
  | .type place => type dialect rules place
  | .typeOperand place => typeOperand dialect rules place
  | .primaryType place => primaryType dialect rules place
  | .objectType => objectType dialect rules

/-- The grammar, unfolded to a depth. -/
def Grammar.rules (dialect : Dialect) : Nat → Rules
  | 0, _ => fail
  | depth + 1, rule => Grammar.body dialect (Grammar.rules dialect depth) rule

/-- A line in front of the first statement that names an interpreter. -/
def hashBang : Parser :=
  token .hashBang fun text =>
    match text with
    | '#' :: '!' :: rest => some ((rest.takeWhile (· ≠ '\n')).length + 2)
    | _ => none

def program (dialect : Dialect) (depth : Nat) : Parser :=
  maybe hashBang >> many (Grammar.rules dialect depth .statement) >>
    ⟨fun text =>
      let (shapes, rest) := trivia text
      if rest.isEmpty then .taken shapes [] else .absent⟩

/-- No construct goes through more than this many others without taking a character. -/
def depthPerChar : Nat := 32

def parse? (dialect : Dialect) (text : List Char) : Option Node :=
  match (program dialect (depthPerChar * (text.length + 2))).run text with
  | .taken shapes _ => (Shape.node .program none shapes).locate? 0 text
  | _ => none

/-- The tree of any text. -/
def tree [Recovery] (dialect : Dialect) (text : List Char) : Node :=
  (parse? dialect text).getD (Recovery.script dialect text)

end VueScope.Script
