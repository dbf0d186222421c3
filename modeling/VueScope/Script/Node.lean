import VueScope.Script.Shape

/-! Syntax nodes with their place and their text in a source. -/
namespace VueScope.Script

structure Node where
  kind : Kind
  field : Option Field
  start : Nat
  stop : Nat
  text : List Char
  children : List Node
deriving Repr

namespace Node

def emptyProgram : Node := ⟨.program, none, 0, 0, [], []⟩

def name (node : Node) : String :=
  String.ofList node.text

def namedChildren (node : Node) : List Node :=
  node.children.filter fun child => child.kind.isNamed

def child? (node : Node) (field : Field) : Option Node :=
  node.children.find? fun child => child.field = some field

def hasToken (node : Node) (kind : Kind) : Bool :=
  node.children.any fun child => child.kind = kind

mutual

def preorder : Node → List Node
  | node@⟨_, _, _, _, _, children⟩ => node :: preorderAll children

def preorderAll : List Node → List Node
  | [] => []
  | node :: rest => preorder node ++ preorderAll rest

end

end Node

namespace Shape

mutual

/-- The node of a shape that covers the first characters of `rest`, which start at
an offset. A blank has no node. -/
def locate? (start : Nat) (rest : List Char) : Shape → Option Node
  | blank _ => none
  | leaf kind field width => some ⟨kind, field, start, start + width, rest.take width, []⟩
  | node kind field children =>
    let width := widthAll children
    some ⟨kind, field, start, start + width, rest.take width, locateAll start rest children⟩

def locateAll (start : Nat) (rest : List Char) : List Shape → List Node
  | [] => []
  | shape :: later =>
    (locate? start rest shape).toList ++
      locateAll (start + shape.width) (rest.drop shape.width) later

end

end Shape

end VueScope.Script
