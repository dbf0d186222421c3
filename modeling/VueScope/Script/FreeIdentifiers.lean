import VueScope.Script.Binders

/-! The identifiers of an expression that refer to something outside it. -/
namespace VueScope.Script.Node

mutual

/-- Identifiers that refer to something outside, in source order. Of a property chain
only its base counts, and a function's parameters are local to its body. -/
def freeIdentifiers (bound : List String) : Node → List Node
  | node@⟨kind, _, _, _, _, children⟩ =>
    match kind with
    | .identifier => if bound.contains node.name then [] else [node]
    | .shorthandProperty => if bound.contains node.name then [] else [node]
    | .ascription => []
    | .typeArguments => []
    | .comment => []
    | .memberExpression => freeInPart bound .object children
    | other =>
      if other.isFunction then freeInPart (node.parameterNames ++ bound) .body children
      else freeInAll bound children

def freeInPart (bound : List String) (field : Field) : List Node → List Node
  | [] => []
  | child :: rest =>
    if child.field = some field then freeIdentifiers bound child else freeInPart bound field rest

def freeInAll (bound : List String) : List Node → List Node
  | [] => []
  | child :: rest =>
    (if child.kind.isNamed then freeIdentifiers bound child else []) ++ freeInAll bound rest

end

end VueScope.Script.Node
