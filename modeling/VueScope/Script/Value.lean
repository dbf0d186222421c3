import VueScope.Script.Node

/-! What an expression is, seen from outside: the value inside its wrappers, the name it
calls, whether it is a function, a literal, or made of literals only. -/
namespace VueScope.Script

namespace Kind

/-- Wrappers that do not change which value an expression has. -/
def isTransparent : Kind → Bool
  | parenthesized => true
  | asExpression => true
  | satisfiesExpression => true
  | nonNull => true
  | typeAssertion => true
  | _ => false

/-- Literals with a value of their own. -/
def isConstant : Kind → Bool
  | string => true
  | number => true
  | trueLiteral => true
  | falseLiteral => true
  | nullLiteral => true
  | _ => false

def isLiteral : Kind → Bool
  | undefined => true
  | regex => true
  | templateString => true
  | kind => kind.isConstant

def isFunction : Kind → Bool
  | functionExpression => true
  | arrowFunction => true
  | generatorFunction => true
  | _ => false

end Kind

namespace Node

mutual

/-- The value inside all wrappers. What counts as inside is the first named part, so a
comment or a type in front hides the value. -/
def unwrapped : Node → Node
  | node@⟨kind, _, _, _, _, children⟩ =>
    if kind.isTransparent then (firstUnwrapped? children).getD node else node

def firstUnwrapped? : List Node → Option Node
  | [] => none
  | child :: rest => if child.kind.isNamed then some (unwrapped child) else firstUnwrapped? rest

end

variable (node : Node)

/-- The name that a call calls, if it calls a plain name. -/
def callee? : Option String :=
  let call := node.unwrapped
  if call.kind = .callExpression then
    match call.child? .function with
    | some function => if function.kind = .identifier then some function.name else none
    | none => none
  else none

def callsAny (names : List String) : Bool :=
  node.callee?.any names.contains

def calls (name : String) : Bool :=
  node.callee? = some name

def callArguments : List Node :=
  match node.unwrapped.child? .arguments with
  | none => []
  | some passed => passed.namedChildren.filter fun part => part.kind ≠ .comment

def isFunction : Bool :=
  node.unwrapped.kind.isFunction

def isLiteral : Bool :=
  node.unwrapped.kind.isLiteral

def unquoted : String :=
  String.ofList (node.text.drop 1).dropLast

/-- The value of a string, or of a template literal without substitutions. -/
def stringValue? : Option String :=
  match node.kind with
  | .string => some node.unquoted
  | .templateString =>
    if node.namedChildren.any fun part => part.kind = .templateSubstitution then none
    else some node.unquoted
  | _ => none

mutual

def isStatic : Node → Bool
  | ⟨kind, _, _, _, _, children⟩ =>
    match kind with
    | .parenthesized => allStatic children
    | .ternary => allStatic children
    | .sequence => allStatic children
    | .unary => partStatic .argument children
    | .binary => partStatic .left children && partStatic .right children
    | .templateString => substitutionsStatic children
    | other => other.isConstant

def allStatic : List Node → Bool
  | [] => true
  | child :: rest => (!child.kind.isNamed || isStatic child) && allStatic rest

def partStatic (field : Field) : List Node → Bool
  | [] => false
  | child :: rest => if child.field = some field then isStatic child else partStatic field rest

/-- The first named part of each substitution. -/
def substitutionsStatic : List Node → Bool
  | [] => true
  | ⟨kind, _, _, _, _, inner⟩ :: rest =>
    (kind ≠ .templateSubstitution || firstStatic inner) && substitutionsStatic rest

def firstStatic : List Node → Bool
  | [] => true
  | child :: rest => if child.kind.isNamed then isStatic child else firstStatic rest

end

end Node

end VueScope.Script
