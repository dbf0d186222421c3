import VueScope.Script.Value

/-! The names that patterns, parameters and declarations bind. -/
namespace VueScope.Script

inductive DeclarationKind where
  | const
  | let
  | var
deriving DecidableEq, Repr

namespace DeclarationKind

def keyword : DeclarationKind → String
  | .const => "const"
  | .let => "let"
  | .var => "var"

def ofToken? : Kind → Option DeclarationKind
  | .constKeyword => some .const
  | .letKeyword => some .let
  | .varKeyword => some .var
  | _ => none

end DeclarationKind

/-- Parts of a pattern in which nothing is bound. -/
def Kind.bindsNothing : Kind → Bool
  | .ascription => true
  | .memberExpression => true
  | .subscriptExpression => true
  | .callExpression => true
  | .propertyIdentifier => true
  | .accessibilityModifier => true
  | .comment => true
  | _ => false

namespace Node

mutual

/-- The names a pattern binds, as nodes. Keys, default values and types bind nothing. -/
def boundIdentifiers : Node → List Node
  | node@⟨kind, _, _, _, _, children⟩ =>
    match kind with
    | .identifier => [node]
    | .shorthandPattern => [node]
    | .pairPattern => boundInPart .value children
    | .objectAssignmentPattern => boundInPart .left children
    | .assignmentPattern => boundInPart .left children
    | .requiredParameter => boundInPart .pattern children
    | .optionalParameter => boundInPart .pattern children
    | other => if other.bindsNothing then [] else boundInAll children

def boundInPart (field : Field) : List Node → List Node
  | [] => []
  | child :: rest =>
    if child.field = some field then boundIdentifiers child else boundInPart field rest

def boundInAll : List Node → List Node
  | [] => []
  | child :: rest =>
    (if child.kind.isNamed then boundIdentifiers child else []) ++ boundInAll rest

end

def boundNames (pattern : Node) : List String :=
  pattern.boundIdentifiers.map name

def parameterNames (node : Node) : List String :=
  let function := node.unwrapped
  match function.child? .parameter with
  | some single => [single.name]
  | none =>
    match function.child? .parameters with
    | some all => all.boundNames
    | none => []

def declarationKind? (statement : Node) : Option DeclarationKind :=
  statement.children.findSome? fun child => DeclarationKind.ofToken? child.kind

def declarators (statement : Node) : List Node :=
  statement.namedChildren.filter fun child => child.kind = .variableDeclarator

def isVariableDeclaration (statement : Node) : Bool :=
  statement.kind = .lexicalDeclaration || statement.kind = .variableDeclaration

def statements (root : Node) : List Node :=
  root.namedChildren.filter fun child => child.kind ≠ .comment

end Node

end VueScope.Script
