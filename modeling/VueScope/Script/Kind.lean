import VueScope.Text.Find

/-! The constructs of a script: kinds of syntax nodes, the fields that name the
parts of a construct, and the dialects a script can be written in. -/
namespace VueScope.Script

inductive Dialect where
  | javascript
  | typescript
  | tsx
deriving DecidableEq, Repr

namespace Dialect

/-- The dialect a language name asks for, without regard to case. -/
def ofLang (lang : Option String) : Dialect :=
  let name := String.ofList (Text.lowerAscii (lang.getD "").toList)
  if ["ts", "mts", "cts", "typescript"].contains name then typescript
  else if name = "tsx" then tsx
  else javascript

def hasTypes : Dialect → Bool
  | javascript => false
  | typescript => true
  | tsx => true

/-- Whether `<` may open an element in an expression. -/
def hasElements : Dialect → Bool
  | javascript => true
  | typescript => false
  | tsx => true

end Dialect

inductive Kind where
  -- tokens without a name of their own
  | mark
  | keyword
  | constKeyword
  | letKeyword
  | varKeyword
  | defaultKeyword
  | typeKeyword
  -- text that fits nowhere
  | unexpected
  -- names and literals
  | comment
  | markupComment
  | hashBang
  | identifier
  | propertyIdentifier
  | privatePropertyIdentifier
  | shorthandProperty
  | shorthandPattern
  | statementIdentifier
  | typeIdentifier
  | nestedIdentifier
  | string
  | templateString
  | stringFragment
  | escapeSequence
  | templateSubstitution
  | number
  | regex
  | thisWord
  | superWord
  | trueLiteral
  | falseLiteral
  | nullLiteral
  | undefined
  | importWord
  | metaProperty
  | optionalChain
  -- expressions
  | parenthesized
  | sequence
  | array
  | object
  | pair
  | methodDefinition
  | spreadElement
  | computedPropertyName
  | functionExpression
  | arrowFunction
  | generatorFunction
  | classExpression
  | callExpression
  | arguments
  | newExpression
  | memberExpression
  | subscriptExpression
  | assignment
  | augmentedAssignment
  | update
  | unary
  | binary
  | ternary
  | await
  | yield
  | asExpression
  | satisfiesExpression
  | nonNull
  | typeAssertion
  | instantiation
  | jsxElement
  | jsxPart
  | jsxText
  | jsxExpression
  -- patterns and parameters
  | objectPattern
  | arrayPattern
  | pairPattern
  | restPattern
  | assignmentPattern
  | objectAssignmentPattern
  | formalParameters
  | requiredParameter
  | optionalParameter
  | accessibilityModifier
  | overrideModifier
  -- statements
  | program
  | expressionStatement
  | lexicalDeclaration
  | variableDeclaration
  | usingDeclaration
  | variableDeclarator
  | functionDeclaration
  | generatorFunctionDeclaration
  | functionSignature
  | classDeclaration
  | abstractClassDeclaration
  | statementBlock
  | ifStatement
  | elseClause
  | switchStatement
  | switchBody
  | switchCase
  | switchDefault
  | forStatement
  | forInStatement
  | whileStatement
  | doStatement
  | tryStatement
  | catchClause
  | finallyClause
  | withStatement
  | breakStatement
  | continueStatement
  | debuggerStatement
  | returnStatement
  | throwStatement
  | emptyStatement
  | labeledStatement
  | importStatement
  | importClause
  | namespaceImport
  | namedImports
  | importSpecifier
  | importAttribute
  | importRequireClause
  | importAlias
  | exportStatement
  | exportClause
  | exportSpecifier
  | namespaceExport
  | interfaceDeclaration
  | interfaceBody
  | extendsTypeClause
  | typeAliasDeclaration
  | enumDeclaration
  | enumBody
  | enumAssignment
  | ambientDeclaration
  | moduleDeclaration
  | internalModule
  -- classes
  | classHeritage
  | extendsClause
  | implementsClause
  | classBody
  | fieldDefinition
  | classStaticBlock
  | decorator
  -- types
  | ascription
  | typeArguments
  | typeParameters
  | typeParameter
  | constraint
  | defaultType
  | predefinedType
  | literalType
  | genericType
  | nestedTypeIdentifier
  | unionType
  | intersectionType
  | parenthesizedType
  | arrayType
  | tupleType
  | optionalType
  | restType
  | functionType
  | constructorType
  | conditionalType
  | inferType
  | readonlyType
  | typeQuery
  | indexTypeQuery
  | lookupType
  | templateLiteralType
  | templateType
  | thisType
  | existentialType
  | maybeType
  | typePredicate
  | assertsType
  | objectType
  | propertySignature
  | methodSignature
  | callSignature
  | constructSignature
  | indexSignature
  | mappedTypeClause
deriving DecidableEq, Repr

namespace Kind

/-- Punctuation and keywords are tokens without a name of their own. -/
def isNamed : Kind → Bool
  | mark => false
  | keyword => false
  | constKeyword => false
  | letKeyword => false
  | varKeyword => false
  | defaultKeyword => false
  | typeKeyword => false
  | _ => true

end Kind

/-- The part a node plays in the construct around it. -/
inductive Field where
  | aliasName
  | alternative
  | argument
  | arguments
  | body
  | condition
  | consequence
  | constructed
  | declaration
  | function
  | index
  | key
  | label
  | left
  | moduleName
  | name
  | object
  | operator
  | parameter
  | parameters
  | pattern
  | property
  | returnType
  | right
  | source
  | type
  | typeArguments
  | typeParameters
  | value
deriving DecidableEq, Repr

end VueScope.Script
