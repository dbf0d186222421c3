import VueScope.Identifiers.OrderedMap

/-! The coarse kinds of binding that compiling a component script reports. -/
namespace VueScope

inductive BindingKind where
  | data
  | props
  | propsAliased
  | setupLet
  | setupConst
  | setupReactiveConst
  | setupMaybeRef
  | setupRef
  | options
  | literalConst
deriving DecidableEq, Repr

namespace BindingKind

def all : List BindingKind :=
  [data, props, propsAliased, setupLet, setupConst, setupReactiveConst, setupMaybeRef, setupRef,
    options, literalConst]

def key : BindingKind → String
  | data => "data"
  | props => "props"
  | propsAliased => "props-aliased"
  | setupLet => "setup-let"
  | setupConst => "setup-const"
  | setupReactiveConst => "setup-reactive-const"
  | setupMaybeRef => "setup-maybe-ref"
  | setupRef => "setup-ref"
  | options => "options"
  | literalConst => "literal-const"

def ofKey? (word : String) : Option BindingKind :=
  all.find? fun kind => kind.key = word

end BindingKind

/-- The binding kind of every name a component exposes to its template. -/
abbrev Bindings := OrderedMap String BindingKind

end VueScope
