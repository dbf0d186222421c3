/-! The semantic origins a script name can have, in display priority order, and
how each is presented. -/
namespace VueScope

inductive Category where
  | emits
  | passthrough
  | props
  | pinia
  | vuex
  | store
  | computed
  | ref
  | reactive
  | methods
  | localState
deriving DecidableEq, Repr

namespace Category

/-- Every category, highest display priority first. -/
def all : List Category :=
  [emits, passthrough, props, pinia, vuex, store, computed, ref, reactive, methods, localState]

def key : Category → String
  | emits => "emits"
  | passthrough => "passthrough"
  | props => "props"
  | pinia => "pinia"
  | vuex => "vuex"
  | store => "store"
  | computed => "computed"
  | ref => "ref"
  | reactive => "reactive"
  | methods => "methods"
  | localState => "localState"

def ofKey? (word : String) : Option Category :=
  all.find? fun category => category.key = word

def label : Category → String
  | emits => "Emit"
  | passthrough => "Passthrough"
  | props => "Prop"
  | pinia => "Pinia State"
  | vuex => "Vuex State"
  | store => "Store State"
  | computed => "Computed Property"
  | ref => "Ref"
  | reactive => "Reactive"
  | methods => "Method"
  | localState => "Local Variable"

def icon : Category → String
  | emits => "📤"
  | passthrough => "📥"
  | props => "℗"
  | pinia => "🍍"
  | vuex => "📦"
  | store => "📦"
  | computed => "⚡"
  | ref => "🔹"
  | reactive => "🔷"
  | methods => "ƒ"
  | localState => "•"

def color : Category → String
  | emits => "gitDecoration.deletedResourceForeground"
  | passthrough => "gitDecoration.modifiedResourceForeground"
  | props => "gitDecoration.modifiedResourceForeground"
  | pinia => "gitDecoration.conflictingResourceForeground"
  | vuex => "gitDecoration.conflictingResourceForeground"
  | store => "gitDecoration.conflictingResourceForeground"
  | computed => "gitDecoration.renamedResourceForeground"
  | ref => "gitDecoration.renamedResourceForeground"
  | reactive => "gitDecoration.renamedResourceForeground"
  | methods => "gitDecoration.untrackedResourceForeground"
  | localState => "editorHint.foreground"

end Category

end VueScope
