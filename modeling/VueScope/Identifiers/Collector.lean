import VueScope.Identifiers.Category
import VueScope.Identifiers.OrderedMap

/-! The classified names of one script, and the collector that files each name
under at most one category: the first claim wins. -/
namespace VueScope

/-- Names of one category with the text that declares each. -/
abbrev Definitions := OrderedMap String String

structure Identifiers where
  get : Category → Definitions

variable (collector : Collector) (name : String) (identifiers : Identifiers) (category : Category)

namespace Identifiers

def empty : Identifiers := ⟨fun _ => ∅⟩

instance : EmptyCollection Identifiers := ⟨empty⟩

instance : Inhabited Identifiers := ⟨empty⟩

/-- The first category, in priority order, that holds the name. -/
def categoryOf? (name : String) : Option Category :=
  Category.all.find? fun category => (identifiers.get category).contains name

def contains (name : String) : Bool :=
  (identifiers.categoryOf? name).isSome

def set (names : Definitions) : Identifiers :=
  ⟨fun other => if other = category then names else identifiers.get other⟩

end Identifiers

/-- Classified names together with the registry of every claimed name. -/
structure Collector where
  filed : Identifiers
  claimed : OrderedMap String Category

namespace Collector

def empty : Collector := ⟨∅, ∅⟩

instance : EmptyCollection Collector := ⟨empty⟩

def contains : Bool :=
  collector.claimed.contains name

/-- Files an unclaimed name; `false` when the name was claimed before. -/
def claim (definition : String) :
    Bool × Collector :=
  if collector.contains name then
    (false, collector)
  else
    (true,
      { filed := collector.filed.set category ((collector.filed.get category).insert name definition)
        claimed := collector.claimed.insert name category })

/-- Files a name elsewhere with its definition, when it stands under `source`. -/
def move (source target : Category) : Bool × Collector :=
  if collector.claimed.get? name = some source then
    match (collector.filed.get source).get? name with
    | none => (false, collector)
    | some definition =>
      let without := collector.filed.set source ((collector.filed.get source).erase name)
      (true,
        { filed := without.set target ((without.get target).insert name definition)
          claimed := collector.claimed.insert name target })
  else
    (false, collector)

def release : Collector :=
  match collector.claimed.get? name with
  | none => collector
  | some category =>
    { filed := collector.filed.set category ((collector.filed.get category).erase name)
      claimed := collector.claimed.erase name }

def add (definition : String) :
    Collector :=
  (collector.claim name category definition).2

def build : Identifiers :=
  collector.filed

end Collector

end VueScope
