import VueScope.Identifiers.Category
import VueScope.Identifiers.OrderedMap

/-! Icons and colours of the categories, with overrides by category key. Keys
that are not among the defaults are left out. -/
namespace VueScope

abbrev Presentation := OrderedMap String String

namespace Presentation

def defaultIcons : Presentation :=
  ⟨Category.all.map fun category => (category.key, category.icon)⟩

def defaultColors : Presentation :=
  ⟨Category.all.map fun category => (category.key, category.color)⟩

/-- Replaces the defaults whose key is overridden by a text; an override that is
no text is skipped. -/
def override (defaults : Presentation) (overrides : List (String × Option String)) : Presentation :=
  overrides.foldl
    (fun merged (key, value) =>
      match value with
      | some text => if merged.contains key then merged.insert key text else merged
      | none => merged)
    defaults

end Presentation

end VueScope
