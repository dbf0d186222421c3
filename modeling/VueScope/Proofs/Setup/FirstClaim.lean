import VueScope.Proofs.Identifiers.CategoryOf
import VueScope.Proofs.Setup.Filing

/-! The category of a name is that of the first claim to it: what a statement says plainly, the events,
the kind of its binding, and the props, in this order. -/
namespace VueScope

namespace Setup

open Script

/-- What the statements of a script say by themselves. -/
def explicit (root : Node) (imports : StoreImports) : Progress :=
  root.statements.foldl (Progress.statement imports) ⟨∅,[]⟩

/-- The category that the kind of binding gives to a name that is still open. -/
def Progress.bound? (progress : Progress) (bindings : Bindings) (name : String) : Option Category :=
  (progress.pending.find? fun pending => pending.name = name).map fun pending =>
    categoryOfBinding (bindings.get? pending.name) pending.definition

def isProp (bindings : Bindings) (name : String) : Bool :=
  bindings.entries.any fun entry =>
    entry.1 = name && (entry.2 = .props || entry.2 = .propsAliased)

variable (root : Node) (bindings : Bindings) (imports : StoreImports) (name : String)

theorem isProp_iff (distinct : bindings.keys.Nodup) :
    isProp bindings name = true ↔
      bindings.get? name = some .props ∨ bindings.get? name = some .propsAliased := by
  rw [isProp,List.any_eq_true]
  constructor
  · intro ⟨entry,member,test⟩
    simp only [Bool.and_eq_true,Bool.or_eq_true,decide_eq_true_eq] at test
    have held := (OrderedMap.mem_entries_iff bindings entry.1 entry.2 distinct).mp member
    rw [← test.1,held]
    simpa using test.2
  · intro held
    rcases held with held | held
    all_goals exact ⟨_,OrderedMap.mem_entries_of_get? _ _ _ held,by simp⟩

theorem anyBareCall_eq (callee : String) (parent : Kind) (nodes : List Node) :
    anyBareCall callee parent nodes = nodes.any (hasBareCall callee parent) := by
  induction nodes with
  | nil => rfl
  | cons node rest ih => rw [anyBareCall,List.any_cons,ih]

theorem categoryOf?_fileProps (collector : Collector) (name : String) :
    (fileProps root bindings collector).categoryOf? name =
      (collector.categoryOf? name).or (if isProp bindings name then some .props else none) := by
  unfold fileProps isProp
  generalize bindings.entries = entries
  induction entries generalizing collector with
  | nil => simp
  | cons entry rest ih =>
    obtain ⟨own,kind⟩ := entry
    simp only [List.foldl_cons,List.any_cons]
    rw [ih]
    split
    next prop =>
      rw [Collector.categoryOf?_add,Option.or_assoc]
      by_cases same : own = name
      · simp only [same,prop,decide_true,Bool.true_and,Bool.true_or,if_true,Option.some_or]
      · simp only [same,decide_false,Bool.false_and,Bool.false_or,if_false,Option.none_or]
    next other => simp only [other,Bool.and_false,Bool.false_or]

theorem categoryOf?_filedNames :
    (filedNames root bindings imports).categoryOf? name =
      (((explicit root imports).collector.categoryOf? name).or
        (if anyBareCall Macro.emits root.kind root.children && implicitEmit = name then some .emits
          else none)).or ((explicit root imports).bound? bindings name) := by
  unfold filedNames
  refine (Collector.categoryOf?_foldl_add Pending.name
    (fun pending => categoryOfBinding (bindings.get? pending.name) pending.definition)
    Pending.definition _ _ name).trans ?_
  congr 1
  split
  next bare =>
    rw [Collector.categoryOf?_add]
    simp [bare,explicit]
  next bare => simp [bare,explicit]

theorem categoryOf?_classify :
    (classify root bindings imports).categoryOf? name =
      ((((explicit root imports).collector.categoryOf? name).or
        (if anyBareCall Macro.emits root.kind root.children && implicitEmit = name then some .emits
          else none)).or ((explicit root imports).bound? bindings name)).or
        (if isProp bindings name then some .props else none) := by
  have reached := reached_fileProps root bindings _ (reached_filedNames root bindings imports)
  rw [classify_eq,reached.categoryOf?_build,categoryOf?_fileProps,categoryOf?_filedNames]

theorem contains_get_classify (category : Category) :
    ((classify root bindings imports).get category).contains name = true ↔
      (classify root bindings imports).categoryOf? name = some category := by
  have reached := reached_fileProps root bindings _ (reached_filedNames root bindings imports)
  exact reached.contains_get_build name category

end Setup

end VueScope
