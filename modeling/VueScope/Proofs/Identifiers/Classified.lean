import VueScope.Options.Classify
import VueScope.Proofs.Identifiers.Collector
import VueScope.Setup.Classify

/-! Both ways of classifying the names of a script file them with the operations of the
collector only, so no name of a script is under two categories. -/
namespace VueScope

/-- No name stands under two categories. -/
def Identifiers.Exclusive (identifiers : Identifiers) : Prop :=
  ∀ name first second, (identifiers.get first).contains name = true →
    (identifiers.get second).contains name = true → first = second

namespace Collector

def Reached (collector : Collector) : Prop :=
  ∃ operations, (Operation.run step ∅ operations).2 = collector

theorem Operation.run_concat {σ : Type} (step : σ → Operation → Option Bool × σ) (state : σ)
    (operations : List Operation) (last : Operation) :
    (run step state (operations ++ [last])).2 = (step (run step state operations).2 last).2 := by
  induction operations generalizing state with
  | nil => rfl
  | cons operation rest ih => exact ih (step state operation).2

namespace Reached

variable {collector : Collector}

theorem empty : Reached ∅ :=
  ⟨[],rfl⟩

section

variable (reached : Reached collector)
include reached

theorem step (operation : Operation) :
    Reached (collector.step operation).2 := by
  obtain ⟨operations,rfl⟩ := reached
  exact ⟨operations ++ [operation],Operation.run_concat _ _ operations operation⟩

theorem add (name : String) (category : Category)
    (definition : String) : Reached (collector.add name category definition) :=
  reached.step (.claim name category definition)

theorem move (name : String) (source target : Category) :
    Reached (collector.move name source target).2 :=
  reached.step (.move name source target)

theorem release (name : String) : Reached (collector.release name) :=
  reached.step (.release name)

theorem foldl {α : Type} (change : Collector → α → Collector)
    (kept : ∀ collector item, Reached collector → Reached (change collector item)) (items : List α) :
    Reached (items.foldl change collector) := by
  induction items generalizing collector with
  | nil => exact reached
  | cons item rest ih => exact ih (kept collector item reached)

theorem exclusive : collector.build.Exclusive := by
  obtain ⟨operations,rfl⟩ := reached
  have files := (Files.empty.run operations).2
  intro name first second here there
  have filed := (files.contains_build_iff name first).mp here
  rw [(files.contains_build_iff name second).mp there] at filed
  exact (Option.some.inj filed).symm

end

end Reached

end Collector

variable (imports : Script.StoreImports) (component : Script.Node)

namespace Setup

open Collector

theorem reached_declarator (isConst : Bool) (definition : String)
    (progress : Progress) (declarator : Script.Node) (reached : Reached progress.collector) :
    Reached (progress.declarator imports isConst definition declarator).collector := by
  unfold Progress.declarator
  split
  · exact reached.foldl _ (fun _ name kept => kept.add name _ _) _
  · exact reached
  · exact reached

theorem reached_statement (progress : Progress)
    (statement : Script.Node) (reached : Reached progress.collector) :
    Reached (progress.statement imports statement).collector := by
  unfold Progress.statement
  dsimp only
  split
  · split
    · exact reached.add _ _ _
    · exact reached
  · split
    · generalize statement.declarators = declarators
      induction declarators generalizing progress with
      | nil => exact reached
      | cons declarator rest ih => exact ih _ (reached_declarator _ _ _ progress declarator reached)
    · exact reached

theorem reached_statements (progress : Progress)
    (statements : List Script.Node) (reached : Reached progress.collector) :
    Reached (statements.foldl (Progress.statement imports) progress).collector := by
  induction statements generalizing progress with
  | nil => exact reached
  | cons statement rest ih => exact ih _ (reached_statement imports progress statement reached)

theorem reached_fileProps (root : Script.Node) (bindings : Bindings) (collector : Collector)
    (reached : Reached collector) : Reached (fileProps root bindings collector) := by
  apply reached.foldl
  rintro filed ⟨name,kind⟩ kept
  dsimp only
  split
  · exact kept.add _ _ _
  · exact kept

theorem exclusive_classify (root : Script.Node) (bindings : Bindings) (imports : Script.StoreImports) :
    (classify root bindings imports).Exclusive := by
  have explicit := reached_statements imports ⟨∅,[]⟩ root.statements Reached.empty
  apply Reached.exclusive
  apply reached_fileProps
  apply Reached.foldl
  · split
    · exact explicit.add _ _ _
    · exact explicit
  · exact fun _ pending kept => kept.add _ _ _

end Setup

namespace Options

open Collector

theorem reached_placeholders : Reached (placeholders component) := by
  apply Reached.empty.foldl
  rintro filed ⟨name,kind⟩ kept
  dsimp only
  split
  · exact kept.add _ _ _
  · exact kept

theorem reached_refile (functions : OrderedMap String String)
    (setup : Option (Script.Node × Script.Node)) (collector : Collector) (name : String)
    (reached : Reached collector) : Reached (refile functions setup collector name) := by
  unfold refile
  dsimp only
  split
  · exact (reached.release name).add _ _ _
  · exact reached.release name

theorem reached_fileAs (category : Category) (definition : String) (collector : Collector)
    (name : String) (reached : Reached collector) :
    Reached (fileAs category definition collector name) := by
  unfold fileAs
  dsimp only
  split
  · exact reached.move _ _ _
  · exact reached.add _ _ _

theorem reached_refineMember (target : Category)
    (collector : Collector) (member : Script.Node) (reached : Reached collector) :
    Reached (refineMember imports target collector member) := by
  unfold refineMember
  dsimp only
  split
  · exact reached.move _ _ _
  · split
    · exact reached
    · exact reached.foldl _ (reached_fileAs _ _) _

theorem reached_refineSection (key : String)
    (target : Category) (collector : Collector) (reached : Reached collector) :
    Reached (refineSection imports component key target collector) := by
  unfold refineSection
  split
  · exact reached
  · split
    · exact reached.foldl _ (reached_refineMember imports target) _
    · exact reached

theorem exclusive_classify (imports : Script.StoreImports)
    (functions : OrderedMap String String) :
    (classify component imports functions).Exclusive := by
  have refiled := (reached_placeholders component).foldl
    (refile functions (setupBody? component)) (reached_refile _ _) (setupNames component)
  have computed := reached_refineSection imports component "computed" .computed _ refiled
  exact (reached_refineSection imports component "methods" .methods _ computed).exclusive

theorem exclusive_analyze (content : List Char) (lang : Option String)
    (imports : Option Script.StoreImports) (identifiers : Identifiers)
    (analyzed : analyze content lang imports = .ok identifiers) : identifiers.Exclusive := by
  unfold analyze at analyzed
  split at analyzed
  · contradiction
  · split at analyzed
    · cases analyzed
      exact Reached.empty.exclusive
    · cases analyzed
      exact exclusive_classify _ _ _

end Options

/-- Categories are exclusive. Whatever the operations, a collector reports what one finite map
from names to filings reports, and holds what that map holds: a name is built into the map of
a category exactly if it is filed there, with its definition. Setup scripts and options
objects are classified by such operations, so none of their names is under two categories. -/
theorem collector_refines_one_map [Recovery] (operations : List Collector.Operation) :
    let collector := (Collector.Operation.run Collector.step ∅ operations).2
    let register := (Collector.Operation.run Register.step ∅ operations).2
    (Collector.Operation.run Collector.step ∅ operations).1 =
      (Collector.Operation.run Register.step ∅ operations).1 ∧
    (∀ name, collector.contains name = true ↔ name ∈ register) ∧
    (∀ name category definition,
      (name,definition) ∈ (collector.build.get category).entries ↔
        register.lookup name = some ⟨category,definition⟩) ∧
    (∀ name, collector.build.categoryOf? name = (register.lookup name).map Filing.category) ∧
    (∀ name, collector.build.contains name = true ↔ name ∈ register) ∧
    (∀ content lang bindings imports,
      (Setup.analyze content lang bindings imports).Exclusive) ∧
    ∀ content lang imports identifiers,
      Options.analyze content lang imports = .ok identifiers → identifiers.Exclusive := by
  intro collector register
  obtain ⟨reports,files⟩ := Collector.Files.empty.run operations
  refine ⟨reports,files.contains_iff,files.mem_build,files.categoryOf?_build,?_,?_,
    Options.exclusive_analyze⟩
  · intro name
    rw [Identifiers.contains,files.categoryOf?_build,Option.isSome_map]
    exact Finmap.lookup_isSome
  · intro content lang bindings imports
    exact Setup.exclusive_classify _ _ _

end VueScope
