import Mathlib.Data.List.DropRight
import VueScope.Analysis.Cache
import VueScope.Proofs.Identifiers.OrderedMap

/-! What a cache holds after any run of operations, told from the replies that it gave. -/
namespace VueScope.Analysis

open Text

variable {ε ρ : Type}

namespace Cache

/-- All that asking for a document can come to: a hit, a new result, an old result in place
of a failure, or nothing in place of a failure. -/
theorem get_cases (analyzer : Analyzer ε ρ) (cache : Cache ρ) (document : Document) :
    (∃ entry, cache.entry? document.uri = some entry ∧ entry.version = document.version ∧
      cache.get analyzer document = (⟨.ok,entry.result⟩,cache)) ∨
    ((∀ entry, cache.entry? document.uri = some entry → entry.version ≠ document.version) ∧
      ((∃ result, analyzer.run document = .ok result ∧
        cache.get analyzer document = (⟨.ok,result⟩,cache.store document result)) ∨
      ∃ error, analyzer.run document = .error error ∧
        ((∃ entry, cache.entry? document.uri = some entry ∧
          cache.get analyzer document = (⟨.stale error,entry.result⟩,cache)) ∨
        (cache.entry? document.uri = none ∧
          cache.get analyzer document = (⟨.failed error,analyzer.nothing⟩,cache))))) := by
  unfold get hit?
  cases present : cache.entry? document.uri with
  | none =>
    cases ran : analyzer.run document with
    | ok result => simp
    | error error => simp
  | some entry =>
    by_cases same : entry.version = document.version
    · simp [same]
    · cases ran : analyzer.run document with
      | ok result => simp [same]
      | error error => simp [same]

theorem entry?_store (cache : Cache ρ) (document : Document) (result : ρ) (id : String) :
    entry? (cache.store document result) id =
      if id = document.uri ∧
          ∀ entry, cache.entry? id = some entry → entry.version ≤ document.version then
        some ⟨document.version,result⟩
      else cache.entry? id := by
  by_cases same : id = document.uri
  · subst same
    unfold store
    cases present : cache.entry? document.uri with
    | none => simp [ entry?,OrderedMap.get?_insert]
    | some entry =>
      by_cases newer : entry.version ≤ document.version
      · simp [newer, entry?,OrderedMap.get?_insert]
      · simp [newer,present]
  · have other : ∀ entries : OrderedMap String (Entry ρ), entries = cache.entries →
        (entries.insert document.uri ⟨document.version,result⟩).get? id = cache.entry? id := by
      rintro entries rfl
      rw [OrderedMap.get?_insert,if_neg same]
      rfl
    rw [if_neg (fun both => same both.1)]
    unfold store
    split
    · split
      · exact other cache.entries rfl
      · rfl
    · exact other cache.entries rfl

theorem entry?_remove (cache : Cache ρ) (removed id : String) :
    entry? (cache.remove removed) id = if id = removed then none else cache.entry? id :=
  OrderedMap.get?_erase cache.entries removed id

end Cache

/-- One request to a cache, with the analyzer as it is at that moment: an analyzer whose
outcome changes from request to request is another one each time. -/
structure Call (ε ρ : Type) where
  analyzer : Analyzer ε ρ
  operation : Operation

structure Event (ε ρ : Type) where
  operation : Operation
  reply : Reply ε ρ

/-- A cache with all that has happened to it, oldest first. -/
structure Session (ε ρ : Type) where
  history : List (Event ε ρ)
  cache : Cache ρ

variable (session : Session ε ρ) (calls : List (Call ε ρ)) (id : String)

namespace Session

def start : Session ε ρ := ⟨[],∅⟩

def step (call : Call ε ρ) : Session ε ρ :=
  let (reply,cache) := session.cache.step call.analyzer call.operation
  ⟨session.history ++ [⟨call.operation,reply⟩],cache⟩

def run : Session ε ρ :=
  calls.foldl step session

end Session

def Operation.forgets : Operation → Bool
  | .get _ => false
  | .remove other => other = id
  | .clear => true
  | .has _ => false

def Event.good? (event : Event ε ρ) : Option (Entry ρ) :=
  match event.operation, event.reply with
  | .get document, .analysis ⟨.ok,result⟩ =>
    if document.uri = id then some ⟨document.version,result⟩ else none
  | _, _ => none

theorem Event.good?_of_other (document : Document) (reply : Reply ε ρ)
    (other : document.uri ≠ id) : Event.good? id ⟨.get document,reply⟩ = none := by
  unfold Event.good?
  split
  next asked _ =>
    cases asked
    exact if_neg other
  · rfl

/-- What is picked from the items after the last one that drops all before it. -/
def since {α β : Type} (drops : α → Bool) (pick? : α → Option β) (items : List α) : List β :=
  (items.rtakeWhile fun item => !drops item).filterMap pick?

theorem since_concat {α β : Type} (drops : α → Bool) (pick? : α → Option β) (items : List α)
    (item : α) :
    since drops pick? (items ++ [item]) =
      if drops item then [] else since drops pick? items ++ (pick? item).toList := by
  unfold since
  rw [List.rtakeWhile_concat]
  cases drops item with
  | true => rfl
  | false =>
    cases picked : pick? item with
    | none => simp [picked]
    | some value => simp [picked]

def goodSince (history : List (Event ε ρ)) : List (Entry ρ) :=
  since (fun event => event.operation.forgets id) (Event.good? id) history

theorem goodSince_concat (history : List (Event ε ρ)) (event : Event ε ρ) :
    goodSince id (history ++ [event]) =
      if event.operation.forgets id then [] else goodSince id history ++ (event.good? id).toList :=
  since_concat _ _ history event

/-- What an entry should be: the first good answer of the greatest version. -/
def IsNewest (good : List (Entry ρ)) : Option (Entry ρ) → Prop
  | none => good = []
  | some entry =>
    (∀ answer ∈ good, answer.version ≤ entry.version) ∧
      good.find? (fun answer => answer.version = entry.version) = some entry

namespace IsNewest

variable {good : List (Entry ρ)} {answer : Entry ρ}

theorem keep {entry : Entry ρ} (newest : IsNewest good (some entry))
    (older : answer.version ≤ entry.version) : IsNewest (good ++ [answer]) (some entry) := by
  refine ⟨?_,?_⟩
  · intro other member
    rcases List.mem_append.mp member with before | last
    · exact newest.1 other before
    · rw [List.mem_singleton.mp last]
      exact older
  · rw [List.find?_append,newest.2,Option.some_or]

theorem replace {entry : Option (Entry ρ)} (newest : IsNewest good entry)
    (newer : ∀ old, entry = some old → old.version < answer.version) :
    IsNewest (good ++ [answer]) (some answer) := by
  have below : ∀ other ∈ good, other.version < answer.version := by
    intro other member
    cases entry with
    | none =>
      rw [newest] at member
      contradiction
    | some old => exact Int.lt_of_le_of_lt (newest.1 other member) (newer old rfl)
  refine ⟨?_,?_⟩
  · intro other member
    rcases List.mem_append.mp member with before | last
    · exact Int.le_of_lt (below other before)
    · exact Int.le_of_eq (congrArg Entry.version (List.mem_singleton.mp last))
  · have none : good.find? (fun other => other.version = answer.version) = none := by
      rw [List.find?_eq_none]
      intro other member
      have less := below other member
      simp
      omega
    rw [List.find?_append,none]
    simp

end IsNewest

theorem newest_get (analyzer : Analyzer ε ρ) {cache : Cache ρ} (document : Document) {id : String}
    {good : List (Entry ρ)} (newest : IsNewest good <| cache.entry? id) :
    let (answer,after) := cache.get analyzer document
    IsNewest (good ++ (Event.good? id ⟨.get document,.analysis answer⟩).toList) <| after.entry? id := by
  rcases cache.get_cases analyzer document with
    ⟨entry,present,same,got⟩ | ⟨missed,⟨result,ran,got⟩ | ⟨error,ran,⟨entry,present,got⟩ | ⟨absent,got⟩⟩⟩
  · rw [got]
    by_cases own : document.uri = id
    · subst own
      simp only [Event.good?,if_true,Option.toList_some]
      rw [present] at newest ⊢
      -- the entry stays the first answer of its version
      exact newest.keep (Int.le_of_eq same.symm)
    · simpa [Event.good?,own] using newest
  · rw [got]
    by_cases own : document.uri = id
    · subst own
      simp only [Event.good?,if_true,Option.toList_some,Cache.entry?_store,true_and]
      split
      next noNewer =>
        -- an entry of this very version would have been a hit
        apply newest.replace
        intro old present
        exact Int.lt_iff_le_and_ne.mpr ⟨noNewer old present,missed old present⟩
      next someNewer =>
        simp only [not_forall,Int.not_le] at someNewer
        obtain ⟨old,present,newer⟩ := someNewer
        -- answered, but not kept
        rw [present] at newest ⊢
        exact newest.keep (Int.le_of_lt newer)
    · have other : ¬(id = document.uri ∧ ∀ entry, cache.entry? id = some entry →
          entry.version ≤ document.version) := fun both => own both.1.symm
      simpa [Event.good?,own,Cache.entry?_store,other] using newest
  · rw [got]
    simpa [Event.good?] using newest
  · rw [got]
    simpa [Event.good?] using newest

namespace Session

def Sound : Prop :=
  ∀ id, IsNewest (goodSince id session.history) <| session.cache.entry? id

theorem sound_start : (start : Session ε ρ).Sound :=
  fun _ => rfl

theorem sound_step (call : Call ε ρ) (sound : session.Sound) :
    (session.step call).Sound := by
  obtain ⟨analyzer,operation⟩ := call
  intro id
  have newest := sound id
  cases operation with
  | get document =>
    simp only [step,Cache.step,goodSince_concat,Operation.forgets]
    exact newest_get analyzer document newest
  | remove other =>
    simp only [step,Cache.step,goodSince_concat,Operation.forgets,Cache.entry?_remove]
    by_cases own : other = id
    · simp [own,IsNewest]
    · simpa [own,Ne.symm own,Event.good?] using newest
  | clear =>
    rw [step,goodSince_concat]
    trivial
  | has other => simpa [step,Cache.step,goodSince_concat,Operation.forgets,Event.good?] using newest

theorem sound_run (sound : session.Sound) :
    (session.run calls).Sound := by
  induction calls generalizing session with
  | nil => exact sound
  | cons call rest ih => exact ih (session.step call) (session.sound_step call sound)

theorem version_le_step (call : Call ε ρ) (id : String) (entry : Entry ρ)
    (kept : call.operation.forgets id = false) (present : session.cache.entry? id = some entry) :
    ∃ later, Cache.entry? (session.step call).cache id = some later ∧ entry.version ≤ later.version := by
  obtain ⟨analyzer,operation⟩ := call
  cases operation with
  | get document =>
    simp only [step,Cache.step]
    rcases session.cache.get_cases analyzer document with
      ⟨_,_,_,got⟩ | ⟨_,⟨result,_,got⟩ | ⟨_,_,⟨_,_,got⟩ | ⟨_,got⟩⟩⟩
    · exact ⟨entry,by rw [got]; exact present,Int.le_refl _⟩
    · rw [got,Cache.entry?_store]
      split
      next stored => exact ⟨_,rfl,stored.2 entry present⟩
      · exact ⟨entry,present,Int.le_refl _⟩
    · exact ⟨entry,by rw [got]; exact present,Int.le_refl _⟩
    · exact ⟨entry,by rw [got]; exact present,Int.le_refl _⟩
  | remove other =>
    have apart : id ≠ other := by
      rintro rfl
      simp [Operation.forgets] at kept
    exact ⟨entry,by simp [step,Cache.step,Cache.entry?_remove,apart,present],Int.le_refl _⟩
  | clear => contradiction
  | has other => exact ⟨entry,present,Int.le_refl _⟩

theorem version_le_run
    (entry : Entry ρ) (kept : ∀ call ∈ calls, call.operation.forgets id = false)
    (present : session.cache.entry? id = some entry) :
    ∃ later, Cache.entry? (session.run calls).cache id = some later ∧ entry.version ≤ later.version := by
  induction calls generalizing session entry with
  | nil => exact ⟨entry,present,Int.le_refl _⟩
  | cons call rest ih =>
    obtain ⟨next,stepped,first⟩ :=
      session.version_le_step call id entry (kept call List.mem_cons_self) present
    obtain ⟨last,ran,second⟩ := ih (session.step call) next
      (fun other member => kept other (List.mem_cons_of_mem _ member)) stepped
    exact ⟨last,ran,Int.le_trans first second⟩

theorem cache_run (analyzer : Analyzer ε ρ) (session : Session ε ρ) (operations : List Operation) :
    (session.run (operations.map fun operation => ⟨analyzer,operation⟩)).cache =
      session.cache.run analyzer operations := by
  induction operations generalizing session with
  | nil => rfl
  | cons operation rest ih => exact ih (session.step ⟨analyzer,operation⟩)

end Session

theorem cache_get_of_error {analyzer : Analyzer ε ρ} (cache : Cache ρ) {document : Document}
    {error : ε} (failed : analyzer.run document = .error error) :
    (cache.get analyzer document).2 = cache := by
  rcases cache.get_cases analyzer document with
    ⟨_,_,_,got⟩ | ⟨_,⟨result,ran,_⟩ | ⟨_,_,⟨_,_,got⟩ | ⟨_,got⟩⟩⟩
  · rw [got]
  · rw [ran] at failed
    contradiction
  · rw [got]
  · rw [got]

/-- What the cache holds after any run. A document has an entry exactly if it was answered
well since it was last dropped; the entry is the first good answer of the greatest version. A
failing analysis changes nothing, and the version of an entry only grows until it is dropped. -/
theorem entries_are_newest_answers (calls : List (Call ε ρ)) :
    let session := Session.run .start calls
    (∀ id,
      ((∃ entry, session.cache.entry? id = some entry) ↔
        ∃ answer, answer ∈ goodSince id session.history) ∧
      ∀ entry, session.cache.entry? id = some entry →
        (∀ answer ∈ goodSince id session.history, answer.version ≤ entry.version) ∧
        (goodSince id session.history).find? (fun answer => answer.version = entry.version) =
          some entry) ∧
    (∀ (analyzer : Analyzer ε ρ) (document : Document) (error : ε),
      analyzer.run document = .error error →
        (session.cache.get analyzer document).2 = session.cache) ∧
    (∀ (more : List (Call ε ρ)) (id : String) (entry : Entry ρ),
      (∀ call ∈ more, call.operation.forgets id = false) →
      session.cache.entry? id = some entry →
        ∃ later, Cache.entry? (session.run more).cache id = some later ∧
          entry.version ≤ later.version) ∧
    ∀ (analyzer : Analyzer ε ρ) (operations : List Operation),
      calls = operations.map (fun operation => ⟨analyzer,operation⟩) →
        session.cache = Cache.run analyzer ∅ operations := by
  intro session
  have sound : session.Sound := Session.sound_run .start calls Session.sound_start
  refine ⟨?_,?_,?_,?_⟩
  · intro id
    have newest := sound id
    cases present : session.cache.entry? id with
    | none =>
      rw [present] at newest
      simp [show goodSince id session.history = [] from newest]
    | some entry =>
      rw [present] at newest
      refine ⟨⟨fun _ => ⟨entry,List.mem_of_find?_eq_some newest.2⟩,fun _ => ⟨entry,rfl⟩⟩,?_⟩
      rintro other ⟨⟩
      exact newest
  · intro analyzer document error failed
    exact cache_get_of_error session.cache failed
  · intro more id entry kept present
    exact session.version_le_run more id entry kept present
  · rintro analyzer operations rfl
    exact Session.cache_run analyzer .start operations

end VueScope.Analysis
