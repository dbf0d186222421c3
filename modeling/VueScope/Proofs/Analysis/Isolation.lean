import VueScope.Proofs.Analysis.Session

/-! Documents do not see one another in the cache. Whatever is done to other documents, the
replies about a document follow from the operations on it, and on all documents at once. -/
namespace VueScope.Analysis

open Text

variable {ε ρ : Type}

def Operation.concerns (id : String) : Operation → Bool
  | .get document => document.uri = id
  | .remove other => other = id
  | .clear => true
  | .has other => other = id

def historyOf (id : String) (history : List (Event ε ρ)) : List (Event ε ρ) :=
  history.filter fun event => event.operation.concerns id

namespace Cache

variable (analyzer : Analyzer ε ρ)

theorem get_of_entry (left right : Cache ρ) (document : Document)
    (same : left.entry? document.uri = right.entry? document.uri) :
    (left.get analyzer document).1 = (right.get analyzer document).1 ∧
      entry? (left.get analyzer document).2 document.uri =
        entry? (right.get analyzer document).2 document.uri := by
  have hits : left.hit? document = right.hit? document := by rw [hit?,hit?,same]
  unfold get
  rw [hits,same]
  cases right.hit? document with
  | some result => exact ⟨rfl,same⟩
  | none =>
    cases analyzer.run document with
    | ok result => exact ⟨rfl,by simp only [entry?_store,same]⟩
    | error error =>
      cases present : right.entry? document.uri with
      | none => exact ⟨rfl,same⟩
      | some entry => exact ⟨rfl,same⟩

theorem step_of_entry (left right : Cache ρ) (id : String)
    (operation : Operation) (own : operation.concerns id = true)
    (same : left.entry? id = right.entry? id) :
    (left.step analyzer operation).1 = (right.step analyzer operation).1 ∧
      entry? (left.step analyzer operation).2 id = entry? (right.step analyzer operation).2 id := by
  cases operation with
  | get document =>
    obtain rfl : document.uri = id := of_decide_eq_true own
    obtain ⟨answered,kept⟩ := get_of_entry analyzer left right document same
    exact ⟨congrArg Reply.analysis answered,kept⟩
  | remove other => exact ⟨rfl,by simp only [step,entry?_remove,same]⟩
  | clear => exact ⟨rfl,rfl⟩
  | has other =>
    obtain rfl : other = id := of_decide_eq_true own
    exact ⟨congrArg Reply.present (congrArg Option.isSome same),same⟩

theorem entry?_step_of_other (cache : Cache ρ) (id : String)
    (operation : Operation) (other : operation.concerns id = false) :
    entry? (cache.step analyzer operation).2 id = cache.entry? id := by
  cases operation with
  | get document =>
    have apart : id ≠ document.uri := fun same => of_decide_eq_false other same.symm
    simp only [step]
    rcases cache.get_cases analyzer document with
      ⟨_,_,_,got⟩ | ⟨_,⟨result,_,got⟩ | ⟨_,_,⟨_,_,got⟩ | ⟨_,got⟩⟩⟩
    · rw [got]
    · rw [got,entry?_store,if_neg fun both => apart both.1]
    · rw [got]
    · rw [got]
  | remove removed =>
    have apart : id ≠ removed := fun same => of_decide_eq_false other same.symm
    rw [step,entry?_remove,if_neg apart]
  | clear => contradiction
  | has asked => rfl

end Cache

namespace Session

/-- Two sessions that cannot be told apart through one document: it was answered the same
way so far, and it has the same entry. -/
structure Alike (id : String) (left right : Session ε ρ) : Prop where
  history : historyOf id left.history = historyOf id right.history
  entry : left.cache.entry? id = right.cache.entry? id

variable {id : String} {left right : Session ε ρ} {call : Call ε ρ}

theorem Alike.step (alike : Alike id left right) (own : call.operation.concerns id = true) :
    Alike id (left.step call) (right.step call) := by
  obtain ⟨replied,kept⟩ :=
    Cache.step_of_entry call.analyzer left.cache right.cache id call.operation own alike.entry
  refine ⟨?_,kept⟩
  have before := alike.history
  unfold historyOf at before ⊢
  simp only [Session.step,List.filter_append,before,replied]

theorem Alike.step_left (alike : Alike id left right) (other : call.operation.concerns id = false) :
    Alike id (left.step call) right := by
  refine ⟨?_,(Cache.entry?_step_of_other _ _ id _ other).trans alike.entry⟩
  have before := alike.history
  unfold historyOf at before ⊢
  simp [Session.step,other,before]

theorem Alike.run_filter (alike : Alike id left right) (calls : List (Call ε ρ)) :
    Alike id (left.run calls) (right.run (calls.filter fun call => call.operation.concerns id)) := by
  induction calls generalizing left right with
  | nil => exact alike
  | cons call rest ih =>
    cases own : call.operation.concerns id with
    | true =>
      rw [List.filter_cons,own]
      exact ih (alike.step own)
    | false =>
      rw [List.filter_cons,own]
      exact ih (alike.step_left own)

theorem run_alike_filter (calls : List (Call ε ρ)) (id : String) :
    Alike id (run .start calls)
      (run .start (calls.filter fun call => call.operation.concerns id)) :=
  Alike.run_filter ⟨rfl,rfl⟩ calls

end Session

/-- Documents do not interfere. Two runs that do the same to a document, and clear the cache
at the same points in between, give the same replies about that document and leave it with the
same entry, however the operations on other documents are interleaved. -/
theorem other_documents_do_not_interfere (analyzer : Analyzer ε ρ) (id : String)
    (first second : List Operation)
    (same : first.filter (Operation.concerns id) = second.filter (Operation.concerns id)) :
    let left := Session.run .start (first.map (Call.mk analyzer))
    let right := Session.run .start (second.map (Call.mk analyzer))
    historyOf id left.history = historyOf id right.history ∧
      left.cache.entry? id = right.cache.entry? id := by
  intro left right
  have projected (operations : List Operation) :
      (operations.map (Call.mk analyzer)).filter (fun call => call.operation.concerns id) =
        (operations.filter (Operation.concerns id)).map (Call.mk analyzer) := by
    rw [List.filter_map]
    rfl
  have before := Session.run_alike_filter (first.map (Call.mk analyzer)) id
  have after := Session.run_alike_filter (second.map (Call.mk analyzer)) id
  rw [projected] at before after
  rw [same] at before
  exact ⟨before.history.trans after.history.symm,before.entry.trans after.entry.symm⟩

/-- A document that is hit, goes stale, is cleared and then fails, with another document
requested and removed at different points in between. -/
theorem interleaved_runs_answer_alike :
    let analyzer : Analyzer String Nat :=
      ⟨fun document => if document.text = [] then .error "empty" else .ok document.text.length,0⟩
    let first : List Operation :=
      [.get ⟨"a",2,['x']⟩,.get ⟨"b",9,['y','z']⟩,.get ⟨"a",2,[]⟩,.get ⟨"a",3,[]⟩,.remove "b",
        .has "a",.clear,.get ⟨"a",4,[]⟩]
    let second : List Operation :=
      [.has "b",.get ⟨"b",1,[]⟩,.get ⟨"a",2,['x']⟩,.get ⟨"a",2,[]⟩,.get ⟨"a",3,[]⟩,.has "a",
        .get ⟨"b",9,['y','z']⟩,.clear,.get ⟨"b",9,['y']⟩,.get ⟨"a",4,[]⟩]
    first.filter (Operation.concerns "a") = second.filter (Operation.concerns "a") ∧
      historyOf "a" (Session.run .start (first.map (Call.mk analyzer))).history =
        historyOf "a" (Session.run .start (second.map (Call.mk analyzer))).history := by
  intro analyzer first second
  have same : first.filter (Operation.concerns "a") = second.filter (Operation.concerns "a") := by
    decide
  exact ⟨same,(other_documents_do_not_interfere analyzer "a" first second same).1⟩

end VueScope.Analysis
