import VueScope.Identifiers.OrderedMap
import VueScope.Text.Document

/-! The last good result of each document. While a document cannot be analysed, its last
good result is served. The cache works with any analyzer. -/
namespace VueScope.Analysis

open Text

variable {ε ρ : Type}

structure Entry (ρ : Type) where
  version : Int
  result : ρ
deriving DecidableEq, Repr

/-- The newest good result of each document. -/
structure Cache (ρ : Type) where
  entries : OrderedMap String (Entry ρ)
deriving DecidableEq, Repr

inductive Status (ε : Type) where
  | ok
  /-- The analysis failed, and an earlier result is served. -/
  | stale (error : ε)
  /-- The analysis failed, and there is no earlier result. -/
  | failed (error : ε)
deriving DecidableEq, Repr

namespace Status

def key : Status ε → String
  | ok => "ok"
  | stale _ => "stale"
  | failed _ => "failed"

def error? : Status ε → Option ε
  | ok => none
  | stale error => some error
  | failed error => some error

end Status

structure Answer (ε ρ : Type) where
  status : Status ε
  result : ρ
deriving DecidableEq, Repr

/-- How a document is analysed, and what stands in for a result that was never there. -/
structure Analyzer (ε ρ : Type) where
  run : Document → Except ε ρ
  nothing : ρ

inductive Operation where
  | get (document : Document)
  | remove (id : String)
  | clear
  | has (id : String)
deriving DecidableEq, Repr

inductive Reply (ε ρ : Type) where
  | analysis (answer : Answer ε ρ)
  | done
  | present (isPresent : Bool)
deriving DecidableEq, Repr

namespace Cache

def empty : Cache ρ := ⟨∅⟩

instance : EmptyCollection (Cache ρ) := ⟨empty⟩

variable (cache : Cache ρ) (analyzer : Analyzer ε ρ)

def entry? (id : String) : Option (Entry ρ) :=
  cache.entries.get? id

def contains (id : String) : Bool :=
  cache.entries.contains id

def size : Nat :=
  cache.entries.size

def hit? (document : Document) : Option ρ :=
  match cache.entry? document.uri with
  | some entry => if entry.version = document.version then some entry.result else none
  | none => none

/-- Keeps a result, unless a newer one is there. -/
def store (document : Document) (result : ρ) : Cache ρ :=
  match cache.entry? document.uri with
  | some entry =>
    if entry.version ≤ document.version then
      ⟨cache.entries.insert document.uri ⟨document.version, result⟩⟩
    else cache
  | none => ⟨cache.entries.insert document.uri ⟨document.version, result⟩⟩

/-- The analysis of a document: from the cache, anew, or the last good one. -/
def get (cache : Cache ρ) (document : Document) :
    Answer ε ρ × Cache ρ :=
  match cache.hit? document with
  | some result => (⟨.ok, result⟩, cache)
  | none =>
    match analyzer.run document with
    | .ok result => (⟨.ok, result⟩, cache.store document result)
    | .error error =>
      match cache.entry? document.uri with
      | some entry => (⟨.stale error, entry.result⟩, cache)
      | none => (⟨.failed error, analyzer.nothing⟩, cache)

def remove (id : String) : Cache ρ :=
  ⟨cache.entries.erase id⟩

def clear (_ : Cache ρ) : Cache ρ :=
  empty

def step (cache : Cache ρ) : Operation → Reply ε ρ × Cache ρ
  | .get document =>
    let (answer, after) := cache.get analyzer document
    (.analysis answer, after)
  | .remove id => (.done, cache.remove id)
  | .clear => (.done, cache.clear)
  | .has id => (.present (cache.contains id), cache)

def run (cache : Cache ρ) (operations : List Operation) : Cache ρ :=
  operations.foldl (fun cache operation => (cache.step analyzer operation).2) cache

def misses : Operation → Bool
  | .get document => (cache.hit? document).isNone
  | _ => false

end Cache

end VueScope.Analysis
