/-! Maps that remember the order in which their keys were first written. A later
write to a key keeps its place. -/
namespace VueScope

structure OrderedMap (κ α : Type) where
  entries : List (κ × α)
deriving DecidableEq, Repr

namespace OrderedMap

variable {κ α : Type} [DecidableEq κ]

def empty : OrderedMap κ α := ⟨[]⟩

instance : EmptyCollection (OrderedMap κ α) := ⟨empty⟩

instance : Inhabited (OrderedMap κ α) := ⟨empty⟩

variable (map : OrderedMap κ α)

def get? (key : κ) : Option α :=
  (map.entries.find? fun entry => entry.1 = key).map Prod.snd

def contains (key : κ) : Bool :=
  (map.get? key).isSome

def insertEntry (key : κ) (value : α) : List (κ × α) → List (κ × α)
  | [] => [(key, value)]
  | entry :: rest =>
    if entry.1 = key then (key, value) :: rest else entry :: insertEntry key value rest

def insert (key : κ) (value : α) : OrderedMap κ α :=
  ⟨insertEntry key value map.entries⟩

def insertIfNew (key : κ) (value : α) : OrderedMap κ α :=
  if map.contains key then map else map.insert key value

def erase (key : κ) : OrderedMap κ α :=
  ⟨map.entries.filter fun entry => entry.1 ≠ key⟩

def keys : List κ :=
  map.entries.map Prod.fst

def size : Nat :=
  map.entries.length

def union (first second : OrderedMap κ α) : OrderedMap κ α :=
  second.entries.foldl (fun map entry => map.insert entry.1 entry.2) first

def ofList (entries : List (κ × α)) : OrderedMap κ α :=
  entries.foldl (fun map entry => map.insert entry.1 entry.2) empty

end OrderedMap

end VueScope
