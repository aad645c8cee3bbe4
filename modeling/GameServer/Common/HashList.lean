import Mathlib.Algebra.Group.Nat.Defs
import Mathlib.Data.Int.Bitwise
import Mathlib.Data.List.Basic

namespace GameServer.Common

-- How an operation can fail to come back with an answer: a remainder by a zero
-- capacity, a negative index, a second lock of a mutex that is not recursive,
-- a read past the table of growth steps.
inductive Fault where
  | divideByZero | badIndex | deadlock | noStep
  deriving DecidableEq, Repr

structure Hasher (K : Type _) where
  doHash1 : K → Int
  doHash2 : K → Int

structure HashEntry (K V : Type _) where
  hash : Int
  key : K
  value : V
  deriving DecidableEq, Repr

-- A cell of _entryList: NULL, CORPSE_ENTRY or a live entry.
inductive Slot (K V : Type _) where
  | null
  | corpse
  | entry (e : HashEntry K V)
  deriving DecidableEq, Repr

-- _capacity is the length of _entryList in every state (0 for the NULL list).
structure HashList (K V : Type _) where
  entryList : List (Slot K V) := []
  count : Int := 0
  locked : Bool := false
  deriving DecidableEq, Repr

def wrap32 (n : Int) : Int := n.bmod (2^32)

def stepSize : List Nat :=
  [17,37,79,163,331,673,1361,2729,5471,10949,21911,43853,87719,175447,350899,
   701819,1403641,2807303,5614657,11229331,22458671,44917381,89834777,179669557,359339171,
   718678369,1437356741,2147483647]

-- hash % _capacity as an index: C++ divides truncating.
def homeSlot (hash : Int) (capacity : Nat) : Except Fault Nat :=
  if capacity = 0 then .error .divideByZero
  else if hash.tmod capacity < 0 then .error .badIndex
  else .ok (hash.tmod capacity).toNat

namespace HashList
variable {K V : Type _} [DecidableEq K]

def capacity (s : HashList K V) : Nat := s.entryList.length

def lock (useMutex : Bool) (s : HashList K V) : Except Fault (HashList K V) :=
  if useMutex then (if s.locked then .error .deadlock else .ok {s with locked := true}) else .ok s

def unlock (useMutex : Bool) (s : HashList K V) : HashList K V :=
  if useMutex then {s with locked := false} else s

-- The probe loop remove and take share, with the rounds it has left. A corpse
-- is met with `continue`, which skips the advance at the end of the round.
def probe (entries : List (Slot K V)) (hash : Int) (key : K) : Nat → Nat → Option (Nat × HashEntry K V)
  | 0,_ => none
  | rounds+1,pos =>
    match entries.getD pos .null with
    | .null => none
    | .corpse => probe entries hash key rounds pos
    | .entry e =>
      if e.hash = hash ∧ e.key = key then some (pos,e)
      else probe entries hash key rounds ((pos+1) % entries.length)

def before (pos capacity : Nat) : Nat := if pos = 0 then capacity-1 else pos-1

-- Backward from pos, corpses become NULL until the first slot that is none.
def sweep : Nat → List (Slot K V) → Nat → List (Slot K V)
  | 0,entries,_ => entries
  | rounds+1,entries,pos =>
    match entries.getD pos .null with
    | .corpse => sweep rounds (entries.set pos .null) (before pos entries.length)
    | _ => entries

-- Deleting the entry at pos, as remove and take both do it.
def bury (entries : List (Slot K V)) (pos : Nat) : List (Slot K V) :=
  match entries.getD ((pos+1) % entries.length) .null with
  | .null => sweep entries.length (entries.set pos .null) (before pos entries.length)
  | _ => entries.set pos .corpse

-- The probe loop of insertInternal: the first NULL or corpse takes the entry.
def freeSlot (entries : List (Slot K V)) (hash : Int) (key : K) : Nat → Nat → Option Nat
  | 0,_ => none
  | rounds+1,pos =>
    match entries.getD pos .null with
    | .null | .corpse => some pos
    | .entry e =>
      if e.hash = hash ∧ e.key = key then none
      else freeSlot entries hash key rounds ((pos+1) % entries.length)

def insertInternal (useMutex : Bool) (s : HashList K V) (ent : HashEntry K V) :
    Except Fault (Bool × HashList K V) := do
  let s ← s.lock useMutex
  let pos ← homeSlot ent.hash s.capacity
  match freeSlot s.entryList ent.hash ent.key s.capacity pos with
  | some free =>
    let filled := {s with entryList := s.entryList.set free (.entry ent),count := wrap32 (s.count+1)}
    return (true,filled.unlock useMutex)
  | none => return (false,s.unlock useMutex)

def full (s : HashList K V) : Bool := wrap32 (s.count + s.count >>> 2) ≥ s.capacity

-- The old live entries, in slot order, into the new list; every insertInternal
-- locks again.
def rehash (useMutex : Bool) : List (Slot K V) → HashList K V → Except Fault (HashList K V)
  | [],s => .ok s
  | .entry e :: rest,s => do
    let (_,s) ← s.insertInternal useMutex e
    rehash useMutex rest s
  | _ :: rest,s => rehash useMutex rest s

def checkupSpace (useMutex : Bool) (s : HashList K V) : Except Fault (HashList K V) := do
  if s.full then
    let s ← s.lock useMutex
    match stepSize.find? (fun step => s.capacity < step) with
    | none => .error .noStep
    | some capacity =>
      let grown ← rehash useMutex s.entryList {s with entryList := List.replicate capacity .null,count := 0}
      return grown.unlock useMutex
  else return s

def insert (hasher : Hasher K) (useMutex : Bool) (s : HashList K V) (key : K) (value : V) :
    Except Fault (Bool × HashList K V) := do
  let s ← s.checkupSpace useMutex
  s.insertInternal useMutex ⟨hasher.doHash2 key,key,value⟩

def remove (hasher : Hasher K) (useMutex : Bool) (s : HashList K V) (key : K) :
    Except Fault (Bool × HashList K V) := do
  let hash := hasher.doHash2 key
  let s ← s.lock useMutex
  let pos ← homeSlot hash s.capacity
  match probe s.entryList hash key s.capacity pos with
  | none => return (false,s.unlock useMutex)
  | some (pos,_) =>
    let buried := {s with entryList := bury s.entryList pos,count := wrap32 (s.count-1)}
    return (true,buried.unlock useMutex)

-- take decrements _count twice when it removes.
def take (hasher : Hasher K) (useMutex : Bool) (s : HashList K V) (key : K) (remove : Bool) :
    Except Fault (Option V × HashList K V) := do
  let hash := hasher.doHash2 key
  let s ← s.lock useMutex
  let pos ← homeSlot hash s.capacity
  match probe s.entryList hash key s.capacity pos with
  | none => return (none,s.unlock useMutex)
  | some (pos,e) =>
    if remove then
      let buried := {s with entryList := bury s.entryList pos,count := wrap32 (wrap32 (s.count-1)-1)}
      return (some e.value,buried.unlock useMutex)
    else return (some e.value,s.unlock useMutex)

-- _count keeps its value.
def reset (useMutex : Bool) (s : HashList K V) : Except Fault (HashList K V) := do
  let s ← s.lock useMutex
  return {s with entryList := s.entryList.map fun _ => .null}.unlock useMutex

end HashList

-- _capacity of the table is the number of its lists.
structure HashTable (K V : Type _) where
  hashLists : List (HashList K V)
  deriving DecidableEq, Repr

namespace HashTable
variable {K V : Type _} [DecidableEq K]

def empty (capacity : Nat := 257) : HashTable K V := ⟨List.replicate capacity {}⟩

-- Runs an operation on the list a key belongs to.
def onList (hasher : Hasher K) (t : HashTable K V) (key : K)
    (op : HashList K V → Except Fault (α × HashList K V)) : Except Fault (α × HashTable K V) := do
  let index ← homeSlot (hasher.doHash1 key) t.hashLists.length
  let (answer,l) ← op (t.hashLists.getD index {})
  return (answer,⟨t.hashLists.set index l⟩)

def insert (hasher : Hasher K) (useMutex : Bool) (t : HashTable K V) (key : K) (value : V) :
    Except Fault (Bool × HashTable K V) :=
  t.onList hasher key (·.insert hasher useMutex key value)

def remove (hasher : Hasher K) (useMutex : Bool) (t : HashTable K V) (key : K) :
    Except Fault (Bool × HashTable K V) :=
  t.onList hasher key (·.remove hasher useMutex key)

def take (hasher : Hasher K) (useMutex : Bool) (t : HashTable K V) (key : K) (remove : Bool := false) :
    Except Fault (Option V × HashTable K V) :=
  t.onList hasher key (·.take hasher useMutex key remove)

def reset (useMutex : Bool) (t : HashTable K V) : Except Fault (HashTable K V) := do
  return ⟨← t.hashLists.mapM (·.reset useMutex)⟩

end HashTable
end GameServer.Common
