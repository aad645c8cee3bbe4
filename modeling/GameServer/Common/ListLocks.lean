import GameServer.Common.Indexing

namespace GameServer.Common.ListLocks
open HashList ProbeChain HashMap ListRuns Indexing
open FiniteMap (Op Answer)
variable {K V : Type _}

inductive MutexType where
  | normal
  | recursive

-- MutexImpl(fast); a FastMutexImpl is MutexImpl(true).
def mutexImpl (fast : Bool) : MutexType := if fast then .normal else .recursive

-- A thread locks a mutex it has locked some times already.
def lockImpl : MutexType → Nat → Except Fault Nat
  | .normal,0 => .ok 1
  | .normal,_+1 => .error .deadlock
  | .recursive,held => .ok (held+1)

def unlockImpl (held : Nat) : Nat := held-1

-- The mutex of a list is such a FastMutex.
theorem lock_fast (s : HashList K V) :
    s.lock true = (lockImpl (mutexImpl true) s.locked.toNat).map fun held => {s with locked := held != 0} := by
  obtain ⟨entries,n,_ | _⟩ := s <;> rfl

theorem unlock_fast (s : HashList K V) : s.unlock true = {s with locked := unlockImpl s.locked.toNat != 0} := by
  obtain ⟨entries,n,_ | _⟩ := s <;> rfl

variable [DecidableEq K] {hasher : Hasher K} {useMutex : Bool} {s : HashList K V}

-- A list that is full, can grow and has a live entry to move.
def GrowsLive (s : HashList K V) : Prop :=
  s.full = true ∧ (∃ step ∈ stepSize, s.capacity < step) ∧ ∃ p e, LiveAt s.entryList p e

theorem insert_deadlock (opened : s.locked = false) (key : K) (value : V) :
    s.insert hasher true key value = .error .deadlock ↔ GrowsLive s := by
  constructor
  · intro stopped
    unfold HashList.insert at stopped
    cases checked : s.checkupSpace true with
    | ok g =>
        rw [checked] at stopped
        exact absurd stopped (insertInternal_homed (checkup_opened opened checked) _).not_deadlock
    | error f =>
        rw [checked] at stopped
        cases stopped
        have full : s.full = true := by
          cases full : s.full with
          | true => rfl
          | false => rw [checkup_idle full] at checked; cases checked
        cases larger : stepSize.find? (fun step => s.capacity < step) with
        | none => rw [checkup_stuck opened full larger] at checked; cases checked
        | some step =>
            refine ⟨full,⟨step,List.mem_of_find?_eq_some larger,by simpa using List.find?_some larger⟩,?_⟩
            by_contra none_live
            have quiet : ∀ p e, ¬LiveAt s.entryList p e := fun p e here => none_live ⟨p,e,here⟩
            rw [checkup_eq opened full larger,rehash_bare (bare_of_quiet quiet)] at checked
            cases checked
  · intro ⟨full,grows,p,e,live⟩
    unfold HashList.insert
    cases larger : stepSize.find? (fun step => s.capacity < step) with
    | none =>
        obtain ⟨step,member,above⟩ := grows
        exact absurd (by simpa using above) (List.find?_eq_none.mp larger step member)
    | some step =>
        rw [checkup_eq opened full larger,rehash_deadlock rfl (mem_iff_live.mpr ⟨p,live⟩)]
        rfl

-- A step is right here: it does not lock the mutex twice, and where it returns the
-- mutex is free.
def KeepsLocks (hasher : Hasher K) (s : HashList K V) (op : Op K V) : Prop :=
  listTry hasher true s op ≠ .error .deadlock ∧ ∀ answer next, listTry hasher true s op = .ok (answer,next) → next.locked = false

-- No insertion has to move a live entry.
def GrowsBare (s : HashList K V) (op : Op K V) : Prop := ∀ key value, op = .insert key value → ¬GrowsLive s

theorem map_error {α β : Type _} {outcome : Except Fault α} {g : α → β} : outcome.map g = .error f ↔ outcome = .error f := by
  cases outcome with
  | ok a => exact iff_of_false (by intro same; cases same) (by intro same; cases same)
  | error e => exact ⟨fun same => by cases same; rfl,fun same => by cases same; rfl⟩

theorem keeps_iff (opened : s.locked = false) (op : Op K V) : KeepsLocks hasher s op ↔ GrowsBare s op := by
  have released : ∀ answer next, listTry hasher true s op = .ok (answer,next) → next.locked = false := by
    intro answer next done
    exact step_opened opened (by rw [listStep,done]; rfl)
  rw [KeepsLocks,and_iff_left released]
  cases op with
  | insert key value =>
      rw [listTry,Ne,map_error,insert_deadlock opened]
      constructor
      · rintro bare _ _ same
        exact bare
      · intro bare
        exact bare key value rfl
  | remove key =>
      rw [listTry,Ne,map_error]
      exact iff_of_true (remove_homed opened key).not_deadlock (by intro _ _ wrong; cases wrong)
  | take key rm =>
      rw [listTry,Ne,map_error]
      exact iff_of_true (take_homed opened key rm).not_deadlock (by intro _ _ wrong; cases wrong)
  | reset =>
      rw [listTry,reset_eq opened]
      exact iff_of_true (by intro wrong; cases wrong) (by intro _ _ wrong; cases wrong)

def Unlocked (s : HashList K V) : Prop := s.locked = false

-- The mutex is locked once at a time and released throughout exactly the
-- histories in which no insertion grows a list with a live entry.
theorem locks_iff (hasher : Hasher K) (history : List (Op K V)) :
    History.Guarded (listStep hasher true) (KeepsLocks hasher) {} history ↔
      History.Guarded (listStep hasher true) GrowsBare {} history := by
  have every : ∀ op ∈ history, True := fun _ _ => trivial
  have unlocked : Unlocked ({} : HashList K V) := rfl
  refine History.guarded_congr unlocked ?_ ?_ every
  · exact fun s op opened _ => keeps_iff opened op
  · exact fun s op answer next opened _ _ moved => step_opened opened moved

-- Fourteen entries fill the first list; the fifteenth locks the mutex that
-- checkupSpace holds.
theorem fifteenth_deadlocks : ¬History.Guarded (listStep FiniteMap.intHasher true) (KeepsLocks FiniteMap.intHasher) {}
    (((List.range 14).map fun (i : Nat) => Op.insert (i : Int) i) ++ [.insert 14 14]) := by
  let fourteen : HashList Int Nat := ⟨((List.range 14).map fun (i : Nat) => .entry ⟨i,i,i⟩) ++ [.null,.null,.null],14,false⟩
  have arrived : History.after (listStep FiniteMap.intHasher true) ({} : HashList Int Nat)
      ((List.range 14).map fun (i : Nat) => Op.insert (i : Int) i) = some fourteen := by decide +kernel
  intro guarded
  have held := (History.guarded_after arrived guarded).1.1
  exact held (by decide +kernel)

end GameServer.Common.ListLocks
