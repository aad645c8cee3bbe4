import GameServer.Library.History
import Mathlib.Algebra.Group.Nat.Defs
import Mathlib.Data.List.Nodup
import Mathlib.Logic.Function.Basic

namespace GameServer.GObject
open History

-- The manager with the slots its objects remember. `added` stands beside them
-- for the statements: add was called with the object, and remove not since.
structure GLocalObjectManagerT (ν : Type _) where
  getSlot : ν → UInt32
  _objs : List (Option ν)
  _empty : List Nat
  added : ν → Bool

namespace GLocalObjectManagerT
variable {ν : Type _}

section model
variable [DecidableEq ν]

def setSlot (s : GLocalObjectManagerT ν) (val : ν) (slot : UInt32) : GLocalObjectManagerT ν :=
  {s with getSlot := Function.update s.getSlot val slot}

def add (s : GLocalObjectManagerT ν) (val : ν) : Bool × GLocalObjectManagerT ν :=
  if s.getSlot val ≠ -1 then (false,s)
  else match s._empty with
    | [] =>
      let _objs := s._objs ++ [some val]
      (true,{s.setSlot val (UInt32.ofNat (_objs.length - 1)) with _objs := _objs})
    | id :: _empty => (true,{s.setSlot val (UInt32.ofNat id) with _objs := s._objs.set id (some val),_empty := _empty})

def remove (s : GLocalObjectManagerT ν) (val : ν) : GLocalObjectManagerT ν :=
  let slot := (s.getSlot val).toNat
  if s._objs[slot]? = some (some val) then
    {s.setSlot val (-1) with _objs := s._objs.set slot none,_empty := s._empty ++ [slot]}
  else s

-- remove(UInt32 slot) has an empty body.
def removeSlot (s : GLocalObjectManagerT ν) (_slot : UInt32) : GLocalObjectManagerT ν := s

end model

-- operator[]; it never comes back from a freed slot, whose NULL it asks for
-- getSlot().
def get (s : GLocalObjectManagerT ν) (slot : UInt32) : Option (Option ν × GLocalObjectManagerT ν) :=
  match s._objs[slot.toNat]? with
  | none => some (none,s)
  | some none => none
  | some (some val) =>
    if s.getSlot val = slot then some (some val,s)
    else some (none,{s with _objs := s._objs.set slot.toNat none})

-- Every object starts with slot -1.
def start : GLocalObjectManagerT ν := ⟨fun _ => -1,[],[],fun _ => false⟩

inductive Call (ν : Type _) where
  | add (val : ν)
  | remove (val : ν)
  | removeSlot (slot : UInt32)
  | get (slot : UInt32)

inductive Returned (ν : Type _) where
  | done (success : Bool)
  | nothing
  | found (val : Option ν)

def step [DecidableEq ν] (s : GLocalObjectManagerT ν) : Call ν → Option (Returned ν × GLocalObjectManagerT ν)
  | .add val => some (.done (s.add val).1,{(s.add val).2 with added := Function.update s.added val true})
  | .remove val => some (.nothing,{s.remove val with added := Function.update s.added val false})
  | .removeSlot slot => some (.nothing,s.removeSlot slot)
  | .get slot => (s.get slot).map fun (val,next) => (.found val,next)

-- What the three stores of a slot number owe each other.
structure Matched (s : GLocalObjectManagerT ν) : Prop where
  owns : ∀ v, s.added v = true → s.getSlot v ≠ -1 ∧ s._objs[(s.getSlot v).toNat]? = some (some v)
  apart : ∀ v w, s.added v = true → s.added w = true → s.getSlot v = s.getSlot w → v = w
  once : s._empty.Nodup
  free : ∀ i, i ∈ s._empty ↔ s._objs[i]? = some none

-- A lookup finds the object that holds the slot and changes nothing.
def Fine (s : GLocalObjectManagerT ν) (call : Call ν) (returned : Returned ν) (next : GLocalObjectManagerT ν) : Prop :=
  Matched next ∧ match call,returned with
    | .get slot,.found val => (∀ v, val = some v ↔ s.added v = true ∧ s.getSlot v = slot) ∧ next = s
    | _,_ => True

-- No lookup of a freed slot, and no new slot numbered like the -1 of an object
-- without one.
def Usable (s : GLocalObjectManagerT ν) : Call ν → Prop
  | .add val => s.getSlot val = -1 → s._empty = [] → s._objs.length < 2 ^ 32 - 1
  | .get slot => s._objs[slot.toNat]? ≠ some none
  | _ => True

structure Managed (s : GLocalObjectManagerT ν) : Prop where
  matched : Matched s
  idle : ∀ v, s.added v = false → s.getSlot v = -1
  held : ∀ i v, s._objs[i]? = some (some v) → s.added v = true ∧ (s.getSlot v).toNat = i
  small : s._objs.length < 2 ^ 32

theorem managed_start : Managed (start : GLocalObjectManagerT ν) := by
  constructor
  · constructor <;> simp [start]
  · simp [start]
  · simp [start]
  · simp [start]

theorem toNat_unset : (-1 : UInt32).toNat = 2 ^ 32 - 1 := by decide

theorem slot_back (small : i < 2 ^ 32) : (UInt32.ofNat i).toNat = i := UInt32.toNat_ofNat_of_lt' small

theorem slot_set (small : i < 2 ^ 32 - 1) : UInt32.ofNat i ≠ -1 := by
  intro unset
  have number := congrArg UInt32.toNat unset
  rw [slot_back (by omega),toNat_unset] at number
  omega

theorem last_unset : UInt32.ofNat (2 ^ 32 - 1) = -1 := by decide

theorem length_of_entry {s : GLocalObjectManagerT ν} (entry : s._objs[i]? = some val) : i < s._objs.length :=
  (List.getElem?_eq_some_iff.mp entry).1

-- What holds of a managed object's slot decides whether it was added.
theorem unset_iff {s : GLocalObjectManagerT ν} (managed : Managed s) (v : ν) : s.getSlot v = -1 ↔ s.added v = false := by
  refine ⟨?_,managed.idle v⟩
  intro unset
  cases member : s.added v with
  | false => rfl
  | true => exact absurd unset (managed.matched.owns v member).1

theorem apart_of_owns {s : GLocalObjectManagerT ν}
    (owns : ∀ v, s.added v = true → s.getSlot v ≠ -1 ∧ s._objs[(s.getSlot v).toNat]? = some (some v)) (v w : ν)
    (first : s.added v = true) (second : s.added w = true) (same : s.getSlot v = s.getSlot w) : v = w := by
  have here := (owns v first).2
  rw [same,(owns w second).2] at here
  exact (Option.some.inj (Option.some.inj here)).symm

theorem get_fine {s : GLocalObjectManagerT ν} (managed : Managed s) (usable : Usable s (.get slot)) :
    ∃ val, s.get slot = some (val,s) ∧ ∀ v, val = some v ↔ s.added v = true ∧ s.getSlot v = slot := by
  have found : ∀ v, s.added v = true ∧ s.getSlot v = slot → s._objs[slot.toNat]? = some (some v) := by
    intro v ⟨member,same⟩
    exact same ▸ (managed.matched.owns v member).2
  cases entry : s._objs[slot.toNat]? with
  | none =>
      refine ⟨none,by simp [get,entry],?_⟩
      intro v
      refine ⟨fun none => (by cases none),?_⟩
      intro holder
      have here := found v holder
      rw [entry] at here
      cases here
  | some holder =>
      cases holder with
      | none => exact absurd entry usable
      | some w =>
          obtain ⟨member,number⟩ := managed.held _ _ entry
          have same : s.getSlot w = slot := UInt32.toNat_inj.mp number
          refine ⟨some w,by simp [get,entry,same],?_⟩
          intro v
          constructor
          · intro equal
            cases Option.some.inj equal
            exact ⟨member,same⟩
          · intro holder
            have here := found v holder
            rw [entry] at here
            exact Option.some.inj here

section calls
variable [DecidableEq ν] {s : GLocalObjectManagerT ν} {val : ν}

-- The state after add when the object had no slot: it now stands at `i`.
structure Seated (s next : GLocalObjectManagerT ν) (val : ν) (i : Nat) : Prop where
  slot : next.getSlot = Function.update s.getSlot val (UInt32.ofNat i)
  here : next._objs[i]? = some (some val)
  others : ∀ j, j ≠ i → next._objs[j]? = s._objs[j]?
  vacant : ∀ v, s._objs[i]? ≠ some (some v)
  once : next._empty.Nodup
  free : ∀ j, j ∈ next._empty ↔ j ∈ s._empty ∧ j ≠ i
  length : next._objs.length ≤ max s._objs.length (i + 1)
  added : next.added = Function.update s.added val true

theorem managed_seated (managed : Managed s) (unset : s.getSlot val = -1) (small : i < 2 ^ 32 - 1)
    (seated : Seated s next val i) : Managed next := by
  have back : (UInt32.ofNat i).toNat = i := slot_back (by omega)
  have fresh := (unset_iff managed val).mp unset
  have owns : ∀ v, next.added v = true → next.getSlot v ≠ -1 ∧ next._objs[(next.getSlot v).toNat]? = some (some v) := by
    intro v member
    rw [seated.slot]
    by_cases same : v = val
    · subst same
      rw [Function.update_self,back]
      exact ⟨slot_set small,seated.here⟩
    · rw [seated.added,Function.update_of_ne same] at member
      have old := managed.matched.owns v member
      rw [Function.update_of_ne same]
      refine ⟨old.1,?_⟩
      rw [seated.others]
      · exact old.2
      · intro equal
        exact seated.vacant v (equal ▸ old.2)
  refine ⟨⟨owns,apart_of_owns owns,seated.once,?_⟩,?_,?_,?_⟩
  · intro j
    rw [seated.free]
    by_cases same : j = i
    · subst same
      simp [seated.here]
    · rw [seated.others j same,managed.matched.free]
      simp [same]
  · intro v absent
    by_cases same : v = val
    · subst same
      simp [seated.added] at absent
    · rw [seated.added,Function.update_of_ne same] at absent
      rw [seated.slot,Function.update_of_ne same]
      exact managed.idle v absent
  · intro j v entry
    by_cases same : j = i
    · subst same
      rw [seated.here] at entry
      cases Option.some.inj (Option.some.inj entry)
      rw [seated.slot,seated.added,Function.update_self,Function.update_self]
      exact ⟨rfl,back⟩
    · rw [seated.others j same] at entry
      have old := managed.held j v entry
      have other : v ≠ val := by
        intro equal
        rw [equal,fresh] at old
        cases old.1
      rw [seated.slot,seated.added,Function.update_of_ne other,Function.update_of_ne other]
      exact old
  · have length := seated.length
    have before := managed.small
    omega

theorem add_taken (taken : s.getSlot val ≠ -1) : s.add val = (false,s) := by simp [add,taken]

theorem add_push (unset : s.getSlot val = -1) (full : s._empty = []) :
    Seated s {(s.add val).2 with added := Function.update s.added val true} val s._objs.length := by
  constructor
  · simp [add,unset,full,setSlot]
  · simp [add,unset,full,setSlot]
  · intro j other
    simp only [add,unset,full,setSlot,ne_eq,not_true_eq_false,if_false]
    by_cases below : j < s._objs.length
    · exact List.getElem?_append_left below
    · have after : (s._objs ++ [some val]).length ≤ j := by
        rw [List.length_append,List.length_singleton]
        omega
      rw [List.getElem?_eq_none after,List.getElem?_eq_none (by omega)]
  · simp
  · simp [add,unset,full,setSlot]
  · intro j
    simp [add,unset,full,setSlot]
  · simp [add,unset,full,setSlot]
  · rfl

theorem add_reuse (unset : s.getSlot val = -1) (filled : s._empty = i :: rest) (managed : Managed s) :
    Seated s {(s.add val).2 with added := Function.update s.added val true} val i := by
  have free : s._objs[i]? = some none := (managed.matched.free i).mp (by simp [filled])
  have below := length_of_entry free
  have once := managed.matched.once
  rw [filled,List.nodup_cons] at once
  constructor
  · simp [add,unset,filled,setSlot]
  · simp [add,unset,filled,setSlot,below]
  · intro j other
    simp [add,unset,filled,setSlot,List.getElem?_set_ne (Ne.symm other)]
  · simp [free]
  · simpa [add,unset,filled,setSlot] using once.2
  · intro j
    simp only [add,unset,filled,setSlot,ne_eq,not_true_eq_false,if_false,List.mem_cons]
    constructor
    · intro member
      exact ⟨.inr member,fun equal => once.1 (equal ▸ member)⟩
    · intro ⟨member,other⟩
      exact member.resolve_left other
  · simp only [add,unset,filled,setSlot,ne_eq,not_true_eq_false,if_false,List.length_set]
    exact Nat.le_max_left ..
  · rfl

theorem managed_remove (managed : Managed s) :
    Managed {s.remove val with added := Function.update s.added val false} := by
  cases member : s.added val with
  | false =>
      have unset := managed.idle val member
      have kept : s.remove val = s := by
        unfold remove
        refine if_neg ?_
        intro entry
        rw [(managed.held _ _ entry).1] at member
        cases member
      have same : Function.update s.added val false = s.added := by rw [←member,Function.update_eq_self]
      rw [kept,same]
      exact managed
  | true =>
      obtain ⟨set,entry⟩ := managed.matched.owns val member
      have below := length_of_entry entry
      have gone : {s.remove val with added := Function.update s.added val false} =
          (⟨Function.update s.getSlot val (-1),s._objs.set (s.getSlot val).toNat none,
            s._empty ++ [(s.getSlot val).toNat],Function.update s.added val false⟩ : GLocalObjectManagerT ν) := by
        simp [remove,entry,setSlot]
      rw [gone]
      have owns : ∀ v, Function.update s.added val false v = true → Function.update s.getSlot val (-1) v ≠ -1 ∧
          (s._objs.set (s.getSlot val).toNat none)[(Function.update s.getSlot val (-1) v).toNat]? = some (some v) := by
        intro v alive
        have other : v ≠ val := by
          intro equal
          simp [equal] at alive
        rw [Function.update_of_ne other] at alive ⊢
        have old := managed.matched.owns v alive
        refine ⟨old.1,?_⟩
        rw [List.getElem?_set_ne]
        · exact old.2
        · intro equal
          exact other (managed.matched.apart v val alive member (UInt32.toNat_inj.mp equal.symm))
      refine ⟨⟨owns,?_,?_,?_⟩,?_,?_,?_⟩
      · exact @apart_of_owns ν ⟨_,_,s._empty ++ [(s.getSlot val).toNat],_⟩ owns
      · refine List.nodup_append.mpr ⟨managed.matched.once,List.nodup_singleton _,?_⟩
        intro i free j last equal
        rw [List.mem_singleton.mp last] at equal
        rw [equal,managed.matched.free,entry] at free
        cases free
      · intro i
        rw [List.mem_append,List.mem_singleton,managed.matched.free]
        by_cases same : i = (s.getSlot val).toNat
        · subst same
          simp [below]
        · rw [List.getElem?_set_ne (Ne.symm same)]
          simp [same]
      · intro v absent
        by_cases same : v = val
        · subst same
          exact Function.update_self ..
        · dsimp only at absent ⊢
          rw [Function.update_of_ne same] at absent ⊢
          exact managed.idle v absent
      · intro i v here
        dsimp only at here ⊢
        by_cases same : (s.getSlot val).toNat = i
        · subst same
          rw [List.getElem?_set_self below] at here
          cases Option.some.inj here
        · rw [List.getElem?_set_ne same] at here
          have old := managed.held i v here
          have other : v ≠ val := by
            intro equal
            exact same (equal ▸ old.2)
          rw [Function.update_of_ne other,Function.update_of_ne other]
          exact old
      · dsimp only
        rw [List.length_set]
        exact managed.small

theorem step_sound (managed : Managed s) (usable : Usable s call) :
    ∃ returned next, step s call = some (returned,next) ∧ Fine s call returned next ∧ Managed next := by
  cases call with
  | add val =>
      have kept : Managed {(s.add val).2 with added := Function.update s.added val true} := by
        by_cases unset : s.getSlot val = -1
        · cases empty : s._empty with
          | nil => exact managed_seated managed unset (usable unset empty) (add_push unset empty)
          | cons i rest =>
              have free : s._objs[i]? = some none := (managed.matched.free i).mp (by simp [empty])
              have below := length_of_entry free
              have small := managed.small
              exact managed_seated managed unset (by omega) (add_reuse unset empty managed)
        · have member : s.added val = true := by
            have set := (unset_iff managed val).not.mp unset
            simpa using set
          have same : Function.update s.added val true = s.added := by rw [←member,Function.update_eq_self]
          rw [add_taken unset,same]
          exact managed
      exact ⟨_,_,rfl,⟨kept.matched,trivial⟩,kept⟩
  | remove val =>
      have kept : Managed {s.remove val with added := Function.update s.added val false} := managed_remove managed
      exact ⟨_,_,rfl,⟨kept.matched,trivial⟩,kept⟩
  | removeSlot slot => exact ⟨_,_,rfl,⟨managed.matched,trivial⟩,managed⟩
  | get slot =>
      obtain ⟨val,found,holder⟩ := get_fine managed usable
      exact ⟨.found val,s,by rw [step,found]; rfl,⟨managed.matched,holder,rfl⟩,managed⟩

theorem step_exact (managed : Managed s) (moved : step s call = some (returned,next)) (fine : Fine s call returned next) :
    Usable s call := by
  cases call with
  | add val =>
      intro unset full
      have small := managed.small
      by_contra large
      have length : s._objs.length = 2 ^ 32 - 1 := by omega
      cases Option.some.inj moved
      have slot := (add_push unset full).slot
      have owned := (fine.1.owns val (by simp)).1
      rw [slot,Function.update_self,length,last_unset] at owned
      exact owned rfl
  | get slot =>
      intro freed
      simp [step,get,freed] at moved
  | remove | removeSlot => trivial

end calls

-- A history of calls keeps every store in step exactly when no call of it
-- looks up a freed slot or opens the slot numbered -1.
theorem slots_matched_iff [DecidableEq ν] (calls : List (Call ν)) :
    Along step Fine start calls ↔ Guarded step Usable start calls :=
  along_iff_guarded managed_start (fun _ _ => step_sound) (fun _ _ _ _ => step_exact)

theorem freed_slot_lookup : ¬ Along step Fine (start : GLocalObjectManagerT Unit) [.add (),.remove (),.get 0] := by
  rw [slots_matched_iff]
  intro guarded
  have removed := guarded.2 _ _ rfl
  have asked := removed.2 _ _ rfl
  exact asked.1 rfl

end GLocalObjectManagerT

end GameServer.GObject
