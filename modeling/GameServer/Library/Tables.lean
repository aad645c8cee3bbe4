import Mathlib.Data.List.Induction
import Mathlib.Data.List.ReduceOption
import Mathlib.Logic.Function.Basic

-- Tables of a script: lists that values are put at the end of, and maps that
-- are assigned to, where to put or assign nil does nothing and takes away.
namespace GameServer.Tables

variable {κ α : Type _}

def insert (table : List α) (value : Option α) : List α := table++value.toList

theorem inserts_eq (cells : List (Option α)) (table : List α) : cells.foldl insert table = table++cells.reduceOption := by
  induction cells generalizing table with
  | nil => simp
  | cons cell cells ih =>
      rw [List.foldl_cons,ih,insert]
      cases cell with
      | none => simp [List.reduceOption_cons_of_none]
      | some value => simp [List.reduceOption_cons_of_some]

-- Every value is at its own place: after what was there, at the index that it
-- was put there for.
def Placed (front : Nat) (cells : List (Option α)) (table : List α) : Prop :=
  table.length = front+cells.length ∧ ∀ i < cells.length, ∃ value, cells[i]? = some (some value) ∧ table[front+i]? = some value

theorem placed_iff (cells : List (Option α)) (table : List α) :
    Placed table.length cells (cells.foldl insert table) ↔ ∀ cell ∈ cells, cell.isSome := by
  rw [inserts_eq]
  constructor
  · intro ⟨length,_⟩
    rw [List.length_append] at length
    exact List.reduceOption_length_eq_iff.mp (Nat.add_left_cancel length)
  · intro all
    obtain ⟨values,rfl⟩ : ∃ values : List α, cells = values.map some := by
      refine ⟨cells.reduceOption,?_⟩
      have whole := List.reduceOption_length_eq_iff.mpr all
      clear table
      induction cells with
      | nil => rfl
      | cons cell cells ih =>
          obtain ⟨value,rfl⟩ := Option.isSome_iff_exists.mp (all cell List.mem_cons_self)
          rw [List.reduceOption_cons_of_some,List.map_cons]
          have rest : ∀ cell ∈ cells, cell.isSome := fun cell member => all cell (List.mem_cons_of_mem _ member)
          rw [← ih rest (List.reduceOption_length_eq_iff.mpr rest)]
    have back : (values.map some).reduceOption = values := by
      simp [List.reduceOption]
    rw [back]
    refine ⟨by simp,?_⟩
    intro i inside
    rw [List.length_map] at inside
    refine ⟨values[i],by simp [inside],?_⟩
    rw [List.getElem?_append_right (Nat.le_add_right ..),Nat.add_sub_cancel_left]
    exact List.getElem?_eq_getElem inside

section assignments
variable [DecidableEq κ]

def assigned (entries : List (κ × Option α)) : κ → Option α :=
  entries.foldl (fun table entry => Function.update table entry.1 entry.2) fun _ => none

theorem assigned_last (entries : List (κ × Option α)) (key : κ) :
    assigned entries key = (entries.reverse.find? fun entry => entry.1 = key).bind (·.2) := by
  induction entries using List.reverseRecOn with
  | nil => rfl
  | append_singleton entries entry ih =>
      unfold assigned at ih ⊢
      rw [List.foldl_append,List.foldl_cons,List.foldl_nil,List.reverse_append,List.reverse_singleton,List.singleton_append,List.find?_cons]
      by_cases here : entry.1 = key
      · subst here
        simp
      · rw [Function.update_of_ne (Ne.symm here),ih]
        simp [here]

theorem assigned_isSome_iff {entries : List (κ × Option α)} (values : ∀ entry ∈ entries, entry.2.isSome) (key : κ) :
    (assigned entries key).isSome ↔ ∃ entry ∈ entries, entry.1 = key := by
  rw [assigned_last]
  cases found : entries.reverse.find? fun entry => entry.1 = key with
  | none =>
      refine iff_of_false (by simp) ?_
      intro ⟨entry,member,same⟩
      exact absurd (decide_eq_true same) (List.find?_eq_none.mp found entry (List.mem_reverse.mpr member))
  | some entry =>
      have member := List.mem_reverse.mp (List.mem_of_find?_eq_some found)
      have here := List.find?_some found
      exact iff_of_true (values entry member) ⟨entry,member,of_decide_eq_true here⟩

theorem assigned_some_iff (entries : List (κ × Option α)) (key : κ) (value : α) :
    assigned entries key = some value ↔ ∃ front back, entries = front++(key,some value) :: back ∧ ∀ later ∈ back, later.1 ≠ key := by
  rw [assigned_last,Option.bind_eq_some_iff]
  constructor
  · rintro ⟨⟨k,v⟩,found,same⟩
    cases same
    obtain ⟨here,front,back,parts,before⟩ := List.find?_eq_some_iff_append.mp found
    cases of_decide_eq_true here
    refine ⟨back.reverse,front.reverse,?_,?_⟩
    · have turned := congrArg List.reverse parts
      simpa using turned
    · intro later member
      simpa using before later (List.mem_reverse.mp member)
  · rintro ⟨front,back,rfl,last⟩
    refine ⟨(key,some value),?_,rfl⟩
    refine List.find?_eq_some_iff_append.mpr ⟨decide_eq_true rfl,back.reverse,front.reverse,by simp,?_⟩
    intro later member
    simpa using last later (List.mem_reverse.mp member)

end assignments

end GameServer.Tables
