import Mathlib.Data.List.Count
import Mathlib.Logic.Function.Basic

-- Calls by key that are counted up to a cap of the key, and rewards that are
-- paid as long as the count is below a limit within the cap.
namespace GameServer.Quotas

variable {κ : Type _} [BEq κ] {cap limit : κ → Nat} {calls log : List κ}

def used (limit : κ → Nat) (calls : List κ) (key : κ) : Nat := min (limit key) (calls.count key)

-- A log has as many rewards of each key as the limit lets its calls have.
def Paid (limit : κ → Nat) (calls log : List κ) : Prop := ∀ key, log.count key = used limit calls key

theorem used_nil (limit : κ → Nat) (key : κ) : used limit [] key = 0 := by
  rw [used,List.count_nil,Nat.min_zero]

theorem paid_nil (limit : κ → Nat) : Paid limit [] [] := fun key => (used_nil limit key).symm

theorem used_le (limit : κ → Nat) (calls : List κ) (key : κ) : used limit calls key ≤ limit key := Nat.min_le_left ..

variable [LawfulBEq κ]

theorem used_unmade (unmade : key ∉ calls) : used limit calls key = 0 := by
  rw [used,List.count_eq_zero_of_not_mem unmade,Nat.min_zero]

theorem used_other (limit : κ → Nat) (calls : List κ) (other : key ≠ call) : used limit (calls++[call]) key = used limit calls key := by
  have absent : [call].count key = 0 := List.count_eq_zero_of_not_mem (by rwa [List.mem_singleton])
  rw [used,List.count_append,absent,Nat.add_zero,used]

-- One call more counts while the limit, and the cap over it, lets it.
theorem used_same (within : limit call ≤ cap call) : used limit (calls++[call]) call =
    if used cap calls call < limit call then used limit calls call+1 else used limit calls call := by
  by_cases below : used cap calls call < limit call
  · rw [if_pos below]
    unfold used at below ⊢
    rw [List.count_append,List.count_singleton_self]
    omega
  · rw [if_neg below]
    unfold used at below ⊢
    rw [List.count_append,List.count_singleton_self]
    omega

theorem used_next [DecidableEq κ] (cap : κ → Nat) (calls : List κ) (call : κ) : used cap (calls++[call]) =
    Function.update (used cap calls) call (if used cap calls call < cap call then used cap calls call+1 else used cap calls call) := by
  funext key
  by_cases here : key = call
  · subst here
    rw [Function.update_self,used_same (Nat.le_refl _)]
  · rw [Function.update_of_ne here,used_other _ _ here]

theorem paid_next (within : limit call ≤ cap call) (paid : Paid limit calls log) :
    Paid limit (calls++[call]) (log++if used cap calls call < limit call then [call] else []) := by
  intro key
  rw [List.count_append,paid key]
  by_cases here : key = call
  · subst here
    rw [used_same within]
    split
    · rw [List.count_singleton_self]
    · rw [List.count_nil,Nat.add_zero]
  · rw [used_other _ _ here]
    split
    · rw [List.count_eq_zero_of_not_mem (by rwa [List.mem_singleton]),Nat.add_zero]
    · rw [List.count_nil,Nat.add_zero]

end GameServer.Quotas
