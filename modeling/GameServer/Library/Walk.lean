import Mathlib.Data.Fintype.Pigeonhole
import Mathlib.Logic.Function.Iterate

namespace GameServer.Walk

variable {α : Type _} {hop : α → α} {out : α → Prop} {key : α → Nat} {bound : Nat}

-- A walk that looks every next place up under a key of the present one and
-- comes out after `steps` look-ups, all of them below the bound.
def Leaves (hop : α → α) (out : α → Prop) (key : α → Nat) (bound steps : Nat) (x : α) : Prop :=
  out (hop^[steps] x) ∧ ∀ k < steps, ¬out (hop^[k] x) ∧ key (hop^[k] x) < bound

theorem leaves_zero : Leaves hop out key bound 0 x ↔ out x := by simp [Leaves]

theorem leaves_succ : Leaves hop out key bound (steps+1) x ↔
    (¬out x ∧ key x < bound) ∧ Leaves hop out key bound steps (hop x) := by
  constructor
  · intro leaves
    refine ⟨leaves.2 0 (Nat.succ_pos _),leaves.1,?_⟩
    intro k small
    exact leaves.2 (k+1) (Nat.succ_lt_succ small)
  · intro leaves
    refine ⟨leaves.2.1,?_⟩
    intro k small
    cases k with
    | zero => exact leaves.1
    | succ k => exact leaves.2.2 k (Nat.lt_of_succ_lt_succ small)

-- Two look-ups under one key lead on alike, so a walk that comes out looks up
-- each key once.
theorem leaves_within (same : ∀ x y, key x = key y → hop x = hop y) {x : α}
    (leaves : Leaves hop out key bound steps x) : steps ≤ bound := by
  by_contra longer
  have card : Fintype.card (Fin bound) < Fintype.card (Fin steps) := by simpa using longer
  obtain ⟨a,b,differ,equal⟩ := Fintype.exists_ne_map_eq_of_card_lt
    (fun k : Fin steps => (⟨key (hop^[k] x),(leaves.2 k k.2).2⟩ : Fin bound)) card
  have meet : ∀ a b : Nat, a < b → b < steps → key (hop^[a] x) = key (hop^[b] x) → False := by
    intro a b less small keys
    have joined : hop^[a+1] x = hop^[b+1] x := by
      rw [Function.iterate_succ_apply',Function.iterate_succ_apply']
      exact same _ _ keys
    have shift : hop^[steps] x = hop^[steps-(b-a)] x := by
      have late : steps = (steps-(b+1)) + (b+1) := by omega
      have early : steps-(b-a) = (steps-(b+1)) + (a+1) := by omega
      rw [late,Function.iterate_add_apply,←joined,←Function.iterate_add_apply,←early]
      congr 1
      omega
    exact (leaves.2 (steps-(b-a)) (by omega)).1 (shift ▸ leaves.1)
  rcases Nat.lt_or_gt_of_ne (fun eq => differ (Fin.ext eq)) with less | more
  · exact meet a b less b.2 (congrArg Fin.val equal)
  · exact meet b a more a.2 (congrArg Fin.val equal.symm)

end GameServer.Walk
