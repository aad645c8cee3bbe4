import Mathlib.Combinatorics.SimpleGraph.Metric

namespace GameServer

variable {ν : Type _} {graph : SimpleGraph ν} {goal : ν} {left : ν → Nat}

-- How far it still is to a goal: an edge wins one step at most, and everywhere
-- but at the goal some edge wins one.
structure Potential (graph : SimpleGraph ν) (goal : ν) (left : ν → Nat) : Prop where
  zero : ∀ u, left u = 0 ↔ u = goal
  slow : ∀ u v, graph.Adj u v → left u ≤ left v + 1
  closer : ∀ u, left u ≠ 0 → ∃ v, graph.Adj u v ∧ left v + 1 = left u

namespace Potential

theorem walk_long (potential : Potential graph goal left) (walk : graph.Walk u goal) : left u ≤ walk.length := by
  induction walk with
  | nil =>
      rw [(potential.zero _).mpr rfl]
      exact Nat.zero_le _
  | cons step walk ih =>
      rw [SimpleGraph.Walk.length_cons]
      exact Nat.le_trans (potential.slow _ _ step) (Nat.succ_le_succ (ih potential))

theorem walk_short (potential : Potential graph goal left) (u : ν) : ∃ walk : graph.Walk u goal, walk.length = left u := by
  induction steps : left u generalizing u with
  | zero =>
      obtain rfl := (potential.zero u).mp steps
      exact ⟨.nil,rfl⟩
  | succ steps' ih =>
      obtain ⟨v,step,nearer⟩ := potential.closer u (by omega)
      obtain ⟨walk,length⟩ := ih v (by omega)
      exact ⟨.cons step walk,by rw [SimpleGraph.Walk.length_cons,length]⟩

-- The goal can be reached in n steps exactly from where at most n are left.
theorem within_iff (potential : Potential graph goal left) : (∃ walk : graph.Walk u goal, walk.length ≤ n) ↔ left u ≤ n := by
  constructor
  · intro ⟨walk,length⟩
    exact Nat.le_trans (potential.walk_long walk) length
  · intro few
    obtain ⟨walk,length⟩ := potential.walk_short u
    exact ⟨walk,by omega⟩

theorem dist_eq (potential : Potential graph goal left) (u : ν) : graph.dist u goal = left u := by
  obtain ⟨walk,length⟩ := potential.walk_short u
  refine Nat.le_antisymm (length ▸ SimpleGraph.dist_le walk) ?_
  obtain ⟨shortest,same⟩ := walk.reachable.exists_walk_length_eq_dist
  rw [←same]
  exact potential.walk_long shortest

end Potential

end GameServer
