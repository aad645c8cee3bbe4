import Mathlib.Algebra.GroupWithZero.Nat
import Mathlib.Algebra.BigOperators.Group.List.Basic
import Mathlib.Data.List.TakeWhile

-- Trying for one level after the other, where each level gives in after as many
-- failures as its limit.
namespace GameServer.Ladder

-- The tries that the levels from one up to the goal ask for together.
def rungs (limit : Nat → Nat) (level goal : Nat) : Nat := ((List.range' level (goal-level)).map limit).sum

-- The tries still owed at a level after some failures there.
def owed (limit : Nat → Nat) (level failures goal : Nat) : Nat :=
  max (limit level - failures) 1 + rungs limit (level+1) goal

-- A try by the levels before it and after it.
abbrev Try := Nat × Nat

def Missed (t : Try) : Prop := t.1 = t.2

instance (t : Try) : Decidable (Missed t) := inferInstanceAs (Decidable (t.1 = t.2))

-- The misses since the last rise, and those of before if there was none.
def misses (tries : List Try) (before : Nat) : Nat :=
  (tries.reverse.takeWhile (Missed ·)).length + if ∀ t ∈ tries, Missed t then before else 0

-- Tries from one level to another, each up by one level or by none.
def Climbs : Nat → List Try → Nat → Prop
  | level,[],last => level = last
  | level,t :: tries,last => t.1 = level ∧ (t.2 = level ∨ t.2 = level+1) ∧ Climbs t.2 tries last

section limits
variable {limit : Nat → Nat} {level failures goal : Nat}

theorem rungs_below (below : level < goal) : rungs limit level goal = limit level + rungs limit (level+1) goal := by
  have more : goal-level = (goal-(level+1))+1 := by omega
  rw [rungs,more,List.range'_succ,List.map_cons,List.sum_cons]
  rfl

theorem owed_pos : 0 < owed limit level failures goal :=
  Nat.lt_of_lt_of_le (Nat.lt_of_lt_of_le Nat.one_pos (Nat.le_max_right ..)) (Nat.le_add_right ..)

theorem owed_start (below : level < goal) (positive : 0 < limit level) : owed limit level failures goal ≤ rungs limit level goal := by
  rw [rungs_below below,owed]
  omega

theorem owed_miss (patient : failures+1 < limit level) :
    owed limit level (failures+1) goal + 1 ≤ owed limit level failures goal := by
  rw [owed,owed]
  omega

theorem owed_rise (below : level+1 < goal) (positive : 0 < limit (level+1)) :
    owed limit (level+1) 0 goal + 1 ≤ owed limit level failures goal := by
  have next : owed limit (level+1) 0 goal ≤ rungs limit (level+1) goal := owed_start below positive
  have left : 1 + rungs limit (level+1) goal ≤ owed limit level failures goal := Nat.add_le_add_right (Nat.le_max_right ..) _
  omega

end limits

section tries
variable {t : Try} {tries : List Try} {level before : Nat}

@[simp] theorem misses_nil : misses [] before = before := by simp [misses]

theorem misses_missed (missed : Missed t) : misses (t :: tries) before = misses tries (before+1) := by
  rw [misses,misses,List.reverse_cons,List.takeWhile_append]
  by_cases all : ∀ u ∈ tries, Missed u
  · have whole : tries.reverse.takeWhile (Missed ·) = tries.reverse :=
      List.takeWhile_eq_self_iff.mpr fun u member => decide_eq_true (all u (List.mem_reverse.mp member))
    rw [if_pos (congrArg List.length whole),if_pos all,if_pos (List.forall_mem_cons.mpr ⟨missed,all⟩),whole,
      List.takeWhile_cons_of_pos (by simpa using missed),List.length_append,List.takeWhile_nil,List.length_singleton]
    omega
  · have part : (tries.reverse.takeWhile (Missed ·)).length ≠ tries.reverse.length := by
      intro same
      have whole := (List.takeWhile_prefix (Missed ·)).eq_of_length same
      exact all fun u member => of_decide_eq_true (List.takeWhile_eq_self_iff.mp whole u (List.mem_reverse.mpr member))
    rw [if_neg part,if_neg all,if_neg fun every => all (List.forall_mem_cons.mp every).2]

theorem misses_risen (risen : ¬Missed t) : misses (t :: tries) before = misses tries 0 := by
  rw [misses,misses,List.reverse_cons,List.takeWhile_append,if_neg fun every => risen (List.forall_mem_cons.mp every).1,ite_self]
  split
  · rename_i same
    have whole := (List.takeWhile_prefix (Missed ·)).eq_of_length same
    rw [List.takeWhile_cons_of_neg (by simpa using risen),List.append_nil,whole]
  · rfl

theorem misses_stay : misses ((level,level) :: tries) before = misses tries (before+1) := misses_missed (show Missed (level,level) from rfl)

theorem misses_rise : misses ((level,level+1) :: tries) before = misses tries 0 :=
  misses_risen (show ¬Missed (level,level+1) from Nat.ne_of_lt (Nat.lt_succ_self level))

end tries
end GameServer.Ladder
