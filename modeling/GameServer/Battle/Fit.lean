import GameServer.Battle.BattleGround
import GameServer.Library.Sorting

namespace GameServer.Battle.Fit
open Sorting

def moreFit (info1 info2 : TargetInfo) : Bool :=
  if info1.pri > info2.pri then true
  else if info1.cost < info2.cost then true
  else false

-- The two keys the other way round.
def bowMoreFit (info1 info2 : TargetInfo) : Bool :=
  if info1.cost < info2.cost then true
  else if info1.pri > info2.pri then true
  else false

theorem more_fit {one two : TargetInfo} : moreFit one two = true ↔ two.pri < one.pri ∨ one.cost < two.cost := by
  unfold moreFit
  split
  · rename_i higher
    exact iff_of_true rfl (.inl higher)
  · rename_i lower
    split
    · rename_i cheaper
      exact iff_of_true rfl (.inr cheaper)
    · rename_i dearer
      exact iff_of_false Bool.false_ne_true (not_or.mpr ⟨lower,dearer⟩)

-- An else-if has no say in which key goes first: both comparators are one relation.
theorem bow_more_fit (one two : TargetInfo) : bowMoreFit one two = moreFit one two := by
  unfold bowMoreFit moreFit
  split <;> split <;> rfl

-- The greatest priority and, among the targets of that priority, the least cost.
structure Best (V : List TargetInfo) (target : TargetInfo) : Prop where
  member : target ∈ V
  first : ∀ info ∈ V, info.pri ≤ target.pri
  cheap : ∀ info ∈ V, info.pri = target.pri → target.cost ≤ info.cost

-- Whatever the sort and whatever the order the targets were found in, Move takes a best one.
def Chosen (V : List TargetInfo) : Prop :=
  ∀ sort, Sorts (fun one two => moreFit one two = true) sort →
    ∀ W, W.Perm V → ∀ target, (sort W).head? = some target → Best V target

def Fits (V : List TargetInfo) : Prop := Ordered (fun one two => moreFit one two = true) V ∧ Chosen V

-- No target has both the greater priority and the greater cost.
def Parallel (V : List TargetInfo) : Prop := ∀ one ∈ V, ∀ two ∈ V, two.pri < one.pri → one.cost ≤ two.cost

theorem parallel_ordered (parallel : Parallel V) : Ordered (fun one two => moreFit one two = true) V where
  irrefl one fit := (more_fit.mp fit).elim (UInt8.lt_irrefl _) (UInt8.lt_irrefl _)
  trans one two three fit fit' := by
    have := parallel one one.2 two two.2
    have := parallel two two.2 three three.2
    have := parallel two two.2 one one.2
    have := parallel three three.2 two two.2
    simp only [more_fit,UInt8.lt_iff_toNat_lt,UInt8.le_iff_toNat_le] at *
    omega
  incomp_trans one two three apart apart' := by
    simp only [more_fit,UInt8.lt_iff_toNat_lt] at *
    omega

-- Two crossing targets each go before the other.
theorem ordered_parallel (ordered : Ordered (fun one two => moreFit one two = true) V) : Parallel V := by
  intro one inside two inside' higher
  refine UInt8.not_lt.mp fun cheaper => ?_
  exact ordered_asymm ordered inside inside' (more_fit.mpr (.inl higher)) (more_fit.mpr (.inr cheaper))

theorem parallel_chosen (parallel : Parallel V) : Chosen V := by
  intro sort sorts W same target front
  have ordered := ordered_mono (fun _ inside => same.mem_iff.mp inside) (parallel_ordered parallel)
  obtain ⟨member,least⟩ := front_least sorts ordered front
  have none_fitter : ∀ info ∈ V, ¬(target.pri < info.pri ∨ info.cost < target.cost) := fun info inside =>
    fun fitter => least info (same.mem_iff.mpr inside) (more_fit.mpr fitter)
  refine ⟨same.mem_iff.mp member,fun info inside => ?_,fun info inside _ => ?_⟩
  · exact UInt8.not_lt.mp fun higher => none_fitter info inside (.inl higher)
  · exact UInt8.not_lt.mp fun cheaper => none_fitter info inside (.inr cheaper)

theorem chosen_parallel (chosen : Chosen V) : Parallel V := by
  intro one inside two inside' higher
  refine UInt8.not_lt.mp fun cheaper => ?_
  have broken : ¬Ordered (fun one two => moreFit one two = true) V := fun ordered =>
    UInt8.not_lt.mpr (ordered_parallel ordered one inside two inside' higher) cheaper
  obtain ⟨sort,sorts,front⟩ := exists_front broken inside'
  have best := chosen sort sorts V (.refl V) two front
  exact UInt8.not_lt.mpr (best.first one inside) higher

theorem parallel_fits_iff (V : List TargetInfo) : Fits V ↔ Parallel V :=
  ⟨fun fits => ordered_parallel fits.1,fun parallel => ⟨parallel_ordered parallel,parallel_chosen parallel⟩⟩

-- Whichever target a sort of the found ones puts first, a Move of the model strikes it.
theorem move_front {b : BattleGround} (sorts : Sorts (fun one two => moreFit one two = true) sort)
    (found : b.getTarget b.own.x b.own.y = some (first :: rest)) (front : (sort (first :: rest)).head? = some target) :
    ∃ choice, ∀ o : Outcome, o.choice = choice → b.move o = some (b.strike target o) := by
  have member : target ∈ first :: rest := (sorts.perm _).mem_iff.mp (List.mem_of_mem_head? front)
  obtain ⟨choice,short,here⟩ := List.getElem_of_mem member
  refine ⟨choice,fun o same => ?_⟩
  have chosen : (first :: rest).getD choice first = target := by
    rw [List.getD_eq_getElem?_getD,List.getElem?_eq_getElem short,here]
    rfl
  unfold BattleGround.move
  rw [found]
  dsimp only
  rw [same,chosen]

def strong : TargetInfo := { bo := 1, attack := ⟨0,0⟩, cost := 5, pri := 3 }

def near : TargetInfo := { bo := 2, attack := ⟨0,0⟩, cost := 2, pri := 1 }

theorem crossing_breaks : ¬IsStrictWeakOrder TargetInfo (fun one two => moreFit one two = true) ∧
    ¬Ordered (fun one two => moreFit one two = true) [strong,near] ∧ ¬Chosen [strong,near] := by
  have crossing : ¬Parallel [strong,near] := by
    intro parallel
    exact absurd (parallel strong (by decide) near (by decide) (by decide)) (by decide)
  refine ⟨fun order => ?_,fun ordered => crossing (ordered_parallel ordered),fun chosen => crossing (chosen_parallel chosen)⟩
  exact order.irrefl strong (order.trans strong near strong (by decide) (by decide))

end GameServer.Battle.Fit
