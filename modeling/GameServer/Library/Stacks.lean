import Mathlib.Algebra.Order.BigOperators.Group.Finset
import Mathlib.Algebra.Order.Floor.Div

-- Bags of stacks: a bounded number of grids, each with a stack of at most
-- `cap` equal items.
namespace GameServer.Stacks

variable {κ : Type} [DecidableEq κ] {cap : Nat}

structure Bag (κ : Type) (cap : Nat) where
  grids : Nat
  piles : List (κ × Nat)
  filled : ∀ stack ∈ piles, stack.2 ≤ cap
  fits : piles.length ≤ grids

def Bag.bare (grids : Nat) : Bag κ cap := ⟨grids,[],by simp,Nat.zero_le grids⟩

-- What the stacks of an item still take.
def room (cap : Nat) (piles : List (κ × Nat)) (item : κ) : Nat :=
  (piles.map fun stack => if stack.1 = item then cap - stack.2 else 0).sum

-- The stacks with n items poured into those with room, and what is left over.
def pour (cap : Nat) (item : κ) : Nat → List (κ × Nat) → List (κ × Nat) × Nat
  | n,[] => ([],n)
  | n,stack :: rest =>
      let put := if stack.1 = item then min n (cap - stack.2) else 0
      let (poured,left) := pour cap item (n - put) rest
      ((stack.1,stack.2 + put) :: poured,left)

-- The new stacks for n items.
def opened (cap : Nat) (item : κ) (n : Nat) : List (κ × Nat) :=
  List.replicate (n / cap) (item,cap) ++ if n % cap = 0 then [] else [(item,n % cap)]

theorem pour_length (item : κ) (n : Nat) (piles : List (κ × Nat)) : (pour cap item n piles).1.length = piles.length := by
  induction piles generalizing n with
  | nil => rfl
  | cons stack rest ih => simp [pour,ih]

theorem pour_filled (item : κ) (n : Nat) (piles : List (κ × Nat)) (filled : ∀ stack ∈ piles, stack.2 ≤ cap) :
    ∀ stack ∈ (pour cap item n piles).1, stack.2 ≤ cap := by
  induction piles generalizing n with
  | nil => simp [pour]
  | cons first rest ih =>
      have here := filled first (List.mem_cons_self ..)
      intro stack member
      rcases List.mem_cons.mp member with rfl | old
      · dsimp only
        split
        · omega
        · exact here
      · exact ih _ (fun one member => filled one (List.mem_cons_of_mem _ member)) stack old

theorem pour_left (item : κ) (n : Nat) (piles : List (κ × Nat)) : (pour cap item n piles).2 = n - room cap piles item := by
  induction piles generalizing n with
  | nil => simp [pour,room]
  | cons first rest ih =>
      have tail := ih (n - if first.1 = item then min n (cap - first.2) else 0)
      unfold room at tail ⊢
      rw [List.map_cons,List.sum_cons]
      show (pour cap item _ rest).2 = _
      rw [tail]
      split
      · omega
      · omega

theorem pour_room (item other : κ) (n : Nat) (piles : List (κ × Nat)) :
    room cap (pour cap item n piles).1 other = if other = item then room cap piles other - n else room cap piles other := by
  induction piles generalizing n with
  | nil => simp [pour,room]
  | cons first rest ih =>
      have tail := ih (n - if first.1 = item then min n (cap - first.2) else 0)
      unfold room at tail ⊢
      show (List.map _ (_ :: (pour cap item _ rest).1)).sum = _
      rw [List.map_cons,List.sum_cons,tail,List.map_cons,List.sum_cons]
      by_cases same : other = item
      · subst same
        rw [if_pos rfl,if_pos rfl]
        dsimp only
        split
        · omega
        · omega
      · rw [if_neg same,if_neg same]
        dsimp only
        by_cases mine : first.1 = other
        · have others : ¬ first.1 = item := fun h => same (mine.symm.trans h)
          rw [if_neg others]
          rfl
        · rw [if_neg mine,if_neg mine]

section opening
variable {κ : Type} {cap : Nat} (positive : 0 < cap)
include positive

theorem opened_filled (item : κ) (n : Nat) : ∀ stack ∈ opened cap item n, stack.2 ≤ cap := by
  intro stack member
  unfold opened at member
  rcases List.mem_append.mp member with full | last
  · rw [(List.mem_replicate.mp full).2]
  · split at last
    · cases last
    · rw [List.mem_singleton.mp last]
      exact (Nat.mod_lt _ positive).le

theorem opened_length (item : κ) (n : Nat) : (opened cap item n).length = n ⌈/⌉ cap := by
  have divided := Nat.div_add_mod n cap
  have below := Nat.mod_lt n positive
  unfold opened
  rw [List.length_append,List.length_replicate]
  split
  · rw [List.length_nil,Nat.add_zero]
    apply Nat.le_antisymm
    · apply Nat.div_le_div_right
      omega
    · rw [ceilDiv_le_iff_le_mul positive]
      omega
  · apply Nat.le_antisymm
    · by_contra more
      have less : n ⌈/⌉ cap ≤ n / cap := by rw [List.length_singleton] at more; omega
      rw [ceilDiv_le_iff_le_mul positive] at less
      omega
    · rw [ceilDiv_le_iff_le_mul positive,List.length_singleton,Nat.mul_add]
      omega

theorem ceil_add (n u : Nat) : (cap * u + n) ⌈/⌉ cap = u + n ⌈/⌉ cap := by
  apply eq_of_forall_ge_iff
  intro c
  rw [ceilDiv_le_iff_le_mul positive]
  constructor
  · intro h
    have : u ≤ c := Nat.le_of_mul_le_mul_left (Nat.le_trans (Nat.le_add_right ..) h) positive
    have rest : n ⌈/⌉ cap ≤ c - u := by
      rw [ceilDiv_le_iff_le_mul positive,Nat.mul_sub]
      omega
    omega
  · intro h
    have rest : n ⌈/⌉ cap ≤ c - u := by omega
    have : u ≤ c := by omega
    rw [ceilDiv_le_iff_le_mul positive,Nat.mul_sub] at rest
    have := Nat.mul_le_mul_left cap this
    omega

theorem ceil_mono {n m : Nat} (less : n ≤ m) : n ⌈/⌉ cap ≤ m ⌈/⌉ cap := by
  rw [ceilDiv_le_iff_le_mul positive]
  exact Nat.le_trans less (le_smul_ceilDiv positive)

-- Two amounts need at most one grid more apart than together.
theorem ceil_two (n m : Nat) : n ⌈/⌉ cap + m ⌈/⌉ cap ≤ 1 + (n + m) ⌈/⌉ cap := by
  have split : cap * (n / cap) + (n % cap) = n := Nat.div_add_mod n cap
  have first : n ⌈/⌉ cap ≤ n / cap + 1 := by
    have := Nat.mod_lt n positive
    rw [ceilDiv_le_iff_le_mul positive,Nat.mul_add]
    omega
  have second : n / cap + m ⌈/⌉ cap ≤ (n + m) ⌈/⌉ cap := by
    rw [← ceil_add positive]
    apply ceil_mono positive
    omega
  omega

end opening

theorem room_append (first second : List (κ × Nat)) (item : κ) : room cap (first ++ second) item = room cap first item + room cap second item := by
  simp [room]

theorem room_replicate (item other : κ) (n : Nat) : room cap (List.replicate n (item,cap)) other = 0 := by
  simp [room]

theorem room_opened (positive : 0 < cap) (item other : κ) (n : Nat) :
    room cap (opened cap item n) other = if other = item then cap * (n ⌈/⌉ cap) - n else 0 := by
  have length := opened_length positive item n
  have divided := Nat.div_add_mod n cap
  unfold opened at length ⊢
  rw [room_append,room_replicate,Nat.zero_add,← length,List.length_append,List.length_replicate,Nat.mul_add]
  split
  · rename_i exactly
    simp only [room,List.map_nil,List.sum_nil,List.length_nil]
    split
    · omega
    · rfl
  · rename_i rest
    simp only [room,List.map_cons,List.map_nil,List.sum_cons,List.sum_nil,List.length_singleton]
    by_cases same : other = item
    · rw [if_pos same,if_pos same.symm]
      omega
    · rw [if_neg same,if_neg (Ne.symm same),Nat.add_zero]

-- The new grids n items of a kind need.
def used (bag : Bag κ cap) (item : κ) (n : Nat) : Nat := (n - room cap bag.piles item) ⌈/⌉ cap

def free (bag : Bag κ cap) : Nat := bag.grids - bag.piles.length

theorem added_fits (positive : 0 < cap) (bag : Bag κ cap) (item : κ) (n : Nat) (within : used bag item n ≤ free bag) :
    ((pour cap item n bag.piles).1 ++ opened cap item (pour cap item n bag.piles).2).length ≤ bag.grids := by
  have fits := bag.fits
  rw [List.length_append,pour_length,opened_length positive,pour_left]
  unfold used free at within
  omega

def add (positive : 0 < cap) (bag : Bag κ cap) (item : κ) (n : Nat) : Option (Bag κ cap) :=
  if within : used bag item n ≤ free bag then
    some {
      grids := bag.grids
      piles := (pour cap item n bag.piles).1 ++ opened cap item (pour cap item n bag.piles).2
      filled := by
        intro stack member
        rcases List.mem_append.mp member with old | new
        · exact pour_filled item n bag.piles bag.filled stack old
        · exact opened_filled positive item _ stack new
      fits := added_fits positive bag item n within }
  else none

section adding
variable {positive : 0 < cap} {bag bag' : Bag κ cap} {item : κ} {n : Nat}

-- What an item that found room leaves.
structure Added (bag : Bag κ cap) (item : κ) (n : Nat) (bag' : Bag κ cap) : Prop where
  within : used bag item n ≤ free bag
  free : free bag' + used bag item n = free bag
  same : room cap bag'.piles item + n = room cap bag.piles item + cap * used bag item n
  others : ∀ other, other ≠ item → room cap bag'.piles other = room cap bag.piles other

theorem add_added (done : add positive bag item n = some bag') : Added bag item n bag' := by
  unfold add at done
  split at done
  · rename_i within
    cases done
    refine ⟨within,?_,?_,?_⟩
    · have fits := bag.fits
      unfold used free at within ⊢
      simp only [List.length_append,pour_length,opened_length positive,pour_left]
      omega
    · have enough : n - room cap bag.piles item ≤ cap * ((n - room cap bag.piles item) ⌈/⌉ cap) := le_smul_ceilDiv positive
      simp only [room_append,pour_room,room_opened positive,pour_left,if_true,used]
      omega
    · intro other apart
      simp only [room_append,pour_room,room_opened positive,if_neg apart,Nat.add_zero]
  · cases done

theorem add_none (positive : 0 < cap) : add positive bag item n = none ↔ ¬ used bag item n ≤ free bag := by
  unfold add
  split
  · rename_i within
    simp [within]
  · rename_i without
    simp [without]

theorem used_add (positive : 0 < cap) (added : Added bag item n bag') (m : Nat) : used bag item (n + m) = used bag item n + used bag' item m := by
  have same := added.same
  unfold used at same ⊢
  by_cases within : n + m - room cap bag.piles item ≤ cap * ((n - room cap bag.piles item) ⌈/⌉ cap)
  · have nothing : m - room cap bag'.piles item = 0 := by omega
    rw [nothing,zero_ceilDiv,Nat.add_zero]
    apply Nat.le_antisymm
    · exact (ceilDiv_le_iff_le_mul positive).mpr within
    · apply ceil_mono positive
      omega
  · rw [← ceil_add positive]
    congr 1
    omega

theorem used_other (added : Added bag item n bag') {other : κ} (apart : other ≠ item) (m : Nat) : used bag' other m = used bag other m := by
  unfold used
  rw [added.others other apart]

theorem used_mono (positive : 0 < cap) (bag : Bag κ cap) (item : κ) {n m : Nat} (less : n ≤ m) : used bag item n ≤ used bag item m := by
  apply ceil_mono positive
  omega

end adding

section sequences
open Finset

def total (item : κ) (adds : List (κ × Nat)) : Nat := (adds.map fun one => if one.1 = item then one.2 else 0).sum

-- All of a sequence of additions find room.
def Fits (positive : 0 < cap) : Bag κ cap → List (κ × Nat) → Prop
  | _,[] => True
  | bag,one :: rest => ∃ bag', add positive bag one.1 one.2 = some bag' ∧ Fits positive bag' rest

theorem total_cons (item : κ) (one : κ × Nat) (rest : List (κ × Nat)) :
    total item (one :: rest) = (if one.1 = item then one.2 else 0) + total item rest := by
  simp [total]

-- The order does not matter: they fit if the grids for the totals do.
theorem fits_iff (positive : 0 < cap) (bag : Bag κ cap) (adds : List (κ × Nat)) (kinds : Finset κ) (within : ∀ one ∈ adds, one.1 ∈ kinds) :
    Fits positive bag adds ↔ ∑ item ∈ kinds, used bag item (total item adds) ≤ free bag := by
  induction adds generalizing bag with
  | nil => simp [Fits,total,used]
  | cons one rest ih =>
      have here := within one (List.mem_cons_self ..)
      have later : ∀ one ∈ rest, one.1 ∈ kinds := fun one member => within one (List.mem_cons_of_mem _ member)
      unfold Fits
      rw [← Finset.add_sum_erase kinds _ here,total_cons,if_pos rfl]
      rcases done : add positive bag one.1 one.2 with _ | bag'
      · have without := (add_none positive).mp done
        have more : used bag one.1 one.2 ≤ used bag one.1 (one.2 + total one.1 rest) := used_mono positive bag one.1 (Nat.le_add_right ..)
        constructor
        · intro ⟨_,impossible,_⟩
          cases impossible
        · intro enough
          exact absurd (Nat.le_trans more (Nat.le_trans (Nat.le_add_right ..) enough)) without
      · have added := add_added done
        have others : ∀ other ∈ kinds.erase one.1, used bag other (total other (one :: rest)) = used bag' other (total other rest) := by
          intro other member
          have apart := Finset.ne_of_mem_erase member
          rw [total_cons,if_neg (Ne.symm apart),Nat.zero_add,used_other added apart]
        have split := Finset.add_sum_erase kinds (fun item => used bag' item (total item rest)) here
        have balance := added.free
        rw [used_add positive added,Finset.sum_congr rfl others]
        have tail := ih bag' later
        constructor
        · intro ⟨bag'',same,fits⟩
          cases same
          have enough := tail.mp fits
          omega
        · intro enough
          exact ⟨bag',rfl,tail.mpr (by omega)⟩

end sequences

end GameServer.Stacks
