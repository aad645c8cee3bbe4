import Mathlib.Data.List.Basic
import Mathlib.Data.List.Infix
import Mathlib.Algebra.Order.BigOperators.Group.List
import Mathlib.Algebra.Order.Group.Nat
import Mathlib.Algebra.GroupWithZero.Nat

namespace GameServer.RoundRobin

variable {κ α : Type _}

abbrev Queues (κ α : Type _) := List (κ × List α)

-- One pass over the queues: what it takes, and the queues it leaves, or `none`
-- where it comes to an empty one.
def pass : Queues κ α → List (κ × α) × Option (Queues κ α)
  | [] => ([],some [])
  | (_,[]) :: _ => ([],none)
  | (k,a :: queue) :: rest => ((k,a) :: (pass rest).1,(pass rest).2.map ((k,queue) :: ·))

-- Turn n goes to the n-th element of every queue that has one.
def turn (n : Nat) (queues : Queues κ α) : List (κ × α) :=
  queues.filterMap fun entry => entry.2[n]?.map fun a => (entry.1,a)

def turns (queues : Queues κ α) (n : Nat) : List (κ × α) := (List.range n).flatMap (turn · queues)

def tails (queues : Queues κ α) : Queues κ α := queues.map fun entry => (entry.1,entry.2.tail)

def size (queues : Queues κ α) : Nat := (queues.map fun entry => entry.2.length).sum

theorem length_le_size {queues : Queues κ α} (member : (k,queue) ∈ queues) : queue.length ≤ size queues :=
  List.le_sum_of_mem (List.mem_map_of_mem (f := fun entry : κ × List α => entry.2.length) member)

theorem turn_tails (n : Nat) (queues : Queues κ α) : turn n (tails queues) = turn (n+1) queues := by
  unfold turn tails
  rw [List.filterMap_map]
  refine congrArg (List.filterMap · queues) (funext fun entry => ?_)
  simp [List.getElem?_tail]

theorem turns_succ (queues : Queues κ α) (n : Nat) : turns queues (n+1) = turn 0 queues ++ turns (tails queues) n := by
  unfold turns
  rw [List.range_succ_eq_map,List.flatMap_cons,List.flatMap_map]
  exact congrArg (turn 0 queues ++ ·) (congrArg (List.flatMap · (List.range n)) (funext fun k => (turn_tails k queues).symm))

-- A pass takes the first turn, as far as it gets.
theorem pass_prefix (queues : Queues κ α) : (pass queues).1 <+: turn 0 queues := by
  induction queues with
  | nil => exact List.nil_prefix
  | cons entry rest ih =>
      obtain ⟨k,queue⟩ := entry
      cases queue with
      | nil => exact List.nil_prefix
      | cons a queue => exact (List.prefix_cons_inj (k,a)).mpr ih

theorem pass_whole {queues left : Queues κ α} (passed : (pass queues).2 = some left) :
    (pass queues).1 = turn 0 queues ∧ left = tails queues ∧ size left + queues.length = size queues := by
  induction queues generalizing left with
  | nil =>
      cases passed
      exact ⟨rfl,rfl,rfl⟩
  | cons entry rest ih =>
      obtain ⟨k,queue⟩ := entry
      cases queue with
      | nil => cases passed
      | cons a queue =>
          obtain ⟨behind,later,rfl⟩ := Option.map_eq_some_iff.mp passed
          obtain ⟨taken,rfl,smaller⟩ := ih later
          refine ⟨congrArg ((k,a) :: ·) taken,rfl,?_⟩
          simp only [size,List.map_cons,List.sum_cons,List.length_cons] at smaller ⊢
          omega

theorem turn_known {queues : Queues κ α} {n : Nat} (member : t ∈ turn n queues) : t.1 ∈ queues.map Prod.fst := by
  obtain ⟨entry,there,made⟩ := List.mem_filterMap.mp member
  obtain ⟨a,_,rfl⟩ := Option.map_eq_some_iff.mp made
  exact List.mem_map_of_mem there

-- A prefix of the turns is some whole turns and part of the next.
theorem turns_take (queues : Queues κ α) (total n : Nat) :
    ∃ whole part, whole ≤ total ∧ (turns queues total).take n = turns queues whole ++ part ∧ part <+: turn whole queues := by
  induction total generalizing n with
  | zero => exact ⟨0,[],Nat.le_refl _,by simp [turns],List.nil_prefix⟩
  | succ total ih =>
      have last : turns queues (total+1) = turns queues total ++ turn total queues := by
        unfold turns
        rw [List.range_succ,List.flatMap_append]
        simp
      rw [last,List.take_append]
      by_cases inside : n ≤ (turns queues total).length
      · obtain ⟨whole,part,below,cut,front⟩ := ih n
        refine ⟨whole,part,Nat.le_succ_of_le below,?_,front⟩
        rw [Nat.sub_eq_zero_of_le inside,List.take_zero,List.append_nil,cut]
      · refine ⟨total,(turn total queues).take (n-(turns queues total).length),Nat.le_succ _,?_,List.take_prefix _ _⟩
        rw [List.take_of_length_le (Nat.le_of_not_le inside)]

section fairness
variable [DecidableEq κ]

def taken (k : κ) (turns : List (κ × α)) : List α := (turns.filter fun turn => turn.1 = k).map Prod.snd

-- Everything in every queue is taken once and in its order, and two queues that
-- both still have something left are at most one turn apart.
structure Fair (keys : List κ) (queue : κ → List α) (turns : List (κ × α)) : Prop where
  known : ∀ turn ∈ turns, turn.1 ∈ keys
  whole : ∀ k ∈ keys, taken k turns = queue k
  even : ∀ n k l, k ∈ keys → l ∈ keys → (taken k (turns.take n)).length < (queue k).length →
    (taken l (turns.take n)).length < (queue l).length →
    (taken k (turns.take n)).length ≤ (taken l (turns.take n)).length + 1

theorem taken_append (k : κ) (one two : List (κ × α)) : taken k (one ++ two) = taken k one ++ taken k two := by
  simp [taken]

theorem taken_prefix {one two : List (κ × α)} (front : one <+: two) (k : κ) : (taken k one).length ≤ (taken k two).length := by
  obtain ⟨rest,rfl⟩ := front
  rw [taken_append,List.length_append]
  exact Nat.le_add_right _ _

theorem taken_absent {k : κ} {turns : List (κ × α)} (absent : ∀ t ∈ turns, t.1 ≠ k) : taken k turns = [] := by
  unfold taken
  rw [List.filter_eq_nil_iff.mpr fun t member => by simpa using absent t member]
  rfl

-- With one queue a key, turn n takes the n-th element of its queue.
theorem taken_turn {queues : Queues κ α} (apart : (queues.map Prod.fst).Nodup) (member : (k,queue) ∈ queues) (n : Nat) :
    taken k (turn n queues) = queue[n]?.toList := by
  induction queues with
  | nil => cases member
  | cons entry rest ih =>
      rw [List.map_cons,List.nodup_cons] at apart
      have split : turn n (entry :: rest) = (entry.2[n]?.map fun a => (entry.1,a)).toList ++ turn n rest := by
        unfold turn
        cases found : entry.2[n]? <;> simp [found]
      rw [split,taken_append]
      rcases List.mem_cons.mp member with rfl | later
      · have others : taken k (turn n rest) = [] := taken_absent fun t there same => apart.1 (same ▸ turn_known there)
        rw [others,List.append_nil]
        cases queue[n]? <;> simp [taken]
      · have other : entry.1 ≠ k := fun same => apart.1 (same ▸ List.mem_map_of_mem later)
        rw [ih apart.2 later]
        cases entry.2[n]? <;> simp [taken,other]

theorem taken_turns {queues : Queues κ α} (apart : (queues.map Prod.fst).Nodup) (member : (k,queue) ∈ queues) (n : Nat) :
    taken k (turns queues n) = queue.take n := by
  induction n with
  | zero => rfl
  | succ n ih =>
      have last : turns queues (n+1) = turns queues n ++ turn n queues := by
        unfold turns
        rw [List.range_succ,List.flatMap_append]
        simp
      rw [last,taken_append,ih,taken_turn apart member,List.take_add_one]

theorem turns_fair {queues : Queues κ α} (apart : (queues.map Prod.fst).Nodup) {queue : κ → List α}
    (listed : ∀ k q, (k,q) ∈ queues → q = queue k) (enough : ∀ k q, (k,q) ∈ queues → q.length ≤ n) :
    Fair (queues.map Prod.fst) queue (turns queues n) := by
  have entry : ∀ k ∈ queues.map Prod.fst, (k,queue k) ∈ queues := by
    intro k member
    obtain ⟨⟨_,q⟩,there,rfl⟩ := List.mem_map.mp member
    exact listed _ q there ▸ there
  refine ⟨?_,?_,?_⟩
  · intro t member
    obtain ⟨i,_,there⟩ := List.mem_flatMap.mp member
    exact turn_known there
  · intro k member
    rw [taken_turns apart (entry k member),List.take_of_length_le (enough k _ (entry k member))]
  · intro m k l one two short short'
    obtain ⟨whole,part,_,cut,front⟩ := turns_take queues n m
    -- both have had all the whole turns, and perhaps their share of the part
    have share : ∀ k ∈ queues.map Prod.fst, (taken k (turns queues whole ++ part)).length < (queue k).length →
        whole ≤ (taken k (turns queues whole ++ part)).length ∧ (taken k (turns queues whole ++ part)).length ≤ whole+1 := by
      intro k member left
      have most := taken_prefix front k
      rw [taken_turn apart (entry k member)] at most
      have one : (queue k)[whole]?.toList.length ≤ 1 := by cases (queue k)[whole]? <;> simp
      rw [taken_append,List.length_append,taken_turns apart (entry k member),List.length_take] at left ⊢
      omega
    rw [cut] at short short' ⊢
    have first := share k one short
    have second := share l two short'
    omega

end fairness
end GameServer.RoundRobin
