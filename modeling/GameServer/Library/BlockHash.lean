import Mathlib.Data.List.Basic

namespace GameServer.BlockHash

-- A hash that takes a message a block of so many symbols at a time.
structure Scheme (σ α : Type _) where
  width : Nat
  compress : σ → List α → σ
  positive : 0 < width

variable {σ α : Type _} (scheme : Scheme σ α)

-- A message cut into whole blocks.
structure Cut (blocks : List (List α)) (message : List α) : Prop where
  whole : ∀ block ∈ blocks, block.length = scheme.width
  joined : blocks.flatten = message

-- What the blocks of a message make of a state.
def hash (start : σ) (blocks : List (List α)) : σ := blocks.foldl scheme.compress start

-- A message on its way: the whole blocks are compressed, what is behind them waits.
structure Held (start : σ) (message : List α) (state : σ) (waiting : List α) : Prop where
  short : waiting.length < scheme.width
  taken : ∃ blocks front, Cut scheme blocks front ∧ message = front ++ waiting ∧ state = hash scheme start blocks

variable {scheme} {start state : σ} {message waiting : List α}

theorem cut_nil : Cut scheme [] ([] : List α) := ⟨fun _ member => (List.not_mem_nil member).elim,rfl⟩

theorem cut_snoc {blocks : List (List α)} {block : List α} (cut : Cut scheme blocks message)
    (whole : block.length = scheme.width) : Cut scheme (blocks ++ [block]) (message ++ block) := by
  refine ⟨?_,?_⟩
  · intro b member
    rcases List.mem_append.mp member with old | new
    · exact cut.whole b old
    · rw [List.mem_singleton.mp new]
      exact whole
  · rw [List.flatten_append,cut.joined,List.flatten_singleton]

theorem hash_snoc (blocks : List (List α)) (block : List α) :
    hash scheme start (blocks ++ [block]) = scheme.compress (hash scheme start blocks) block := by
  rw [hash,List.foldl_append]
  rfl

theorem cut_length {blocks : List (List α)} (cut : Cut scheme blocks message) :
    message.length = scheme.width * blocks.length := by
  induction blocks generalizing message with
  | nil =>
      rw [←cut.joined]
      rfl
  | cons block blocks ih =>
      have rest := ih ⟨fun b member => cut.whole b (List.mem_cons_of_mem _ member),rfl⟩
      rw [←cut.joined,List.flatten_cons,List.length_append,rest,cut.whole block List.mem_cons_self,List.length_cons,
        Nat.mul_succ,Nat.add_comm]

-- There is one way to cut a message.
theorem cut_unique {b c : List (List α)} (one : Cut scheme b message) (two : Cut scheme c message) : b = c := by
  have count : b.length = c.length :=
    Nat.eq_of_mul_eq_mul_left scheme.positive ((cut_length one).symm.trans (cut_length two))
  induction b generalizing c message with
  | nil => exact (List.length_eq_zero_iff.mp count.symm).symm
  | cons block b ih =>
      cases c with
      | nil => exact List.length_eq_zero_iff.mp count
      | cons block' c =>
          have same : block ++ b.flatten = block' ++ c.flatten := by
            rw [←List.flatten_cons,one.joined,←List.flatten_cons,two.joined]
          obtain ⟨here,rest⟩ := List.append_inj same
            ((one.whole _ List.mem_cons_self).trans (two.whole _ List.mem_cons_self).symm)
          have others := ih ⟨fun d member => one.whole d (List.mem_cons_of_mem _ member),rfl⟩
            ⟨fun d member => two.whole d (List.mem_cons_of_mem _ member),rest.symm⟩ (Nat.succ.inj count)
          rw [here,others]

-- A message of so many blocks can be cut.
theorem cut_exists (n : Nat) (length : message.length = scheme.width*n) : ∃ blocks, Cut scheme blocks message := by
  induction n generalizing message with
  | zero =>
      rw [Nat.mul_zero] at length
      exact ⟨[],fun _ member => (List.not_mem_nil member).elim,(List.length_eq_zero_iff.mp length).symm⟩
  | succ n ih =>
      rw [Nat.mul_succ] at length
      obtain ⟨blocks,cut⟩ := @ih (message.drop scheme.width) (by rw [List.length_drop]; omega)
      refine ⟨message.take scheme.width :: blocks,?_,?_⟩
      · intro b member
        rcases List.mem_cons.mp member with rfl | old
        · rw [List.length_take]
          omega
        · exact cut.whole b old
      · rw [List.flatten_cons,cut.joined,List.take_append_drop]

theorem held_start : Held scheme start [] start [] :=
  ⟨scheme.positive,[],[],cut_nil,rfl,rfl⟩

theorem held_waits (held : Held scheme start message state waiting) (x : α) (room : waiting.length+1 < scheme.width) :
    Held scheme start (message ++ [x]) state (waiting ++ [x]) := by
  obtain ⟨blocks,front,cut,split,rfl⟩ := held.taken
  refine ⟨?_,blocks,front,cut,?_,rfl⟩
  · rw [List.length_append]
    exact room
  · rw [split,List.append_assoc]

-- What makes a whole block of what waits is compressed with it.
theorem held_fills (held : Held scheme start message state waiting) (tail : List α)
    (full : (waiting ++ tail).length = scheme.width) :
    Held scheme start (message ++ tail) (scheme.compress state (waiting ++ tail)) [] := by
  obtain ⟨blocks,front,cut,split,rfl⟩ := held.taken
  refine ⟨scheme.positive,blocks ++ [waiting ++ tail],front ++ (waiting ++ tail),cut_snoc cut full,?_,(hash_snoc _ _).symm⟩
  rw [split,List.append_assoc,List.append_nil]

theorem held_hash (held : Held scheme start message state []) {blocks : List (List α)} (cut : Cut scheme blocks message) :
    state = hash scheme start blocks := by
  obtain ⟨own,front,ownCut,split,rfl⟩ := held.taken
  rw [List.append_nil] at split
  subst split
  rw [cut_unique ownCut cut]

theorem held_count (held : Held scheme start message state waiting) : waiting.length = message.length % scheme.width := by
  obtain ⟨blocks,front,cut,split,_⟩ := held.taken
  rw [split,List.length_append,cut_length cut,Nat.mul_add_mod,Nat.mod_eq_of_lt held.short]

end GameServer.BlockHash
