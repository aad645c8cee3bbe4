import GameServer.Library.Bytes

namespace GameServer.Memory
open Bytes

-- Bytes put at an address.
def store (memory : Nat → UInt8) (address : Nat) (bytes : List UInt8) (x : Nat) : UInt8 :=
  if address ≤ x then bytes.getD (x-address) (memory x) else memory x

variable {memory f g : Nat → UInt8} {address a b n head : Nat} {bytes : List UInt8} {l : List Nat}

theorem store_outside {x : Nat} (outside : x < address ∨ address+bytes.length ≤ x) :
    store memory address bytes x = memory x := by
  unfold store
  split
  · have beyond : bytes.length ≤ x-address := by omega
    rw [List.getD_eq_getElem?_getD,List.getElem?_eq_none beyond,Option.getD_none]
  · rfl

theorem store_inside {k : Nat} (inside : k < bytes.length) : store memory address bytes (address+k) = bytes.get ⟨k,inside⟩ := by
  unfold store
  rw [if_pos (Nat.le_add_right ..),Nat.add_sub_cancel_left,List.getD_eq_getElem?_getD,List.getElem?_eq_getElem inside]
  rfl

theorem window_congr (agree : ∀ x, a ≤ x → x < a+n → g x = f x) : window g a n = window f a n := by
  induction n generalizing a with
  | zero => rfl
  | succ n ih =>
      rw [window,window,agree a (Nat.le_refl _) (by omega)]
      congr 1
      apply ih
      intro x lower upper
      exact agree x (by omega) (by omega)

theorem window_get (n k : Nat) (inside : k < n) : (window memory a n)[k]? = some (memory (a+k)) := by
  induction n generalizing a k with
  | zero => omega
  | succ n ih =>
      cases k with
      | zero => rfl
      | succ k =>
          have shift : a+1+k = a+(k+1) := by omega
          rw [window,List.getElem?_cons_succ,ih k (by omega),shift]

theorem window_store (memory : Nat → UInt8) (address : Nat) (bytes : List UInt8) :
    window (store memory address bytes) address bytes.length = bytes := by
  apply List.ext_getElem?
  intro k
  by_cases inside : k < bytes.length
  · rw [window_get _ k inside,store_inside inside]
    exact (List.getElem?_eq_getElem inside).symm
  · rw [List.getElem?_eq_none (by rw [window_length]; omega),List.getElem?_eq_none (by omega)]

theorem window_stores (memory : Nat → UInt8) (address : Nat) (front back : List UInt8) :
    window (store (store memory address front) (address+front.length) back) address (front.length+back.length) = front ++ back := by
  rw [window_add,window_store]
  refine congrArg (· ++ back) ?_
  refine (window_congr ?_).trans (window_store memory address front)
  intro x _ upper
  exact store_outside (Or.inl upper)

-- Two addresses that run towards each other and exchange what they hold.
def inward (exchange : Nat → Nat → (Nat → UInt8) → Nat → UInt8) : Nat → Nat → Nat → (Nat → UInt8) → Nat → UInt8
  | 0,_,_,memory => memory
  | fuel+1,i,j,memory => if i < j then inward exchange fuel (i+1) (j-1) (exchange i j memory) else memory

theorem inward_turns {exchange : Nat → Nat → (Nat → UInt8) → Nat → UInt8} {fuel i j : Nat}
    (swaps : ∀ i j memory k, i < j → exchange i j memory k = if k = i then memory j else if k = j then memory i else memory k)
    (enough : j < i+fuel) (k : Nat) : inward exchange fuel i j memory k = if i ≤ k ∧ k ≤ j then memory (i+j-k) else memory k := by
  induction fuel generalizing i j memory with
  | zero => rw [inward,if_neg (by omega)]
  | succ fuel ih =>
      rw [inward]
      split
      · rename_i apart
        rw [ih (by omega)]
        by_cases inside : i+1 ≤ k ∧ k ≤ j-1
        · have centre : i+1+(j-1)-k = i+j-k := by omega
          rw [if_pos inside,if_pos (by omega),centre,swaps i j memory _ apart,if_neg (by omega),if_neg (by omega)]
        · rw [if_neg inside,swaps i j memory k apart]
          by_cases first : k = i
          · rw [if_pos first,if_pos (by omega),first,Nat.add_sub_cancel_left]
          · rw [if_neg first]
            by_cases last : k = j
            · rw [if_pos last,if_pos (by omega),last,Nat.add_sub_cancel]
            · rw [if_neg last,if_neg (by omega)]
      · rename_i met
        split
        · rename_i here
          exact congrArg memory (by omega)
        · rfl

theorem window_inward {exchange : Nat → Nat → (Nat → UInt8) → Nat → UInt8} {fuel : Nat}
    (swaps : ∀ i j memory k, i < j → exchange i j memory k = if k = i then memory j else if k = j then memory i else memory k)
    (enough : n ≤ fuel) (some : 0 < n) : window (inward exchange fuel 0 (n-1) memory) 0 n = (window memory 0 n).reverse := by
  apply List.ext_getElem?
  intro k
  by_cases inside : k < n
  · rw [List.getElem?_reverse (by rwa [window_length]),window_length,window_get n k inside,window_get n (n-1-k) (by omega),
      inward_turns swaps (by omega),if_pos (by omega)]
    simp only [Nat.zero_add]
  · rw [List.getElem?_eq_none (by rw [window_length]; omega),List.getElem?_eq_none (by rw [List.length_reverse,window_length]; omega)]

-- A 64-bit word at an address.
def word (memory : Nat → UInt8) (address : Nat) : Nat := ofBytes (window memory address 8)

theorem word_congr (agree : ∀ x, a ≤ x → x < a+8 → g x = f x) : word g a = word f a := by
  unfold word
  rw [window_congr agree]

theorem word_store (small : n < 2^64) : word (store memory a (toBytes 8 n)) a = n := by
  have back := window_store memory a (toBytes 8 n)
  rw [toBytes_length] at back
  rw [word,back,ofBytes_toBytes]
  exact Nat.mod_eq_of_lt small

-- A list threaded through memory: the first word of a block is the address of the next.
def Chain (memory : Nat → UInt8) : Nat → List Nat → Prop
  | head,[] => head = 0
  | head,b :: rest => head = b ∧ 0 < b ∧ Chain memory (word memory b) rest

theorem chain_congr (agree : ∀ b ∈ l, ∀ x, b ≤ x → x < b+8 → g x = f x) (chain : Chain f head l) : Chain g head l := by
  induction l generalizing head with
  | nil => exact chain
  | cons b rest ih =>
      obtain ⟨same,some,onward⟩ := chain
      refine ⟨same,some,?_⟩
      rw [word_congr (agree b List.mem_cons_self)]
      exact ih (fun c member => agree c (List.mem_cons_of_mem _ member)) onward

theorem chain_pop (chain : Chain memory head l) (some : head ≠ 0) :
    ∃ rest, l = head :: rest ∧ Chain memory (word memory head) rest := by
  cases l with
  | nil => exact absurd chain some
  | cons b rest =>
      obtain ⟨same,_,onward⟩ := chain
      subst same
      exact ⟨rest,rfl,onward⟩

theorem chain_push (chain : Chain memory head l) (some : 0 < a) (small : head < 2^64)
    (apart : ∀ b ∈ l, b+8 ≤ a ∨ a+8 ≤ b) : Chain (store memory a (toBytes 8 head)) a (a :: l) := by
  refine ⟨rfl,some,?_⟩
  rw [word_store small]
  apply chain_congr _ chain
  intro b member x lower upper
  apply store_outside
  rw [toBytes_length]
  have between := apart b member
  omega

-- The list a head leads to is one.
theorem chain_unique (chain : Chain memory head l) (other : Chain memory head m) : m = l := by
  induction l generalizing head m with
  | nil =>
      cases m with
      | nil => rfl
      | cons b rest =>
          have zero : head = 0 := chain
          obtain ⟨same,some,_⟩ := other
          omega
  | cons b rest ih =>
      obtain ⟨same,some,onward⟩ := chain
      cases m with
      | nil =>
          have zero : head = 0 := other
          omega
      | cons c more =>
          obtain ⟨again,_,further⟩ := other
          cases same.symm.trans again
          rw [ih onward further]

end GameServer.Memory
