import Mathlib.Tactic.Ring

namespace GameServer.Bytes

-- Little-endian words of any width.
def toBytes : Nat → Nat → List UInt8
  | 0,_ => []
  | width+1,n => UInt8.ofNat n :: toBytes width (n/256)

def ofBytes : List UInt8 → Nat
  | [] => 0
  | b :: rest => b.toNat + 256*ofBytes rest

@[simp] theorem toBytes_length (width n : Nat) : (toBytes width n).length = width := by
  induction width generalizing n with
  | zero => rfl
  | succ width ih => simp [toBytes,ih]

theorem ofBytes_toBytes (width n : Nat) : ofBytes (toBytes width n) = n % 256^width := by
  induction width generalizing n with
  | zero => simp [toBytes,ofBytes,Nat.mod_one]
  | succ width ih =>
      have byte : (UInt8.ofNat n).toNat = n % 256 := by simp
      rw [toBytes,ofBytes,ih,byte,Nat.pow_succ,Nat.mul_comm (256^width),Nat.mod_mul]

theorem toBytes_inj {a b : BitVec (8*width)} (same : toBytes width a.toNat = toBytes width b.toNat) : a = b := by
  have pow : 256^width = 2^(8*width) := by rw [Nat.pow_mul]
  have equal := congrArg ofBytes same
  rw [ofBytes_toBytes,ofBytes_toBytes,pow,Nat.mod_eq_of_lt a.isLt,Nat.mod_eq_of_lt b.isLt] at equal
  exact BitVec.eq_of_toNat_eq equal

-- As many records of one width each are told apart, whatever follows them.
theorem records_inj {α : Type _} {enc : α → List UInt8} {width : Nat} (fixed : ∀ a, (enc a).length = width)
    (exact_ : ∀ a b, enc a = enc b → a = b) {xs ys : List α} (many : xs.length = ys.length) {front back : List UInt8}
    (same : xs.flatMap enc ++ front = ys.flatMap enc ++ back) : xs = ys ∧ front = back := by
  induction xs generalizing ys with
  | nil =>
      cases List.eq_nil_of_length_eq_zero many.symm
      exact ⟨rfl,same⟩
  | cons x rest ih =>
      cases ys with
      | nil => cases many
      | cons y later =>
          rw [List.flatMap_cons,List.flatMap_cons,List.append_assoc,List.append_assoc] at same
          obtain ⟨first,others⟩ := List.append_inj same ((fixed x).trans (fixed y).symm)
          obtain ⟨rfl,ends⟩ := ih (Nat.succ.inj many) others
          exact ⟨congrArg (· :: rest) (exact_ x y first),ends⟩

-- The bytes at an address.
def window (memory : Nat → UInt8) (address : Nat) : Nat → List UInt8
  | 0 => []
  | n+1 => memory address :: window memory (address+1) n

variable {memory : Nat → UInt8} {address : Nat}

@[simp] theorem window_length (memory : Nat → UInt8) (address n : Nat) : (window memory address n).length = n := by
  induction n generalizing address with
  | zero => rfl
  | succ n ih => simp [window,ih]

theorem window_add (memory : Nat → UInt8) (address a b : Nat) :
    window memory address (a+b) = window memory address a ++ window memory (address+a) b := by
  induction a generalizing address with
  | zero => simp [window]
  | succ a ih =>
      have shift : address+1+a = address+(a+1) := by omega
      rw [Nat.add_right_comm,window,window,ih,shift,List.cons_append]

theorem window_take (small : a ≤ n) : (window memory address n).take a = window memory address a := by
  obtain ⟨b,rfl⟩ := Nat.exists_eq_add_of_le small
  rw [window_add]
  exact List.take_left' (window_length ..)

theorem window_drop (small : a ≤ n) : (window memory address n).drop a = window memory (address+a) (n-a) := by
  obtain ⟨b,rfl⟩ := Nat.exists_eq_add_of_le small
  rw [window_add,Nat.add_sub_cancel_left]
  exact List.drop_left' (window_length ..)

-- A block that lies in memory: each of its two halves lies behind the other.
theorem window_append {front back : List UInt8}
    (lies : window memory address (front ++ back).length = front ++ back) :
    window memory address front.length = front ∧ window memory (address+front.length) back.length = back := by
  rw [List.length_append,window_add] at lies
  exact List.append_inj lies (window_length ..)

end GameServer.Bytes
