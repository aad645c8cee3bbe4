import GameServer.Library.Memory
import Mathlib.Algebra.Ring.Int.Defs

namespace GameServer
open Bytes Memory

-- The integer types, the widest of them with 128 bits.
structure IntType where
  signed : Bool
  width : Nat
  some : 0 < width
  few : width ≤ 128

namespace IntType

def least (T : IntType) : Int := if T.signed then -2^(T.width-1) else 0
def most (T : IntType) : Int := if T.signed then 2^(T.width-1)-1 else 2^T.width-1

def conv (T : IntType) (n : Int) : Int := if T.signed then n.bmod (2^T.width) else n%2^T.width

structure Value (T : IntType) where
  val : Int
  above : T.least ≤ val
  below : val ≤ T.most

end IntType

structure Base where
  dec : Int
  above : 2 ≤ dec
  below : dec ≤ 10

namespace Itoa

-- "0123456789" with its 0.
def literal : List UInt8 := [48,49,50,51,52,53,54,55,56,57,0]

-- `none`: a read before the literal.
def literalAt (n : Int) : Option UInt8 := if n < 0 then none else literal[n.toNat]?

-- What the first loop writes, with so many places left in the buffer: behind
-- the last there is a write outside, and before it the test for that never
-- holds.
def digits (T : IntType) (dec : Int) : Nat → Int → Option (List UInt8)
  | 0,_ => none
  | places+1,n => (literalAt (n.tmod dec)).bind fun c =>
      let n := T.conv (n.tdiv dec)
      if n = 0 then some [c] else (digits T dec places n).map (c :: ·)

-- The three assignments of the second loop.
def exchange (i j : Nat) (buffer : Nat → UInt8) : Nat → UInt8 :=
  let buffer := Function.update buffer j (buffer i+buffer j)
  let buffer := Function.update buffer i (buffer j-buffer i)
  Function.update buffer j (buffer j-buffer i)

def cstring (buffer : Nat → UInt8) : List UInt8 := (window buffer 0 256).takeWhile (· ≠ 0)

end Itoa
open Itoa

def Itoa (T : IntType) (n dec : Int) : Option (List Char) :=
  (digits T dec 256 n).bind fun written =>
    if written.length = 256 then none
    else
      let buffer := store (fun _ => 0) 0 written
      let buffer := inward exchange 256 0 ((cstring buffer).length-1) buffer
      some ((cstring buffer).map fun c => Char.ofNat c.toNat)

namespace Itoa

def represent (dec : Nat) (n : Int) : List Char := if n < 0 then '-' :: Nat.toDigits dec n.natAbs else Nat.toDigits dec n.natAbs

def parse (dec : Nat) : List Char → Int
  | '-' :: str => -(Nat.ofDigitChars dec str 0 : Int)
  | str => Nat.ofDigitChars dec str 0

-- The usual representation: it parses back, starts with no 0 unless it is 0,
-- and is what was written from its end.
structure Usual (T : IntType) (n dec : Int) (str : List Char) : Prop where
  same : str = represent dec.toNat n
  back : parse dec.toNat str = n
  short : n ≠ 0 → (str.dropWhile (· = '-')).head? ≠ some '0'
  kept : ∃ written, digits T dec 256 n = some written ∧ str = (written.map fun c => Char.ofNat c.toNat).reverse

def Right (T : IntType) (n dec : Int) : Prop := ∃ str, Itoa T n dec = some str ∧ Usual T n dec str

-- A quotient goes towards 0, so it is in the type of n.
theorem quotient_between (n : Int) {dec : Int} (base : 2 ≤ dec) : 0 ≤ n ∧ 0 ≤ n.tdiv dec ∧ n.tdiv dec ≤ n ∨ n < 0 ∧ n ≤ n.tdiv dec ∧ n.tdiv dec ≤ 0 := by
  obtain negative | positive := Int.lt_or_le n 0
  · obtain ⟨m,rfl⟩ : ∃ m, n = -m := ⟨-n,by omega⟩
    have above := Int.tdiv_nonneg (a := m) (b := dec) (by omega) (by omega)
    have below := Int.tdiv_le_self (a := m) dec (by omega)
    rw [Int.neg_tdiv]
    exact Or.inr ⟨negative,by omega,by omega⟩
  · exact Or.inl ⟨positive,Int.tdiv_nonneg positive (by omega),Int.tdiv_le_self dec positive⟩

theorem conv_id {T : IntType} {n : Int} (above : T.least ≤ n) (below : n ≤ T.most) : T.conv n = n := by
  obtain ⟨signed,width,some,few⟩ := T
  unfold IntType.least IntType.most IntType.conv at *
  cases signed with
  | true =>
      have double : (2 : Int)^width = 2*2^(width-1) := by
        rw [← Int.pow_succ',Nat.sub_add_cancel some]
      have whole : ((2^width : Nat) : Int) = 2^width := by norm_cast
      simp only [if_true] at *
      exact Int.bmod_eq_of_le (by omega) (by omega)
  | false =>
      simp only [Bool.false_eq_true,if_false] at *
      exact Int.emod_eq_of_lt above (by omega)

theorem conv_quotient {T : IntType} {n dec : Int} (above : T.least ≤ n) (below : n ≤ T.most) (base : 2 ≤ dec) :
    T.conv (n.tdiv dec) = n.tdiv dec ∧ T.least ≤ n.tdiv dec ∧ n.tdiv dec ≤ T.most := by
  have zero : T.least ≤ 0 ∧ 0 ≤ T.most := by
    unfold IntType.least IntType.most
    have half : (0 : Int) < 2^(T.width-1) := Int.pow_pos (by decide)
    have whole : (0 : Int) < 2^T.width := Int.pow_pos (by decide)
    split <;> omega
  have between := quotient_between n base
  have within : T.least ≤ n.tdiv dec ∧ n.tdiv dec ≤ T.most := by omega
  exact ⟨conv_id within.1 within.2,within⟩

-- The last digits of a negative number are at places before the literal, but
-- for those that are 0, and the first is not.
theorem digits_negative {T : IntType} {n dec : Int} (above : T.least ≤ n) (below : n ≤ T.most) (base : 2 ≤ dec) (negative : n < 0) (places : Nat) :
    digits T dec places n = none := by
  induction places generalizing n with
  | zero => rfl
  | succ places ih =>
      have parts := Int.tmod_add_mul_tdiv n dec
      have last : n.tmod dec ≤ 0 := by
        have opposite := Int.tmod_nonneg (a := -n) dec (by omega)
        rw [Int.neg_tmod] at opposite
        omega
      obtain ⟨same,above',below'⟩ := conv_quotient above below base
      rw [digits]
      by_cases zero : n.tmod dec = 0
      · have going : n.tdiv dec ≠ 0 := by
          intro none
          rw [zero,none,Int.mul_zero] at parts
          omega
        have down : n.tdiv dec < 0 := by
          have between := quotient_between n base
          omega
        cases literalAt (n.tmod dec) with
        | none => rfl
        | some c =>
            rw [Option.bind_some]
            dsimp only
            rw [same,if_neg going,ih above' below' down]
            rfl
      · rw [literalAt,if_pos (by omega)]
        rfl

def byte (c : Char) : UInt8 := UInt8.ofNat c.toNat

theorem literal_digit : ∀ k < 10, literal[k]? = some (byte (Nat.digitChar k)) ∧ byte (Nat.digitChar k) ≠ 0 ∧
    Char.ofNat (byte (Nat.digitChar k)).toNat = Nat.digitChar k := by decide

theorem digits_positive {T : IntType} {n dec : Nat} (above : T.least ≤ n) (below : (n : Int) ≤ T.most) (base : 2 ≤ dec) (most : dec ≤ 10)
    (places : Nat) (few : (Nat.toDigits dec n).length ≤ places) :
    digits T dec places n = some ((Nat.toDigits dec n).reverse.map byte) := by
  induction places generalizing n with
  | zero => exact absurd (Nat.length_toDigits_pos (b := dec) (n := n)) (by omega)
  | succ places ih =>
      obtain ⟨same,above',below'⟩ := conv_quotient above below (show (2 : Int) ≤ (dec : Int) by omega)
      have quotient : (n : Int).tdiv dec = (n/dec : Nat) := rfl
      have remainder : (n : Int).tmod dec = (n%dec : Nat) := rfl
      have small := Nat.mod_lt n (show 0 < dec by omega)
      have shown : literalAt ((n%dec : Nat) : Int) = some (byte (Nat.digitChar (n%dec))) := by
        rw [literalAt,if_neg (by omega)]
        exact (literal_digit (n%dec) (by omega)).1
      rw [quotient] at same above' below'
      rw [digits,quotient,remainder,shown,Option.bind_some]
      dsimp only
      rw [same]
      rw [Nat.toDigits_eq_if (by omega)] at few ⊢
      by_cases single : n < dec
      · rw [if_pos single,if_pos (by rw [Nat.div_eq_of_lt single]; rfl),Nat.mod_eq_of_lt single]
        rfl
      · have going : n/dec ≠ 0 := Nat.ne_of_gt (Nat.div_pos (by omega) (by omega))
        rw [if_neg single,List.length_append] at few
        rw [if_neg single,if_neg (by omega),ih above' below' (Nat.le_of_succ_le_succ few)]
        simp

theorem exchange_swaps (i j : Nat) (buffer : Nat → UInt8) (k : Nat) (apart : i < j) :
    exchange i j buffer k = if k = i then buffer j else if k = j then buffer i else buffer k := by
  have other : i ≠ j := Nat.ne_of_lt apart
  have first : buffer i+buffer j-buffer i = buffer j := by rw [UInt8.add_comm,UInt8.add_sub_cancel]
  have second : buffer i+buffer j-buffer j = buffer i := UInt8.add_sub_cancel ..
  unfold exchange
  by_cases left : k = i
  · subst left
    simp [other,other.symm,first]
  · by_cases right : k = j
    · subst right
      simp [other,other.symm,first,second]
    · simp [left,right]

-- A buffer with a string that is followed by 0.
theorem cstring_eq {buffer : Nat → UInt8} {str : List UInt8} (lies : window buffer 0 str.length = str) (chars : ∀ c ∈ str, c ≠ 0)
    (fits : str.length < 256) (ends : buffer str.length = 0) : cstring buffer = str := by
  obtain ⟨rest,whole⟩ : ∃ rest, 256 = str.length+(rest+1) := ⟨255-str.length,by omega⟩
  rw [cstring,whole,window_add,lies,Nat.zero_add,window,ends,List.takeWhile_append_of_pos (by simpa using chars)]
  simp

theorem itoa_written {T : IntType} {n dec : Int} {written : List UInt8} (wrote : digits T dec 256 n = some written)
    (chars : ∀ c ∈ written, c ≠ 0) (some : 0 < written.length) (fits : written.length < 256) :
    Itoa T n dec = .some ((written.map fun c => Char.ofNat c.toNat).reverse) := by
  have before : cstring (store (fun _ => 0) 0 written) = written :=
    cstring_eq (window_store _ _ _) chars fits (store_outside (Or.inr (by omega)))
  have lies : window (inward exchange 256 0 (written.length-1) (store (fun _ => 0) 0 written)) 0 written.length = written.reverse := by
    rw [window_inward exchange_swaps (by omega) some,window_store]
  have after : cstring (inward exchange 256 0 (written.length-1) (store (fun _ => 0) 0 written)) = written.reverse := by
    refine cstring_eq ?_ ?_ ?_ ?_
    · rw [List.length_reverse]
      exact lies
    · intro c member
      exact chars c (List.mem_reverse.mp member)
    · rwa [List.length_reverse]
    · rw [List.length_reverse,inward_turns exchange_swaps (by omega),if_neg (by omega)]
      exact store_outside (Or.inr (by omega))
  rw [Itoa,wrote,Option.bind_some,if_neg (Nat.ne_of_lt fits)]
  dsimp only
  rw [before,after,List.map_reverse]

theorem toDigits_bytes {dec : Nat} (base : 2 ≤ dec) (most : dec ≤ 10) (n : Nat) :
    ∀ c ∈ Nat.toDigits dec n, byte c ≠ 0 ∧ Char.ofNat (byte c).toNat = c := by
  induction n using Nat.strongRecOn with
  | ind n ih =>
      rw [Nat.toDigits_eq_if (by omega)]
      split
      · rename_i single
        simpa using (literal_digit n (by omega)).2
      · rename_i more
        intro c member
        obtain before | last := List.mem_append.mp member
        · exact ih (n/dec) (Nat.div_lt_self (by omega) base) c before
        · rw [List.mem_singleton.mp last]
          exact (literal_digit (n%dec) (Nat.lt_of_lt_of_le (Nat.mod_lt n (by omega)) most)).2

theorem no_sign {dec : Nat} (base : 2 ≤ dec) (most : dec ≤ 10) (n : Nat) : '-' ∉ Nat.toDigits dec n := by
  intro member
  have digit := Nat.isDigit_of_mem_toDigits (by omega) most member
  cases digit

theorem plain_digits {dec : Nat} (base : 2 ≤ dec) (most : dec ≤ 10) (n : Nat) :
    (Nat.toDigits dec n).dropWhile (· = '-') = Nat.toDigits dec n := by
  have bare := no_sign base most n
  cases shown : Nat.toDigits dec n with
  | nil => rfl
  | cons c rest =>
      rw [shown] at bare
      have other : c ≠ '-' := fun same => bare (same ▸ List.mem_cons_self)
      rw [List.dropWhile_cons,if_neg (by simpa using other)]

theorem parse_digits {dec : Nat} (base : 2 ≤ dec) (most : dec ≤ 10) (n : Nat) : parse dec (Nat.toDigits dec n) = n := by
  unfold parse
  split
  · rename_i str shown
    exact absurd (shown ▸ List.mem_cons_self) (no_sign base most n)
  · rw [Nat.ofDigitChars_toDigits (by omega) most]

theorem few_digits {T : IntType} {dec n : Nat} (below : (n : Int) ≤ T.most) (base : 2 ≤ dec) : (Nat.toDigits dec n).length ≤ 128 := by
  rw [Nat.length_toDigits_le_iff base (by decide)]
  have wide : n < 2^T.width := by
    have double : (2 : Int)^T.width = 2*2^(T.width-1) := by
      rw [← Int.pow_succ',Nat.sub_add_cancel T.some]
    have half : (0 : Int) < 2^(T.width-1) := Int.pow_pos (by decide)
    have most : T.most < 2^T.width := by
      unfold IntType.most
      split <;> omega
    exact_mod_cast Int.lt_of_le_of_lt below most
  calc
    n < 2^T.width := wide
    _ ≤ 2^128 := Nat.pow_le_pow_right (by decide) T.few
    _ ≤ dec^128 := Nat.pow_le_pow_left base 128

theorem no_leading_zero {dec : Nat} (base : 2 ≤ dec) {n : Nat} (some : n ≠ 0) (most : dec ≤ 10) : (Nat.toDigits dec n).head? ≠ .some '0' := by
  induction n using Nat.strongRecOn with
  | ind n ih =>
      rw [Nat.toDigits_eq_if (by omega)]
      split
      · rename_i single
        have nonzero : ∀ k < 10, k ≠ 0 → Nat.digitChar k ≠ '0' := by decide
        simpa using nonzero n (by omega) some
      · rename_i more
        have earlier := ih (n/dec) (Nat.div_lt_self (by omega) base) (Nat.ne_of_gt (Nat.div_pos (by omega) (by omega)))
        rw [List.head?_append]
        cases shown : (Nat.toDigits dec (n/dec)).head? with
        | none => exact absurd (List.head?_eq_none_iff.mp shown) Nat.toDigits_ne_nil
        | some c =>
            rw [shown] at earlier
            exact earlier

theorem itoa_iff (T : IntType) (n : T.Value) (b : Base) : Right T n.val b.dec ↔ 0 ≤ n.val := by
  obtain ⟨n,above,below⟩ := n
  obtain ⟨dec,base,most⟩ := b
  dsimp only
  obtain negative | positive := Int.lt_or_le n 0
  · refine iff_of_false ?_ (Int.not_le.mpr negative)
    intro ⟨str,_,usual⟩
    obtain ⟨written,wrote,_⟩ := usual.kept
    rw [digits_negative above below base negative] at wrote
    cases wrote
  · obtain ⟨n,rfl⟩ := Int.eq_ofNat_of_zero_le positive
    obtain ⟨dec,rfl⟩ := Int.eq_ofNat_of_zero_le (show 0 ≤ dec by omega)
    refine iff_of_true ?_ positive
    have base : 2 ≤ dec := by omega
    have wrote := digits_positive above below base (by omega) 256 (Nat.le_trans (few_digits below base) (by decide))
    have chars : ∀ c ∈ Nat.toDigits dec n, byte c ≠ 0 ∧ Char.ofNat (byte c).toNat = c := toDigits_bytes base (by omega) n
    have ran := itoa_written wrote (by simpa using fun c member => (chars c member).1) (by simpa using Nat.length_toDigits_pos)
      (by simpa using Nat.lt_of_le_of_lt (few_digits below base) (by decide))
    have shown : (((Nat.toDigits dec n).reverse.map byte).map fun c => Char.ofNat c.toNat).reverse = Nat.toDigits dec n := by
      rw [List.map_reverse,List.map_reverse,List.reverse_reverse,List.map_map]
      exact (List.map_congr_left fun c member => (chars c member).2).trans (List.map_id _)
    rw [shown] at ran
    refine ⟨_,ran,?_,?_,?_,_,wrote,shown.symm⟩
    · simp [represent]
    · exact parse_digits base (by omega) n
    · intro some
      rw [plain_digits base (by omega)]
      exact no_leading_zero base (by omega) (by omega)

-- -1 reads the place before the digits.
theorem minus_one : ¬ ∀ (T : IntType) (n : T.Value) (b : Base), Right T n.val b.dec := by
  intro every
  obtain ⟨str,ran,_⟩ := every ⟨true,32,by decide,by decide⟩ ⟨-1,by decide,by decide⟩ ⟨10,by decide,by decide⟩
  cases ran

end Itoa

end GameServer
