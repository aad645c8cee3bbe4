import GameServer.Common.Uncompress
import Mathlib.Data.Nat.ModEq
import Mathlib.Tactic.Ring

-- The checksum behind a zlib stream.
namespace GameServer.Common.Adler
open TInf Readers Huffman Deflate

def byteSum (bytes : List UInt8) : Nat := (bytes.map UInt8.toNat).sum

-- Every byte as often as there are bytes from it on.
def weighted : List UInt8 → Nat
  | [] => 0
  | byte :: bytes => (bytes.length+1)*byte.toNat + weighted bytes

-- One more than the bytes, and the sum of these sums as they come along.
def checksum (bytes : List UInt8) : Nat := (bytes.length + weighted bytes) % 65521 * 65536 + (1 + byteSum bytes) % 65521

section sums

theorem byteSum_append (one two : List UInt8) : byteSum (one ++ two) = byteSum one + byteSum two := by
  unfold byteSum
  rw [List.map_append,List.sum_append]

theorem weighted_append (one two : List UInt8) : weighted (one ++ two) = weighted one + two.length*byteSum one + weighted two := by
  induction one with
  | nil => simp [weighted,byteSum]
  | cons byte one ih =>
      have sum : byteSum (byte :: one) = byte.toNat + byteSum one := by simp [byteSum]
      rw [List.cons_append,weighted,weighted,ih,List.length_append,sum]
      ring

theorem byteSum_le (bytes : List UInt8) : byteSum bytes ≤ 255*bytes.length := by
  induction bytes with
  | nil => exact Nat.le_refl 0
  | cons byte bytes ih =>
      have sum : byteSum (byte :: bytes) = byte.toNat + byteSum bytes := by simp [byteSum]
      have := byte.toNat_lt
      rw [sum,List.length_cons]
      omega

theorem weighted_le (bytes : List UInt8) : 2*weighted bytes ≤ 255*(bytes.length*(bytes.length+1)) := by
  induction bytes with
  | nil => exact Nat.le_refl 0
  | cons byte bytes ih =>
      have small : byte.toNat ≤ 255 := Nat.le_of_lt_succ byte.toNat_lt
      have first : (bytes.length+1)*byte.toNat ≤ (bytes.length+1)*255 := Nat.mul_le_mul_left _ small
      have square : (bytes.length+1)*(bytes.length+1+1) = bytes.length*(bytes.length+1) + 2*(bytes.length+1) := by ring
      rw [weighted,List.length_cons,square]
      omega

end sums

section rounds

theorem bytes_read (n : Nat) (buf : List UInt8) (s : UInt32 × UInt32) : adlerBytes n buf s =
    if n ≤ buf.length then some (buf.drop n,(buf.take n).foldl adlerByte s) else none := by
  induction n generalizing buf s with
  | zero => rfl
  | succ n ih =>
      cases buf with
      | nil => rfl
      | cons byte buf =>
          rw [adlerBytes,ih]
          simp

theorem sixteens_read (i : Nat) (buf : List UInt8) (s : UInt32 × UInt32) : adlerSixteens i buf s =
    if 16*i ≤ buf.length then some (buf.drop (16*i),(buf.take (16*i)).foldl adlerByte s) else none := by
  induction i generalizing buf s with
  | zero => rfl
  | succ i ih =>
      rw [adlerSixteens,bytes_read]
      by_cases first : 16 ≤ buf.length
      · rw [if_pos first]
        show adlerSixteens i (buf.drop 16) ((buf.take 16).foldl adlerByte s) = _
        rw [ih,List.length_drop,List.drop_drop,←List.foldl_append,show 16*(i+1) = 16 + 16*i by omega,List.take_add]
        by_cases later : 16*i ≤ buf.length-16
        · rw [if_pos later,if_pos (by omega)]
        · rw [if_neg later,if_neg (by omega)]
      · rw [if_neg first,if_neg (by omega)]
        rfl

theorem round_read (k : Nat) (buf : List UInt8) (s : UInt32 × UInt32) : adlerRound k buf s =
    if k ≤ buf.length then some (buf.drop k,((buf.take k).foldl adlerByte s).1 % A32_BASE,((buf.take k).foldl adlerByte s).2 % A32_BASE)
    else none := by
  have parts : k = 16*(k/16) + k % 16 := (Nat.div_add_mod k 16).symm
  unfold adlerRound
  rw [sixteens_read]
  by_cases first : 16*(k/16) ≤ buf.length
  · rw [if_pos first]
    show (adlerBytes (k % 16) (buf.drop (16*(k/16))) _).bind _ = _
    rw [bytes_read,List.length_drop,List.drop_drop,←parts,←List.foldl_append,←List.take_add,←parts]
    by_cases later : k % 16 ≤ buf.length - 16*(k/16)
    · rw [if_pos later,if_pos (by omega)]
      rfl
    · rw [if_neg later,if_neg (by omega)]
      rfl
  · rw [if_neg first,if_neg (by omega)]
    rfl

-- Without overflow, as long as there is room.
theorem fold_sums (bytes : List UInt8) (s : UInt32 × UInt32)
    (room : s.2.toNat + bytes.length*s.1.toNat + weighted bytes < 2^32) (room' : s.1.toNat + byteSum bytes < 2^32) :
    (bytes.foldl adlerByte s).1.toNat = s.1.toNat + byteSum bytes ∧
    (bytes.foldl adlerByte s).2.toNat = s.2.toNat + bytes.length*s.1.toNat + weighted bytes := by
  induction bytes generalizing s with
  | nil => simp [byteSum,weighted]
  | cons byte bytes ih =>
      have sum : byteSum (byte :: bytes) = byte.toNat + byteSum bytes := by simp [byteSum]
      rw [sum] at room' ⊢
      rw [weighted,List.length_cons] at room ⊢
      have whole : s.2.toNat + (bytes.length+1)*s.1.toNat + ((bytes.length+1)*byte.toNat + weighted bytes) =
          s.2.toNat + (s.1.toNat + byte.toNat) + bytes.length*(s.1.toNat + byte.toNat) + weighted bytes := by ring
      rw [whole] at room ⊢
      have first : (adlerByte s byte).1.toNat = s.1.toNat + byte.toNat := by
        unfold adlerByte
        rw [UInt32.toNat_add,UInt8.toNat_toUInt32]
        exact Nat.mod_eq_of_lt (by omega)
      have second : (adlerByte s byte).2.toNat = s.2.toNat + (s.1.toNat + byte.toNat) := by
        rw [←first]
        change (s.2 + (adlerByte s byte).1).toNat = _
        rw [UInt32.toNat_add,first]
        exact Nat.mod_eq_of_lt (by omega)
      obtain ⟨one,two⟩ := ih (adlerByte s byte) (by rw [first,second]; exact room) (by rw [first]; omega)
      rw [List.foldl_cons,one,two,first,second]
      omega

-- 5552 bytes are as many as 32 bits have room for.
theorem room_left (n a b : Nat) (few : n ≤ A32_NMAX) (small : a < 65521) (small' : b < 65521) (bytes : List UInt8)
    (long : bytes.length ≤ n) : b + bytes.length*a + weighted bytes < 2^32 ∧ a + byteSum bytes < 2^32 := by
  have few : bytes.length ≤ 5552 := Nat.le_trans long few
  have sums := byteSum_le bytes
  have weights := weighted_le bytes
  have product : bytes.length*a ≤ 5552*65520 := Nat.mul_le_mul few (Nat.le_of_lt_succ small)
  have square : bytes.length*(bytes.length+1) ≤ 5552*5553 := Nat.mul_le_mul few (Nat.succ_le_succ few)
  omega

theorem loop_sums (rounds : Nat) (buf : List UInt8) (length : Nat) (s : UInt32 × UInt32) (enough : length ≤ rounds)
    (there : length ≤ buf.length) (small : s.1.toNat < 65521) (small' : s.2.toNat < 65521) :
    ∃ s', adlerLoop rounds buf length s = some s' ∧ s'.1.toNat = (s.1.toNat + byteSum (buf.take length)) % 65521 ∧
      s'.2.toNat = (s.2.toNat + length*s.1.toNat + weighted (buf.take length)) % 65521 := by
  induction rounds generalizing buf length s with
  | zero =>
      rw [Nat.le_zero.mp enough]
      refine ⟨s,rfl,?_⟩
      simp only [List.take_zero,byteSum,weighted,List.map_nil,List.sum_nil]
      omega
  | succ rounds ih =>
      unfold adlerLoop
      by_cases none : length = 0
      · rw [if_pos none,none]
        refine ⟨s,rfl,?_⟩
        simp only [List.take_zero,byteSum,weighted,List.map_nil,List.sum_nil]
        omega
      · rw [if_neg none]
        dsimp only
        generalize most : (if length < A32_NMAX then length else A32_NMAX) = k
        have bounds : 0 < k ∧ k ≤ A32_NMAX ∧ k ≤ length := by
          rw [←most]
          unfold A32_NMAX
          split <;> omega
        have taken : (buf.take k).length = k := by
          rw [List.length_take]
          omega
        obtain ⟨room,room'⟩ := room_left k s.1.toNat s.2.toNat bounds.2.1 small small' (buf.take k) (by omega)
        obtain ⟨one,two⟩ := fold_sums (buf.take k) s room room'
        rw [round_read,if_pos (by omega)]
        generalize reached : (((buf.take k).foldl adlerByte s).1 % A32_BASE,((buf.take k).foldl adlerByte s).2 % A32_BASE) = next
        have first : next.1.toNat = (s.1.toNat + byteSum (buf.take k)) % 65521 := by
          rw [←reached,UInt32.toNat_mod,one]
          rfl
        have second : next.2.toNat = (s.2.toNat + k*s.1.toNat + weighted (buf.take k)) % 65521 := by
          rw [←reached,UInt32.toNat_mod,two,taken]
          rfl
        obtain ⟨s',ran,later,later'⟩ := ih (buf.drop k) (length-k) next (by omega) (by rw [List.length_drop]; omega)
          (by rw [first]; exact Nat.mod_lt _ (by decide)) (by rw [second]; exact Nat.mod_lt _ (by decide))
        have parts : buf.take length = buf.take k ++ (buf.drop k).take (length-k) := by
          rw [←List.take_add,Nat.add_sub_cancel' bounds.2.2]
        have left : ((buf.drop k).take (length-k)).length = length-k := by
          rw [List.length_take,List.length_drop]
          omega
        refine ⟨s',ran,?_⟩
        rw [later,later',first,second,parts,byteSum_append,weighted_append,left]
        obtain ⟨m,rfl⟩ := Nat.exists_eq_add_of_le bounds.2.2
        rw [Nat.add_sub_cancel_left]
        refine ⟨?_,?_⟩
        · rw [Nat.mod_add_mod,Nat.add_assoc]
        · have same := ((Nat.mod_modEq (s.2.toNat + k*s.1.toNat + weighted (buf.take k)) 65521).add
            ((Nat.mod_modEq (s.1.toNat + byteSum (buf.take k)) 65521).mul_left m)).add_right (weighted ((buf.drop k).take m))
          refine Eq.trans same (congrArg (· % 65521) ?_)
          ring

theorem loop_past (rounds : Nat) (buf : List UInt8) (length : Nat) (s : UInt32 × UInt32) (enough : length ≤ rounds)
    (short : buf.length < length) : adlerLoop rounds buf length s = none := by
  induction rounds generalizing buf length s with
  | zero => omega
  | succ rounds ih =>
      unfold adlerLoop
      rw [if_neg (by omega)]
      dsimp only
      generalize most : (if length < A32_NMAX then length else A32_NMAX) = k
      have bounds : 0 < k ∧ k ≤ length := by
        rw [←most]
        unfold A32_NMAX
        split <;> omega
      rw [round_read]
      by_cases here : k ≤ buf.length
      · rw [if_pos here]
        exact ih (buf.drop k) (length-k) _ (by omega) (by rw [List.length_drop]; omega)
      · rw [if_neg here]
        rfl

end rounds

theorem checksum_lt (bytes : List UInt8) : checksum bytes < 2^32 := by
  unfold checksum
  omega

-- 16 bits each, the second sum above the first.
theorem pair_word (one two : UInt32) (small : one.toNat < 65536) (small' : two.toNat < 65536) :
    ((two <<< 16) ||| one).toNat = two.toNat*65536 + one.toNat := by
  rw [UInt32.toNat_or,UInt32.toNat_shiftLeft,show (16 : UInt32).toNat % 32 = 16 from rfl,Nat.shiftLeft_eq,
    Nat.mod_eq_of_lt (by omega),Nat.mul_comm,show (2:Nat)^16*two.toNat = 2^16*two.toNat from rfl]
  exact (Nat.two_pow_add_eq_or_of_lt (by omega) two.toNat).symm

theorem adler32_there (data : List UInt8) (length : UInt32) (there : length.toNat ≤ data.length) :
    adler32 data length = some (UInt32.ofNat (checksum (data.take length.toNat))) := by
  obtain ⟨s,ran,one,two⟩ := loop_sums length.toNat data length.toNat (1,0) (Nat.le_refl _) there (by decide) (by decide)
  have sums : (1 : UInt32).toNat = 1 ∧ (0 : UInt32).toNat = 0 := ⟨rfl,rfl⟩
  have long : (data.take length.toNat).length = length.toNat := by
    rw [List.length_take]
    omega
  simp only [sums,Nat.mul_one,Nat.zero_add] at one two
  unfold adler32
  rw [ran]
  refine congrArg some (UInt32.toNat_inj.mp ?_)
  rw [pair_word _ _ (by rw [one]; omega) (by rw [two]; omega),one,two,UInt32.toNat_ofNat',Nat.mod_eq_of_lt (checksum_lt _),checksum,long]

theorem adler32_checksum (data : List UInt8) (length : UInt32) : adler32 data length =
    if length.toNat ≤ data.length then some (UInt32.ofNat (checksum (data.take length.toNat))) else none := by
  by_cases there : length.toNat ≤ data.length
  · rw [if_pos there,adler32_there data length there]
  · unfold adler32
    rw [if_neg there,loop_past _ _ _ _ (Nat.le_refl _) (by omega)]
    rfl

section streams

-- The two bytes in front: a multiple of 31, the method and the window, no dictionary.
structure Header (cmf flg : UInt8) : Prop where
  check : (256*cmf.toNat + flg.toNat) % 31 = 0
  method : cmf.toNat % 16 = 8
  window : cmf.toNat / 16 ≤ 7
  plain : flg.toNat / 32 % 2 = 0

def bigEndian (bytes : List UInt8) : Nat := bytes.foldl (fun n byte => 256*n + byte.toNat) 0

theorem check_word (cmf flg : UInt8) : (256*cmf.toUInt32 + flg.toUInt32) % 31 ≠ 0 ↔ (256*cmf.toNat + flg.toNat) % 31 ≠ 0 := by
  have := cmf.toNat_lt
  have := flg.toNat_lt
  have word : (256*cmf.toUInt32 + flg.toUInt32).toNat = 256*cmf.toNat + flg.toNat := by
    rw [UInt32.toNat_add,UInt32.toNat_mul,UInt8.toNat_toUInt32,UInt8.toNat_toUInt32,show (256 : UInt32).toNat = 256 from rfl]
    omega
  rw [ne_eq,←UInt32.toNat_inj,UInt32.toNat_mod,word]
  rfl

theorem byte_tests (byte : UInt8) : (byte &&& 0x0f = 8 ↔ byte.toNat % 16 = 8) ∧ (byte >>> 4 > 7 ↔ byte.toNat / 16 > 7) ∧
    (byte &&& 0x20 = 0 ↔ byte.toNat / 32 % 2 = 0) := by
  have all : ∀ n : Fin 256, (UInt8.ofNat n.val &&& 0x0f = 8 ↔ n.val % 16 = 8) ∧ (UInt8.ofNat n.val >>> 4 > 7 ↔ n.val / 16 > 7) ∧
      (UInt8.ofNat n.val &&& 0x20 = 0 ↔ n.val / 32 % 2 = 0) := by decide +kernel
  have here := all ⟨byte.toNat,byte.toNat_lt⟩
  rw [UInt8.ofNat_toNat] at here
  exact here

theorem last_bytes (source : List UInt8) (fits : source.length < 2^32) (b3 b2 b1 b0 : UInt8) :
    (source[(UInt32.ofNat source.length - 4).toNat]? = some b3 ∧ source[(UInt32.ofNat source.length - 3).toNat]? = some b2 ∧
      source[(UInt32.ofNat source.length - 2).toNat]? = some b1 ∧ source[(UInt32.ofNat source.length - 1).toNat]? = some b0) ↔
    4 ≤ source.length ∧ source.drop (source.length-4) = [b3,b2,b1,b0] := by
  have place : ∀ k : Nat, k ≤ source.length → k < 2^32 → (UInt32.ofNat source.length - UInt32.ofNat k).toNat = source.length - k := by
    intro k le small
    rw [UInt32.toNat_sub,UInt32.toNat_ofNat',UInt32.toNat_ofNat']
    omega
  constructor
  · rintro ⟨three,two,one,zero⟩
    have enough : 4 ≤ source.length := by
      by_contra short
      have wraps : (UInt32.ofNat source.length - UInt32.ofNat 4).toNat = 2^32 + source.length - 4 := by
        rw [UInt32.toNat_sub,UInt32.toNat_ofNat',UInt32.toNat_ofNat']
        omega
      have inside := (List.getElem?_eq_some_iff.mp three).1
      change (UInt32.ofNat source.length - UInt32.ofNat 4).toNat < _ at inside
      omega
    refine ⟨enough,?_⟩
    change source[(UInt32.ofNat source.length - UInt32.ofNat 4).toNat]? = _ at three
    change source[(UInt32.ofNat source.length - UInt32.ofNat 3).toNat]? = _ at two
    change source[(UInt32.ofNat source.length - UInt32.ofNat 2).toNat]? = _ at one
    change source[(UInt32.ofNat source.length - UInt32.ofNat 1).toNat]? = _ at zero
    rw [place _ (by omega) (by decide)] at three two one zero
    have four : (source.drop (source.length-4)).length = 4 := by
      rw [List.length_drop]
      omega
    match last : source.drop (source.length-4) with
    | [c3,c2,c1,c0] =>
        have entry : ∀ i, (source.drop (source.length-4))[i]? = source[source.length-4+i]? := fun i => List.getElem?_drop
        have e3 := entry 0
        have e2 := entry 1
        have e1 := entry 2
        have e0 := entry 3
        rw [last] at e3 e2 e1 e0
        rw [show source.length-4+0 = source.length-4 from rfl,three] at e3
        rw [show source.length-4+1 = source.length-3 by omega,two] at e2
        rw [show source.length-4+2 = source.length-2 by omega,one] at e1
        rw [show source.length-4+3 = source.length-1 by omega,zero] at e0
        cases e3
        cases e2
        cases e1
        cases e0
        rfl
    | [] | [_] | [_,_] | [_,_,_] | _ :: _ :: _ :: _ :: _ :: _ =>
        rw [last] at four
        simp only [List.length_cons,List.length_nil] at four
        omega
  · rintro ⟨enough,last⟩
    have entry : ∀ k i, k+i = 4 → source[(UInt32.ofNat source.length - UInt32.ofNat k).toNat]? = [b3,b2,b1,b0][i]? := by
      intro k i sum
      rw [place k (by omega) (by omega),←last,List.getElem?_drop]
      congr 1
      omega
    exact ⟨entry 4 0 rfl,entry 3 1 rfl,entry 2 2 rfl,entry 1 3 rfl⟩

theorem word_bytes (b3 b2 b1 b0 : UInt8) :
    (256*(256*(256*b3.toUInt32 + b2.toUInt32) + b1.toUInt32) + b0.toUInt32).toNat = bigEndian [b3,b2,b1,b0] := by
  have := b3.toNat_lt
  have := b2.toNat_lt
  have := b1.toNat_lt
  have := b0.toNat_lt
  simp only [UInt32.toNat_add,UInt32.toNat_mul,UInt8.toNat_toUInt32,show (256 : UInt32).toNat = 256 from rfl,bigEndian,
    List.foldl_cons,List.foldl_nil]
  omega

-- What is behind the header, where it is there: the data and the checksum of what they say.
theorem body_answers (codeTree ltree dtree : Tree) (stream : List UInt8) (a32 destLen : UInt32) (dest : List UInt8) :
    (do
      let (res,destLen,dest) ← uncompress init codeTree ltree dtree stream
      if res ≠ TINF_OK then return (TINF_DATA_ERROR,destLen,dest)
      let sum ← adler32 dest destLen
      if a32 ≠ sum then return (TINF_DATA_ERROR,destLen,dest)
      return (TINF_OK,destLen,dest) : Option (Int × UInt32 × List UInt8)) = some (TINF_OK,destLen,dest) ↔
    (∃ rest, Blocks taken ([],byteBits stream) (dest,rest)) ∧ destLen = UInt32.ofNat dest.length ∧
      a32.toNat = checksum (dest.take destLen.toNat) := by
  have format := Uncompress.uncompress_reads codeTree ltree dtree stream
  have counted : ∀ bytes : List UInt8, (UInt32.ofNat bytes.length).toNat ≤ bytes.length := fun bytes => by
    rw [UInt32.toNat_ofNat']
    exact Nat.mod_le _ _
  have same : ∀ bytes : List UInt8, a32 = UInt32.ofNat (checksum bytes) ↔ a32.toNat = checksum bytes := fun bytes => by
    rw [←UInt32.toNat_inj,UInt32.toNat_ofNat',Nat.mod_eq_of_lt (checksum_lt bytes)]
  constructor
  · intro ran
    obtain ⟨⟨res,n,out⟩,inflated,ran⟩ := Option.bind_eq_some_iff.mp ran
    dsimp only at ran
    by_cases fine : res = TINF_OK
    · rw [if_neg (not_not_intro fine)] at ran
      obtain ⟨sum,summed,ran⟩ := Option.bind_eq_some_iff.mp ran
      by_cases equal : a32 = sum
      · rw [if_neg (not_not_intro equal)] at ran
        cases ran
        subst fine
        obtain ⟨rfl,rest,read⟩ := (format _ _ _).mp inflated
        rw [adler32_there _ _ (counted dest)] at summed
        cases summed
        rcases read with ⟨_,blocks⟩ | ⟨wrong,_⟩
        · exact ⟨⟨rest,blocks⟩,rfl,(same _).mp equal⟩
        · cases wrong
      · rw [if_pos equal] at ran
        cases ran
    · rw [if_pos fine] at ran
      cases ran
  · rintro ⟨⟨rest,blocks⟩,rfl,equal⟩
    have inflated := (format TINF_OK (UInt32.ofNat dest.length) dest).mpr ⟨rfl,rest,.inl ⟨rfl,blocks⟩⟩
    refine Option.bind_eq_some_iff.mpr ⟨_,inflated,?_⟩
    dsimp only
    rw [if_neg (not_not_intro rfl),adler32_there _ _ (counted dest)]
    change (if a32 ≠ _ then _ else _) = _
    rw [if_neg (not_not_intro ((same _).mpr equal))]
    rfl

theorem refused {c : Prop} [Decidable c] (after : Option (Int × UInt32 × List UInt8)) (destLen : UInt32) (dest : List UInt8) :
    (if c then pure (TINF_DATA_ERROR,0,[]) else after) = some (TINF_OK,destLen,dest) ↔ ¬c ∧ after = some (TINF_OK,destLen,dest) := by
  by_cases fails : c
  · rw [if_pos fails]
    constructor
    · intro ran
      cases ran
    · exact fun ran => absurd fails ran.1
  · rw [if_neg fails]
    exact ⟨fun ran => ⟨fails,ran⟩,And.right⟩

theorem zlib_takes (codeTree ltree dtree : Tree) (source : List UInt8) (fits : source.length < 2^32)
    (destLen : UInt32) (dest : List UInt8) :
    zlibUncompress init codeTree ltree dtree source (UInt32.ofNat source.length) = some (TINF_OK,destLen,dest) ↔
    ∃ cmf flg stream, source = cmf :: flg :: stream ∧ Header cmf flg ∧ 4 ≤ source.length ∧
      (∃ rest, Blocks taken ([],byteBits stream) (dest,rest)) ∧ destLen = UInt32.ofNat dest.length ∧
      bigEndian (source.drop (source.length-4)) = checksum (dest.take destLen.toNat) := by
  match source with
  | [] =>
      constructor
      · intro ran
        cases ran
      · rintro ⟨_,_,_,whole,_⟩
        cases whole
  | [_] =>
      constructor
      · intro ran
        cases ran
      · rintro ⟨_,_,_,whole,_⟩
        cases whole
  | cmf :: flg :: stream =>
      unfold zlibUncompress
      change (if _ then _ else _) = _ ↔ _
      rw [refused,refused,refused,refused,check_word]
      have method := (byte_tests cmf).1
      have window := (byte_tests cmf).2.1
      have plain := (byte_tests flg).2.2
      constructor
      · rintro ⟨check,one,two,three,ran⟩
        obtain ⟨b3,at3,ran⟩ := Option.bind_eq_some_iff.mp ran
        obtain ⟨b2,at2,ran⟩ := Option.bind_eq_some_iff.mp ran
        obtain ⟨b1,at1,ran⟩ := Option.bind_eq_some_iff.mp ran
        obtain ⟨b0,at0,ran⟩ := Option.bind_eq_some_iff.mp ran
        obtain ⟨enough,last⟩ := (last_bytes _ fits b3 b2 b1 b0).mp ⟨at3,at2,at1,at0⟩
        obtain ⟨blocks,counted,sum⟩ := (body_answers codeTree ltree dtree stream _ destLen dest).mp ran
        refine ⟨cmf,flg,stream,rfl,⟨not_not.mp check,method.mp (not_not.mp one),?_,plain.mp (not_not.mp three)⟩,enough,blocks,counted,?_⟩
        · exact Nat.not_lt.mp fun large => two (window.mpr large)
        · rw [last,←word_bytes,sum]
      · rintro ⟨_,_,_,whole,head,enough,blocks,counted,sum⟩
        cases whole
        refine ⟨not_not_intro head.check,not_not_intro (method.mpr head.method),fun large => ?_,not_not_intro (plain.mpr head.plain),?_⟩
        · exact Nat.not_lt.mpr head.window (window.mp large)
        · have four : ((cmf :: flg :: stream).drop ((cmf :: flg :: stream).length-4)).length = 4 := by
            rw [List.length_drop]
            omega
          obtain ⟨b3,b2,b1,b0,last⟩ := List.length_eq_four.mp four
          obtain ⟨at3,at2,at1,at0⟩ := (last_bytes _ fits b3 b2 b1 b0).mpr ⟨enough,last⟩
          rw [last,←word_bytes] at sum
          refine Option.bind_eq_some_iff.mpr ⟨b3,at3,Option.bind_eq_some_iff.mpr ⟨b2,at2,Option.bind_eq_some_iff.mpr
            ⟨b1,at1,Option.bind_eq_some_iff.mpr ⟨b0,at0,?_⟩⟩⟩⟩
          exact (body_answers codeTree ltree dtree stream _ destLen dest).mpr ⟨blocks,counted,sum⟩

end streams

-- A stream is taken where its header is one, its data are in the format as it is taken and
-- the four bytes at its end are the checksum of what the data say, whatever stands between
-- and however far back the copies go. A stream of deflate is one of them.
theorem zlib_takes_streams (codeTree ltree dtree : Tree) (source : List UInt8) (fits : source.length < 2^32)
    (destLen : UInt32) (dest : List UInt8) :
    (zlibUncompress init codeTree ltree dtree source (UInt32.ofNat source.length) = some (TINF_OK,destLen,dest) ↔
      ∃ cmf flg stream, source = cmf :: flg :: stream ∧ Header cmf flg ∧ 4 ≤ source.length ∧
        (∃ rest, Blocks taken ([],byteBits stream) (dest,rest)) ∧ destLen = UInt32.ofNat dest.length ∧
        bigEndian (source.drop (source.length-4)) = checksum (dest.take destLen.toNat)) ∧
    ∀ cmf flg stream rest, source = cmf :: flg :: stream → Header cmf flg → 4 ≤ source.length →
      Blocks deflate ([],byteBits stream) (dest,rest) →
      bigEndian (source.drop (source.length-4)) = checksum (dest.take (UInt32.ofNat dest.length).toNat) →
      zlibUncompress init codeTree ltree dtree source (UInt32.ofNat source.length) = some (TINF_OK,UInt32.ofNat dest.length,dest) := by
  refine ⟨zlib_takes codeTree ltree dtree source fits destLen dest,?_⟩
  intro cmf flg stream rest whole head enough blocks sum
  exact (zlib_takes codeTree ltree dtree source fits _ dest).mpr
    ⟨cmf,flg,stream,whole,head,enough,⟨rest,blocks_within deflate_taken blocks⟩,rfl,sum⟩

-- Ten bytes: a literal and a copy of length nine, in a block of the fixed codes.
theorem zlib_takes_copies : ∃ cmf flg stream, [120,218,75,76,132,1,0,20,225,3,203] = cmf :: flg :: stream ∧ Header cmf flg ∧
    4 ≤ 11 ∧ (∃ rest, Blocks taken ([],byteBits stream) (List.replicate 10 97,rest)) ∧
    (10 : UInt32) = UInt32.ofNat (List.replicate 10 (97 : UInt8)).length ∧
    bigEndian ([120,218,75,76,132,1,0,20,225,3,203].drop 7) = checksum ((List.replicate 10 (97 : UInt8)).take (10 : UInt32).toNat) :=
  (zlib_takes_streams emptyTree emptyTree emptyTree [120,218,75,76,132,1,0,20,225,3,203] (by decide) 10 (List.replicate 10 97)).1.mp
    (by decide +kernel)

end GameServer.Common.Adler
