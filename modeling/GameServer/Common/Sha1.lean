import Mathlib.Tactic.IntervalCases
import GameServer.Common.SHA1Engine
import GameServer.Library.BlockHash

namespace GameServer.Common.Sha1
open GameServer.Common.SHA1Engine BlockHash

-- The algorithm the engine is for, in words of 32 bits with the high byte first.

def bigWord (block : List UInt8) (i : Nat) : UInt32 :=
  ((block.getD (4*i) 0).toUInt32 <<< 24) ||| ((block.getD (4*i+1) 0).toUInt32 <<< 16) |||
    ((block.getD (4*i+2) 0).toUInt32 <<< 8) ||| (block.getD (4*i+3) 0).toUInt32

def wordBytes (w : UInt32) : List UInt8 := [(w >>> 24).toUInt8,(w >>> 16).toUInt8,(w >>> 8).toUInt8,w.toUInt8]

def rotl (n : Nat) (x : UInt32) : UInt32 := ⟨x.toBitVec.rotateLeft n⟩

def scheduled (block : List UInt8) (t : Nat) : UInt32 :=
  if t < 16 then bigWord block t
  else rotl 1 (scheduled block (t-3) ^^^ scheduled block (t-8) ^^^ scheduled block (t-14) ^^^ scheduled block (t-16))

def mixed (t : Nat) (b c d : UInt32) : UInt32 :=
  if t < 20 then (b &&& c) ||| (~~~b &&& d)
  else if t < 40 then b ^^^ c ^^^ d
  else if t < 60 then (b &&& c) ||| (b &&& d) ||| (c &&& d)
  else b ^^^ c ^^^ d

def constant (t : Nat) : UInt32 :=
  if t < 20 then 0x5A827999 else if t < 40 then 0x6ED9EBA1 else if t < 60 then 0x8F1BBCDC else 0xCA62C1D6

def round (block : List UInt8) (r : Words) (t : Nat) : Words where
  A := rotl 5 r.A + mixed t r.B r.C r.D + r.E + scheduled block t + constant t
  B := r.A
  C := rotl 30 r.B
  D := r.C
  E := r.D

def compress (H : Words) (block : List UInt8) : Words :=
  let r := (List.range 80).foldl (round block) H
  {A := H.A + r.A, B := H.B + r.B, C := H.C + r.C, D := H.D + r.D, E := H.E + r.E}

def scheme : Scheme Words UInt8 where
  width := 64
  compress := compress
  positive := by decide

def initial : Words where
  A := 0x67452301
  B := 0xEFCDAB89
  C := 0x98BADCFE
  D := 0x10325476
  E := 0xC3D2E1F0

-- A one bit, zeros up to eight bytes short of a block, the length in bits in two words.
def padded (message : List UInt8) : List UInt8 :=
  message ++ 0x80 :: List.replicate ((119 - message.length%64) % 64) 0 ++
    (wordBytes (UInt32.ofNat (8*message.length / 2^32)) ++ wordBytes (UInt32.ofNat (8*message.length)))

def result (H : Words) : List UInt8 := [H.A,H.B,H.C,H.D,H.E].flatMap wordBytes

section words

variable {data : List UInt8}

theorem word_big (i : Nat) : reversed (word data i) = bigWord data i := by
  unfold reversed word bigWord
  generalize data.getD (4*i) 0 = a
  generalize data.getD (4*i+1) 0 = b
  generalize data.getD (4*i+2) 0 = c
  generalize data.getD (4*i+3) 0 = d
  apply UInt32.toBitVec_inj.mp
  apply BitVec.eq_of_getLsbD_eq
  intro i small
  interval_cases i <;> simp

theorem bytes_word (w : UInt32) :
    w.toUInt8.toUInt32 ||| ((w >>> 8).toUInt8.toUInt32 <<< 8) ||| ((w >>> 16).toUInt8.toUInt32 <<< 16) |||
      ((w >>> 24).toUInt8.toUInt32 <<< 24) = w := by
  apply UInt32.toBitVec_inj.mp
  apply BitVec.eq_of_getLsbD_eq
  intro i small
  interval_cases i <;> simp [-UInt32.toUInt32_toUInt8]

theorem or_turn (a b c d : UInt32) : a ||| b ||| c ||| d = d ||| c ||| b ||| a := by ac_rfl

theorem bytes_bigWord (w : UInt32) :
    ((w >>> 24).toUInt8.toUInt32 <<< 24) ||| ((w >>> 16).toUInt8.toUInt32 <<< 16) ||| ((w >>> 8).toUInt8.toUInt32 <<< 8) |||
      w.toUInt8.toUInt32 = w := by
  exact (or_turn _ _ _ _).trans (bytes_word w)

theorem setWord_length (i : Nat) (w : UInt32) : (setWord data i w).length = data.length := by
  unfold setWord
  rw [List.length_set,List.length_set,List.length_set,List.length_set]

theorem setWord_getD (i k : Nat) (w : UInt32) (inside : 4*i+3 < data.length) : (setWord data i w).getD k 0 =
    if k = 4*i+3 then (w >>> 24).toUInt8 else if k = 4*i+2 then (w >>> 16).toUInt8
    else if k = 4*i+1 then (w >>> 8).toUInt8 else if k = 4*i then w.toUInt8 else data.getD k 0 := by
  unfold setWord
  simp only [List.getD_eq_getElem?_getD,List.getElem?_set,List.length_set]
  grind

theorem word_setWord (i j : Nat) (w : UInt32) (inside : 4*i+3 < data.length) :
    word (setWord data i w) j = if j = i then w else word data j := by
  unfold word
  by_cases here : j = i
  · subst here
    rw [if_pos rfl]
    simp only [setWord_getD _ _ _ inside,Nat.left_eq_add,Nat.add_left_cancel_iff,if_true]
    exact bytes_word w
  · have kept : ∀ a < 4, (setWord data i w).getD (4*j+a) 0 = data.getD (4*j+a) 0 := by
      intro a small
      rw [setWord_getD _ _ _ inside,if_neg (by omega),if_neg (by omega),if_neg (by omega),if_neg (by omega)]
    have first := kept 0 (by decide)
    rw [Nat.add_zero] at first
    rw [if_neg here,first,kept 1 (by decide),kept 2 (by decide),kept 3 (by decide)]

theorem reverse_words (n : Nat) (inside : 4*n ≤ data.length) :
    let buffer := (List.range n).foldl (fun buffer count => setWord buffer count (reversed (word buffer count))) data
    buffer.length = data.length ∧ ∀ i, word buffer i = if i < n then reversed (word data i) else word data i := by
  induction n with
  | zero => exact ⟨rfl,fun i => rfl⟩
  | succ n ih =>
      obtain ⟨length,words⟩ := ih (by omega)
      rw [List.range_succ,List.foldl_append,List.foldl_cons,List.foldl_nil]
      refine ⟨(setWord_length _ _).trans length,?_⟩
      intro i
      rw [word_setWord _ _ _ (by omega),words n,words i,if_neg (Nat.lt_irrefl n)]
      by_cases here : i = n
      · rw [if_pos here,if_pos (by omega),here]
      · rw [if_neg here]
        by_cases before : i < n
        · rw [if_pos before,if_pos (by omega)]
        · rw [if_neg before,if_neg (by omega)]

theorem byteReverse_length (full : data.length = 64) : (byteReverse data BLOCK_SIZE).length = 64 :=
  (reverse_words 16 (Nat.le_of_eq full.symm)).1.trans full

theorem byteReverse_word (full : data.length = 64) {i : Nat} (inside : i < 16) :
    word (byteReverse data BLOCK_SIZE) i = bigWord data i := by
  refine ((reverse_words 16 (Nat.le_of_eq full.symm)).2 i).trans ?_
  rw [if_pos inside,word_big]

theorem bigWord_bytes (front back : List UInt8) (w : UInt32) (i : Nat) (length : front.length = 4*i) :
    bigWord (front ++ wordBytes w ++ back) i = w := by
  have byte : ∀ k (small : k < 4), (front ++ wordBytes w ++ back).getD (4*i+k) 0 = (wordBytes w).get ⟨k,small⟩ := by
    intro k small
    rw [List.getD_eq_getElem?_getD,List.append_assoc,List.getElem?_append_right (by omega),
      List.getElem?_append_left (by rw [length,Nat.add_sub_cancel_left]; exact small),length,Nat.add_sub_cancel_left,
      List.getElem?_eq_getElem (show k < (wordBytes w).length from small)]
    rfl
  have first := byte 0 (by decide)
  rw [Nat.add_zero] at first
  unfold bigWord
  rw [first,byte 1 (by decide),byte 2 (by decide),byte 3 (by decide)]
  exact bytes_bigWord w

theorem bigWord_front {front back back' : List UInt8} {i : Nat} (inside : 4*i+3 < front.length) :
    bigWord (front ++ back) i = bigWord (front ++ back') i := by
  have byte : ∀ k < 4, (front ++ back).getD (4*i+k) 0 = (front ++ back').getD (4*i+k) 0 := by
    intro k small
    rw [List.getD_eq_getElem?_getD,List.getD_eq_getElem?_getD,List.getElem?_append_left (by omega),
      List.getElem?_append_left (by omega)]
  have first := byte 0 (by decide)
  rw [Nat.add_zero] at first
  unfold bigWord
  rw [first,byte 1 (by decide),byte 2 (by decide),byte 3 (by decide)]

end words

section rounds

variable {block : List UInt8} {W : List UInt32}

theorem expand_scheduled (start : ∀ t < 16, W.getD t 0 = bigWord block t) (length : W.length = 16) (n : Nat) :
    let W' := (List.range' 16 n).foldl expand W
    W'.length = 16+n ∧ ∀ t < 16+n, W'.getD t 0 = scheduled block t := by
  induction n with
  | zero =>
      refine ⟨length,?_⟩
      intro t early
      rw [scheduled,if_pos early]
      exact start t early
  | succ n ih =>
      obtain ⟨count,words⟩ := ih
      rw [List.range'_concat,List.foldl_append,List.foldl_cons,List.foldl_nil,Nat.one_mul]
      refine ⟨?_,?_⟩
      · rw [expand,List.length_append,count]
        rfl
      · intro t early
        rw [expand,List.getD_eq_getElem?_getD]
        by_cases last : t = 16+n
        · rw [List.getElem?_append_right (by omega),count,last,Nat.sub_self,words _ (by omega),words _ (by omega),
            words _ (by omega),words _ (by omega),scheduled.eq_def block (16+n),if_neg (by omega)]
          rfl
        · rw [List.getElem?_append_left (by omega),←List.getD_eq_getElem?_getD]
          exact words t (by omega)

theorem foldl_rounds {f g : Words → Nat → Words} {l : List Nat} (same : ∀ t ∈ l, ∀ r, f r t = g r t) (r : Words) :
    l.foldl f r = l.foldl g r := by
  induction l generalizing r with
  | nil => rfl
  | cons t l ih =>
      rw [List.foldl_cons,List.foldl_cons,same t List.mem_cons_self]
      exact ih (fun u member => same u (List.mem_cons_of_mem _ member)) _

theorem quarter_one {t : Nat} (upper : t < 20) : f1 = mixed t ∧ K1 = constant t := by
  unfold mixed constant
  simp only [if_pos upper]
  exact ⟨rfl,rfl⟩

theorem quarter_two {t : Nat} (lower : 20 ≤ t) (upper : t < 40) : f2 = mixed t ∧ K2 = constant t := by
  unfold mixed constant
  simp only [if_neg (Nat.not_lt.mpr lower),if_pos upper]
  exact ⟨rfl,rfl⟩

theorem quarter_three {t : Nat} (lower : 40 ≤ t) (upper : t < 60) : f3 = mixed t ∧ K3 = constant t := by
  unfold mixed constant
  simp only [if_neg (Nat.not_lt.mpr lower),if_neg (show ¬t < 20 by omega),if_pos upper]
  exact ⟨rfl,rfl⟩

theorem quarter_four {t : Nat} (lower : 60 ≤ t) : f4 = mixed t ∧ K4 = constant t := by
  unfold mixed constant
  simp only [if_neg (Nat.not_lt.mpr lower),if_neg (show ¬t < 20 by omega),if_neg (show ¬t < 40 by omega)]
  exact ⟨rfl,rfl⟩

-- What transform makes of the data is what the block with the same words gives.
theorem transform_compress {data block : List UInt8} (H : Words) (low high : UInt32) (slop : Nat)
    (reads : ∀ i < 16, word data i = bigWord block i) :
    transform ⟨H,low,high,data,slop⟩ = ⟨compress H block,low,high,data,slop⟩ := by
  have start : ∀ t < 16, ((List.range 16).map (word data)).getD t 0 = bigWord block t := by
    intro t early
    rw [List.getD_eq_getElem?_getD,List.getElem?_map,List.getElem?_range early]
    exact reads t early
  obtain ⟨_,words⟩ := expand_scheduled start (by rw [List.length_map,List.length_range]) 64
  have quarter : ∀ s, s + 20 ≤ 80 → ∀ (f : UInt32 → UInt32 → UInt32 → UInt32) (K : UInt32),
      (∀ t, s ≤ t → t < s+20 → f = mixed t ∧ K = constant t) → ∀ r : Words,
      (List.range' s 20).foldl (subRound f K ((List.range' 16 64).foldl expand ((List.range 16).map (word data)))) r =
        (List.range' s 20).foldl (round block) r := by
    intro s inside f K same r
    apply foldl_rounds
    intro t member r
    rw [List.mem_range'_1] at member
    obtain ⟨rfl,rfl⟩ := same t member.1 member.2
    unfold subRound round
    rw [words t (by omega)]
    rfl
  have all : List.range 80 = List.range' 0 20 ++ List.range' 20 20 ++ List.range' 40 20 ++ List.range' 60 20 := by decide
  have one := quarter 0 (by decide) f1 K1 fun t _ upper => quarter_one upper
  have two := quarter 20 (by decide) f2 K2 fun t => quarter_two
  have three := quarter 40 (by decide) f3 K3 fun t => quarter_three
  have four := quarter 60 (by decide) f4 K4 fun t lower _ => quarter_four lower
  unfold transform compress
  dsimp only
  rw [all,List.foldl_append,List.foldl_append,List.foldl_append,one,two,three,four]

end rounds

end GameServer.Common.Sha1
