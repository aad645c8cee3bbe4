import GameServer.Common.TInf
import GameServer.Library.CanonicalCodes

namespace GameServer.Common.Huffman
open TInf Readers CanonicalCodes

-- The least significant bit first, as the source is packed.
def bitsLsb : Nat → Nat → List Bool
  | 0,_ => []
  | n+1,v => decide (v % 2 = 1) :: bitsLsb n (v/2)

def value : List Bool → Nat
  | [] => 0
  | b :: w => b.toNat + 2*value w

def byteBits (source : List UInt8) : List Bool := source.flatMap fun byte => bitsLsb 8 byte.toNat

-- The bits that are still to be read.
def pending (d : Source) : List Bool := bitsLsb d.bitcount d.tag ++ byteBits d.source

section bits

theorem bitsLsb_length (n v : Nat) : (bitsLsb n v).length = n := by
  induction n generalizing v with
  | zero => rfl
  | succ n ih => rw [bitsLsb,List.length_cons,ih]

theorem byteBits_length (source : List UInt8) : (byteBits source).length = 8*source.length := by
  induction source with
  | nil => rfl
  | cons byte source ih =>
      unfold byteBits at ih ⊢
      rw [List.flatMap_cons,List.length_append,ih,bitsLsb_length,List.length_cons]
      omega

theorem pending_length (d : Source) : (pending d).length = bitsLeft d := by
  unfold pending bitsLeft
  rw [List.length_append,bitsLsb_length,byteBits_length]

theorem value_lt (w : List Bool) : value w < 2^w.length := by
  induction w with
  | nil => exact Nat.one_pos
  | cons b w ih =>
      have := b.toNat_lt
      rw [value,List.length_cons,Nat.pow_succ]
      omega

theorem bit_toNat (v : Nat) : (decide (v % 2 = 1)).toNat = v % 2 := by
  rcases Nat.mod_two_eq_zero_or_one v with even | odd
  · rw [even]; rfl
  · rw [odd]; rfl

-- One bit is taken off.
def oneBit : Reads Nat (List Bool) := fun x input rest => ∃ b, input = b :: rest ∧ x = b.toNat

theorem getbit_exact : Exact pending getbit oneBit where
  sound d x d' ran := by
    unfold getbit at ran
    split at ran
    · rename_i empty
      split at ran
      · cases ran
      · rename_i byte source split
        cases ran
        refine ⟨decide (byte.toNat % 2 = 1),?_,(bit_toNat _).symm⟩
        unfold pending byteBits
        rw [empty,split,List.flatMap_cons]
        rfl
    · rename_i some_left
      obtain ⟨n,more⟩ := Nat.exists_eq_succ_of_ne_zero some_left
      cases ran
      refine ⟨decide (d.tag % 2 = 1),?_,(bit_toNat _).symm⟩
      unfold pending
      dsimp only
      rw [show d.bitcount - 1 = n by omega,show bitsLsb d.bitcount d.tag = bitsLsb (n+1) d.tag by rw [more]]
      rfl
  complete d x rest reads := by
    obtain ⟨b,input,rfl⟩ := reads
    unfold getbit
    unfold pending byteBits at input
    split
    · rename_i empty
      rw [empty] at input
      cases split : d.source with
      | nil =>
          rw [split] at input
          cases input
      | cons byte source =>
          rw [split,List.flatMap_cons] at input
          obtain ⟨same,left⟩ := List.cons.inj input
          refine ⟨_,by rw [←same,bit_toNat],?_⟩
          exact left
    · rename_i some_left
      obtain ⟨n,more⟩ := Nat.exists_eq_succ_of_ne_zero some_left
      rw [more] at input
      obtain ⟨same,left⟩ := List.cons.inj input
      refine ⟨_,by rw [←same,bit_toNat],?_⟩
      unfold pending byteBits
      dsimp only
      rw [more]
      exact left

-- So many bits that stand for a number.
def bitField (num base : Nat) : Nat → List Bool → Prop := fun x w => w.length = num ∧ x = value w + base

theorem masks_exact (num mask val : Nat) :
    Exact pending (readMasks num mask val) (phrases fun x w => w.length = num ∧ x = val + mask*value w) := by
  induction num generalizing mask val with
  | zero =>
      refine exact_congr (exact_pure val) fun x input rest => ?_
      constructor
      · rintro ⟨rfl,rfl⟩
        exact ⟨[],⟨rfl,rfl⟩,rfl⟩
      · rintro ⟨w,⟨none,rfl⟩,rfl⟩
        rw [List.length_eq_zero_iff.mp none]
        exact ⟨rfl,rfl⟩
  | succ num ih =>
      refine exact_congr (exact_bind getbit_exact fun bit _ => ih (mask*2) (if bit = 0 then val else val+mask)) fun x input rest => ?_
      have step : ∀ b w, (if b.toNat = 0 then val else val+mask) + mask*2*value w = val + mask*value (b :: w) := by
        intro b w
        rw [value,Nat.mul_add,←Nat.mul_assoc]
        cases b
        · rw [if_pos (by rfl),Bool.toNat_false,Nat.mul_zero,Nat.zero_add]
        · rw [if_neg (by decide),Bool.toNat_true,Nat.mul_one,Nat.add_assoc]
      constructor
      · rintro ⟨_,between,⟨b,rfl,rfl⟩,w,⟨long,rfl⟩,rfl⟩
        exact ⟨b :: w,⟨by rw [List.length_cons,long],step b w⟩,rfl⟩
      · rintro ⟨w,⟨long,rfl⟩,rfl⟩
        cases w with
        | nil => cases long
        | cons b w => exact ⟨_,w ++ rest,⟨b,rfl,rfl⟩,w,⟨Nat.succ.inj long,(step b w).symm⟩,rfl⟩

theorem readBits_exact (num base : Nat) : Exact pending (readBits num base) (phrases (bitField num base)) := by
  refine exact_congr (exact_bind (masks_exact num 1 0) fun val _ => exact_pure (val+base)) fun x input rest => ?_
  constructor
  · rintro ⟨_,between,⟨w,⟨long,rfl⟩,rfl⟩,rfl,rfl⟩
    exact ⟨w,⟨long,by omega⟩,rfl⟩
  · rintro ⟨w,⟨long,rfl⟩,rfl⟩
    exact ⟨value w,rest,⟨w,⟨long,by omega⟩,rfl⟩,rfl,rfl⟩

end bits

-- The lengths a tree is built from.
structure CodeLengths where
  lengths : List Nat
  small : ∀ l ∈ lengths, l < 16
  few : lengths.length ≤ 288

-- A tree holds the counts of the lengths, and the symbols in the order of their codes.
structure Builds (lengths : List Nat) (t : Tree) : Prop where
  table : ∀ l, t.table[l]? = if l < 16 then some (count lengths l) else none
  trans : ∀ s l, lengths[s]? = some l → 0 < l → t.trans[below lengths l + rank lengths l s]? = some s

section decoding
variable {lengths : List Nat} {t : Tree}

theorem table_drop (builds : Builds lengths t) (len : Nat) : t.table.toList.drop (len+1) =
    if len+1 < 16 then count lengths (len+1) :: t.table.toList.drop (len+2) else [] := by
  have size : t.table.toList.length = 16 := by simp
  split
  · rename_i inside
    have here := builds.table (len+1)
    rw [if_pos inside] at here
    have entry : t.table.toList[len+1] = count lengths (len+1) := by
      rw [Vector.getElem?_eq_getElem inside] at here
      simpa using here
    rw [List.drop_eq_getElem_cons (by omega),entry]
  · exact List.drop_eq_nil_of_le (by omega)

-- Read on from a code c of len bits that is past every code of so many bits:
-- what the loop then takes is a code, and the symbol is the one at its place.
def Further (lengths : List Nat) (t : Tree) (len c : Nat) : Nat → List Bool → Prop := fun s w =>
  0 < w.length ∧ len + w.length < 16 ∧ firstCode lengths (len + w.length) ≤ extend c w ∧
    extend c w < firstCode lengths (len + w.length) + count lengths (len + w.length) ∧
    t.trans[below lengths (len + w.length) + (extend c w - firstCode lengths (len + w.length))]? = some s

theorem decodeFrom_exact (builds : Builds lengths t) (counts : List Nat) (len c : Nat) (cur : Int)
    (left : counts = t.table.toList.drop (len+1)) (past : firstCode lengths len + count lengths len ≤ c)
    (current : cur = c - (firstCode lengths len + count lengths len)) :
    Exact pending (decodeFrom t counts (below lengths (len+1)) cur) (phrases (Further lengths t len c)) := by
  induction counts generalizing len c cur with
  | nil =>
      have beyond : ¬len+1 < 16 := by
        intro inside
        rw [table_drop builds,if_pos inside] at left
        cases left
      refine exact_congr exact_fail fun s input rest => ?_
      constructor
      · exact False.elim
      · rintro ⟨w,⟨used,inside,_⟩,_⟩
        omega
  | cons n counts ih =>
      have inside : len+1 < 16 := by
        by_contra beyond
        rw [table_drop builds,if_neg beyond] at left
        cases left
      rw [table_drop builds,if_pos inside] at left
      obtain ⟨rfl,later⟩ := List.cons.inj left
      have first : firstCode lengths (len+1) = 2*(firstCode lengths len + count lengths len) := rfl
      have sum : ((below lengths (len+1) : Nat) : Int) + (count lengths (len+1) : Nat) = (below lengths (len+2) : Nat) := by
        rw [show below lengths (len+2) = below lengths (len+1) + count lengths (len+1) from rfl]
        omega
      unfold decodeFrom
      rw [sum]
      refine exact_congr (exact_bind getbit_exact fun bit _ => exact_ite
        (P:=phrases (Further lengths t (len+1) (2*c+bit)))
        (Q:=fun s input rest => t.trans[below lengths (len+1) + (2*c + bit - firstCode lengths (len+1))]? = some s ∧ rest = input)
        (fun more => ih (len+1) (2*c+bit) _ later (by omega) (by omega)) fun last => ?_) fun s input rest => ?_
      · have place : (((below lengths (len+2) : Nat) : Int) + (2*cur + bit - (count lengths (len+1) : Nat))).toNat =
            below lengths (len+1) + (2*c + bit - firstCode lengths (len+1)) := by omega
        rw [place]
        exact exact_lift _
      · constructor
        · rintro ⟨_,between,⟨b,rfl,rfl⟩,reads⟩
          split at reads
          · obtain ⟨w,⟨used,short,low,high,symbol⟩,rfl⟩ := reads
            refine ⟨b :: w,⟨Nat.succ_pos _,?_⟩,rfl⟩
            rw [extend_cons,List.length_cons,show len + (w.length+1) = len + 1 + w.length by omega]
            exact ⟨short,low,high,symbol⟩
          · rename_i last
            obtain ⟨symbol,rfl⟩ := reads
            exact ⟨[b],⟨Nat.one_pos,inside,show firstCode lengths (len+1) ≤ 2*c + b.toNat by omega,
              show 2*c + b.toNat < firstCode lengths (len+1) + count lengths (len+1) by omega,symbol⟩,rfl⟩
        · rintro ⟨w,⟨used,short,low,high,symbol⟩,rfl⟩
          cases w with
          | nil => cases used
          | cons b w =>
              refine ⟨b.toNat,w ++ rest,⟨b,rfl,rfl⟩,?_⟩
              rw [extend_cons,List.length_cons,show len + (w.length+1) = len + 1 + w.length by omega] at low high symbol
              rw [List.length_cons] at short
              cases w with
              | nil =>
                  change firstCode lengths (len+1) ≤ 2*c + b.toNat at low
                  change 2*c + b.toNat < firstCode lengths (len+1) + count lengths (len+1) at high
                  rw [if_neg (by omega)]
                  exact ⟨symbol,rfl⟩
              | cons b' w =>
                  -- A longer code is past the codes of this length.
                  have beyond : firstCode lengths (len+1) + count lengths (len+1) ≤ 2*c + b.toNat := by
                    have room := firstCode_far lengths (show len+1 < len+1+(b' :: w).length by rw [List.length_cons]; omega)
                    have small := number_lt (b' :: w)
                    rw [extend_number] at low
                    rw [show len+1+(b' :: w).length-(len+1) = (b' :: w).length by omega] at room
                    have : (firstCode lengths (len+1) + count lengths (len+1)) * 2^(b' :: w).length <
                        (2*c + b.toNat + 1) * 2^(b' :: w).length := by
                      rw [Nat.succ_mul (2*c + b.toNat)]
                      omega
                    exact Nat.lt_succ_iff.mp (Nat.lt_of_mul_lt_mul_right this)
                  rw [if_pos (by omega)]
                  exact ⟨b' :: w,⟨Nat.succ_pos _,by rw [List.length_cons] at short ⊢; omega,low,high,symbol⟩,rfl⟩

-- A symbol is read where the code of just this symbol stands.
theorem decodeSymbol_exact (builds : Builds lengths t) (small : ∀ l ∈ lengths, l < 16) :
    Exact pending (decodeSymbol t) (phrases (Codeword lengths)) := by
  have start : below lengths 1 = 0 := rfl
  have loop := decodeFrom_exact builds t.table.toList.tail 0 0 0 List.drop_one.symm (Nat.le_refl 0) (by simp [firstCode,count])
  rw [start] at loop
  refine exact_congr loop fun s input rest => ?_
  have exact_here : ∀ w, Further lengths t 0 0 s w ↔ Codeword lengths s w := by
    intro w
    unfold Further
    rw [Nat.zero_add]
    change _ ∧ _ ∧ _ ≤ number w ∧ number w < _ ∧ t.trans[_ + (number w - _)]? = some s ↔ _
    constructor
    · rintro ⟨used,short,low,high,symbol⟩
      obtain ⟨s',codeword,code⟩ := code_symbol low high
      have place := builds.trans s' w.length codeword.length used
      rw [code,Nat.add_sub_cancel_left,place] at symbol
      cases symbol
      exact codeword
    · intro codeword
      obtain ⟨low,high⟩ := codeword_range codeword
      refine ⟨codeword.used,small _ (List.mem_of_getElem? codeword.length),low,high,?_⟩
      rw [codeword.code,Nat.add_sub_cancel_left]
      exact builds.trans s w.length codeword.length codeword.used
  simp only [phrases,exact_here]

end decoding

section building
variable {lengths : List Nat}

theorem bumps (part : List Nat) (table : Vector Nat 16) (small : ∀ l ∈ part, l < 16) :
    ∃ table', part.foldlM bump table = some table' ∧ ∀ l, table'[l]? = table[l]?.map (· + part.count l) := by
  induction part generalizing table with
  | nil => exact ⟨table,rfl,fun l => by simp⟩
  | cons x part ih =>
      have inside := small x List.mem_cons_self
      obtain ⟨table',ran,counted⟩ := ih (table.set x (table[x]+1)) fun l member => small l (List.mem_cons_of_mem _ member)
      refine ⟨table',?_,?_⟩
      · rw [List.foldlM_cons,bump,dif_pos inside]
        exact ran
      · intro l
        rw [counted,Vector.getElem?_set,List.count_cons]
        by_cases same : x = l
        · subst same
          rw [if_pos rfl,Vector.getElem?_eq_getElem inside]
          simp
          omega
        · rw [if_neg same]
          simp [same]

theorem offsets_at (counts : List Nat) (sum l : Nat) (inside : l < counts.length) :
    (offsets counts sum)[l]? = some (sum + (counts.take l).sum) := by
  induction counts generalizing sum l with
  | nil => cases inside
  | cons n counts ih =>
      cases l with
      | zero => rfl
      | succ l =>
          rw [offsets,List.getElem?_cons_succ,ih (sum+n) l (Nat.lt_of_succ_lt_succ inside),List.take_succ_cons,List.sum_cons]
          congr 1
          omega

-- Before the i-th symbol: where the next symbol of each length goes, and which
-- symbols have their place.
structure Placed (lengths : List Nat) (i : Nat) (offs : List Nat) (symbols : Vector Nat 288) : Prop where
  next : ∀ l, 0 < l → l < 16 → offs[l]? = some (below lengths l + rank lengths l i)
  done : ∀ s l, s < i → lengths[s]? = some l → 0 < l → symbols[below lengths l + rank lengths l s]? = some s

theorem distribute_places (small : ∀ l ∈ lengths, l < 16) (few : lengths.length ≤ 288) (part : List Nat) (i : Nat)
    (left : lengths.drop i = part) (offs : List Nat) (symbols : Vector Nat 288) (placed : Placed lengths i offs symbols) :
    ∃ symbols', distribute part i offs symbols = some symbols' ∧
      ∀ s l, lengths[s]? = some l → 0 < l → symbols'[below lengths l + rank lengths l s]? = some s := by
  induction part generalizing i offs symbols with
  | nil =>
      refine ⟨symbols,rfl,fun s l here used => placed.done s l ?_ here used⟩
      have := List.drop_eq_nil_iff.mp left
      have := (List.getElem?_eq_some_iff.mp here).1
      omega
  | cons l part ih =>
      have here : lengths[i]? = some l := by
        rw [←List.head?_drop,left]
        rfl
      have later : lengths.drop (i+1) = part := by rw [←List.drop_drop,left]; rfl
      unfold distribute
      by_cases none : l = 0
      · subst none
        rw [if_pos rfl]
        refine ih (i+1) later offs symbols ⟨?_,?_⟩
        · intro k used short
          rw [rank_succ here,if_neg (by omega)]
          exact placed.next k used short
        · intro s k before there used
          refine placed.done s k ?_ there used
          rcases Nat.lt_succ_iff_lt_or_eq.mp before with lt | rfl
          · exact lt
          · rw [here] at there
            cases there
            omega
      · have used : 0 < l := Nat.pos_of_ne_zero none
        have short := small l (List.mem_of_getElem? here)
        have inside : below lengths l + rank lengths l i < 288 :=
          Nat.lt_of_lt_of_le (place_lt here used short) (Nat.le_trans (below_le 16) few)
        have goes := placed.next l used short
        rw [if_neg none,goes]
        dsimp only
        rw [dif_pos inside]
        refine ih (i+1) later _ _ ⟨?_,?_⟩
        · intro k used' short'
          rw [rank_succ here]
          by_cases same : l = k
          · subst same
            rw [List.getElem?_set_self (List.getElem?_eq_some_iff.mp goes).1,if_pos rfl]
            rfl
          · rw [List.getElem?_set_ne same,placed.next k used' short',if_neg same]
            rfl
        · intro s k before there used'
          rw [Vector.getElem?_set]
          split
          · rename_i same
            rw [place_inj here there used used' same]
          · rename_i apart
            refine placed.done s k ?_ there used'
            rcases Nat.lt_succ_iff_lt_or_eq.mp before with lt | rfl
            · exact lt
            · rw [here] at there
              cases there
              exact absurd rfl apart

theorem table_sums (table : Vector Nat 16) (counts : ∀ l, table[l]? = if l < 16 then some (count lengths l) else none)
    (m : Nat) (le : m ≤ 16) : (table.toList.take m).sum = below lengths m := by
  induction m with
  | zero => rfl
  | succ m ih =>
      have here := counts m
      rw [if_pos (by omega),Vector.getElem?_eq_getElem (by omega)] at here
      rw [List.take_add_one,List.sum_append,ih (by omega),below]
      have entry : table.toList[m]? = some (count lengths m) := by
        rw [List.getElem?_eq_getElem (by simp; omega)]
        simpa using here
      rw [entry]
      simp

theorem buildTree_builds (t : Tree) (small : ∀ l ∈ lengths, l < 16) (few : lengths.length ≤ 288) :
    ∃ t', buildTree t lengths = some t' ∧ Builds lengths t' := by
  obtain ⟨table,counted,counts⟩ := bumps lengths (Vector.replicate 16 0) small
  have final : ∀ l, (table.set 0 0)[l]? = if l < 16 then some (count lengths l) else none := by
    intro l
    rw [Vector.getElem?_set,counts,Vector.getElem?_replicate]
    unfold count
    by_cases none : l = 0
    · subst none
      rfl
    · rw [if_neg (Ne.symm none)]
      split
      · simp
      · rfl
  have placed : Placed lengths 0 (offsets (table.set 0 0).toList 0) t.trans := by
    refine ⟨?_,fun s _ before => absurd before (Nat.not_lt_zero s)⟩
    intro l used short
    rw [offsets_at _ _ _ (by simp; omega),table_sums _ final l (by omega)]
    simp [rank]
  obtain ⟨symbols,ran,places⟩ := distribute_places small few lengths 0 List.drop_zero _ t.trans placed
  refine ⟨⟨table.set 0 0,symbols⟩,?_,⟨final,places⟩⟩
  unfold buildTree
  rw [counted]
  show ((distribute lengths 0 (offsets (table.set 0 0).toList 0) t.trans).bind _) = _
  rw [ran]
  rfl

end building

-- A tree built from any lengths, whatever it held before, reads the canonical
-- codes: a symbol where its code stands and nothing else, no code beginning
-- another one. With the inequality of Kraft every symbol with a length has one.
theorem trees_read_codes (c : CodeLengths) (t : Tree) :
    ∃ t', buildTree t c.lengths = some t' ∧ Exact pending (decodeSymbol t') (phrases (Codeword c.lengths)) ∧
      (∀ s s' w w', Codeword c.lengths s w → Codeword c.lengths s' w' → w <+: w' → s = s' ∧ w = w') ∧
      (Kraft c.lengths 15 → ∀ s l, c.lengths[s]? = some l → 0 < l → ∃ w, Codeword c.lengths s w) := by
  obtain ⟨t',built,builds⟩ := buildTree_builds t c.small c.few
  refine ⟨t',built,decodeSymbol_exact builds c.small,?_,?_⟩
  · intro s s' w w' one two part
    have same := prefix_free one two part
    subst same
    exact ⟨rfl,codeword_unique one two⟩
  · intro kraft s l here used
    exact kraft_codeword kraft here used (Nat.lt_succ_iff.mp (c.small l (List.mem_of_getElem? here)))

-- Eight symbols with codes of two, three and four bits.
theorem eight_symbols_read : (∃ t', buildTree emptyTree [3,3,3,3,3,2,4,4] = some t' ∧
      Exact pending (decodeSymbol t') (phrases (Codeword [3,3,3,3,3,2,4,4]))) ∧
    ∀ s l, [3,3,3,3,3,2,4,4][s]? = some l → 0 < l → ∃ w, Codeword [3,3,3,3,3,2,4,4] s w := by
  obtain ⟨t',built,reads,_,all⟩ := trees_read_codes ⟨[3,3,3,3,3,2,4,4],by decide,by decide⟩ emptyTree
  exact ⟨⟨t',built,reads⟩,all (by unfold Kraft; decide)⟩

end GameServer.Common.Huffman
