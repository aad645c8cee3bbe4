import GameServer.Common.Inflate

namespace GameServer.Common.InflateBlocks
open TInf Readers CanonicalCodes Huffman Deflate Inflate

section tokens
variable {lt dt : Tree} {ll dl : List Nat}

theorem extra_exact (bits base : List Nat) (sym : Nat) :
    Exact pending (StateT.lift (lookup bits base sym) >>= fun entry => readBits entry.1 entry.2 : Read Nat)
      (phrases (Extra bits base sym)) := by
  refine exact_congr (exact_bind (exact_lift _) fun entry _ => readBits_exact entry.1 entry.2) fun n input rest => ?_
  constructor
  · rintro ⟨entry,_,⟨there,rfl⟩,w,field,rfl⟩
    exact ⟨w,⟨entry,there,field⟩,rfl⟩
  · rintro ⟨w,⟨entry,there,field⟩,rfl⟩
    exact ⟨entry,_,⟨there,rfl⟩,w,field,rfl⟩

-- The tables have thirty entries.
theorem length_last (extra : Extra init.lengthBits init.lengthBase (sym-257) n w) : sym ≤ taken.lastLength := by
  obtain ⟨entry,there,_⟩ := extra
  unfold lookup at there
  obtain ⟨b,there,_⟩ := Option.bind_eq_some_iff.mp there
  have inside := (List.getElem?_eq_some_iff.mp there).1
  have thirty : init.lengthBits.length = 30 := by
    show ((buildBits 4).set 28 0).length = 30
    rw [List.length_set]
    decide
  have : taken.lastLength = 286 := rfl
  omega

-- A copy, behind the symbol of its length.
def copyToken (dt : Tree) (sym : Nat) (dest : List UInt8) : Read (List UInt8 ⊕ List UInt8) := do
  let length ← (StateT.lift (lookup init.lengthBits init.lengthBase (sym-257)) >>= fun entry => readBits entry.1 entry.2 : Read Nat)
  let dist ← decodeSymbol dt
  let offs ← (StateT.lift (lookup init.distBits init.distBase dist) >>= fun entry => readBits entry.1 entry.2 : Read Nat)
  let dest ← StateT.lift (copyMatch length offs dest)
  return .inl dest

def CopyBits (dl : List Nat) (sym length offs : Nat) (w : List Bool) : Prop :=
  ∃ dist e w' e', Extra init.lengthBits init.lengthBase (sym-257) length e ∧ Codeword dl dist w' ∧
    Extra init.distBits init.distBase dist offs e' ∧ w = e ++ (w' ++ e')

theorem copyToken_exact (reads : Exact pending (decodeSymbol dt) (phrases (Codeword dl))) (sym : Nat) (dest : List UInt8) :
    Exact pending (copyToken dt sym dest) (phrases fun out w => ∃ length offs next, CopyBits dl sym length offs w ∧
      Token.write dest (.copy length offs) = some next ∧ out = .inl next) := by
  refine exact_congr (exact_bind (extra_exact _ _ _) fun length _ => exact_bind reads fun dist _ =>
    exact_bind (extra_exact _ _ dist) fun offs _ => exact_bind (exact_lift _) fun next _ => exact_pure (Sum.inl next)) fun out input rest => ?_
  constructor
  · rintro ⟨length,_,⟨e,one,rfl⟩,dist,_,⟨w',codeword,rfl⟩,offs,_,⟨e',two,rfl⟩,next,_,⟨written,rfl⟩,rfl,rfl⟩
    rw [copyMatch_write (length_long one)] at written
    refine ⟨e ++ (w' ++ e'),⟨length,offs,next,⟨dist,e,w',e',one,codeword,two,rfl⟩,written,rfl⟩,?_⟩
    simp only [List.append_assoc]
  · rintro ⟨_,⟨length,offs,next,⟨dist,e,w',e',one,codeword,two,rfl⟩,written,rfl⟩,rfl⟩
    rw [←copyMatch_write (length_long one)] at written
    simp only [List.append_assoc]
    exact ⟨length,_,⟨e,one,rfl⟩,dist,_,⟨w',codeword,rfl⟩,offs,_,⟨e',two,rfl⟩,next,rest,⟨written,rfl⟩,rfl,rfl⟩

-- The end of the block, or a token and what it writes.
inductive TokenRound (ll dl : List Nat) (dest : List UInt8) : List UInt8 ⊕ List UInt8 → List Bool → Prop where
  | finish {w} : Codeword ll 256 w → TokenRound ll dl dest (.inr dest) w
  | more {token next w} : TokenBits taken ll dl token w → token.write dest = some next → TokenRound ll dl dest (.inl next) w

theorem blockRound_exact (literals : Exact pending (decodeSymbol lt) (phrases (Codeword ll)))
    (distances : Exact pending (decodeSymbol dt) (phrases (Codeword dl))) (dest : List UInt8) :
    Exact pending (blockRound init lt dt dest) (phrases (TokenRound ll dl dest)) := by
  have grouped : blockRound init lt dt dest = decodeSymbol lt >>= fun sym =>
      if sym = 256 then return .inr dest
      else if sym < 256 then return .inl (dest ++ [UInt8.ofNat sym])
      else copyToken dt sym dest := by
    unfold blockRound copyToken
    simp only [bind_assoc]
  rw [grouped]
  refine exact_congr (exact_bind literals fun sym _ => exact_ite (fun _ => exact_pure _) fun _ =>
    exact_ite (fun _ => exact_pure _) fun _ => copyToken_exact distances sym dest) fun out input rest => ?_
  constructor
  · rintro ⟨sym,_,⟨w,codeword,rfl⟩,read⟩
    split at read
    · rename_i same
      subst same
      obtain ⟨rfl,rfl⟩ := read
      exact ⟨w,.finish codeword,rfl⟩
    · split at read
      · obtain ⟨rfl,rfl⟩ := read
        have byte : (UInt8.ofNat sym).toNat = sym := Nat.mod_eq_of_lt (by assumption)
        have literal : TokenBits taken ll dl (.literal (UInt8.ofNat sym)) w := .literal (byte.symm ▸ codeword)
        exact ⟨w,.more literal rfl,rfl⟩
      · obtain ⟨_,⟨length,offs,next,⟨dist,e,w',e',one,codeword',two,rfl⟩,written,rfl⟩,rfl⟩ := read
        exact ⟨_,.more (.copy (by omega) (length_last one) codeword one codeword' two) written,(List.append_assoc ..).symm⟩
  · rintro ⟨_,round,rfl⟩
    cases round with
    | finish codeword =>
        refine ⟨256,rest,⟨_,codeword,rfl⟩,?_⟩
        dsimp only
        rw [if_pos rfl]
        exact ⟨rfl,rfl⟩
    | @more token next w bits written =>
        cases bits with
        | @literal byte w codeword =>
            have small := byte.toNat_lt
            refine ⟨byte.toNat,rest,⟨_,codeword,rfl⟩,?_⟩
            dsimp only
            rw [if_neg (by omega),if_pos small,UInt8.ofNat_toNat]
            cases written
            exact ⟨rfl,rfl⟩
        | @copy sym length dist offs w e w' e' long _ codeword one codeword' two =>
            refine ⟨sym,_,⟨w,codeword,List.append_assoc ..⟩,?_⟩
            dsimp only
            rw [if_neg (by omega),if_neg (by omega)]
            exact ⟨_,⟨length,offs,next,⟨dist,e,w',e',one,codeword',two,rfl⟩,written,rfl⟩,rfl⟩

theorem token_used (bits : TokenBits taken ll dl token w) : 0 < w.length := by
  cases bits with
  | literal codeword => exact codeword.used
  | copy _ _ codeword _ _ _ =>
      have := codeword.used
      rw [List.length_append]
      omega

theorem tokens_used (tokens : Tokens taken ll dl list w) : list.length < w.length := by
  induction tokens with
  | finish codeword => exact codeword.used
  | more bits _ ih =>
      have := token_used bits
      rw [List.length_append,List.length_cons]
      omega

theorem rounds_tokens {n : Nat} {dest dest' : List UInt8} {input rest : List Bool}
    (rounds : Rounds (fun dest => phrases (TokenRound ll dl dest)) n dest dest' input rest) :
    ∃ tokens w, Tokens taken ll dl tokens w ∧ tokens.foldlM Token.write dest = some dest' ∧ input = w ++ rest := by
  induction rounds with
  | stop read =>
      obtain ⟨w,round,rfl⟩ := read
      cases round with
      | finish codeword => exact ⟨[],w,.finish codeword,rfl,rfl⟩
  | more read _ ih =>
      obtain ⟨w,round,rfl⟩ := read
      obtain ⟨tokens,w',list,written,rfl⟩ := ih
      cases round with
      | more bits here =>
          refine ⟨_,w ++ w',.more bits list,?_,(List.append_assoc ..).symm⟩
          rw [List.foldlM_cons,here]
          exact written

theorem tokens_rounds {tokens : List Token} {w : List Bool} (list : Tokens taken ll dl tokens w) (dest dest' : List UInt8) (rest : List Bool)
    (written : tokens.foldlM Token.write dest = some dest') :
    Rounds (fun dest => phrases (TokenRound ll dl dest)) tokens.length dest dest' (w ++ rest) rest := by
  induction list generalizing dest with
  | finish codeword =>
      cases written
      exact .stop ⟨_,.finish codeword,rfl⟩
  | more bits _ ih =>
      rw [List.foldlM_cons] at written
      obtain ⟨next,here,later⟩ := Option.bind_eq_some_iff.mp written
      exact .more ⟨_,.more bits here,List.append_assoc ..⟩ (ih next later)

end tokens

section trees

theorem fill_at (trans : Vector Nat 288) (place first n k : Nat) (room : place + n ≤ 288) :
    (fill trans place first n)[k]? = if place ≤ k ∧ k < place+n then some (first + (k-place)) else trans[k]? := by
  unfold fill
  induction n with
  | zero => rw [if_neg (by omega)]; rfl
  | succ n ih =>
      rw [List.range_succ,List.foldl_append,List.foldl_cons,List.foldl_nil,Vector.getElem?_setIfInBounds]
      by_cases last : place+n = k
      · subst last
        rw [if_pos rfl,if_pos (by omega),if_pos (by omega),Nat.add_sub_cancel_left]
      · rw [if_neg last,ih (by omega)]
        by_cases inside : place ≤ k ∧ k < place+n
        · rw [if_pos inside,if_pos (by omega)]
        · rw [if_neg inside,if_neg (by omega)]

theorem fixed_symbols (few : k < 288) : init.sltree.trans[k]? =
    some (if k < 24 then 256+k else if k < 168 then k-24 else if k < 176 then k+112 else k-32) := by
  change (fill (fill (fill (fill (Vector.replicate 288 0) 0 256 24) 24 0 144) (24+144) 280 8) (24+144+8) 144 112)[k]? = _
  rw [fill_at _ _ _ _ _ (by decide),fill_at _ _ _ _ _ (by decide),fill_at _ _ _ _ _ (by decide),fill_at _ _ _ _ _ (by decide)]
  split
  · rw [if_neg (by omega),if_neg (by omega),if_neg (by omega)]
    exact congrArg some (by omega)
  · split
    · rw [if_neg (by omega),if_neg (by omega),if_pos (by omega)]
      exact congrArg some (by omega)
    · split
      · rw [if_neg (by omega),if_pos (by omega)]
        exact congrArg some (by omega)
      · rw [if_pos (by omega),if_pos (by omega)]
        rfl

theorem fixed_rank (here : fixedLengths[s]? = some l) : (s < 144 ∧ l = 8 ∧ rank fixedLengths l s = s) ∨
    (144 ≤ s ∧ s < 256 ∧ l = 9 ∧ rank fixedLengths l s = s-144) ∨ (256 ≤ s ∧ s < 280 ∧ l = 7 ∧ rank fixedLengths l s = s-256) ∨
    (280 ≤ s ∧ s < 288 ∧ l = 8 ∧ rank fixedLengths l s = s-136) := by
  have inside := (List.getElem?_eq_some_iff.mp here).1
  unfold fixedLengths rank at *
  simp only [List.length_append,List.length_replicate] at inside
  simp only [List.getElem?_append,List.getElem?_replicate,List.length_append,List.length_replicate] at here
  simp only [List.take_append,List.take_replicate,List.count_append,List.count_replicate,List.length_append,List.length_replicate]
  rcases (by omega : s < 144 ∨ (144 ≤ s ∧ s < 256) ∨ (256 ≤ s ∧ s < 280) ∨ 280 ≤ s) with first | second | third | fourth
  · rw [if_pos (by omega),if_pos (by omega),if_pos (by omega),if_pos (by omega)] at here
    cases here
    exact .inl ⟨first,rfl,by simp; omega⟩
  · rw [if_pos (by omega),if_pos (by omega),if_neg (by omega),if_pos (by omega)] at here
    cases here
    exact .inr (.inl ⟨second.1,second.2,rfl,by simp; omega⟩)
  · rw [if_pos (by omega),if_neg (by omega),if_pos (by omega)] at here
    cases here
    exact .inr (.inr (.inl ⟨third.1,third.2,rfl,by simp; omega⟩))
  · rw [if_neg (by omega),if_pos (by omega)] at here
    cases here
    exact .inr (.inr (.inr ⟨fourth,inside,rfl,by simp; omega⟩))

theorem fixed_literals : Builds fixedLengths init.sltree where
  table l := by
    split
    · rename_i inside
      have counts : ∀ l : Fin 16, init.sltree.table[l.val]? = some (count fixedLengths l.val) := by decide +kernel
      exact counts ⟨l,inside⟩
    · exact Vector.getElem?_eq_none (by omega)
  trans s l here used := by
    have starts : below fixedLengths 7 = 0 ∧ below fixedLengths 8 = 24 ∧ below fixedLengths 9 = 176 := by decide +kernel
    have inside := (List.getElem?_eq_some_iff.mp here).1
    rcases fixed_rank here with ⟨first,rfl,place⟩ | ⟨_,second,rfl,place⟩ | ⟨_,third,rfl,place⟩ | ⟨_,fourth,rfl,place⟩
    · rw [place,starts.2.1,fixed_symbols (by omega),if_neg (by omega),if_pos (by omega)]
      exact congrArg some (by omega)
    · rw [place,starts.2.2,fixed_symbols (by omega),if_neg (by omega),if_neg (by omega),if_neg (by omega)]
      exact congrArg some (by omega)
    · rw [place,starts.1,fixed_symbols (by omega),if_pos (by omega)]
      exact congrArg some (by omega)
    · rw [place,starts.2.1,fixed_symbols (by omega),if_neg (by omega),if_neg (by omega),if_pos (by omega)]
      exact congrArg some (by omega)

theorem fixed_distances : Builds fixedDistances init.sdtree where
  table l := by
    split
    · rename_i inside
      have counts : ∀ l : Fin 16, init.sdtree.table[l.val]? = some (count fixedDistances l.val) := by decide +kernel
      exact counts ⟨l,inside⟩
    · exact Vector.getElem?_eq_none (by omega)
  trans s l here used := by
    have inside := (List.getElem?_eq_some_iff.mp here).1
    unfold fixedDistances at here inside
    rw [List.length_replicate] at inside
    rw [List.getElem?_replicate,if_pos inside] at here
    cases here
    have place : below fixedDistances 5 + rank fixedDistances 5 s = s := by
      have start : below fixedDistances 5 = 0 := by decide +kernel
      rw [start]
      unfold rank fixedDistances
      rw [List.take_replicate,List.count_replicate_self]
      omega
    rw [place]
    change (fill (Vector.replicate 288 0) 0 0 32)[s]? = some s
    rw [fill_at _ _ _ _ _ (by decide),if_pos (by omega)]
    exact congrArg some (by omega)

end trees

-- The output so far and the bits that are still to be read.
def progress (d : Data) : Progress := (d.dest,pending d.toSource)

section blocks
variable {lt dt : Tree} {ll dl : List Nat}

-- The tokens of a block, and what they write.
def BlockTokens (ll dl : List Nat) : Reads Int Progress := fun res before after => res = TINF_OK ∧
  ∃ tokens w, Tokens taken ll dl tokens w ∧ tokens.foldlM Token.write before.1 = some after.1 ∧ before.2 = w ++ after.2

theorem inflateBlockData_exact (literals : Builds ll lt) (distances : Builds dl dt) (small : ∀ l ∈ ll, l < 16)
    (small' : ∀ l ∈ dl, l < 16) : Exact progress (inflateBlockData init lt dt) (BlockTokens ll dl) := by
  have rounds := loop_exact (blockRound_exact (decodeSymbol_exact literals small) (decodeSymbol_exact distances small'))
  constructor
  · intro d res d' ran
    obtain ⟨⟨dest,s⟩,looped,same⟩ := Option.bind_eq_some_iff.mp ran
    cases same
    obtain ⟨n,_,read⟩ := (rounds _ _).sound _ _ _ looped
    obtain ⟨tokens,w,list,written,left⟩ := rounds_tokens read
    exact ⟨rfl,tokens,w,list,written,left⟩
  · rintro d res ⟨out,rest⟩ ⟨rfl,tokens,w,list,written,left⟩
    have few : tokens.length < bitsLeft d.toSource := by
      have used := tokens_used list
      have whole : (pending d.toSource).length = (w ++ rest).length := congrArg _ left
      rw [pending_length,List.length_append] at whole
      omega
    have read := tokens_rounds list d.dest out rest written
    rw [←left] at read
    obtain ⟨s,looped,after⟩ := (rounds (bitsLeft d.toSource) d.dest).complete d.toSource out rest ⟨_,few,read⟩
    refine ⟨_,Option.bind_eq_some_iff.mpr ⟨(out,s),looped,rfl⟩,?_⟩
    unfold progress
    rw [after]

theorem inflateFixedBlock_exact : Exact progress (inflateFixedBlock init) (BlockTokens fixedLengths fixedDistances) := by
  have small : fixedLengths.all (fun l => decide (l < 16)) = true := by decide +kernel
  have small' : fixedDistances.all (fun l => decide (l < 16)) = true := by decide +kernel
  exact inflateBlockData_exact fixed_literals fixed_distances (fun l member => of_decide_eq_true (List.all_eq_true.mp small l member))
    fun l member => of_decide_eq_true (List.all_eq_true.mp small' l member)

theorem builds_here {t t' : Tree} {lengths : List Nat} (built : buildTree t lengths = some t') (small : ∀ l ∈ lengths, l < 16)
    (few : lengths.length ≤ 288) : Builds lengths t' := by
  obtain ⟨t'',same,builds⟩ := buildTree_builds t small few
  rw [built] at same
  cases same
  exact builds

theorem inflateDynamicBlock_exact (codeTree : Tree) : Exact progress (inflateDynamicBlock init codeTree)
    (fun res before after => ∃ h w, HeaderBits taken h w ∧ ∃ between, before.2 = w ++ between ∧ BlockTokens h.ll h.dl res (before.1,between) after) := by
  constructor
  · intro d res d' ran
    obtain ⟨⟨trees,s⟩,header,later⟩ := Option.bind_eq_some_iff.mp ran
    obtain ⟨w,⟨h,bits,lit,dist⟩,left⟩ := (decodeTrees_exact codeTree d.ltree d.dtree).sound _ _ _ header
    obtain ⟨small,few,small',few'⟩ := header_lengths bits
    have data := inflateBlockData_exact (builds_here lit small few) (builds_here dist small' few') small small'
    exact ⟨h,w,bits,pending s,left,data.sound _ _ _ later⟩
  · rintro d res after ⟨h,w,bits,between,left,read⟩
    obtain ⟨small,few,small',few'⟩ := header_lengths bits
    obtain ⟨lt,lit,literals⟩ := buildTree_builds d.ltree small few
    obtain ⟨dt,dist,distances⟩ := buildTree_builds d.dtree small' few'
    obtain ⟨s,header,rfl⟩ := (decodeTrees_exact codeTree d.ltree d.dtree).complete d.toSource (lt,dt) between ⟨w,⟨h,bits,lit,dist⟩,left⟩
    have data := inflateBlockData_exact literals distances small small'
    obtain ⟨d',later,view⟩ := data.complete {d with toSource := s,ltree := lt,dtree := dt} res after read
    exact ⟨d',Option.bind_eq_some_iff.mpr ⟨_,header,later⟩,view⟩

theorem value_append (w v : List Bool) : value (w ++ v) = value w + 2^w.length * value v := by
  induction w with
  | nil => simp [value]
  | cons b w ih =>
      rw [List.cons_append,value,value,ih,List.length_cons,Nat.pow_succ,Nat.mul_add,←Nat.mul_assoc,Nat.mul_comm 2 (2^w.length)]
      omega

theorem value_bitsLsb (n v : Nat) : value (bitsLsb n v) = v % 2^n := by
  induction n generalizing v with
  | zero => exact (Nat.mod_one v).symm
  | succ n ih =>
      rw [bitsLsb,value,ih,bit_toNat,Nat.pow_succ',Nat.mod_mul]

theorem value_byte (byte : UInt8) : value (bitsLsb 8 byte.toNat) = byte.toNat := by
  rw [value_bitsLsb]
  exact Nat.mod_eq_of_lt byte.toNat_lt

theorem byteBits_cons (byte : UInt8) (source : List UInt8) : byteBits (byte :: source) = bitsLsb 8 byte.toNat ++ byteBits source :=
  List.flatMap_cons

theorem byteBits_append (one two : List UInt8) : byteBits (one ++ two) = byteBits one ++ byteBits two := List.flatMap_append

-- The bytes a source begins with are those its bits begin with.
theorem bytes_taken (bytes source : List UInt8) (rest : List Bool) (bits : byteBits source = byteBits bytes ++ rest) :
    bytes.length ≤ source.length ∧ source.take bytes.length = bytes ∧ byteBits (source.drop bytes.length) = rest := by
  induction bytes generalizing source with
  | nil => exact ⟨Nat.zero_le _,rfl,bits⟩
  | cons byte bytes ih =>
      cases source with
      | nil =>
          have whole := congrArg List.length bits
          rw [byteBits_cons,List.length_append,List.length_append,bitsLsb_length,byteBits_length] at whole
          simp only [List.length_nil] at whole
          omega
      | cons byte' source =>
          rw [byteBits_cons,byteBits_cons,List.append_assoc] at bits
          obtain ⟨same,later⟩ := List.append_inj bits (by rw [bitsLsb_length,bitsLsb_length])
          have byte_same : byte' = byte := by
            apply UInt8.toNat_inj.mp
            rw [←value_byte byte',same,value_byte]
          obtain ⟨long,taken,left⟩ := ih source later
          rw [byte_same,List.length_cons,List.length_cons,List.take_succ_cons,List.drop_succ_cons,taken]
          exact ⟨Nat.succ_le_succ long,rfl,left⟩

theorem two_bytes (low high : UInt8) : (256*high.toUInt32 + low.toUInt32).toNat = value (bitsLsb 8 low.toNat ++ bitsLsb 8 high.toNat) := by
  have := low.toNat_lt
  have := high.toNat_lt
  rw [value_append,value_byte,value_byte,bitsLsb_length,UInt32.toNat_add,UInt32.toNat_mul,UInt8.toNat_toUInt32,UInt8.toNat_toUInt32,
    show (256 : UInt32).toNat = 256 from rfl,Nat.mod_eq_of_lt (show 256*high.toNat < 2^32 by omega),Nat.mod_eq_of_lt (by omega)]
  omega

theorem other_way (length invlength : UInt32) (short : invlength.toNat < 65536) :
    length = (~~~invlength &&& 0x0000ffff) ↔ length.toNat + invlength.toNat = 65535 := by
  have flipped : (~~~invlength &&& 0x0000ffff : UInt32).toNat = 65535 - invlength.toNat := by
    rw [UInt32.toNat_and,UInt32.toNat_not,show (0x0000ffff : UInt32).toNat = 2^16-1 from rfl,Nat.and_two_pow_sub_one_eq_mod]
    rw [UInt32.size]
    omega
  rw [←UInt32.toNat_inj,flipped]
  omega

-- The bits up to the next byte.
theorem source_split (d : Source) (pad rest : List Bool) (long : pad.length = (pending d).length % 8) (input : pending d = pad ++ rest) :
    byteBits d.source = rest := by
  have small := d.small
  rw [pending_length] at long
  unfold bitsLeft at long
  unfold pending at input
  exact (List.append_inj input (by rw [bitsLsb_length,long]; omega)).2

def twoBytes (low high : UInt8) : List Bool := bitsLsb 8 low.toNat ++ bitsLsb 8 high.toNat

theorem twoBytes_length (low high : UInt8) : (twoBytes low high).length = 16 := by
  unfold twoBytes
  rw [List.length_append,bitsLsb_length,bitsLsb_length]

theorem four_bytes (source : List UInt8) (w w' rest : List Bool) (bits : byteBits source = w ++ (w' ++ rest)) (long : w.length = 16)
    (long' : w'.length = 16) : ∃ s0 s1 s2 s3 source', source = s0 :: s1 :: s2 :: s3 :: source' ∧ w = twoBytes s0 s1 ∧
      w' = twoBytes s2 s3 ∧ byteBits source' = rest := by
  have whole := congrArg List.length bits
  rw [List.length_append,List.length_append,byteBits_length] at whole
  match source with
  | [] | [_] | [_,_] | [_,_,_] =>
      simp only [List.length_cons,List.length_nil] at whole
      omega
  | s0 :: s1 :: s2 :: s3 :: source' =>
      rw [byteBits_cons,byteBits_cons,byteBits_cons,byteBits_cons,←List.append_assoc,←List.append_assoc (bitsLsb 8 s2.toNat)] at bits
      obtain ⟨first,later⟩ := List.append_inj bits ((twoBytes_length s0 s1).trans long.symm)
      obtain ⟨second,left⟩ := List.append_inj later ((twoBytes_length s2 s3).trans long'.symm)
      exact ⟨s0,s1,s2,s3,source',rfl,first.symm,second.symm,left⟩

theorem uncompressed_steps (d : Data) (s0 s1 s2 s3 : UInt8) (source : List UInt8) (whole : d.source = s0 :: s1 :: s2 :: s3 :: source) :
    inflateUncompressedBlock d = if value (twoBytes s0 s1) + value (twoBytes s2 s3) = 65535 then
        if source.length < value (twoBytes s0 s1) then none
        else some (TINF_OK,{d with
          source := source.drop (value (twoBytes s0 s1)),bitcount := 0,small := by decide
          dest := d.dest ++ source.take (value (twoBytes s0 s1)),destLen := d.destLen + UInt32.ofNat (value (twoBytes s0 s1))})
      else some (TINF_DATA_ERROR,d) := by
  have short := value_lt (twoBytes s2 s3)
  rw [twoBytes_length] at short
  have same := other_way (256*s1.toUInt32 + s0.toUInt32) (256*s3.toUInt32 + s2.toUInt32) (by rw [two_bytes]; exact short)
  have length : (256*s1.toUInt32 + s0.toUInt32) = UInt32.ofNat (value (twoBytes s0 s1)) := by
    unfold twoBytes
    rw [←two_bytes,UInt32.ofNat_toNat]
  rw [two_bytes,two_bytes] at same
  unfold inflateUncompressedBlock
  rw [whole]
  dsimp only
  by_cases fits : value (twoBytes s0 s1) + value (twoBytes s2 s3) = 65535
  · rw [if_pos fits,if_neg (not_not_intro (same.mpr fits)),two_bytes,length]
    rfl
  · rw [if_neg fits,if_pos (fun wrong => fits (same.mp wrong))]

theorem aligned (source : List UInt8) (tag : Nat) (small : 0 < 8) : pending ⟨source,tag,0,small⟩ = byteBits source := rfl

theorem lengths_there {d d' : Data} {res : Int} (ran : inflateUncompressedBlock d = some (res,d')) :
    ∃ s0 s1 s2 s3 source, d.source = s0 :: s1 :: s2 :: s3 :: source := by
  match whole : d.source with
  | [] | [_] | [_,_] | [_,_,_] =>
      unfold inflateUncompressedBlock at ran
      rw [whole] at ran
      cases ran
  | s0 :: s1 :: s2 :: s3 :: source => exact ⟨s0,s1,s2,s3,source,rfl⟩

theorem inflateUncompressedBlock_exact : Exact progress inflateUncompressedBlock (fun res before after =>
    (res = TINF_OK ∧ Block taken 0 before after) ∨ (res = TINF_DATA_ERROR ∧ Damaged 0 before ∧ after = before)) := by
  constructor
  · intro d res d' ran
    have pad_length : (bitsLsb d.bitcount d.tag).length = (pending d.toSource).length % 8 := by
      have small := d.small
      rw [pending_length,bitsLsb_length]
      unfold bitsLeft
      omega
    obtain ⟨s0,s1,s2,s3,source,whole⟩ := lengths_there ran
    have input : pending d.toSource = bitsLsb d.bitcount d.tag ++ (twoBytes s0 s1 ++ (twoBytes s2 s3 ++ byteBits source)) := by
      unfold pending
      rw [whole,byteBits_cons,byteBits_cons,byteBits_cons,byteBits_cons]
      simp only [twoBytes,List.append_assoc]
    rw [uncompressed_steps d s0 s1 s2 s3 source whole] at ran
    split at ran
    · rename_i fits
      split at ran
      · cases ran
      · rename_i enough
        cases ran
        have size : (source.take (value (twoBytes s0 s1))).length = value (twoBytes s0 s1) := by
          rw [List.length_take]
          omega
        rw [←List.take_append_drop (value (twoBytes s0 s1)) source,byteBits_append] at input
        have first : bitField 16 0 (source.take (value (twoBytes s0 s1))).length (twoBytes s0 s1) :=
          ⟨twoBytes_length s0 s1,by rw [size,Nat.add_zero]⟩
        have second : bitField 16 0 (65535 - (source.take (value (twoBytes s0 s1))).length) (twoBytes s2 s3) :=
          ⟨twoBytes_length s2 s3,by rw [size]; omega⟩
        have block : Block taken 0 (d.dest,pending d.toSource) (d.dest ++ source.take (value (twoBytes s0 s1)),
            byteBits (source.drop (value (twoBytes s0 s1)))) := .stored _ _ pad_length first second input
        refine .inl ⟨rfl,?_⟩
        unfold progress
        rw [aligned]
        exact block
    · rename_i differ
      cases ran
      have field : ∀ low high, bitField 16 0 (value (twoBytes low high)) (twoBytes low high) :=
        fun low high => ⟨twoBytes_length low high,(Nat.add_zero _).symm⟩
      exact .inr ⟨rfl,.lengths pad_length (field s0 s1) (field s2 s3) input differ,rfl⟩
  · rintro d res after (⟨rfl,block⟩ | ⟨rfl,damaged,rfl⟩)
    · unfold progress at block
      cases block with
      | stored bytes rest long first second input =>
          obtain ⟨s0,s1,s2,s3,source,whole,rfl,rfl,left⟩ := four_bytes _ _ _ _ (source_split d.toSource _ _ long input) first.1 second.1
          obtain ⟨enough,taken,dropped⟩ := bytes_taken bytes source rest left
          have size := first.2
          have other := second.2
          have short := value_lt (twoBytes s0 s1)
          rw [Nat.add_zero] at size other
          rw [twoBytes_length] at short
          rw [uncompressed_steps d s0 s1 s2 s3 source whole,←size,if_pos (by omega),if_neg (by omega),taken]
          refine ⟨_,rfl,?_⟩
          unfold progress
          rw [aligned,dropped]
    · unfold progress at damaged
      cases damaged with
      | unknown _ more => exact absurd more (by decide)
      | lengths long first second input differ =>
          obtain ⟨s0,s1,s2,s3,source,whole,rfl,rfl,left⟩ := four_bytes _ _ _ _ (source_split d.toSource _ _ long input) first.1 second.1
          rw [first.2,second.2,Nat.add_zero,Nat.add_zero] at differ
          rw [uncompressed_steps d s0 s1 s2 s3 source whole,if_neg differ]
          exact ⟨d,rfl,rfl⟩

-- A block is read, or what is no block is told.
def BlockReads (btype : Nat) : Reads Int Progress := fun res before after =>
  (res = TINF_OK ∧ Block taken btype before after) ∨ (res = TINF_DATA_ERROR ∧ Damaged btype before ∧ after = before)

theorem inflateBlock_exact (codeTree : Tree) (btype : Nat) : Exact progress (inflateBlock init codeTree btype) (BlockReads btype) := by
  refine exact_congr (exact_ite (fun _ => inflateUncompressedBlock_exact) fun _ => exact_ite (fun _ => inflateFixedBlock_exact) fun _ =>
    exact_ite (fun _ => inflateDynamicBlock_exact codeTree) fun _ => exact_pure TINF_DATA_ERROR) fun res before after => ?_
  constructor
  · intro read
    split at read
    · rename_i same
      subst same
      exact read
    · split at read
      · rename_i same
        subst same
        obtain ⟨rfl,tokens,w,list,written,left⟩ := read
        exact .inl ⟨rfl,by
          rw [show before = (before.1,w ++ after.2) from Prod.ext rfl left]
          exact .fixed list written⟩
      · split at read
        · rename_i same
          subst same
          obtain ⟨h,w',bits,between,left',rfl,tokens,w,list,written,left⟩ := read
          change between = w ++ after.2 at left
          subst left
          exact .inl ⟨rfl,by
            rw [show before = (before.1,w' ++ (w ++ after.2)) from Prod.ext rfl left']
            exact .dynamic bits list written⟩
        · obtain ⟨rfl,rfl⟩ := read
          exact .inr ⟨rfl,.unknown _ (by omega),rfl⟩
  · rintro (⟨rfl,block⟩ | ⟨rfl,damaged,rfl⟩)
    · cases block with
      | stored bytes rest long first second input => exact .inl ⟨rfl,.stored bytes rest long first second input⟩
      | fixed list written => exact ⟨rfl,_,_,list,written,rfl⟩
      | dynamic bits list written => exact ⟨_,_,bits,_,rfl,rfl,_,_,list,written,rfl⟩
    · cases damaged with
      | unknown _ more =>
          rw [if_neg (by omega),if_neg (by omega),if_neg (by omega)]
          exact ⟨rfl,rfl⟩
      | lengths long first second input differ => exact .inr ⟨rfl,.lengths long first second input differ,rfl⟩

end blocks

end GameServer.Common.InflateBlocks
