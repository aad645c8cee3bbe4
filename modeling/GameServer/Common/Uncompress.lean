import GameServer.Common.InflateBlocks

namespace GameServer.Common.Uncompress
open TInf Readers CanonicalCodes Huffman Deflate Inflate InflateBlocks

section runs

theorem fromSource_exact {f : Read α} {P : Reads α (List Bool)} (exact : Exact pending f P) :
    Exact progress (fromSource f) (fun x before after => P x before.2 after.2 ∧ after.1 = before.1) where
  sound d x d' ran := by
    obtain ⟨⟨y,s⟩,read,same⟩ := Option.bind_eq_some_iff.mp ran
    cases same
    exact ⟨exact.sound _ _ _ read,rfl⟩
  complete d x after reads := by
    obtain ⟨s,read,left⟩ := exact.complete d.toSource x after.2 reads.1
    refine ⟨_,Option.bind_eq_some_iff.mpr ⟨(x,s),read,rfl⟩,?_⟩
    exact Prod.ext reads.2.symm left

-- The head of a block and the block, which is the last one where the head tells so.
def BlockRound : Reads (Unit ⊕ Int) Progress := fun out before after => ∃ bfinal b b' input, before.2 = bfinal :: b :: b' :: input ∧
  ((Block taken (value [b,b']) (before.1,input) after ∧ out = if bfinal then .inr TINF_OK else .inl ()) ∨
    (Damaged (value [b,b']) (before.1,input) ∧ after = (before.1,input) ∧ out = .inr TINF_DATA_ERROR))

theorem uncompressRound_exact (codeTree : Tree) (u : Unit) : Exact progress (uncompressRound init codeTree u) BlockRound := by
  have answer : ∀ (bfinal : Nat) (res : Int), Exact progress
      (if res ≠ TINF_OK then return .inr TINF_DATA_ERROR else if bfinal = 0 then return .inl () else return .inr TINF_OK :
        Reader Data (Unit ⊕ Int)) (fun out before after => out = (if res ≠ TINF_OK then .inr TINF_DATA_ERROR else
          if bfinal = 0 then .inl () else .inr TINF_OK) ∧ after = before) := by
    intro bfinal res
    split
    · exact exact_pure _
    · split
      · exact exact_pure _
      · exact exact_pure _
  refine exact_congr (exact_bind (fromSource_exact getbit_exact) fun bfinal _ => exact_bind (fromSource_exact (readBits_exact 2 0))
    fun btype _ => exact_bind (inflateBlock_exact codeTree btype) fun res _ => answer bfinal res) fun out before after => ?_
  constructor
  · rintro ⟨_,one,⟨⟨b0,first,rfl⟩,same⟩,_,two,⟨⟨w,⟨long,rfl⟩,second⟩,same'⟩,res,_,block,rfl,rfl⟩
    match w with
    | [b,b'] =>
        rw [same] at same'
        have start : two = (before.1,two.2) := Prod.ext same' rfl
        refine ⟨b0,b,b',two.2,first.trans (congrArg _ second),?_⟩
        rw [←start]
        rcases block with ⟨rfl,block⟩ | ⟨rfl,damaged,rfl⟩
        · exact .inl ⟨block,by cases b0 <;> rfl⟩
        · exact .inr ⟨damaged,rfl,rfl⟩
  · rintro ⟨bfinal,b,b',input,first,read⟩
    refine ⟨bfinal.toNat,(before.1,b :: b' :: input),⟨⟨bfinal,first,rfl⟩,rfl⟩,value [b,b'],(before.1,input),
      ⟨⟨[b,b'],⟨rfl,rfl⟩,rfl⟩,rfl⟩,?_⟩
    rcases read with ⟨block,rfl⟩ | ⟨damaged,rfl,rfl⟩
    · exact ⟨TINF_OK,after,.inl ⟨rfl,block⟩,by cases bfinal <;> rfl,rfl⟩
    · exact ⟨TINF_DATA_ERROR,_,.inr ⟨rfl,damaged,rfl⟩,rfl,rfl⟩

-- What a run reads and how it ends.
def RunReads (res : Int) (before after : Progress) : Prop :=
  (res = TINF_OK ∧ Blocks taken before after) ∨ (res = TINF_DATA_ERROR ∧ Corrupt taken before after)

theorem rounds_run {n : Nat} {res : Int} {before after : Progress} (rounds : Rounds (fun _ => BlockRound) n () res before after) :
    RunReads res before after := by
  generalize here : () = u at rounds
  induction rounds with
  | @stop _ z input rest read =>
      obtain ⟨bfinal,b,b',bits,first,read⟩ := read
      rw [show input = (input.1,bfinal :: b :: b' :: bits) from Prod.ext rfl first]
      rcases read with ⟨block,same⟩ | ⟨damaged,rfl,same⟩
      · cases bfinal with
        | true =>
            cases same
            exact .inl ⟨rfl,.last block⟩
        | false => cases same
      · cases same
        exact .inr ⟨rfl,.here damaged⟩
  | @more _ _ _ z input between rest read _ ih =>
      obtain ⟨bfinal,b,b',bits,first,read⟩ := read
      rw [show input = (input.1,bfinal :: b :: b' :: bits) from Prod.ext rfl first]
      rcases read with ⟨block,same⟩ | ⟨_,_,same⟩
      · cases bfinal with
        | true => cases same
        | false =>
            rcases ih rfl with ⟨rfl,blocks⟩ | ⟨rfl,corrupt⟩
            · exact .inl ⟨rfl,.more block blocks⟩
            · exact .inr ⟨rfl,.more block corrupt⟩
      · cases same

theorem block_shorter (block : Block taken btype before after) : after.2.length ≤ before.2.length := by
  cases block with
  | stored bytes rest _ _ _ input =>
      rw [input]
      simp only [List.length_append]
      omega
  | fixed _ _ =>
      simp only [List.length_append]
      omega
  | dynamic _ _ _ =>
      simp only [List.length_append]
      omega

-- A block in front is one round more.
theorem rounds_more {res : Int} {out : List UInt8} {b b' : Bool} {input : List Bool} {between after : Progress}
    (block : Block taken (value [b,b']) (out,input) between) (later : ∃ n < between.2.length, Rounds (fun _ => BlockRound) n () res between after) :
    ∃ n < (false :: b :: b' :: input).length, Rounds (fun _ => BlockRound) n () res (out,false :: b :: b' :: input) after := by
  obtain ⟨n,few,rounds⟩ := later
  have shorter := block_shorter block
  refine ⟨n+1,?_,.more (y:=()) ⟨false,_,_,_,rfl,.inl ⟨block,rfl⟩⟩ rounds⟩
  simp only [List.length_cons] at shorter ⊢
  omega

theorem blocks_rounds (blocks : Blocks taken before after) :
    ∃ n < before.2.length, Rounds (fun _ => BlockRound) n () TINF_OK before after := by
  induction blocks with
  | last block => exact ⟨0,Nat.succ_pos _,.stop ⟨true,_,_,_,rfl,.inl ⟨block,rfl⟩⟩⟩
  | more block _ ih => exact rounds_more block ih

theorem corrupt_rounds (corrupt : Corrupt taken before after) :
    ∃ n < before.2.length, Rounds (fun _ => BlockRound) n () TINF_DATA_ERROR before after := by
  induction corrupt with
  | here damaged => exact ⟨0,Nat.succ_pos _,.stop ⟨_,_,_,_,rfl,.inr ⟨damaged,rfl,rfl⟩⟩⟩
  | more block _ ih => exact rounds_more block ih

-- destLen counts what has been written.
def Counted (d : Data) : Prop := d.destLen = UInt32.ofNat d.dest.length

theorem tokens_longer {tokens : List Token} {dest dest' : List UInt8} (written : tokens.foldlM Token.write dest = some dest') :
    dest.length ≤ dest'.length := by
  induction tokens generalizing dest with
  | nil =>
      cases written
      exact Nat.le_refl _
  | cons token tokens ih =>
      rw [List.foldlM_cons] at written
      obtain ⟨next,here,later⟩ := Option.bind_eq_some_iff.mp written
      exact Nat.le_trans (write_longer here) (ih later)

theorem data_counted {lt dt : Tree} {d d' : Data} {res : Int} (ran : inflateBlockData init lt dt d = some (res,d'))
    (longer : d.dest.length ≤ d'.dest.length) (counted : Counted d) : Counted d' := by
  obtain ⟨⟨dest,s⟩,_,same⟩ := Option.bind_eq_some_iff.mp ran
  cases same
  unfold Counted at counted ⊢
  rw [counted,←UInt32.ofNat_add,Nat.add_sub_cancel' longer]

theorem block_counted {codeTree : Tree} {btype : Nat} {d d' : Data} {res : Int}
    (ran : inflateBlock init codeTree btype d = some (res,d')) (counted : Counted d) : Counted d' := by
  unfold inflateBlock at ran
  split at ran
  · obtain ⟨s0,s1,s2,s3,source,whole⟩ := lengths_there ran
    rw [uncompressed_steps d s0 s1 s2 s3 source whole] at ran
    split at ran
    · split at ran
      · cases ran
      · cases ran
        unfold Counted at counted ⊢
        rw [counted,←UInt32.ofNat_add,List.length_append,List.length_take,Nat.min_eq_left (by omega)]
    · cases ran
      exact counted
  · split at ran
    · obtain ⟨_,_,_,_,written,_⟩ := inflateFixedBlock_exact.sound _ _ _ ran
      exact data_counted ran (tokens_longer written) counted
    · split at ran
      · obtain ⟨_,_,_,_,_,_,_,_,_,written,_⟩ := (inflateDynamicBlock_exact codeTree).sound _ _ _ ran
        obtain ⟨⟨trees,s⟩,_,later⟩ := Option.bind_eq_some_iff.mp ran
        exact data_counted later (tokens_longer written) counted
      · cases ran
        exact counted

theorem round_counted (codeTree : Tree) (u : Unit) (d : Data) (out : Unit ⊕ Int) (d' : Data)
    (ran : uncompressRound init codeTree u d = some (out,d')) (counted : Counted d) : Counted d' := by
  obtain ⟨⟨bfinal,one⟩,first,ran⟩ := Option.bind_eq_some_iff.mp ran
  obtain ⟨⟨btype,two⟩,second,ran⟩ := Option.bind_eq_some_iff.mp ran
  obtain ⟨⟨res,three⟩,block,ran⟩ := Option.bind_eq_some_iff.mp ran
  have start : Counted two := by
    obtain ⟨⟨_,s⟩,_,same⟩ := Option.bind_eq_some_iff.mp first
    cases same
    obtain ⟨⟨_,s⟩,_,same⟩ := Option.bind_eq_some_iff.mp second
    cases same
    exact counted
  have stays : d' = three := by
    dsimp only at ran
    by_cases fine : res = TINF_OK
    · rw [if_neg (not_not_intro fine)] at ran
      by_cases more : bfinal = 0
      · rw [if_pos more] at ran
        cases ran
        rfl
      · rw [if_neg more] at ran
        cases ran
        rfl
    · rw [if_pos fine] at ran
      cases ran
      rfl
  rw [stays]
  exact block_counted block start

theorem uncompress_reads (codeTree ltree dtree : Tree) (source : List UInt8) (res : Int) (destLen : UInt32) (dest : List UInt8) :
    uncompress init codeTree ltree dtree source = some (res,destLen,dest) ↔ destLen = UInt32.ofNat dest.length ∧
      ∃ rest, (res = TINF_OK ∧ Blocks taken ([],byteBits source) (dest,rest)) ∨
        (res = TINF_DATA_ERROR ∧ Corrupt taken ([],byteBits source) (dest,rest)) := by
  have exact := loop_exact (uncompressRound_exact codeTree) (8*source.length) ()
  constructor
  · intro ran
    obtain ⟨⟨res',d⟩,looped,same⟩ := Option.bind_eq_some_iff.mp ran
    cases same
    obtain ⟨n,_,rounds⟩ := exact.sound _ _ _ looped
    exact ⟨loop_keeps Counted (round_counted codeTree) looped rfl,_,rounds_run rounds⟩
  · rintro ⟨rfl,rest,read⟩
    have rounds : ∃ n < (byteBits source).length, Rounds (fun _ => BlockRound) n () res ([],byteBits source) (dest,rest) := by
      rcases read with ⟨rfl,blocks⟩ | ⟨rfl,corrupt⟩
      · exact blocks_rounds blocks
      · exact corrupt_rounds corrupt
    rw [byteBits_length] at rounds
    let d : Data := ⟨⟨source,0,0,by decide⟩,[],0,ltree,dtree⟩
    obtain ⟨d',looped,after⟩ := exact.complete d res (dest,rest) rounds
    have written : d'.dest = dest := congrArg Prod.fst after
    have counted : d'.destLen = UInt32.ofNat d'.dest.length := loop_keeps Counted (round_counted codeTree) looped rfl
    refine Option.bind_eq_some_iff.mpr ⟨(res,d'),looped,?_⟩
    show some (res,d'.destLen,d'.dest) = _
    rw [counted,written]

end runs

section tables

-- A table of bits and the bases built from it give every number of one stretch, each
-- from one symbol alone.
theorem bases_cover (bits : List Nat) (first n : Nat) :
    (∃ i b base : Nat, bits[i]? = some b ∧ (buildBase bits first)[i]? = some base ∧ base ≤ n ∧ n < base + 2^b) ↔
      first ≤ n ∧ n < first + (bits.map (2^·)).sum := by
  induction bits generalizing first with
  | nil =>
      constructor
      · rintro ⟨i,b,base,there,_⟩
        cases there
      · rintro ⟨low,high⟩
        simp only [List.map_nil,List.sum_nil] at high
        omega
  | cons b bits ih =>
      rw [List.map_cons,List.sum_cons]
      constructor
      · rintro ⟨i,b',base,there,based,low,high⟩
        cases i with
        | zero =>
            cases there
            cases based
            omega
        | succ i =>
            obtain ⟨low,high⟩ := (ih (first+2^b)).mp ⟨i,b',base,there,based,low,high⟩
            exact ⟨Nat.le_trans (Nat.le_add_right ..) low,by omega⟩
      · rintro ⟨low,high⟩
        by_cases here : n < first+2^b
        · exact ⟨0,b,first,rfl,rfl,low,here⟩
        · obtain ⟨i,b',base,there,based,low,high⟩ := (ih (first+2^b)).mpr ⟨by omega,by omega⟩
          exact ⟨i+1,b',base,there,based,low,high⟩

theorem bases_apart (bits : List Nat) (first n : Nat) {i j b b' base base' : Nat} (one : bits[i]? = some b)
    (based : (buildBase bits first)[i]? = some base) (low : base ≤ n) (high : n < base + 2^b) (two : bits[j]? = some b')
    (based' : (buildBase bits first)[j]? = some base') (low' : base' ≤ n) (high' : n < base' + 2^b') : i = j := by
  induction bits generalizing first i j with
  | nil => cases one
  | cons c bits ih =>
      have later : ∀ {k d base}, bits[k]? = some d → (buildBase bits (first+2^c))[k]? = some base → base ≤ n → n < base+2^d →
          first+2^c ≤ n := fun there based low high => ((bases_cover bits (first+2^c) n).mp ⟨_,_,_,there,based,low,high⟩).1
      cases i with
      | zero =>
          cases one
          cases based
          cases j with
          | zero => rfl
          | succ j =>
              have := later two based' low' high'
              omega
      | succ i =>
          cases j with
          | zero =>
              cases two
              cases based'
              have := later one based low high
              omega
          | succ j => exact congrArg (· + 1) (ih (first+2^c) one based two based')

theorem extra_range (bits base : List Nat) (sym n : Nat) : (∃ w, Extra bits base sym n w) ↔
    ∃ b first, bits[sym]? = some b ∧ base[sym]? = some first ∧ first ≤ n ∧ n < first + 2^b := by
  constructor
  · rintro ⟨w,entry,there,field⟩
    obtain ⟨b,some_bits,there⟩ := Option.bind_eq_some_iff.mp there
    obtain ⟨first,based,there⟩ := Option.bind_eq_some_iff.mp there
    cases there
    exact ⟨b,first,some_bits,based,field_range field⟩
  · rintro ⟨b,first,some_bits,based,low,high⟩
    refine ⟨bitsLsb b (n-first),(b,first),?_,bitsLsb_length _ _,?_⟩
    · unfold lookup
      rw [some_bits,based]
      rfl
    · rw [value_bitsLsb,Nat.mod_eq_of_lt (by omega)]
      dsimp only
      omega

-- The lengths but for the last one, which has a symbol of its own.
theorem lengths_range (sym n : Nat) : (∃ w, Extra init.lengthBits init.lengthBase sym n w) ∧ sym < 28 ↔
    ∃ b first, ((buildBits 4).take 28)[sym]? = some b ∧ (buildBase ((buildBits 4).take 28) 3)[sym]? = some first ∧
      first ≤ n ∧ n < first + 2^b := by
  have bits : init.lengthBits = (buildBits 4).take 28 ++ [0,6] := by decide
  have base : init.lengthBase = buildBase ((buildBits 4).take 28) 3 ++ [258,323] := by decide
  have size : ((buildBits 4).take 28).length = 28 ∧ (buildBase ((buildBits 4).take 28) 3).length = 28 := by decide
  rw [extra_range,bits,base]
  constructor
  · rintro ⟨⟨b,first,there,based,range⟩,small⟩
    rw [List.getElem?_append_left (by omega)] at there based
    exact ⟨b,first,there,based,range⟩
  · rintro ⟨b,first,there,based,range⟩
    have small := (List.getElem?_eq_some_iff.mp there).1
    refine ⟨⟨b,first,?_,?_,range⟩,by omega⟩
    · rw [List.getElem?_append_left small,there]
    · rw [List.getElem?_append_left (by omega),based]

theorem last_length (n : Nat) : (∃ w, Extra init.lengthBits init.lengthBase 28 n w) ↔ n = 258 := by
  rw [extra_range]
  constructor
  · rintro ⟨b,first,there,based,low,high⟩
    cases (show (some 0 : Option Nat) = some b from there)
    cases (show (some 258 : Option Nat) = some first from based)
    omega
  · rintro rfl
    exact ⟨0,258,by decide,by decide,by decide,by decide⟩

-- The entry behind those of deflate.
theorem beyond_length (n : Nat) : (∃ w, Extra init.lengthBits init.lengthBase 29 n w) ↔ 323 ≤ n ∧ n ≤ 386 := by
  rw [extra_range]
  constructor
  · rintro ⟨b,first,there,based,low,high⟩
    cases (show (some 6 : Option Nat) = some b from there)
    cases (show (some 323 : Option Nat) = some first from based)
    omega
  · rintro ⟨low,high⟩
    exact ⟨6,323,by decide,by decide,low,by omega⟩

theorem thirty_lengths (extra : Extra init.lengthBits init.lengthBase sym n w) : sym < 28 ∨ sym = 28 ∨ sym = 29 := by
  obtain ⟨b,first,there,_⟩ := (extra_range _ _ sym n).mp ⟨w,extra⟩
  have inside := (List.getElem?_eq_some_iff.mp there).1
  rw [show init.lengthBits.length = 30 by decide] at inside
  omega

theorem lengths_cover (n : Nat) : (∃ sym < 29, ∃ w, Extra init.lengthBits init.lengthBase sym n w) ↔ 3 ≤ n ∧ n ≤ 258 := by
  have lengths := bases_cover ((buildBits 4).take 28) 3 n
  rw [show (((buildBits 4).take 28).map (2^·)).sum = 256 from by decide] at lengths
  constructor
  · rintro ⟨sym,small,extra⟩
    rcases Nat.lt_succ_iff_lt_or_eq.mp small with before | rfl
    · obtain ⟨b,first,range⟩ := (lengths_range sym n).mp ⟨extra,before⟩
      have := lengths.mp ⟨sym,b,first,range⟩
      omega
    · have := (last_length n).mp extra
      omega
  · rintro ⟨low,high⟩
    rcases Nat.lt_or_eq_of_le high with before | rfl
    · obtain ⟨sym,range⟩ := lengths.mpr ⟨low,by omega⟩
      obtain ⟨extra,small⟩ := (lengths_range sym n).mpr range
      exact ⟨sym,by omega,extra⟩
    · exact ⟨28,by decide,(last_length 258).mpr rfl⟩

-- Two symbols for one length: neither is the one that is 258 alone, and past 258 there is one.
theorem lengths_apart (other : n ≠ 258) (one : Extra init.lengthBits init.lengthBase sym n w)
    (two : Extra init.lengthBits init.lengthBase sym' n w') : sym = sym' := by
  have small : ∀ {k e}, k < 28 → Extra init.lengthBits init.lengthBase k n e → n ≤ 258 := fun few extra =>
    ((lengths_cover n).mp ⟨_,Nat.lt_succ_of_lt few,_,extra⟩).2
  rcases thirty_lengths one with few | rfl | rfl
  · rcases thirty_lengths two with few' | rfl | rfl
    · obtain ⟨b,first,there,based,low,high⟩ := (lengths_range sym n).mp ⟨⟨w,one⟩,few⟩
      obtain ⟨b',first',there',based',low',high'⟩ := (lengths_range sym' n).mp ⟨⟨w',two⟩,few'⟩
      exact bases_apart ((buildBits 4).take 28) 3 n there based low high there' based' low' high'
    · exact absurd ((last_length n).mp ⟨w',two⟩) other
    · have := ((beyond_length n).mp ⟨w',two⟩).1
      have := small few one
      omega
  · exact absurd ((last_length n).mp ⟨w,one⟩) other
  · rcases thirty_lengths two with few' | rfl | rfl
    · have := ((beyond_length n).mp ⟨w,one⟩).1
      have := small few' two
      omega
    · exact absurd ((last_length n).mp ⟨w',two⟩) other
    · rfl

end tables

-- The tables have a symbol for every length from 3 to 258, which are those of deflate, and
-- in a thirtieth entry for those from 323 to 386, and for every distance from 1 to 32768;
-- only the length 258 has two.
theorem tables_cover (n : Nat) :
    ((∃ sym w, Extra init.lengthBits init.lengthBase sym n w) ↔ (3 ≤ n ∧ n ≤ 258) ∨ (323 ≤ n ∧ n ≤ 386)) ∧
    ((∃ sym < 29, ∃ w, Extra init.lengthBits init.lengthBase sym n w) ↔ 3 ≤ n ∧ n ≤ 258) ∧
    ((∃ sym w, Extra init.distBits init.distBase sym n w) ↔ 1 ≤ n ∧ n ≤ 32768) ∧
    (∀ sym sym' w w', Extra init.distBits init.distBase sym n w → Extra init.distBits init.distBase sym' n w' → sym = sym') ∧
    (∀ sym sym' w w', n ≠ 258 → Extra init.lengthBits init.lengthBase sym n w → Extra init.lengthBits init.lengthBase sym' n w' →
      sym = sym') := by
  have distances := bases_cover (buildBits 2) 1 n
  rw [show ((buildBits 2).map (2^·)).sum = 32768 from by decide] at distances
  refine ⟨⟨?_,?_⟩,lengths_cover n,⟨?_,?_⟩,?_,fun _ _ _ _ other one two => lengths_apart other one two⟩
  · rintro ⟨sym,w,extra⟩
    rcases thirty_lengths extra with few | rfl | rfl
    · exact .inl ((lengths_cover n).mp ⟨sym,by omega,w,extra⟩)
    · exact .inl ((lengths_cover n).mp ⟨28,by decide,w,extra⟩)
    · exact .inr ((beyond_length n).mp ⟨w,extra⟩)
  · rintro (short | long)
    · obtain ⟨sym,_,extra⟩ := (lengths_cover n).mpr short
      exact ⟨sym,extra⟩
    · exact ⟨29,(beyond_length n).mpr long⟩
  · rintro ⟨sym,extra⟩
    obtain ⟨b,first,range⟩ := (extra_range _ _ sym n).mp extra
    have := distances.mp ⟨sym,b,first,range⟩
    omega
  · rintro ⟨low,high⟩
    obtain ⟨sym,b,first,range⟩ := distances.mpr ⟨low,by omega⟩
    exact ⟨sym,(extra_range _ _ sym n).mpr ⟨b,first,range⟩⟩
  · intro sym sym' w w' one two
    obtain ⟨b,first,there,based,low,high⟩ := (extra_range _ _ sym n).mp ⟨w,one⟩
    obtain ⟨b',first',there',based',low',high'⟩ := (extra_range _ _ sym' n).mp ⟨w',two⟩
    exact bases_apart (buildBits 2) 1 n there based low high there' based' low' high'

end GameServer.Common.Uncompress
