import GameServer.Common.Deflate

namespace GameServer.Common.Inflate
open TInf Readers CanonicalCodes Huffman Deflate

section copies

-- Byte i of a copy of the last `offs` bytes.
def copied (dest : List UInt8) (offs i : Nat) : UInt8 := dest.getD (dest.length - offs + i % offs) 0

-- The loop writes what it copies later on.
theorem copied_on (dest : List UInt8) (offs i : Nat) (some_offs : 0 < offs) (within : offs ≤ dest.length) :
    copied (dest ++ [copied dest offs 0]) offs i = copied dest offs (i+1) := by
  unfold copied
  rw [List.length_append,List.length_singleton,Nat.zero_mod,Nat.add_zero]
  have small := Nat.mod_lt i some_offs
  by_cases last : i % offs + 1 = offs
  · have around : (i+1) % offs = 0 := by
      rw [Nat.add_mod]
      rcases Nat.lt_or_eq_of_le (show 1 ≤ offs from some_offs) with more | one
      · rw [Nat.mod_eq_of_lt more,last,Nat.mod_self]
      · rw [←one]
        exact Nat.mod_one _
    rw [around,Nat.add_zero,show dest.length + 1 - offs + i % offs = dest.length by omega]
    simp
  · have next : (i+1) % offs = i % offs + 1 := by
      rw [Nat.add_mod,Nat.mod_eq_of_lt (show 1 < offs by omega),Nat.mod_eq_of_lt (by omega)]
    rw [next,show dest.length + 1 - offs + i % offs = dest.length - offs + (i % offs + 1) by omega]
    simp only [List.getD_eq_getElem?_getD]
    rw [List.getElem?_append_left (by omega)]

theorem copyMatch_copies (length : Nat) (offs : Nat) (dest : List UInt8) : copyMatch (length+1) offs dest =
    if 0 < offs ∧ offs ≤ dest.length then some (dest ++ (List.range (length+1)).map (copied dest offs)) else none := by
  induction length generalizing dest with
  | zero =>
      unfold copyMatch
      by_cases within : offs ≤ dest.length
      · rw [if_pos within]
        by_cases none : offs = 0
        · rw [if_neg (by omega),none,Nat.sub_zero,List.getElem?_eq_none (Nat.le_refl _)]
        · rw [if_pos (by omega),List.getElem?_eq_getElem (by omega)]
          simp [copyMatch,copied,List.getD_eq_getElem?_getD,List.getElem?_eq_getElem (show dest.length - offs < dest.length by omega)]
      · rw [if_neg within,if_neg (by omega)]
  | succ length ih =>
      rw [copyMatch]
      by_cases within : offs ≤ dest.length
      · rw [if_pos within]
        by_cases none : offs = 0
        · rw [if_neg (by omega),none,Nat.sub_zero,List.getElem?_eq_none (Nat.le_refl _)]
        · have first : dest[dest.length - offs]? = some (copied dest offs 0) := by
            rw [List.getElem?_eq_getElem (by omega)]
            simp [copied,List.getD_eq_getElem?_getD,List.getElem?_eq_getElem (show dest.length - offs < dest.length by omega)]
          rw [if_pos (by omega),first]
          dsimp only
          rw [ih,if_pos ⟨by omega,by rw [List.length_append]; omega⟩,List.append_assoc,List.range_succ_eq_map (n:=length+1),
            List.map_cons,List.map_map]
          congr 2
          refine congrArg (List.cons _) (List.map_congr_left fun i _ => ?_)
          exact copied_on dest offs i (by omega) within
      · rw [if_neg within,if_neg (by omega)]

theorem copyMatch_write (long : 0 < length) (offs : Nat) (dest : List UInt8) :
    copyMatch length offs dest = Token.write dest (.copy length offs) := by
  obtain ⟨n,rfl⟩ := Nat.exists_eq_succ_of_ne_zero (Nat.pos_iff_ne_zero.mp long)
  exact copyMatch_copies n offs dest

-- No length of the tables is below three.
theorem length_long (extra : Extra init.lengthBits init.lengthBase sym n w) : 0 < n := by
  obtain ⟨entry,there,_,rfl⟩ := extra
  have bases : init.lengthBase.all (fun base => decide (0 < base)) = true := by decide
  unfold lookup at there
  obtain ⟨b,_,there⟩ := Option.bind_eq_some_iff.mp there
  obtain ⟨first,based,there⟩ := Option.bind_eq_some_iff.mp there
  cases there
  have := of_decide_eq_true (List.all_eq_true.mp bases first (List.mem_of_getElem? based))
  show 0 < value w + first
  omega

theorem write_longer (written : Token.write dest token = some dest') : dest.length ≤ dest'.length := by
  cases token with
  | literal byte =>
      cases written
      simp
  | copy length offs =>
      change (if _ then _ else _) = _ at written
      split at written
      · obtain rfl := Option.some.inj written
        simp
      · cases written

end copies

section lengths
variable {codeTree : Tree} {cl : List Nat}

-- What a symbol stores: a run, where there is room for it.
def RunReads (cl lengths : List Nat) : Reads (List Nat) (List Bool) :=
  phrases fun next w => ∃ run, RunBits cl run w ∧ run.write lengths = some next ∧ next.length ≤ 320

theorem store_some (lengths : List Nat) (value times : Nat) (next : List Nat) : store lengths value times = some next ↔
    lengths ++ List.replicate times value = next ∧ next.length ≤ 320 := by
  unfold store
  constructor
  · intro stored
    split at stored
    · cases stored
      refine ⟨rfl,?_⟩
      rw [List.length_append,List.length_replicate]
      assumption
    · cases stored
  · rintro ⟨rfl,fits⟩
    rw [List.length_append,List.length_replicate] at fits
    rw [if_pos fits]

-- The extra bits of a run, and so many copies of a value.
theorem repeat_exact (num base : Nat) (lengths : List Nat) (prev : Nat) :
    Exact pending (readBits num base >>= fun length => StateT.lift (store lengths prev length) : Read (List Nat))
      (phrases fun next e => ∃ times, bitField num base times e ∧ lengths ++ List.replicate times prev = next ∧ next.length ≤ 320) := by
  refine exact_congr (exact_bind (readBits_exact num base) fun length _ => exact_lift _) fun next input rest => ?_
  constructor
  · rintro ⟨times,_,⟨e,field,rfl⟩,stored,rfl⟩
    exact ⟨e,⟨times,field,(store_some ..).mp stored⟩,rfl⟩
  · rintro ⟨e,⟨times,field,stored⟩,rfl⟩
    exact ⟨times,rest,⟨e,field,rfl⟩,(store_some ..).mpr stored,rfl⟩

-- The run a symbol stands for.
def SymbolRun (lengths : List Nat) (sym : Nat) : Reads (List Nat) (List Bool) := fun next input rest =>
  if sym = 16 then ∃ prev e times, lengths.getLast? = some prev ∧ bitField 2 3 times e ∧
    lengths ++ List.replicate times prev = next ∧ next.length ≤ 320 ∧ input = e ++ rest
  else if sym = 17 then ∃ e times, bitField 3 3 times e ∧
    lengths ++ List.replicate times 0 = next ∧ next.length ≤ 320 ∧ input = e ++ rest
  else if sym = 18 then ∃ e times, bitField 7 11 times e ∧
    lengths ++ List.replicate times 0 = next ∧ next.length ≤ 320 ∧ input = e ++ rest
  else (lengths ++ [sym] = next ∧ next.length ≤ 320) ∧ rest = input

theorem storeSymbol_exact (lengths : List Nat) (sym : Nat) : Exact pending (storeSymbol lengths sym) (SymbolRun lengths sym) := by
  have plain : ∀ num base, Exact pending (readBits num base >>= fun length => StateT.lift (store lengths 0 length) : Read (List Nat))
      (fun next input rest => ∃ e times, bitField num base times e ∧
        lengths ++ List.replicate times 0 = next ∧ next.length ≤ 320 ∧ input = e ++ rest) := by
    intro num base
    refine exact_congr (repeat_exact num base lengths 0) fun next input rest => ?_
    constructor
    · rintro ⟨e,⟨times,field,same,fits⟩,rfl⟩
      exact ⟨e,times,field,same,fits,rfl⟩
    · rintro ⟨e,times,field,same,fits,rfl⟩
      exact ⟨e,⟨times,field,same,fits⟩,rfl⟩
  unfold storeSymbol
  refine exact_ite (fun _ => ?_) fun _ => exact_ite (fun _ => plain 3 3) fun _ => exact_ite (fun _ => plain 7 11) fun _ => ?_
  · refine exact_congr (exact_bind (exact_lift _) fun prev _ => repeat_exact 2 3 lengths prev) fun next input rest => ?_
    constructor
    · rintro ⟨prev,_,⟨there,rfl⟩,e,⟨times,field,same,fits⟩,rfl⟩
      exact ⟨prev,e,times,there,field,same,fits,rfl⟩
    · rintro ⟨prev,e,times,there,field,same,fits,rfl⟩
      exact ⟨prev,_,⟨there,rfl⟩,e,⟨times,field,same,fits⟩,rfl⟩
  · refine exact_congr (exact_lift _) fun next input rest => ?_
    rw [store_some]
    rfl

theorem run_exact (reads : Exact pending (decodeSymbol codeTree) (phrases (Codeword cl))) (short : cl.length = 19) (lengths : List Nat) :
    Exact pending (decodeSymbol codeTree >>= storeSymbol lengths) (RunReads cl lengths) := by
  refine exact_congr (exact_bind reads fun sym _ => storeSymbol_exact lengths sym) fun next input rest => ?_
  constructor
  · rintro ⟨sym,_,⟨w,codeword,rfl⟩,read⟩
    have few : sym < 19 := by
      rw [←short]
      exact (List.getElem?_eq_some_iff.mp codeword.length).1
    unfold SymbolRun at read
    split at read
    · rename_i same
      subst same
      obtain ⟨prev,e,times,there,field,rfl,fits,rfl⟩ := read
      refine ⟨w ++ e,⟨.again times,.again codeword field,?_,fits⟩,(List.append_assoc ..).symm⟩
      unfold Run.write
      rw [there]
      rfl
    · split at read
      · rename_i same
        subst same
        obtain ⟨e,times,field,rfl,fits,rfl⟩ := read
        exact ⟨w ++ e,⟨.zeros times,.zeros codeword field,rfl,fits⟩,(List.append_assoc ..).symm⟩
      · split at read
        · rename_i same
          subst same
          obtain ⟨e,times,field,rfl,fits,rfl⟩ := read
          exact ⟨w ++ e,⟨.zeros times,.manyZeros codeword field,rfl,fits⟩,(List.append_assoc ..).symm⟩
        · obtain ⟨⟨rfl,fits⟩,rfl⟩ := read
          exact ⟨w,⟨.one sym,.one (by omega) codeword,rfl,fits⟩,rfl⟩
  · rintro ⟨_,⟨run,bits,written,fits⟩,rfl⟩
    cases bits with
    | @one l w small codeword =>
        refine ⟨l,rest,⟨_,codeword,rfl⟩,?_⟩
        unfold SymbolRun
        rw [if_neg (by omega),if_neg (by omega),if_neg (by omega)]
        exact ⟨⟨Option.some.inj written,fits⟩,rfl⟩
    | @again times w e codeword field =>
        obtain ⟨prev,there,same⟩ := Option.map_eq_some_iff.mp written
        refine ⟨16,e ++ rest,⟨w,codeword,List.append_assoc ..⟩,?_⟩
        unfold SymbolRun
        rw [if_pos rfl]
        exact ⟨prev,e,times,there,field,same,fits,rfl⟩
    | @zeros times w e codeword field =>
        refine ⟨17,e ++ rest,⟨w,codeword,List.append_assoc ..⟩,?_⟩
        unfold SymbolRun
        rw [if_neg (by decide),if_pos rfl]
        exact ⟨e,times,field,Option.some.inj written,fits,rfl⟩
    | @manyZeros times w e codeword field =>
        refine ⟨18,e ++ rest,⟨w,codeword,List.append_assoc ..⟩,?_⟩
        unfold SymbolRun
        rw [if_neg (by decide),if_neg (by decide),if_pos rfl]
        exact ⟨e,times,field,Option.some.inj written,fits,rfl⟩

theorem run_longer (bits : RunBits cl run w) (written : run.write lengths = some next) : lengths.length < next.length := by
  have many : ∀ {num base times e}, bitField num base times e → 0 < base → 0 < times := by
    intro num base times e field some_base
    obtain ⟨_,rfl⟩ := field
    omega
  cases bits with
  | one small codeword =>
      cases written
      simp
  | again codeword field =>
      obtain ⟨prev,_,rfl⟩ := Option.map_eq_some_iff.mp written
      have := many field (by decide)
      rw [List.length_append,List.length_replicate]
      omega
  | zeros codeword field =>
      cases written
      have := many field (by decide)
      rw [List.length_append,List.length_replicate]
      omega
  | manyZeros codeword field =>
      cases written
      have := many field (by decide)
      rw [List.length_append,List.length_replicate]
      omega

def LengthsRound (cl : List Nat) (total : Nat) (lengths : List Nat) : Reads (List Nat ⊕ List Nat) (List Bool) :=
  fun out input rest => if lengths.length < total then ∃ next, out = .inl next ∧ RunReads cl lengths next input rest
    else out = .inr lengths ∧ rest = input

theorem lengthsRound_exact (reads : Exact pending (decodeSymbol codeTree) (phrases (Codeword cl))) (short : cl.length = 19)
    (total : Nat) (lengths : List Nat) : Exact pending (lengthsRound codeTree total lengths) (LengthsRound cl total lengths) := by
  refine exact_ite (fun _ => ?_) fun _ => exact_pure _
  have round := exact_bind (run_exact reads short lengths) fun next _ => @exact_pure _ _ _ pending (Sum.inl next : List Nat ⊕ List Nat)
  rw [bind_assoc] at round
  refine exact_congr round fun out input rest => ?_
  constructor
  · rintro ⟨next,_,read,rfl,rfl⟩
    exact ⟨next,rfl,read⟩
  · rintro ⟨next,rfl,read⟩
    exact ⟨next,rest,read,rfl,rfl⟩

theorem rounds_runs {total n : Nat} {lengths final : List Nat} {input rest : List Bool}
    (rounds : Rounds (LengthsRound cl total) n lengths final input rest) : ∃ w, Runs taken cl total lengths final w ∧ input = w ++ rest := by
  induction rounds with
  | stop read =>
      unfold LengthsRound at read
      split at read
      · obtain ⟨_,other,_⟩ := read
        cases other
      · obtain ⟨same,rfl⟩ := read
        cases same
        exact ⟨[],.enough (by omega) trivial,rfl⟩
  | more read _ ih =>
      unfold LengthsRound at read
      split at read
      · obtain ⟨next,same,_,⟨run,bits,written,fits⟩,rfl⟩ := read
        cases same
        obtain ⟨w',runs,rfl⟩ := ih
        exact ⟨_,.more (by assumption) bits written fits runs,(List.append_assoc ..).symm⟩
      · obtain ⟨other,_⟩ := read
        cases other

theorem runs_rounds {total : Nat} {lengths final : List Nat} {w : List Bool} (runs : Runs taken cl total lengths final w) (rest : List Bool) :
    ∃ n ≤ total - lengths.length, Rounds (LengthsRound cl total) n lengths final (w ++ rest) rest := by
  induction runs with
  | enough enough _ =>
      refine ⟨0,Nat.zero_le _,.stop ?_⟩
      unfold LengthsRound
      rw [if_neg (by omega)]
      exact ⟨rfl,rfl⟩
  | more less bits written fits _ ih =>
      obtain ⟨n,few,rounds⟩ := ih
      have := run_longer bits written
      refine ⟨n+1,by omega,.more ?_ rounds⟩
      unfold LengthsRound
      rw [if_pos less]
      exact ⟨_,rfl,_,⟨_,bits,written,fits⟩,List.append_assoc ..⟩

theorem decodeLengths_exact (reads : Exact pending (decodeSymbol codeTree) (phrases (Codeword cl))) (short : cl.length = 19)
    (total : Nat) : Exact pending (decodeLengths codeTree total) (phrases (Runs taken cl total [])) := by
  refine exact_congr (loop_exact (lengthsRound_exact reads short total) (total+1) []) fun final input rest => ?_
  constructor
  · rintro ⟨n,_,rounds⟩
    exact rounds_runs rounds
  · rintro ⟨w,runs,rfl⟩
    obtain ⟨n,few,rounds⟩ := runs_rounds runs rest
    exact ⟨n,Nat.lt_succ_of_le (Nat.le_trans few (Nat.sub_le _ _)),rounds⟩

end lengths

section headers

theorem readClens_exact (idxs lengths : List Nat) : Exact pending (readClens idxs lengths) (phrases fun final w =>
    ∃ clens, clens.length = idxs.length ∧ Clens clens w ∧
      final = (idxs.zip clens).foldl (fun lengths entry => lengths.set entry.1 entry.2) lengths) := by
  induction idxs generalizing lengths with
  | nil =>
      refine exact_congr (exact_pure lengths) fun final input rest => ?_
      constructor
      · rintro ⟨rfl,rfl⟩
        exact ⟨[],⟨[],rfl,.nil,rfl⟩,rfl⟩
      · rintro ⟨w,⟨clens,none,bits,rfl⟩,rfl⟩
        cases clens with
        | nil =>
            cases bits
            exact ⟨rfl,rfl⟩
        | cons l clens => cases none
  | cons idx idxs ih =>
      refine exact_congr (exact_bind (readBits_exact 3 0) fun clen _ => ih (lengths.set idx clen)) fun final input rest => ?_
      constructor
      · rintro ⟨l,_,⟨w,field,rfl⟩,w',⟨clens,long,bits,rfl⟩,rfl⟩
        exact ⟨w ++ w',⟨l :: clens,congrArg (· + 1) long,.cons field bits,rfl⟩,(List.append_assoc ..).symm⟩
      · rintro ⟨_,⟨clens,long,bits,rfl⟩,rfl⟩
        cases bits with
        | nil => cases long
        | @cons l clens w w' field bits =>
            exact ⟨l,_,⟨w,field,List.append_assoc ..⟩,w',⟨clens,Nat.succ.inj long,bits,rfl⟩,rfl⟩

theorem field_range (field : bitField num base n w) : base ≤ n ∧ n < base + 2^num := by
  obtain ⟨rfl,rfl⟩ := field
  have := value_lt w
  omega

theorem clens_small (bits : Clens clens w) : ∀ l ∈ clens, l < 8 := by
  induction bits with
  | nil => exact fun _ member => absurd member List.not_mem_nil
  | cons field _ ih =>
      intro l member
      rcases List.mem_cons.mp member with rfl | later
      · exact (field_range field).2
      · exact ih l later

theorem set_all (entries : List (Nat × Nat)) (lengths : List Nat) :
    (entries.foldl (fun lengths entry => lengths.set entry.1 entry.2) lengths).length = lengths.length ∧
    ∀ l ∈ entries.foldl (fun lengths entry => lengths.set entry.1 entry.2) lengths, l ∈ lengths ∨ l ∈ entries.map Prod.snd := by
  induction entries generalizing lengths with
  | nil => exact ⟨rfl,fun _ member => .inl member⟩
  | cons entry entries ih =>
      obtain ⟨long,from_either⟩ := ih (lengths.set entry.1 entry.2)
      refine ⟨long.trans List.length_set,fun l member => ?_⟩
      rcases from_either l member with old | new
      · rcases List.mem_or_eq_of_mem_set old with old | rfl
        · exact .inl old
        · exact .inr List.mem_cons_self
      · exact .inr (List.mem_cons_of_mem _ new)

theorem runs_small (runs : Runs taken cl total lengths final w) (before : ∀ l ∈ lengths, l < 16) : ∀ l ∈ final, l < 16 := by
  induction runs with
  | enough _ _ => exact before
  | more _ bits written _ _ ih =>
      refine ih ?_
      intro l member
      cases bits with
      | one small _ =>
          cases written
          rcases List.mem_append.mp member with old | new
          · exact before l old
          · rw [List.mem_singleton.mp new]
            exact small
      | again _ _ =>
          obtain ⟨prev,there,rfl⟩ := Option.map_eq_some_iff.mp written
          rcases List.mem_append.mp member with old | new
          · exact before l old
          · rw [List.eq_of_mem_replicate new]
            exact before prev (List.mem_of_getLast? there)
      | zeros _ _ =>
          cases written
          rcases List.mem_append.mp member with old | new
          · exact before l old
          · rw [List.eq_of_mem_replicate new]
            decide
      | manyZeros _ _ =>
          cases written
          rcases List.mem_append.mp member with old | new
          · exact before l old
          · rw [List.eq_of_mem_replicate new]
            decide

variable {h : Header}

theorem header_lengths (bits : HeaderBits taken h w) :
    (∀ l ∈ h.ll, l < 16) ∧ h.ll.length ≤ 288 ∧ (∀ l ∈ h.dl, l < 16) ∧ h.dl.length ≤ 288 := by
  cases bits with
  | intro hlit hdist _ _ runs _ _ _ _ =>
      have small := runs_small runs fun _ member => absurd member List.not_mem_nil
      refine ⟨fun l member => small l (List.mem_of_mem_take member),?_,
        fun l member => small l (List.mem_of_mem_drop (List.mem_of_mem_take member)),?_⟩
      · have := (field_range hlit).2
        unfold Header.ll
        rw [List.length_take]
        omega
      · have := (field_range hdist).2
        unfold Header.dl
        rw [List.length_take]
        omega

-- What a code tree built from the lengths of the run symbols makes of the rest of a header.
theorem codes_exact (codeTree lt dt : Tree) (small : ∀ l ∈ cl, l < 16) (short : cl.length = 19) (hlit hdist : Nat) :
    Exact pending (do
        let codeTree ← StateT.lift (buildTree codeTree cl)
        let lengths ← decodeLengths codeTree (hlit+hdist)
        let lt ← StateT.lift (buildTree lt (lengths.take hlit))
        let dt ← StateT.lift (buildTree dt ((lengths.drop hlit).take hdist))
        return (lt,dt) : Read (Tree × Tree))
      (phrases fun trees w => ∃ lengths, Runs taken cl (hlit+hdist) [] lengths w ∧ buildTree lt (lengths.take hlit) = some trees.1 ∧
        buildTree dt ((lengths.drop hlit).take hdist) = some trees.2) := by
  obtain ⟨built,builds,tree⟩ := buildTree_builds codeTree small (by omega)
  have reads := decodeSymbol_exact tree small
  rw [builds,lift_bind]
  refine exact_congr (exact_bind (decodeLengths_exact reads short _) fun lengths _ => exact_bind (exact_lift _) fun lt' _ =>
    exact_bind (exact_lift _) fun dt' _ => exact_pure (lt',dt')) fun trees input rest => ?_
  constructor
  · rintro ⟨lengths,_,⟨w,runs,rfl⟩,lt',_,⟨one,rfl⟩,dt',_,⟨two,rfl⟩,rfl,rfl⟩
    exact ⟨w,⟨lengths,runs,one,two⟩,rfl⟩
  · rintro ⟨w,⟨lengths,runs,one,two⟩,rfl⟩
    exact ⟨lengths,rest,⟨w,runs,rfl⟩,trees.1,rest,⟨one,rfl⟩,trees.2,rest,⟨two,rfl⟩,rfl,rfl⟩

theorem decodeTrees_exact (codeTree lt dt : Tree) : Exact pending (decodeTrees codeTree lt dt) (phrases fun trees w =>
    ∃ h, HeaderBits taken h w ∧ buildTree lt h.ll = some trees.1 ∧ buildTree dt h.dl = some trees.2) := by
  refine exact_congr (exact_bind (readBits_exact 5 257) fun hlit _ => exact_bind (readBits_exact 5 1) fun hdist _ =>
    exact_bind (readBits_exact 4 4) fun hclen _ => exact_bind (readClens_exact _ _) fun cl there =>
      codes_exact codeTree lt dt ?_ ?_ hlit hdist) fun trees input rest => ?_
  · obtain ⟨_,_,_,⟨clens,_,bits,rfl⟩,_⟩ := there
    intro l member
    rcases (set_all _ _).2 l member with zero | new
    · rw [List.eq_of_mem_replicate zero]
      decide
    · obtain ⟨entry,there,rfl⟩ := List.mem_map.mp new
      exact Nat.lt_trans (clens_small bits _ (List.of_mem_zip there).2) (by decide)
  · obtain ⟨_,_,_,⟨clens,_,_,rfl⟩,_⟩ := there
    exact (set_all _ _).1
  · have scattered : ∀ (hclen : Nat) (clens : List Nat), clens.length = hclen →
        ((clcidx.take hclen).zip clens).foldl (fun lengths entry => lengths.set entry.1 entry.2) (List.replicate 19 0) =
          scatter clens := by
      rintro _ clens rfl
      unfold scatter
      rw [@List.zip_eq_zip_take_min _ _ clcidx,@List.zip_eq_zip_take_min _ _ (clcidx.take _),List.take_take,List.length_take]
      simp [Nat.min_comm]
    constructor
    · rintro ⟨hlit,_,⟨a,one,rfl⟩,hdist,_,⟨b,two,rfl⟩,hclen,_,⟨c,three,rfl⟩,_,_,⟨d,⟨clens,long,bits,rfl⟩,rfl⟩,e,⟨lengths,runs,lit,dist⟩,rfl⟩
      have few := (field_range three).2
      have long : clens.length = hclen := by
        rw [long,List.length_take]
        exact Nat.min_eq_left (Nat.le_of_lt_succ few)
      rw [scattered hclen clens long] at runs
      subst long
      have most : hlit ≤ taken.mostLiterals := Nat.le_of_lt_succ (field_range one).2
      refine ⟨a ++ (b ++ (c ++ (d ++ e))),
        ⟨⟨hlit,hdist,clens,lengths⟩,.intro one two three bits runs most trivial trivial trivial,lit,dist⟩,?_⟩
      simp only [List.append_assoc]
    · rintro ⟨_,⟨h,bits,lit,dist⟩,rfl⟩
      cases bits with
      | @intro a b c d e one two three bits runs _ _ _ _ =>
          have few := (field_range three).2
          simp only [List.append_assoc]
          refine ⟨h.hlit,_,⟨a,one,rfl⟩,h.hdist,_,⟨b,two,rfl⟩,h.clens.length,_,⟨c,three,rfl⟩,_,_,⟨d,⟨h.clens,?_,bits,rfl⟩,rfl⟩,e,
            ⟨h.lengths,?_,lit,dist⟩,rfl⟩
          · rw [List.length_take]
            exact (Nat.min_eq_left (Nat.le_of_lt_succ few)).symm
          · rw [scattered _ _ rfl]
            exact runs

end headers

end GameServer.Common.Inflate
