import GameServer.Common.Sha1

namespace GameServer.Common.Sha1Calls
open GameServer.Common.SHA1Engine GameServer.Common.Sha1 BlockHash

-- What was fed since the engine was made, reset or asked for a digest.
def message (fed : List UInt8) : Call → List UInt8
  | .data buffer length _ => fed ++ buffer.take length.toNat
  | .char byte => fed ++ [byte]
  | .string bytes => fed ++ bytes.take (bytes.length % 2^32)
  | .reset | .digest => []

-- The bytes are compressed as far as they fill blocks, the others are in the data.
structure Taken (context : Context) (message : List UInt8) : Prop where
  held : Held scheme initial message context.digest (context.data.take context.slop)
  size : context.data.length = 64
  room : context.slop < 64

structure Fed (context : Context) (message : List UInt8) : Prop where
  taken : Taken context message
  low : context.countLo = UInt32.ofNat (8*message.length)
  high : context.countHi = UInt32.ofNat (8*message.length / 2^32)

variable {context : Context} {message : List UInt8}

theorem reset_fed : Fed reset [] :=
  ⟨⟨held_start,rfl,by decide⟩,rfl,rfl⟩

section feeding

theorem take_set (data : List UInt8) (byte : UInt8) {k : Nat} (inside : k < data.length) :
    (data.set k byte).take (k+1) = data.take k ++ [byte] := by
  rw [List.take_succ_eq_append_getElem (by rwa [List.length_set]),List.getElem_set_self,List.take_set_of_le (Nat.le_refl k)]

theorem put_fills (size : context.data.length = 64) (byte : UInt8) (full : context.slop+1 = BLOCK_SIZE) :
    put context byte = {context with digest := compress context.digest (context.data.set context.slop byte),
                                     data := byteReverse (context.data.set context.slop byte) BLOCK_SIZE, slop := 0} := by
  have reads : ∀ i < 16, word (byteReverse (context.data.set context.slop byte) BLOCK_SIZE) i =
      bigWord (context.data.set context.slop byte) i := fun i => byteReverse_word (by rwa [List.length_set])
  unfold put
  dsimp only
  rw [if_pos full,transform_compress _ _ _ _ reads]

theorem put_waits (byte : UInt8) (short : context.slop+1 ≠ BLOCK_SIZE) :
    put context byte = {context with data := context.data.set context.slop byte, slop := context.slop+1} := by
  unfold put
  dsimp only
  rw [if_neg short]

theorem put_counts (size : context.data.length = 64) (byte : UInt8) :
    (put context byte).countLo = context.countLo ∧ (put context byte).countHi = context.countHi := by
  by_cases full : context.slop+1 = BLOCK_SIZE
  · rw [put_fills size byte full]
    exact ⟨rfl,rfl⟩
  · rw [put_waits byte full]
    exact ⟨rfl,rfl⟩

theorem put_taken (taken : Taken context message) (byte : UInt8) : Taken (put context byte) (message ++ [byte]) := by
  have room := taken.room
  have size : (context.data.set context.slop byte).length = 64 := (List.length_set ..).trans taken.size
  have more := take_set context.data byte (k := context.slop) (by rw [taken.size]; exact room)
  by_cases full : context.slop+1 = BLOCK_SIZE
  · have whole : context.data.take context.slop ++ [byte] = context.data.set context.slop byte := by
      rw [←more,full]
      exact List.take_of_length_le (Nat.le_of_eq size)
    have filled := held_fills taken.held [byte] ((congrArg List.length whole).trans size)
    rw [whole] at filled
    rw [put_fills taken.size byte full]
    have kept := byteReverse_length size
    constructor
    · dsimp only
      rw [List.take_zero]
      exact filled
    · dsimp only
      exact kept
    · exact Nat.zero_lt_succ _
  · rw [put_waits byte full]
    change context.slop+1 ≠ 64 at full
    constructor
    · dsimp only
      rw [more]
      refine held_waits taken.held byte ?_
      rw [List.length_take,taken.size]
      change min context.slop 64 + 1 < 64
      omega
    · exact size
    · dsimp only
      omega

theorem puts_taken (taken : Taken context message) (bytes : List UInt8) :
    Taken (bytes.foldl put context) (message ++ bytes) ∧ (bytes.foldl put context).countLo = context.countLo ∧
      (bytes.foldl put context).countHi = context.countHi := by
  induction bytes generalizing context message with
  | nil =>
      rw [List.append_nil]
      exact ⟨taken,rfl,rfl⟩
  | cons byte bytes ih =>
      obtain ⟨next,low,high⟩ := ih (put_taken taken byte)
      obtain ⟨sameLow,sameHigh⟩ := put_counts taken.size byte
      rw [List.append_assoc] at next
      exact ⟨next,low.trans sameLow,high.trans sameHigh⟩

-- The two words hold the count of bits modulo 2^64.
theorem counted_bits (n : Nat) (count : UInt32) (low : context.countLo = UInt32.ofNat (8*n))
    (high : context.countHi = UInt32.ofNat (8*n / 2^32)) :
    (counted context count).countLo = UInt32.ofNat (8*(n+count.toNat)) ∧
      (counted context count).countHi = UInt32.ofNat (8*(n+count.toNat) / 2^32) := by
  have small := count.toNat_lt
  have shifted : (count <<< 3).toNat = 8*count.toNat % 2^32 := by
    rw [UInt32.toNat_shiftLeft,show (3 : UInt32).toNat % 32 = 3 from rfl,Nat.shiftLeft_eq]
    congr 1
    omega
  have above : (count >>> 29).toNat = count.toNat / 2^29 := by
    rw [UInt32.toNat_shiftRight,show (29 : UInt32).toNat % 32 = 29 from rfl,Nat.shiftRight_eq_div_pow]
  have lowNat : context.countLo.toNat = 8*n % 2^32 := by
    rw [low,UInt32.toNat_ofNat']
  have highNat : context.countHi.toNat = 8*n / 2^32 % 2^32 := by
    rw [high,UInt32.toNat_ofNat']
  have sum : (context.countLo + (count <<< 3)).toNat = (8*n % 2^32 + 8*count.toNat % 2^32) % 2^32 := by
    rw [UInt32.toNat_add,lowNat,shifted]
  unfold counted
  dsimp only
  refine ⟨?_,?_⟩
  · apply UInt32.toNat_inj.mp
    rw [sum,UInt32.toNat_ofNat']
    omega
  · apply UInt32.toNat_inj.mp
    rw [UInt32.toNat_add,above,UInt32.toNat_ofNat']
    split
    · rename_i carry
      rw [UInt32.lt_iff_toNat_lt,sum,lowNat] at carry
      rw [UInt32.toNat_add,highNat,show (1 : UInt32).toNat = 1 from rfl]
      omega
    · rename_i carry
      rw [UInt32.lt_iff_toNat_lt,sum,lowNat] at carry
      rw [highNat]
      omega

theorem update_fed (fed : Fed context message) (buffer : List UInt8) (count : UInt32) (inside : count.toNat ≤ buffer.length) :
    Fed (updateImpl context buffer count) (message ++ buffer.take count.toNat) := by
  have length : (message ++ buffer.take count.toNat).length = message.length + count.toNat := by
    rw [List.length_append,List.length_take,Nat.min_eq_left inside]
  obtain ⟨low,high⟩ := counted_bits message.length count fed.low fed.high
  have before : Taken (counted context count) message := ⟨fed.taken.held,fed.taken.size,fed.taken.room⟩
  obtain ⟨taken,sameLow,sameHigh⟩ := puts_taken before (buffer.take count.toNat)
  refine ⟨taken,?_,?_⟩
  · rw [length]
    exact sameLow.trans low
  · rw [length]
    exact sameHigh.trans high

theorem call_fed (fed : Fed context message) (c : Call) : Fed (call context c) (Sha1Calls.message message c) := by
  cases c with
  | data buffer length inside => exact update_fed fed buffer length inside
  | char byte => exact update_fed fed [byte] 1 (Nat.le_refl 1)
  | string bytes =>
      have size : (UInt32.ofNat bytes.length).toNat = bytes.length % 2^32 := UInt32.toNat_ofNat'
      have step := update_fed fed bytes (UInt32.ofNat bytes.length) (by rw [size]; exact Nat.mod_le _ _)
      rwa [size] at step
  | reset => exact reset_fed
  | digest => exact reset_fed

theorem calls_fed (fed : Fed context message) (calls : List Call) :
    Fed (calls.foldl call context) (calls.foldl Sha1Calls.message message) := by
  induction calls generalizing context message with
  | nil => exact fed
  | cons c calls ih => exact ih (call_fed fed c)

end feeding

section digests

theorem zeroed_eq {data : List UInt8} {first last : Nat} (order : first ≤ last) (inside : last ≤ data.length) :
    zeroed data first last = data.take first ++ List.replicate (last-first) 0 ++ data.drop last := by
  obtain ⟨n,rfl⟩ : ∃ n, last = first+n := ⟨last-first,by omega⟩
  unfold zeroed
  rw [Nat.add_sub_cancel_left]
  clear order
  induction n generalizing first data with
  | zero =>
      rw [Nat.add_zero,List.replicate_zero,List.append_nil,List.take_append_drop]
      rfl
  | succ n ih =>
      rw [List.range'_succ,List.foldl_cons,ih (by rw [List.length_set]; omega),take_set _ _ (by omega),List.replicate_succ,
        List.drop_set_of_lt (by omega),List.append_assoc,List.append_assoc,List.append_assoc]
      rw [show first+1+n = first+(n+1) by omega]
      rfl

-- The last block: the two words of the count are put in behind the turn.
theorem last_words {front back : List UInt8} (length : front.length = 56) (rest : back.length = 8) (high low : UInt32) :
    ∀ i < 16, word (setWord (setWord (byteReverse (front ++ back) BLOCK_SIZE) 14 high) 15 low) i =
      bigWord (front ++ (wordBytes high ++ wordBytes low)) i := by
  have size : (front ++ back).length = 64 := by
    rw [List.length_append,length,rest]
  have kept := byteReverse_length size
  intro i early
  rw [word_setWord _ _ _ (by rw [setWord_length,kept]; decide),word_setWord _ _ _ (by rw [kept]; decide)]
  by_cases last : i = 15
  · rw [if_pos last,last,←List.append_assoc]
    have word := bigWord_bytes (front ++ wordBytes high) [] low 15 (by rw [List.length_append,length]; rfl)
    rw [List.append_nil] at word
    exact word.symm
  · rw [if_neg last]
    by_cases before : i = 14
    · rw [if_pos before,before,←List.append_assoc]
      exact (bigWord_bytes front (wordBytes low) high 14 length).symm
    · rw [if_neg before,byteReverse_word size early]
      exact bigWord_front (by omega)

theorem result_bytes (words : Words) :
    (List.range DIGEST_SIZE).map (fun count => ([words.A,words.B,words.C,words.D,words.E].getD (count >>> 2) 0 >>>
      UInt32.ofNat (8*(3-(count &&& 0x3)))).toUInt8 &&& 0xff) = result words := by
  have mask : ∀ byte : UInt8, byte &&& 0xff = byte := by
    intro byte
    exact UInt8.and_neg_one
  have shifted : ∀ w : UInt32, wordBytes w = [(w >>> UInt32.ofNat 24).toUInt8,(w >>> UInt32.ofNat 16).toUInt8,
      (w >>> UInt32.ofNat 8).toUInt8,(w >>> UInt32.ofNat 0).toUInt8] := by
    intro w
    rw [show UInt32.ofNat 0 = 0 from rfl,UInt32.shiftRight_zero]
    rfl
  simp only [mask]
  unfold result
  rw [List.flatMap_cons,List.flatMap_cons,List.flatMap_cons,List.flatMap_cons,List.flatMap_cons,List.flatMap_nil]
  simp only [shifted]
  rfl

variable {waiting : List UInt8}

-- The padding behind the bytes that wait, where it fits in their block and where it takes another.
theorem digest_eq (fed : Fed context message) (waits : context.data.take context.slop = waiting) :
    (digest context).1 = result (if waiting.length < 56 then
        compress context.digest (waiting ++ 0x80 :: List.replicate (55-waiting.length) 0 ++
          (wordBytes context.countHi ++ wordBytes context.countLo))
      else compress (compress context.digest (waiting ++ 0x80 :: List.replicate (63-waiting.length) 0))
        (List.replicate 56 0 ++ (wordBytes context.countHi ++ wordBytes context.countLo))) := by
  have room := fed.taken.room
  have size := fed.taken.size
  have slop : waiting.length = context.slop := by
    rw [←waits,List.length_take,size]
    omega
  have count : ((context.countLo >>> 3) &&& 0x3F).toNat = context.slop := by
    have held := held_count fed.taken.held
    rw [waits,slop] at held
    change context.slop = message.length % 64 at held
    rw [UInt32.toNat_and,UInt32.toNat_shiftRight,fed.low,UInt32.toNat_ofNat',show (0x3F : UInt32).toNat = 2^6-1 from rfl,
      Nat.and_two_pow_sub_one_eq_mod,show (3 : UInt32).toNat % 32 = 3 from rfl,Nat.shiftRight_eq_div_pow,held]
    omega
  have more := take_set context.data 0x80 (k := context.slop) (by rw [size]; exact room)
  rw [waits] at more
  have marked : (context.data.set context.slop 0x80).length = 64 := (List.length_set ..).trans size
  unfold digest
  dsimp only
  rw [result_bytes,count]
  refine congrArg result ?_
  have zeros : ∀ last, context.slop+1 ≤ last → last ≤ 64 → zeroed (context.data.set context.slop 0x80) (context.slop+1) last =
      waiting ++ 0x80 :: List.replicate (last-(context.slop+1)) 0 ++ (context.data.set context.slop 0x80).drop last := by
    intro last lower upper
    rw [zeroed_eq lower (by omega),more,List.append_assoc waiting]
    rfl
  by_cases fits : context.slop < 56
  · rw [slop,if_pos fits,if_neg (by omega)]
    dsimp only
    rw [zeros 56 (by omega) (by omega),show 56-(context.slop+1) = 55-context.slop by omega]
    rw [transform_compress _ _ _ _ (last_words _ _ _ _)]
    · rw [List.length_append,List.length_cons,List.length_replicate,slop]
      omega
    · rw [List.length_drop,marked]
  · rw [slop,if_neg fits,if_pos (by omega)]
    dsimp only
    have block : zeroed (context.data.set context.slop 0x80) (context.slop+1) 64 =
        waiting ++ 0x80 :: List.replicate (63-context.slop) 0 := by
      rw [zeros 64 (by omega) (Nat.le_refl _),List.drop_of_length_le (Nat.le_of_eq marked),List.append_nil,
        show 64-(context.slop+1) = 63-context.slop by omega]
    have whole : (waiting ++ 0x80 :: List.replicate (63-context.slop) (0 : UInt8)).length = 64 := by
      rw [List.length_append,List.length_cons,List.length_replicate,slop]
      omega
    have kept := byteReverse_length whole
    rw [block,transform_compress _ _ _ _ (fun i => byteReverse_word whole)]
    dsimp only
    rw [zeroed_eq (Nat.zero_le _) (by rw [kept]; decide),List.take_zero,List.nil_append,
      transform_compress _ _ _ _ (last_words _ _ _ _)]
    · exact List.length_replicate
    · rw [List.length_drop,kept]

theorem wordBytes_length (w : UInt32) : (wordBytes w).length = 4 := rfl

-- A digest asked for is that of what was fed, however it is cut into blocks.
theorem digest_padded (fed : Fed context message) {blocks : List (List UInt8)} (cut : Cut scheme blocks (padded message)) :
    (digest context).1 = result (hash scheme initial blocks) := by
  have room := fed.taken.room
  have count := held_count fed.taken.held
  change _ = message.length % 64 at count
  have slop : (context.data.take context.slop).length = context.slop := by
    rw [List.length_take,fed.taken.size]
    omega
  rw [digest_eq fed rfl,fed.low,fed.high]
  refine congrArg result ?_
  split
  · rename_i fits
    have whole := held_fills fed.taken.held (0x80 :: List.replicate (55-(context.data.take context.slop).length) 0 ++
      (wordBytes (UInt32.ofNat (8*message.length / 2^32)) ++ wordBytes (UInt32.ofNat (8*message.length)))) (by
        simp only [List.length_append,List.length_cons,List.length_replicate,wordBytes_length]
        change _ = 64
        omega)
    rw [←List.append_assoc message,←List.append_assoc (context.data.take context.slop)] at whole
    refine held_hash whole ?_
    rw [show 55-(context.data.take context.slop).length = (119 - message.length%64) % 64 by omega]
    exact cut
  · rename_i full
    have first := held_fills fed.taken.held (0x80 :: List.replicate (63-(context.data.take context.slop).length) 0) (by
        simp only [List.length_append,List.length_cons,List.length_replicate]
        change _ = 64
        omega)
    have second := held_fills first (List.replicate 56 0 ++
      (wordBytes (UInt32.ofNat (8*message.length / 2^32)) ++ wordBytes (UInt32.ofNat (8*message.length)))) rfl
    refine held_hash second ?_
    have zeros : List.replicate ((119 - message.length%64) % 64) (0 : UInt8) =
        List.replicate (63-(context.data.take context.slop).length) 0 ++ List.replicate 56 0 := by
      rw [List.replicate_append_replicate]
      congr 1
      omega
    unfold padded at cut
    rw [zeros] at cut
    simpa only [List.append_assoc,List.cons_append] using cut

theorem padded_whole (message : List UInt8) : ∃ n, (padded message).length = scheme.width*n := by
  have width : scheme.width = 64 := rfl
  refine ⟨(padded message).length / 64,?_⟩
  unfold padded
  rw [width]
  simp only [List.length_append,List.length_cons,List.length_replicate,wordBytes_length]
  omega

-- Whatever was called before, the data are not overrun and a digest is the hash of what was fed since the last one.
theorem digest_hashes (calls : List Call) :
    let context := calls.foldl call reset
    context.data.length = 64 ∧ context.slop < 64 ∧
      ∃ blocks, Cut scheme blocks (padded (calls.foldl Sha1Calls.message [])) ∧
        digest context = (result (hash scheme initial blocks),reset) := by
  have fed := calls_fed reset_fed calls
  obtain ⟨n,whole⟩ := padded_whole (calls.foldl Sha1Calls.message [])
  obtain ⟨blocks,cut⟩ := cut_exists n whole
  exact ⟨fed.taken.size,fed.taken.room,blocks,cut,Prod.ext (digest_padded fed cut) rfl⟩

example : (digest ([.string [97,98],.char 99].foldl call reset)).1 = [0xa9,0x99,0x3e,0x36,0x47,0x06,0x81,0x6a,0xba,0x3e,0x25,0x71,
    0x78,0x50,0xc2,0x6c,0x9c,0xd0,0xd8,0x9d] := by decide +kernel

end digests

end GameServer.Common.Sha1Calls
