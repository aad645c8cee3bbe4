import GameServer.Common.RoundTrip

namespace GameServer.Common.Confined
open Bytes RoundTrip

-- A walk over the layout of a type: it leaves a tail, the bytes run short, or
-- an Array has a byte for each element and not the bytes of all.
inductive Scan where
  | rest (tail : List UInt8)
  | short
  | starved
  deriving DecidableEq, Repr

def Scan.onward : Scan → (List UInt8 → Scan) → Scan
  | .rest tail,next => next tail
  | .short,_ => .short
  | .starved,_ => .starved

def scanMany (one : List UInt8 → Scan) : Nat → List UInt8 → Scan
  | 0,bytes => .rest bytes
  | n+1,bytes => (one bytes).onward (scanMany one n)

mutual
def scan : S11NType → List UInt8 → Scan
  | .integer width,bytes => if bytes.length < width then .short else .rest (bytes.drop width)
  | .array elem size,bytes =>
    if bytes.length < size then .short
    else if bytes.length < elem*size then .starved
    else .rest (bytes.drop (elem*size))
  | .string,bytes =>
    if bytes.length < 2+ofBytes (bytes.take 2) then .short else .rest (bytes.drop (2+ofBytes (bytes.take 2)))
  | .vector elem,bytes =>
    if bytes.length < 2 ∨ 1024 < ofBytes (bytes.take 2) then .short
    else scanMany (scan elem) (ofBytes (bytes.take 2)) (bytes.drop 2)
  | .struct members,bytes => scans members bytes
def scans : Members → List UInt8 → Scan
  | .none,bytes => .rest bytes
  | .member type rest,bytes => (scan type bytes).onward (scans rest)
end

-- Nothing is read outside the size given, no nested call is handed a size that
-- reaches beyond it, and the count returned is -1 or at most the size.
structure Right (out : Outcome α) (address : Nat) (size : UInt32) : Prop where
  reads : ∀ r ∈ out.reads, address ≤ r.1 ∧ r.1+r.2 ≤ address+size.toNat
  calls : ∀ c ∈ out.calls, address ≤ c.1 ∧ c.1+c.2.toNat ≤ address+size.toNat
  result : out.result = failed ∨ out.result.toNat ≤ size.toNat

-- What a verdict of the walk means for the decoder.
def Judged (memory : Nat → UInt8) (address : Nat) (size : UInt32) (out : Outcome α) : Scan → Prop
  | .rest tail => Right out address size ∧ out.result.toNat+tail.length = size.toNat ∧
      tail = window memory (address+out.result.toNat) tail.length
  | .short => Right out address size ∧ out.result = failed
  | .starved => ∃ r ∈ out.reads, address+size.toNat < r.1+r.2

theorem many_nil {one : List UInt8 → Scan} (each : one [] = .rest [] ∨ one [] = .short) (n : Nat) :
    scanMany one n [] = .rest [] ∨ scanMany one n [] = .short := by
  induction n with
  | zero => exact .inl rfl
  | succ n ih =>
      rw [scanMany]
      rcases each with empty | short
      · rw [empty]; exact ih
      · rw [short]; exact .inr rfl

mutual
-- No bytes are never too few for an Array in this way.
theorem scan_nil : (type : S11NType) → scan type [] = .rest [] ∨ scan type [] = .short
  | .integer width => by
      rw [scan]
      split
      · exact .inr rfl
      · exact .inl (by simp)
  | .array elem size => by
      rw [scan]
      split
      · exact .inr rfl
      · rename_i none
        have zero : size = 0 := by simpa using none
        subst zero
        exact .inl (by simp)
  | .string => .inr (by simp [scan])
  | .vector elem => .inr (by simp [scan])
  | .struct members => by
      rw [scan]
      exact scans_nil members
theorem scans_nil : (members : Members) → scans members [] = .rest [] ∨ scans members [] = .short
  | .none => .inl rfl
  | .member type rest => by
      rw [scans]
      rcases scan_nil type with empty | short
      · rw [empty]; exact scans_nil rest
      · rw [short]; exact .inr rfl
end

variable {memory : Nat → UInt8} {address : Nat} {size len : UInt32} {out : Outcome α} {whole : Outcome β}
  {next : UInt32 → Outcome γ} {rest : List UInt8 → Scan}

-- How a composite goes on after one nested call at the offset len: it returns
-- on -1 and continues at the offset behind what the call took.
structure Nested (address : Nat) (size len : UInt32) (out : Outcome α) (whole : Outcome β)
    (next : UInt32 → Outcome γ) : Prop where
  stopped : out.result = failed → whole.result = failed ∧ whole.reads = out.reads ∧
    whole.calls = (address+len.toNat,size-len) :: out.calls
  went : out.result ≠ failed → whole.result = (next (len+out.result)).result ∧
    whole.reads = out.reads ++ (next (len+out.result)).reads ∧
    whole.calls = (address+len.toNat,size-len) :: (out.calls ++ (next (len+out.result)).calls)

theorem right_stopped (inside : len.toNat ≤ size.toNat) (nested : Nested address size len out whole next)
    (right : Right out (address+len.toNat) (size-len)) (stop : out.result = failed) :
    Right whole address size ∧ whole.result = failed := by
  obtain ⟨result,reads,calls⟩ := nested.stopped stop
  have left := sub_ok inside
  refine ⟨⟨?_,?_,.inl result⟩,result⟩
  · intro r member
    rw [reads] at member
    have bounds := right.reads r member
    omega
  · intro c member
    rw [calls] at member
    rcases List.mem_cons.mp member with own | below
    · subst own
      dsimp only
      omega
    · have bounds := right.calls c below
      omega

theorem right_went (inside : len.toNat ≤ size.toNat) (nested : Nested address size len out whole next)
    (right : Right out (address+len.toNat) (size-len)) (go : out.result ≠ failed)
    (later : Right (next (len+out.result)) address size) : Right whole address size := by
  obtain ⟨result,reads,calls⟩ := nested.went go
  have left := sub_ok inside
  refine ⟨?_,?_,by rw [result]; exact later.result⟩
  · intro r member
    rw [reads] at member
    rcases List.mem_append.mp member with first | second
    · have bounds := right.reads r first
      omega
    · exact later.reads r second
  · intro c member
    rw [calls] at member
    rcases List.mem_cons.mp member with own | below
    · subst own
      dsimp only
      omega
    · rcases List.mem_append.mp below with first | second
      · have bounds := right.calls c first
        omega
      · exact later.calls c second

-- A composite is judged call by call. A call that takes all of 2^32-1 bytes
-- looks like a failure; then nothing is left for the rest of the walk either.
theorem judged_nested (inside : len.toNat ≤ size.toNat) (nested : Nested address size len out whole next)
    (first : Judged memory (address+len.toNat) (size-len) out verdict)
    (later : ∀ len', len'.toNat ≤ size.toNat →
      Judged memory address size (next len') (rest (window memory (address+len'.toNat) (size.toNat-len'.toNat))))
    (bare : rest [] = .rest [] ∨ rest [] = .short) :
    Judged memory address size whole (verdict.onward rest) := by
  have left := sub_ok inside
  cases verdict with
  | short => exact right_stopped inside nested first.1 first.2
  | starved =>
      obtain ⟨r,member,past⟩ := first
      refine ⟨r,?_,by omega⟩
      by_cases stop : out.result = failed
      · rw [(nested.stopped stop).2.1]
        exact member
      · rw [(nested.went stop).2.1]
        exact List.mem_append_left _ member
  | rest tail =>
      obtain ⟨right,count,ends⟩ := first
      by_cases stop : out.result = failed
      · obtain ⟨kept,result⟩ := right_stopped inside nested right stop
        have all : tail.length = 0 ∧ size.toNat = 2^32-1 := by
          have top := size.toNat_lt
          rw [stop,failed_toNat] at count
          omega
        have none := List.eq_nil_of_length_eq_zero all.1
        subst none
        rw [Scan.onward]
        rcases bare with empty | short
        · rw [empty]
          exact ⟨kept,by rw [result,failed_toNat,all.2]; rfl,rfl⟩
        · rw [short]
          exact ⟨kept,result⟩
      · have top := size.toNat_lt
        have whole' : (len+out.result).toNat = len.toNat+out.result.toNat := add_ok (by omega)
        have onward := later (len+out.result) (by omega)
        have past : size.toNat-(len.toNat+out.result.toNat) = tail.length := by omega
        rw [whole',past,←Nat.add_assoc,←ends] at onward
        rw [Scan.onward]
        have result := (nested.went stop).1
        cases verdict : rest tail with
        | rest final =>
            rw [verdict] at onward
            obtain ⟨kept,number,lies⟩ := onward
            exact ⟨right_went inside nested right stop kept,by rw [result]; exact number,by rw [result]; exact lies⟩
        | short =>
            rw [verdict] at onward
            exact ⟨right_went inside nested right stop onward.1,by rw [result]; exact onward.2⟩
        | starved =>
            rw [verdict] at onward
            obtain ⟨r,member,past⟩ := onward
            refine ⟨r,?_,past⟩
            rw [(nested.went stop).2.1]
            exact List.mem_append_right _ member

theorem elems_judged {decode : α → Nat → UInt32 → Outcome α} {one : List UInt8 → Scan}
    (each : ∀ old address (size : UInt32),
      Judged memory address size (decode old address size) (one (window memory address size.toNat)))
    (bare : one [] = .rest [] ∨ one [] = .short) (olds done : List α) (inside : len.toNat ≤ size.toNat) :
    Judged memory address size (unserializeElems decode address size done olds len)
      (scanMany one olds.length (window memory (address+len.toNat) (size.toNat-len.toNat))) := by
  induction olds generalizing done len with
  | nil =>
      refine ⟨⟨fun r member => absurd member List.not_mem_nil,fun c member => absurd member List.not_mem_nil,.inr inside⟩,?_,?_⟩
      · rw [window_length]
        exact Nat.add_sub_cancel' inside
      · rw [window_length]
        rfl
  | cons old rest ih =>
      have first := each old (address+len.toNat) (size-len)
      rw [sub_ok inside] at first
      rw [List.length_cons,scanMany]
      have nested : Nested address size len (decode old (address+len.toNat) (size-len))
          (unserializeElems decode address size done (old :: rest) len)
          (unserializeElems decode address size (done ++ [(decode old (address+len.toNat) (size-len)).value]) rest) := by
        constructor
        · intro stop
          rw [unserializeElems]
          dsimp only
          rw [if_pos stop]
          exact ⟨rfl,rfl,rfl⟩
        · intro go
          rw [unserializeElems]
          dsimp only
          rw [if_neg go]
          exact ⟨rfl,rfl,rfl⟩
      exact judged_nested inside nested first (fun len' below => ih _ below) (many_nil bare _)

-- A decoder that makes no nested call and reads a block inside the size.
theorem right_leaf (taken : out.result = failed ∨ out.result.toNat ≤ size.toNat) (leaf : out.calls = [])
    (reads : ∀ r ∈ out.reads, address ≤ r.1 ∧ r.1+r.2 ≤ address+size.toNat) : Right out address size :=
  ⟨reads,by rw [leaf]; exact fun c member => absurd member List.not_mem_nil,taken⟩

-- A block of n bytes is taken whole: the walk drops it.
theorem judged_block (leaf : out.calls = []) (number : out.result.toNat = n) (small : n ≤ size.toNat)
    (reads : ∀ r ∈ out.reads, address ≤ r.1 ∧ r.1+r.2 ≤ address+size.toNat) :
    Judged memory address size out (.rest ((window memory address size.toNat).drop n)) := by
  rw [window_drop small]
  refine ⟨right_leaf (.inr (by rw [number]; exact small)) leaf reads,?_,?_⟩
  · rw [number,window_length]
    exact Nat.add_sub_cancel' small
  · rw [number,window_length]

theorem nothing_read (address : Nat) (size : UInt32) :
    ∀ r ∈ ([] : List (Nat × Nat)), address ≤ r.1 ∧ r.1+r.2 ≤ address+size.toNat :=
  fun _ member => absurd member List.not_mem_nil

theorem one_read (small : n ≤ size.toNat) :
    ∀ r ∈ [(address,n)], address ≤ r.1 ∧ r.1+r.2 ≤ address+size.toNat := by
  intro r member
  cases List.mem_singleton.mp member
  exact ⟨Nat.le_refl _,Nat.add_le_add_left small _⟩

-- The length prefix of a vector is read before its elements.
theorem judged_head (two : 2 ≤ size.toNat) (judged : Judged memory address size out verdict) :
    Judged memory address size {out with reads := (address,2) :: out.reads} verdict := by
  have head : ∀ right : Right out address size, Right {out with reads := (address,2) :: out.reads} address size := by
    intro right
    refine ⟨?_,right.calls,right.result⟩
    intro r member
    rcases List.mem_cons.mp member with own | later
    · subst own
      dsimp only
      omega
    · exact right.reads r later
  cases verdict with
  | rest tail => exact ⟨head judged.1,judged.2⟩
  | short => exact ⟨head judged.1,judged.2⟩
  | starved =>
      obtain ⟨r,member,past⟩ := judged
      exact ⟨r,List.mem_cons_of_mem _ member,past⟩

theorem lt_two : size < 2 ↔ size.toNat < 2 := UInt32.lt_iff_toNat_lt

mutual
theorem judged : (type : S11NType) → (old : type.Value) → (address : Nat) → (size : UInt32) →
    Judged memory address size (Unserialize memory type old address size) (scan type (window memory address size.toNat))
  | .integer width,old,address,size => by
      rw [Unserialize,scan,window_length]
      by_cases short : width > size.toNat
      · rw [if_pos short,if_pos short]
        exact ⟨right_leaf (.inl rfl) rfl (nothing_read _ _),rfl⟩
      · rw [if_neg short,if_neg short]
        have small := Nat.le_of_not_lt short
        exact judged_block rfl (ofNat_ok (Nat.lt_of_le_of_lt small size.toNat_lt)) small (one_read small)
  | .array elem n,old,address,size => by
      rw [Unserialize,scan,window_length]
      by_cases short : n > size.toNat
      · rw [if_pos short,if_pos short]
        exact ⟨right_leaf (.inl rfl) rfl (nothing_read _ _),rfl⟩
      · rw [if_neg short,if_neg short]
        split
        · rename_i few
          exact ⟨(address,elem*n),List.mem_singleton_self _,Nat.add_lt_add_left few _⟩
        · rename_i enough
          have small := Nat.le_of_not_lt enough
          exact judged_block rfl (ofNat_ok (Nat.lt_of_le_of_lt small size.toNat_lt)) small (one_read small)
  | .string,old,address,size => by
      rw [Unserialize,scan,window_length]
      by_cases bare : size < 2
      · rw [if_pos bare,if_pos (by have := lt_two.mp bare; omega)]
        exact ⟨right_leaf (.inl rfl) rfl (nothing_read _ _),rfl⟩
      · have two : 2 ≤ size.toNat := Nat.le_of_not_lt (fun less => bare (lt_two.mpr less))
        rw [if_neg bare,window_take two]
        dsimp only
        generalize ofBytes (window memory address 2) = l
        by_cases short : size.toNat < 2+l
        · rw [if_pos (by omega),if_pos short]
          exact ⟨right_leaf (.inl rfl) rfl (one_read two),rfl⟩
        · rw [if_neg (by omega),if_neg short]
          have small := Nat.le_of_not_lt short
          apply judged_block rfl (ofNat_ok (Nat.lt_of_le_of_lt small size.toNat_lt)) small
          intro r member
          rcases List.mem_cons.mp member with head | body
          · subst head
            dsimp only
            omega
          · split at body
            · cases List.mem_singleton.mp body
              dsimp only
              omega
            · cases body
  | .vector elem,old,address,size => by
      rw [Unserialize,scan,window_length]
      by_cases bare : size < 2
      · rw [if_pos bare,if_pos (.inl (lt_two.mp bare))]
        exact ⟨right_leaf (.inl rfl) rfl (nothing_read _ _),rfl⟩
      · have two : 2 ≤ size.toNat := Nat.le_of_not_lt (fun less => bare (lt_two.mpr less))
        rw [if_neg bare,window_take two,window_drop two]
        dsimp only
        by_cases long : ofBytes (window memory address 2) > 1024
        · rw [if_pos long,if_pos (.inr long)]
          exact ⟨right_leaf (.inl rfl) rfl (one_read two),rfl⟩
        · rw [if_neg long,if_neg (by omega)]
          have loop : Judged memory address size
              (unserializeElems (fun it address left => Unserialize memory elem it address left) address size []
                (resize elem.default (elems old) (ofBytes (window memory address 2))) 2)
              (scanMany (scan elem) (resize elem.default (elems old) (ofBytes (window memory address 2))).length
                (window memory (address+(2 : UInt32).toNat) (size.toNat-(2 : UInt32).toNat))) :=
            elems_judged (fun it address left => judged elem it address left) (scan_nil elem) _ [] two
          rw [resize_length] at loop
          exact judged_head two loop
  | .struct members,old,address,size => by
      rw [Unserialize,scan]
      have whole := judged_members members old address size 0 (Nat.zero_le _)
      rw [UInt32.toNat_zero,Nat.add_zero,Nat.sub_zero] at whole
      exact whole
theorem judged_members : (members : Members) → (old : members.Values) → (address : Nat) → (size len : UInt32) →
    len.toNat ≤ size.toNat →
    Judged memory address size (unserializeMembers memory members old address size len)
      (scans members (window memory (address+len.toNat) (size.toNat-len.toNat)))
  | .none,old,address,size,len,inside => by
      rw [unserializeMembers,scans]
      refine ⟨right_leaf (.inr inside) rfl (nothing_read _ _),?_,?_⟩
      · rw [window_length]
        exact Nat.add_sub_cancel' inside
      · rw [window_length]
  | .member type rest,old,address,size,len,inside => by
      have first := judged type old.1 (address+len.toNat) (size-len)
      rw [sub_ok inside] at first
      rw [scans]
      have nested : Nested address size len (Unserialize memory type old.1 (address+len.toNat) (size-len))
          (unserializeMembers memory (.member type rest) old address size len)
          (unserializeMembers memory rest old.2 address size) := by
        constructor
        · intro stop
          rw [unserializeMembers]
          dsimp only
          rw [if_pos stop]
          exact ⟨rfl,rfl,rfl⟩
        · intro go
          rw [unserializeMembers]
          dsimp only
          rw [if_neg go]
          exact ⟨rfl,rfl,rfl⟩
      exact judged_nested inside nested first
        (fun len' below => judged_members rest old.2 address size len' below) (scans_nil rest)
end

-- Exactly the inputs that starve an Array make a decoder read on past the size.
theorem confined_iff (type : S11NType) (old : type.Value) (memory : Nat → UInt8) (address : Nat) (size : UInt32) :
    Right (Unserialize memory type old address size) address size ↔
      scan type (window memory address size.toNat) ≠ .starved := by
  have verdict := @judged memory type old address size
  constructor
  · intro right starved
    rw [starved] at verdict
    obtain ⟨r,member,past⟩ := verdict
    have bounds := right.reads r member
    omega
  · intro fed
    cases walk : scan type (window memory address size.toNat) with
    | rest tail =>
        rw [walk] at verdict
        exact verdict.1
    | short =>
        rw [walk] at verdict
        exact verdict.1
    | starved => exact absurd walk fed

-- Two bytes for an Array of two UInt32: the test passes, eight bytes are copied
-- and eight are reported.
theorem array_overrun : ¬ ∀ (type : S11NType) (old : type.Value) (memory : Nat → UInt8) (address : Nat) (size : UInt32),
    Right (Unserialize memory type old address size) address size := by
  intro claim
  have right := claim (.array 4 2) (S11NType.default (.array 4 2)) (fun _ => 0) 0 2
  have count : (8 : UInt32) = failed ∨ (8 : UInt32).toNat ≤ (2 : UInt32).toNat := right.result
  revert count
  decide

end GameServer.Common.Confined
