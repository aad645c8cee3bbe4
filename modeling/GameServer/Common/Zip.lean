import GameServer.Library.Loops
import GameServer.Common.Adler
import Mathlib.Algebra.Group.Nat.Defs

namespace GameServer.Common.Zip
open Loops Adler

variable {σ : Type _}

inductive Ret where
  | Z_OK | Z_STREAM_END | Z_NEED_DICT | Z_ERRNO | Z_STREAM_ERROR | Z_DATA_ERROR | Z_MEM_ERROR | Z_BUF_ERROR | Z_VERSION_ERROR
  deriving DecidableEq

-- What a call of inflate answers, how much it took in and what it put out.
structure Inflated (σ : Type _) where
  ret : Ret
  used : Nat
  output : List UInt8
  stream : σ

structure Zlib (σ : Type _) where
  inflateInit : Option σ
  inflate (stream : σ) (input : List UInt8) (avail_out : Nat) : Inflated σ
  inflateSetDictionary (stream : σ) (dict : List UInt8) : Bool × σ
  adler : σ → Nat

-- What zlib documents of inflate. A stream whose header is behind it asks for no
-- dictionary; one that asks waits for its dictionary and does nothing else.
structure Documented (z : Zlib σ) (headed waits : σ → Prop) : Prop where
  used : ∀ s input room, (z.inflate s input room).used ≤ input.length
  output : ∀ s input room, (z.inflate s input room).output.length ≤ room
  progress : ∀ s input room, (z.inflate s input room).ret = .Z_OK →
    0 < (z.inflate s input room).used ∨ 0 < (z.inflate s input room).output.length
  asks : ∀ s input room, (z.inflate s input room).ret = .Z_NEED_DICT →
    (z.inflate s input room).output = [] ∧ waits (z.inflate s input room).stream
  waiting : ∀ s input room, waits s → input ≠ [] → (z.inflate s input room).ret = .Z_NEED_DICT ∧ (z.inflate s input room).used = 0
  given : ∀ s dict, waits s → (z.inflateSetDictionary s dict).1 = true → headed (z.inflateSetDictionary s dict).2
  header : ∀ s input room, (z.inflate s input room).ret ≠ .Z_NEED_DICT → (z.inflate s input room).used < input.length →
    headed (z.inflate s input room).stream
  done : ∀ s input room, headed s → (z.inflate s input room).ret ≠ .Z_NEED_DICT

-- Memory comes in blocks of less than 2^62 bytes, or the allocation throws.
structure Heap where
  room : Nat → Bool
  small : ∀ n, room n = true → n < 2 ^ 62

structure Buffer where
  bytes : List UInt8
  small : bytes.length < 2 ^ 62

inductive Outcome where
  | done (dst : List UInt8)
  | failed
  | thrown

-- dst.resize() of a vector
def resize (heap : Heap) (size : Nat) : Option Outcome := if heap.room size then none else some .thrown

def zipalloc (heap : Heap) (size : Nat) : Option Outcome :=
  if size = 0 then some .failed
  else if heap.room (size+4) then none
  else some .thrown

structure Unzip (σ : Type _) where
  stream : σ
  input : List UInt8
  size : Nat
  out : List UInt8

section model
variable (z : Zlib σ) (alloc : Nat → Option Outcome) (NDEBUG : Bool) (m_dict : List UInt8) (m_adler : Nat)

def enlarge (size : Nat) : Nat := (size <<< if NDEBUG then 2 else 1) % 2 ^ 64

-- One turn of `while (m_stream.avail_in)`; `alloc` answers how the function ends
-- where it has no room for the new size.
def turn (st : Unzip σ) : Outcome ⊕ Unzip σ :=
  if st.input = [] then .inl (.done st.out)
  else
    let avail_out := (st.size - st.out.length) % 2 ^ 32
    let r := z.inflate st.stream st.input avail_out
    let input := st.input.drop r.used
    let out := st.out ++ r.output
    if r.ret = .Z_STREAM_END ∨ r.ret = .Z_MEM_ERROR then .inl (.done out)
    else if r.ret = .Z_BUF_ERROR ∨ avail_out - r.output.length = 0 then
      match alloc (enlarge NDEBUG st.size) with
      | some outcome => .inl outcome
      | none => .inr ⟨r.stream,input,enlarge NDEBUG st.size,out⟩
    else if r.ret = .Z_NEED_DICT then
      if m_dict.length > 0 then
        let (set,stream) := z.inflateSetDictionary r.stream m_dict
        if ¬ set then .inl .failed
        else if z.adler stream ≠ m_adler then .inl .failed
        else .inr ⟨stream,input,st.size,out⟩
      else .inr ⟨r.stream,input,st.size,out⟩
    else if r.ret = .Z_ERRNO ∨ r.ret = .Z_STREAM_ERROR ∨ r.ret = .Z_DATA_ERROR ∨ r.ret = .Z_VERSION_ERROR then .inl .failed
    else .inr ⟨r.stream,input,st.size,out⟩

-- What stands before the loop: an outcome, or the state it starts in. avail_in
-- is a uInt.
def opening (src : Option Buffer) : Outcome ⊕ Unzip σ :=
  match src with
  | none => .inl .failed
  | some src =>
    if src.bytes.length = 0 then .inl .failed
    else
      match z.inflateInit with
      | none => .inl .failed
      | some stream =>
        match alloc (enlarge NDEBUG src.bytes.length) with
        | some outcome => .inl outcome
        | none => .inr ⟨stream,src.bytes.take (src.bytes.length % 2 ^ 32),enlarge NDEBUG src.bytes.length,[]⟩

def unzip (src : Option Buffer) (fuel : Nat) : Option Outcome :=
  match opening z alloc NDEBUG src with
  | .inl outcome => some outcome
  | .inr st => loop (turn z alloc NDEBUG m_dict m_adler) fuel st

end model

-- unzip(std::vector&)
def unzipVector (z : Zlib σ) (heap : Heap) (NDEBUG : Bool) (m_dict : List UInt8) (m_adler : Nat) (src : Option Buffer)
    (fuel : Nat) : Option Outcome := unzip z (resize heap) NDEBUG m_dict m_adler src fuel

-- unzip(pointer*)
def unzipPointer (z : Zlib σ) (heap : Heap) (NDEBUG : Bool) (m_dict : List UInt8) (m_adler : Nat) (dst : Bool) (src : Option Buffer)
    (fuel : Nat) : Option Outcome :=
  if ¬ dst then some .failed else unzip z (zipalloc heap) NDEBUG m_dict m_adler src fuel

theorem enlarge_more (NDEBUG : Bool) (small : size < 2 ^ 62) : 2 * size ≤ enlarge NDEBUG size := by
  cases NDEBUG <;> simp only [enlarge,Nat.shiftLeft_eq,if_true,Bool.false_eq_true,if_false] <;> omega

-- A size that is 0 to a 32-bit avail_out stays one.
theorem enlarge_blind (NDEBUG : Bool) (blind : size % 2 ^ 32 = 0) : enlarge NDEBUG size % 2 ^ 32 = 0 := by
  cases NDEBUG <;> simp only [enlarge,Nat.shiftLeft_eq,if_true,Bool.false_eq_true,if_false] <;> omega

section turns
variable {z : Zlib σ} {headed waits : σ → Prop} {alloc : Nat → Option Outcome} {NDEBUG : Bool} {m_dict : List UInt8} {m_adler : Nat}

structure Sized (st : Unzip σ) : Prop where
  fits : st.out.length ≤ st.size
  positive : 0 < st.size
  small : st.size < 2 ^ 62

-- The loop is behind the header, or its input is at its end.
structure Headed (headed : σ → Prop) (st : Unzip σ) : Prop where
  sized : Sized st
  past : st.input = [] ∨ headed st.stream

def growth (st : Unzip σ) : Nat := 2 ^ 62 - st.size
def remains (st : Unzip σ) : Nat := st.input.length + (st.size - st.out.length)

def answer (z : Zlib σ) (st : Unzip σ) : Inflated σ := z.inflate st.stream st.input ((st.size - st.out.length) % 2 ^ 32)

-- A turn in which no dictionary is asked for ends the loop, grows the buffer or
-- uses input or room.
theorem unasked_turn (doc : Documented z headed waits) (small : ∀ n, alloc n = none → n < 2 ^ 62) {st : Unzip σ} (sized : Sized st)
    (filled : st.input ≠ []) (unasked : (answer z st).ret ≠ .Z_NEED_DICT) :
    (∃ outcome, turn z alloc NDEBUG m_dict m_adler st = .inl outcome) ∨
      ∃ next, turn z alloc NDEBUG m_dict m_adler st = .inr next ∧ Headed headed next ∧ Below growth remains next st := by
  obtain ⟨fits,positive,bound⟩ := sized
  unfold turn
  rw [if_neg filled]
  unfold answer at unasked
  dsimp only
  generalize avail : (st.size - st.out.length) % 2 ^ 32 = room at unasked
  have inside : room ≤ st.size - st.out.length := avail ▸ Nat.mod_le ..
  have used := doc.used st.stream st.input room
  have output := doc.output st.stream st.input room
  have progress := doc.progress st.stream st.input room
  have header := doc.header st.stream st.input room unasked
  generalize z.inflate st.stream st.input room = r at used output progress unasked header
  have more := enlarge_more NDEBUG bound
  have past : st.input.drop r.used = [] ∨ headed r.stream := by
    by_cases left : r.used < st.input.length
    · exact Or.inr (header left)
    · exact Or.inl (List.drop_eq_nil_iff.mpr (Nat.le_of_not_lt left))
  split
  · exact Or.inl ⟨_,rfl⟩
  · rename_i going
    split
    · split
      · exact Or.inl ⟨_,rfl⟩
      · rename_i got
        have grown := small _ got
        refine Or.inr ⟨_,rfl,⟨⟨?_,?_,grown⟩,past⟩,Or.inl ?_⟩
        · simp only [List.length_append]
          omega
        · dsimp only
          omega
        · simp only [growth]
          omega
    · rename_i roomy
      split
      · exact Or.inl ⟨_,rfl⟩
      · rename_i fine
        have ok : r.ret = .Z_OK := by
          cases shown : r.ret <;> simp [shown] at going roomy fine unasked ⊢
        have on := progress ok
        refine Or.inr ⟨_,rfl,⟨⟨?_,positive,bound⟩,past⟩,Or.inr ⟨rfl,?_⟩⟩
        · simp only [List.length_append]
          omega
        · simp only [remains,List.length_append,List.length_drop]
          omega

theorem headed_returns (doc : Documented z headed waits) (small : ∀ n, alloc n = none → n < 2 ^ 62) {st : Unzip σ} (valid : Headed headed st) :
    Returns (turn z alloc NDEBUG m_dict m_adler) st := by
  refine returns_of_descent (Headed headed) (below_founded growth remains) ?_ valid
  intro st valid
  by_cases filled : st.input = []
  · exact Or.inl ⟨_,if_pos filled⟩
  · exact unasked_turn doc small valid.sized filled (doc.done _ _ _ (valid.past.resolve_left filled))

-- What comes of a turn whose stream asks for a dictionary before any output.
def reply (z : Zlib σ) (alloc : Nat → Option Outcome) (NDEBUG : Bool) (m_dict : List UInt8) (m_adler : Nat)
    (stream : σ) (input : List UInt8) (size : Nat) : Outcome ⊕ Unzip σ :=
  if size % 2 ^ 32 = 0 then
    match alloc (enlarge NDEBUG size) with
    | some outcome => .inl outcome
    | none => .inr ⟨stream,input,enlarge NDEBUG size,[]⟩
  else if m_dict.length > 0 then
    if ¬ (z.inflateSetDictionary stream m_dict).1 then .inl .failed
    else if z.adler (z.inflateSetDictionary stream m_dict).2 ≠ m_adler then .inl .failed
    else .inr ⟨(z.inflateSetDictionary stream m_dict).2,input,size,[]⟩
  else .inr ⟨stream,input,size,[]⟩

theorem asked_turn (doc : Documented z headed waits) {st : Unzip σ} (bare : st.out = []) (filled : st.input ≠ [])
    (asked : (answer z st).ret = .Z_NEED_DICT) :
    waits (answer z st).stream ∧ turn z alloc NDEBUG m_dict m_adler st =
      reply z alloc NDEBUG m_dict m_adler (answer z st).stream (st.input.drop (answer z st).used) st.size := by
  obtain ⟨output,still⟩ := doc.asks _ _ _ asked
  refine ⟨still,?_⟩
  unfold answer at asked ⊢
  unfold turn reply
  rw [if_neg filled]
  simp only [bare,List.length_nil,Nat.sub_zero] at asked output ⊢
  generalize st.size % 2 ^ 32 = room at asked output ⊢
  simp [asked,output]

-- The stream waits for a dictionary, its output still empty.
structure Waiting (waits : σ → Prop) (st : Unzip σ) : Prop where
  asks : waits st.stream
  bare : st.out = []
  positive : 0 < st.size
  small : st.size < 2 ^ 62

theorem waiting_turn (doc : Documented z headed waits) {st : Unzip σ} (waiting : Waiting waits st) (filled : st.input ≠ []) :
    ∃ stream, waits stream ∧ turn z alloc NDEBUG m_dict m_adler st = reply z alloc NDEBUG m_dict m_adler stream st.input st.size := by
  obtain ⟨asked,used⟩ := doc.waiting st.stream st.input ((st.size - st.out.length) % 2 ^ 32) waiting.asks filled
  obtain ⟨still,moved⟩ := asked_turn doc waiting.bare filled asked
  refine ⟨_,still,moved.trans ?_⟩
  rw [show (answer z st).used = 0 from used,List.drop_zero]

theorem reply_blind (small : ∀ n, alloc n = none → n < 2 ^ 62) {stream : σ} (still : waits stream) (blind : size % 2 ^ 32 = 0)
    (positive : 0 < size) (bound : size < 2 ^ 62) :
    (∃ outcome, reply z alloc NDEBUG m_dict m_adler stream input size = .inl outcome) ∨
      ∃ next, reply z alloc NDEBUG m_dict m_adler stream input size = .inr next ∧ (Waiting waits next ∧ next.size % 2 ^ 32 = 0) ∧
        2 ^ 62 - next.size < 2 ^ 62 - size := by
  have more := enlarge_more NDEBUG bound
  unfold reply
  rw [if_pos blind]
  split
  · exact Or.inl ⟨_,rfl⟩
  · rename_i got
    have grown := small _ got
    refine Or.inr ⟨_,rfl,⟨⟨still,rfl,?_,grown⟩,enlarge_blind NDEBUG blind⟩,?_⟩
    · dsimp only
      omega
    · dsimp only
      omega

theorem blind_returns (doc : Documented z headed waits) (small : ∀ n, alloc n = none → n < 2 ^ 62) {st : Unzip σ}
    (waiting : Waiting waits st) (blind : st.size % 2 ^ 32 = 0) : Returns (turn z alloc NDEBUG m_dict m_adler) st := by
  refine returns_of_descent (fun st => Waiting waits st ∧ st.size % 2 ^ 32 = 0) (measure growth).wf ?_ ⟨waiting,blind⟩
  intro st ⟨waiting,blind⟩
  by_cases filled : st.input = []
  · exact Or.inl ⟨_,if_pos filled⟩
  · obtain ⟨stream,still,moved⟩ := waiting_turn doc waiting filled
    rw [moved]
    exact reply_blind small still blind waiting.positive waiting.small

theorem reply_given (doc : Documented z headed waits) {stream : σ} (still : waits stream) (sees : size % 2 ^ 32 ≠ 0) (filled : m_dict ≠ [])
    (positive : 0 < size) (bound : size < 2 ^ 62) :
    (∃ outcome, reply z alloc NDEBUG m_dict m_adler stream input size = .inl outcome) ∨
      ∃ next, reply z alloc NDEBUG m_dict m_adler stream input size = .inr next ∧ Headed headed next := by
  unfold reply
  rw [if_neg sees,if_pos (List.length_pos_iff.mpr filled)]
  split
  · exact Or.inl ⟨_,rfl⟩
  · rename_i set
    split
    · exact Or.inl ⟨_,rfl⟩
    · exact Or.inr ⟨_,rfl,⟨Nat.zero_le _,positive,bound⟩,Or.inr (doc.given _ _ still (by simpa using set))⟩

-- Without a dictionary the same turn is taken again and again.
theorem bare_spins (doc : Documented z headed waits) {st : Unzip σ} (waiting : Waiting waits st) (sees : st.size % 2 ^ 32 ≠ 0)
    (filled : st.input ≠ []) : ¬ Returns (turn z alloc NDEBUG [] m_adler) st := by
  refine spins (fun st => Waiting waits st ∧ st.size % 2 ^ 32 ≠ 0 ∧ st.input ≠ []) ?_ ⟨waiting,sees,filled⟩
  intro st ⟨waiting,sees,filled⟩
  obtain ⟨stream,still,moved⟩ := waiting_turn doc waiting filled
  refine ⟨⟨stream,st.input,st.size,[]⟩,?_,⟨still,rfl,waiting.positive,waiting.small⟩,sees,filled⟩
  rw [moved,reply,if_neg sees,if_neg (by simp)]

end turns

section calls
variable {z : Zlib σ} {headed waits : σ → Prop} {alloc : Nat → Option Outcome} {NDEBUG : Bool} {m_dict : List UInt8} {m_adler : Nat}

def fresh (NDEBUG : Bool) (stream : σ) (src : Buffer) : Unzip σ :=
  ⟨stream,src.bytes.take (src.bytes.length % 2 ^ 32),enlarge NDEBUG src.bytes.length,[]⟩

theorem opening_cases (z : Zlib σ) (alloc : Nat → Option Outcome) (NDEBUG : Bool) (src : Option Buffer) :
    (∃ outcome, opening z alloc NDEBUG src = .inl outcome) ∨
      ∃ buffer stream, src = some buffer ∧ buffer.bytes.length ≠ 0 ∧ z.inflateInit = some stream ∧
        alloc (enlarge NDEBUG buffer.bytes.length) = none ∧ opening z alloc NDEBUG src = .inr (fresh NDEBUG stream buffer) := by
  unfold opening
  split
  · exact Or.inl ⟨_,rfl⟩
  · rename_i buffer
    split
    · exact Or.inl ⟨_,rfl⟩
    · rename_i filled
      split
      · exact Or.inl ⟨_,rfl⟩
      · rename_i stream init
        split
        · exact Or.inl ⟨_,rfl⟩
        · rename_i got
          exact Or.inr ⟨buffer,stream,rfl,filled,init,got,rfl⟩

theorem fresh_sized (stream : σ) (src : Buffer) (filled : src.bytes.length ≠ 0) (got : enlarge NDEBUG src.bytes.length < 2 ^ 62) :
    Sized (fresh NDEBUG stream src) := by
  have more := enlarge_more NDEBUG src.small
  refine ⟨Nat.zero_le _,?_,got⟩
  unfold fresh
  dsimp only
  omega

-- From its first turn on a stream comes back unless it is asked for a
-- dictionary it does not have.
theorem fresh_returns (doc : Documented z headed waits) (small : ∀ n, alloc n = none → n < 2 ^ 62) {st : Unzip σ}
    (sized : Sized st) (bare : st.out = []) :
    Returns (turn z alloc NDEBUG m_dict m_adler) st ↔ ¬ (m_dict = [] ∧ st.size % 2 ^ 32 ≠ 0 ∧
      (answer z st).ret = .Z_NEED_DICT ∧ (answer z st).used < st.input.length) := by
  by_cases filled : st.input = []
  · refine iff_of_true (returns_end (if_pos filled)) ?_
    intro ⟨_,_,_,left⟩
    rw [filled] at left
    exact Nat.not_lt_zero _ left
  · by_cases asked : (answer z st).ret = .Z_NEED_DICT
    · obtain ⟨still,moved⟩ := @asked_turn σ z headed waits alloc NDEBUG m_dict m_adler doc st bare filled asked
      by_cases blind : st.size % 2 ^ 32 = 0
      · refine iff_of_true ?_ (fun stuck => stuck.2.1 blind)
        rcases reply_blind small still blind sized.positive sized.small with ⟨_,ends⟩ | ⟨next,more,⟨waiting,later⟩,_⟩
        · exact returns_end (moved.trans ends)
        · exact (returns_turn (moved.trans more)).mpr (blind_returns doc small waiting later)
      · by_cases given : m_dict = []
        · subst given
          have again : turn z alloc NDEBUG [] m_adler st =
              .inr ⟨(answer z st).stream,st.input.drop (answer z st).used,st.size,[]⟩ := by
            rw [moved,reply,if_neg blind,if_neg (by simp)]
          rw [returns_turn again]
          by_cases left : (answer z st).used < st.input.length
          · refine iff_of_false ?_ (fun free => free ⟨rfl,blind,asked,left⟩)
            refine bare_spins doc ⟨still,rfl,sized.positive,sized.small⟩ blind ?_
            intro spent
            have long := List.drop_eq_nil_iff.mp spent
            omega
          · refine iff_of_true (returns_end (if_pos ?_)) (fun stuck => left stuck.2.2.2)
            exact List.drop_eq_nil_iff.mpr (Nat.le_of_not_lt left)
        · refine iff_of_true ?_ (fun stuck => given stuck.1)
          rcases reply_given doc still blind given sized.positive sized.small with ⟨_,ends⟩ | ⟨next,more,valid⟩
          · exact returns_end (moved.trans ends)
          · exact (returns_turn (moved.trans more)).mpr (headed_returns doc small valid)
    · refine iff_of_true ?_ (fun stuck => asked stuck.2.2.1)
      rcases unasked_turn doc small sized filled asked with ⟨_,ends⟩ | ⟨next,moved,valid,_⟩
      · exact returns_end ends
      · exact (returns_turn moved).mpr (headed_returns doc small valid)

-- The stream of the packet asks for a dictionary with input left, and there is
-- none to give.
def Stuck (z : Zlib σ) (alloc : Nat → Option Outcome) (NDEBUG : Bool) (m_dict : List UInt8) (src : Option Buffer) : Prop :=
  m_dict = [] ∧ ∃ buffer stream, src = some buffer ∧ z.inflateInit = some stream ∧ alloc (enlarge NDEBUG buffer.bytes.length) = none ∧
    enlarge NDEBUG buffer.bytes.length % 2 ^ 32 ≠ 0 ∧
    (answer z (fresh NDEBUG stream buffer)).ret = .Z_NEED_DICT ∧
    (answer z (fresh NDEBUG stream buffer)).used < buffer.bytes.length % 2 ^ 32

theorem unzip_returns_iff (doc : Documented z headed waits) (small : ∀ n, alloc n = none → n < 2 ^ 62) (src : Option Buffer) :
    (∃ fuel outcome, unzip z alloc NDEBUG m_dict m_adler src fuel = some outcome) ↔ ¬ Stuck z alloc NDEBUG m_dict src := by
  rcases opening_cases z alloc NDEBUG src with ⟨outcome,ends⟩ | ⟨buffer,stream,rfl,filled,init,got,opened⟩
  · refine iff_of_true ⟨0,outcome,by simp [unzip,ends]⟩ ?_
    intro ⟨_,buffer,stream,given,init,got,_,_,left⟩
    subst given
    have long : buffer.bytes.length ≠ 0 := by omega
    simp [opening,long,init,got] at ends
  · have length : (fresh NDEBUG stream buffer).input.length = buffer.bytes.length % 2 ^ 32 := by
      rw [fresh,List.length_take]
      exact Nat.min_eq_left (Nat.mod_le ..)
    have looped : ∀ fuel, unzip z alloc NDEBUG m_dict m_adler (some buffer) fuel =
        loop (turn z alloc NDEBUG m_dict m_adler) fuel (fresh NDEBUG stream buffer) := by
      intro fuel
      simp only [unzip,opened]
    simp only [looped]
    refine (fresh_returns doc small (fresh_sized stream buffer filled (small _ got)) rfl).trans (not_congr ?_)
    rw [length]
    constructor
    · intro ⟨given,sees,asked,left⟩
      exact ⟨given,buffer,stream,rfl,init,got,sees,asked,left⟩
    · intro ⟨given,other,again,same,init',_,sees,asked,left⟩
      cases Option.some.inj same
      cases Option.some.inj (init.symm.trans init')
      exact ⟨given,sees,asked,left⟩

end calls

theorem resize_small (heap : Heap) (n : Nat) (got : resize heap n = none) : n < 2 ^ 62 := by
  unfold resize at got
  split at got
  · rename_i room
    exact heap.small n room
  · cases got

theorem zipalloc_small (heap : Heap) (n : Nat) (got : zipalloc heap n = none) : n < 2 ^ 62 := by
  unfold zipalloc at got
  split at got
  · cases got
  · split at got
    · rename_i room
      have small := heap.small _ room
      omega
    · cases got

-- Both overloads come back exactly from the buffers whose stream does not wait
-- for a dictionary that is not there.
theorem unzip_ends_iff {z : Zlib σ} {headed waits : σ → Prop} (doc : Documented z headed waits) (heap : Heap) (NDEBUG : Bool)
    (m_dict : List UInt8) (m_adler : Nat) (src : Option Buffer) :
    ((∃ fuel outcome, unzipVector z heap NDEBUG m_dict m_adler src fuel = some outcome) ↔ ¬ Stuck z (resize heap) NDEBUG m_dict src) ∧
    ∀ dst, (∃ fuel outcome, unzipPointer z heap NDEBUG m_dict m_adler dst src fuel = some outcome) ↔
      ¬ (dst = true ∧ Stuck z (zipalloc heap) NDEBUG m_dict src) := by
  refine ⟨unzip_returns_iff doc (resize_small heap) src,?_⟩
  intro dst
  cases dst with
  | false => exact iff_of_true ⟨0,.failed,rfl⟩ (fun stuck => by cases stuck.1)
  | true =>
      refine (unzip_returns_iff doc (zipalloc_small heap) src).trans (not_congr ?_)
      exact ⟨fun stuck => ⟨rfl,stuck⟩,fun stuck => stuck.2⟩

inductive Stage where
  | HEAD
  | DICT (id : Nat)
  | TYPE (id : Nat)
  deriving DecidableEq

def Stage.headed : Stage → Prop
  | .TYPE _ => True
  | _ => False

def Stage.waits : Stage → Prop
  | .DICT _ => True
  | _ => False

-- inflate on a stream that begins with the header 78 BB of a preset dictionary,
-- followed by the id of the dictionary; it refuses every other stream and all
-- data.
def presetInflate (stage : Stage) (input : List UInt8) : Inflated Stage :=
  match stage,input with
  | .HEAD,0x78 :: 0xBB :: b3 :: b2 :: b1 :: b0 :: _ => ⟨.Z_NEED_DICT,6,[],.DICT (bigEndian [b3,b2,b1,b0])⟩
  | .DICT id,_ :: _ => ⟨.Z_NEED_DICT,0,[],.DICT id⟩
  | .DICT id,[] => ⟨.Z_BUF_ERROR,0,[],.DICT id⟩
  | _,_ => ⟨.Z_DATA_ERROR,0,[],.TYPE 1⟩

-- The id of a dictionary is its Adler-32; no other one goes in.
def presetSet (stage : Stage) (dict : List UInt8) : Bool × Stage :=
  match stage with
  | .DICT id => if checksum dict = id then (true,.TYPE id) else (false,.DICT id)
  | stage => (false,stage)

def presetAdler : Stage → Nat
  | .HEAD => 1
  | .DICT id | .TYPE id => id

def presetZlib : Zlib Stage := ⟨some .HEAD,fun stage input _ => presetInflate stage input,presetSet,presetAdler⟩

theorem preset_documented : Documented presetZlib Stage.headed Stage.waits := by
  constructor
  · intro stage input _
    change (presetInflate stage input).used ≤ input.length
    unfold presetInflate
    split <;> simp
  · intro stage input _
    change (presetInflate stage input).output.length ≤ _
    unfold presetInflate
    split <;> simp
  · intro stage input _ ok
    change (presetInflate stage input).ret = _ at ok
    unfold presetInflate at ok
    split at ok <;> cases ok
  · intro stage input _ asks
    change (presetInflate stage input).ret = _ at asks
    change (presetInflate stage input).output = [] ∧ (presetInflate stage input).stream.waits
    unfold presetInflate at asks ⊢
    split at asks <;> simp [Stage.waits] at asks ⊢
  · intro stage input _ waiting filled
    cases stage with
    | HEAD => exact waiting.elim
    | TYPE => exact waiting.elim
    | DICT id =>
        cases input with
        | nil => exact absurd rfl filled
        | cons => exact ⟨rfl,rfl⟩
  · intro stage dict waiting set
    change (presetSet stage dict).1 = true at set
    change (presetSet stage dict).2.headed
    cases stage with
    | HEAD => exact waiting.elim
    | TYPE => exact waiting.elim
    | DICT id =>
        unfold presetSet at set ⊢
        dsimp only at set ⊢
        split at set
        · rename_i same
          rw [if_pos same]
          exact True.intro
        · cases set
  · intro stage input _ quiet left
    change (presetInflate stage input).ret ≠ _ at quiet
    change (presetInflate stage input).used < _ at left
    change (presetInflate stage input).stream.headed
    unfold presetInflate at quiet left ⊢
    split at quiet <;> simp [Stage.headed] at quiet left ⊢
  · intro stage input _ past
    cases stage with
    | HEAD => exact past.elim
    | DICT id => exact past.elim
    | TYPE id =>
        change (presetInflate (.TYPE id) input).ret ≠ _
        simp [presetInflate]

def smallHeap : Heap := ⟨fun n => n < 1000,fun n room => by
  have bound : n < 1000 := by simpa using room
  omega⟩

-- The header, the id of the dictionary [1,2], and one byte more.
def dictPacket : Buffer := ⟨[0x78,0xBB,0,6,0,4,7],by decide⟩

theorem given_dictionary : (presetZlib.inflateSetDictionary (.DICT 0x60004) [1,2]).1 = true ∧
    ∃ fuel outcome, unzipVector presetZlib smallHeap false [1,2] 0x60004 (some dictPacket) fuel = some outcome := by
  refine ⟨by decide,(unzip_ends_iff preset_documented smallHeap false [1,2] 0x60004 (some dictPacket)).1.mpr ?_⟩
  intro stuck
  cases stuck.1

theorem unknown_dictionary : ¬ ∃ fuel outcome, unzipVector presetZlib smallHeap false [] 0 (some dictPacket) fuel = some outcome := by
  refine fun comes => (unzip_returns_iff preset_documented (resize_small smallHeap) (some dictPacket)).mp comes ?_
  exact ⟨rfl,dictPacket,.HEAD,rfl,rfl,rfl,by decide,rfl,by decide⟩

end GameServer.Common.Zip
