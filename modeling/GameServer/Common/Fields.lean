import GameServer.Common.Stream
import Mathlib.Data.List.TakeWhile

namespace GameServer.Common.Fields
open Bytes

-- What is written to a Stream and what is asked back from it.
inductive Field where
  | int (width : Nat) (v : BitVec (8*width))
  | string (v : List UInt8)
  | chars (v : List UInt8) (nulFree : 0 ∉ v)
  | vector (width : Nat) (v : List (BitVec (8*width)))

inductive Kind where
  | int (width : Nat)
  | string
  | vector (width : Nat)

inductive Datum where
  | word (n : Nat)
  | chars (v : List UInt8)

def Field.kind : Field → Kind
  | .int width _ => .int width
  | .string _ | .chars _ _ => .string
  | .vector width _ => .vector width

def write (st : Stream) : Field → Option Stream
  | .int width v => st.word width v.toNat
  | .string v => st.putString v
  | .chars v _ => st.putChars (some v)
  | .vector width v => st.putVector width (v.map BitVec.toNat)

def writeAll : Stream → List Field → Option Stream
  | st,[] => some st
  | st,f :: rest => (write st f).bind (writeAll · rest)

-- Extraction by a Stream and by a BinaryReader over the bytes, and the cursor after it.
-- `none`: operator>>(std::vector<T>&) hands &v[0] to read(UInt8*, size_t) without a cast,
-- so no program that extracts a vector of anything but bytes compiles.
def extract (junk : Nat → UInt8) (buf : List UInt8) (kind : Kind) (pos : Nat) : Option (Datum × Nat) :=
  match kind with
  | .int width => let r := wordAt junk buf pos width; some (.word r.value,r.pos)
  | .string => let r := Stream.string junk ⟨pos,buf⟩; some (.chars r.value,r.pos)
  | .vector _ => none

def extractReader (junk : Nat → UInt8) (buf : List UInt8) (kind : Kind) (pos : Nat) : Option (Datum × Nat) :=
  match kind with
  | .int width => let r := wordAt junk buf pos width; some (.word r.value,r.pos)
  | .string => let r := BinaryReader.string junk ⟨pos,buf⟩; some (.chars r.value,r.pos)
  | .vector _ => none

-- The cursor stands in front of the last bytes of the buffer.
def Stands (buf : List UInt8) (pos : Nat) (tail : List UInt8) : Prop := ∃ head, buf = head ++ tail ∧ head.length = pos

variable {buf tail front back : List UInt8} {pos : Nat} {junk : Nat → UInt8}

theorem stands_length (stands : Stands buf pos tail) : pos+tail.length = buf.length := by
  obtain ⟨head,rfl,rfl⟩ := stands
  exact List.length_append.symm

theorem stands_drop (stands : Stands buf pos tail) : buf.drop pos = tail := by
  obtain ⟨head,rfl,rfl⟩ := stands
  exact List.drop_left

theorem stands_skip (stands : Stands buf pos (front ++ back)) : Stands buf (pos+front.length) back := by
  obtain ⟨head,rfl,rfl⟩ := stands
  exact ⟨head ++ front,(List.append_assoc ..).symm,List.length_append⟩

theorem wrap64_ok {n : Nat} (small : n < 2^64) : wrap64 n = n := by
  unfold wrap64
  omega

theorem read_back (bound : buf.length ≤ maxSize) (stands : Stands buf pos (front ++ back)) :
    (readAt buf pos front.length).value = front ∧ (readAt buf pos front.length).pos = pos+front.length := by
  have length := stands_length stands
  rw [List.length_append] at length
  have top : maxSize < 2^64 := by decide
  have sum : wrap64 ((pos : Int)+(front.length : Int)) = pos+front.length := wrap64_ok (n := pos+front.length) (by omega)
  have kept : ¬ pos+front.length > buf.length := by omega
  unfold readAt
  dsimp only
  rw [sum,if_neg kept,sum]
  split
  · rename_i none
    have bare := List.eq_nil_of_length_eq_zero none
    subst bare
    exact ⟨rfl,rfl⟩
  · have ahead : (buf.drop pos).take front.length = front := by
      rw [stands_drop stands]
      exact List.take_left' rfl
    exact ⟨ahead,rfl⟩

theorem overlay_full (whole : copied.length = width) : overlay junk width copied = copied := by
  unfold overlay
  rw [whole,Nat.sub_self]
  exact List.append_nil _

theorem word_back {n : Nat} (junk : Nat → UInt8) (bound : buf.length ≤ maxSize) (stands : Stands buf pos (toBytes width n ++ back)) :
    (wordAt junk buf pos width).value = n % 256^width ∧ (wordAt junk buf pos width).pos = pos+width := by
  obtain ⟨value,after⟩ := read_back bound stands
  rw [toBytes_length] at value after
  unfold wordAt
  dsimp only
  rw [value,overlay_full (toBytes_length ..),ofBytes_toBytes]
  exact ⟨rfl,after⟩

-- How much of a string is read: its prefix, or what the 32-bit left() shows.
def held (n : Nat) (body : List UInt8) : Nat := min (n % 65536) (body.length % 2^32)

theorem held_le (n : Nat) (body : List UInt8) : held n body ≤ body.length :=
  Nat.le_trans (Nat.min_le_right _ _) (Nat.mod_le _ _)

theorem cut_eq (n : Nat) (body : List UInt8) :
    (if n % 65536 > body.length % 2^32 then body.length % 2^32 else n % 65536) = held n body := by
  unfold held
  split <;> omega

theorem left_ok (bound : buf.length ≤ maxSize) (stands : Stands buf pos tail) :
    wrap64 ((buf.length : Int)-(pos : Int)) = tail.length := by
  have length := stands_length stands
  have top : maxSize < 2^64 := by decide
  have rest : ((buf.length : Int)-(pos : Int)) = (tail.length : Nat) := by omega
  rw [rest]
  exact wrap64_ok (by omega)

-- In front of a text: its length is read, left() shows the bytes behind it and the
-- cursor does not wrap.
theorem text_front {n : Nat} {body : List UInt8} (junk : Nat → UInt8) (bound : buf.length ≤ maxSize)
    (stands : Stands buf pos (toBytes 2 n ++ body)) :
    (wordAt junk buf pos 2).value = n % 65536 ∧ (wordAt junk buf pos 2).pos = pos+2 ∧ buf.drop (pos+2) = body ∧
      wrap64 ((buf.length : Int)-((pos+2 : Nat) : Int)) = body.length ∧
      wrap64 (((pos+2 : Nat) : Int)+(held n body : Int)) = pos+2+held n body := by
  obtain ⟨length,after⟩ := word_back junk bound stands
  have behind := stands_skip stands
  rw [toBytes_length] at behind
  have size := stands_length behind
  have top : maxSize < 2^64 := by decide
  have less := held_le n body
  exact ⟨length,after,stands_drop behind,left_ok bound behind,wrap64_ok (n := pos+2+held n body) (by omega)⟩

theorem string_back {n : Nat} {body : List UInt8} (junk : Nat → UInt8) (bound : buf.length ≤ maxSize)
    (stands : Stands buf pos (toBytes 2 n ++ body)) :
    (Stream.string junk ⟨pos,buf⟩).value = body.take (held n body) ∧
      (Stream.string junk ⟨pos,buf⟩).pos = pos+2+held n body := by
  obtain ⟨length,after,ahead,left,cursor⟩ := text_front junk bound stands
  unfold Stream.string Stream.left Stream.size
  dsimp only
  rw [length,after,left,cut_eq,ahead]
  exact ⟨rfl,cursor⟩

theorem reader_back {n : Nat} {body : List UInt8} (junk : Nat → UInt8) (bound : buf.length ≤ maxSize)
    (stands : Stands buf pos (toBytes 2 n ++ body)) :
    (BinaryReader.string junk ⟨pos,buf⟩).value = body.take (held n body) ∧
      (BinaryReader.string junk ⟨pos,buf⟩).pos = pos+2+held n body := by
  obtain ⟨length,after,ahead,left,cursor⟩ := text_front junk bound stands
  unfold BinaryReader.string BinaryReader.left
  dsimp only
  rw [length,after,left,cut_eq,ahead]
  split
  · exact ⟨rfl,cursor⟩
  · rename_i none
    have zero : held n body = 0 := Nat.le_zero.mp (Nat.le_of_not_lt none)
    rw [zero]
    exact ⟨rfl,rfl⟩

-- The bytes a field becomes; char* cuts prefix and payload, std::string only the prefix.
def encode : Field → List UInt8
  | .int width v => toBytes width v.toNat
  | .string v => toBytes 2 v.length ++ v
  | .chars v _ => toBytes 2 (v.length % 2^16) ++ v.take (v.length % 2^16)
  | .vector width v =>
    toBytes 4 (v.length % 2^32) ++ ((v.map BitVec.toNat).take (v.length % 2^32)).flatMap (toBytes width)

def encodeAll (fields : List Field) : List UInt8 := fields.flatMap encode

theorem append_append (st : Stream) (front back : List UInt8) :
    (st.append front).bind (·.append back) = st.append (front ++ back) := by
  have whole : st.size+(front ++ back).length = st.size+front.length+back.length := by
    rw [List.length_append,Nat.add_assoc]
  by_cases fits : st.size+front.length ≤ maxSize
  · have size : ({st with _buf := st._buf ++ front} : Stream).size = st.size+front.length := List.length_append
    rw [Stream.append,if_pos fits,Option.bind_some,Stream.append,Stream.append,size,whole,List.append_assoc]
  · rw [Stream.append,if_neg fits,Stream.append,if_neg (by omega)]
    rfl

theorem strlen_eq (nulFree : (0 : UInt8) ∉ v) : Stream.strlen v = v.length := by
  have all : v.takeWhile (· ≠ 0) = v := by
    apply List.takeWhile_eq_self_iff.mpr
    intro b inside
    apply decide_eq_true
    intro zero
    exact nulFree (zero ▸ inside)
  rw [Stream.strlen,all]

theorem write_eq (st : Stream) (f : Field) : write st f = st.append (encode f) := by
  cases f with
  | int width v => rfl
  | string v => exact append_append ..
  | chars v nulFree =>
      rw [write,Stream.putChars,strlen_eq nulFree]
      exact append_append ..
  | vector width v =>
      rw [write,Stream.putVector,List.length_map]
      exact append_append ..

theorem writeAll_some (st : Stream) (fields : List Field) (size : st.size ≤ maxSize) :
    writeAll st fields = st.append (encodeAll fields) := by
  induction fields generalizing st with
  | nil =>
      have same : st.size+([] : List UInt8).length ≤ maxSize := size
      rw [writeAll,encodeAll,List.flatMap_nil,Stream.append,if_pos same,List.append_nil]
  | cons f rest ih =>
      have split : encodeAll (f :: rest) = encode f ++ encodeAll rest := List.flatMap_cons
      rw [writeAll,write_eq,split,← append_append]
      by_cases fits : st.size+(encode f).length ≤ maxSize
      · rw [Stream.append,if_pos fits,Option.bind_some,Option.bind_some]
        apply ih
        exact Nat.le_trans (Nat.le_of_eq List.length_append) fits
      · rw [Stream.append,if_neg fits]
        rfl

-- What each reader owes where a field stands in front of its cursor.
structure Reads (buf : List UInt8) (extract : Kind → Nat → Option (Datum × Nat)) : Prop where
  int : ∀ {pos width n back}, Stands buf pos (toBytes width n ++ back) →
    extract (.int width) pos = some (.word (n % 256^width),pos+width)
  string : ∀ {pos n body}, Stands buf pos (toBytes 2 n ++ body) →
    extract .string pos = some (.chars (body.take (held n body)),pos+2+held n body)
  vector : ∀ {pos width}, extract (.vector width) pos = none

theorem stream_reads (bound : buf.length ≤ maxSize) (junk : Nat → UInt8) : Reads buf (extract junk buf) where
  int := fun stands => by
    obtain ⟨value,after⟩ := word_back junk bound stands
    rw [extract,value,after]
  string := fun stands => by
    obtain ⟨value,after⟩ := string_back junk bound stands
    rw [extract,value,after]
  vector := rfl

theorem reader_reads (bound : buf.length ≤ maxSize) (junk : Nat → UInt8) : Reads buf (extractReader junk buf) where
  int := fun stands => by
    obtain ⟨value,after⟩ := word_back junk bound stands
    rw [extractReader,value,after]
  string := fun stands => by
    obtain ⟨value,after⟩ := reader_back junk bound stands
    rw [extractReader,value,after]
  vector := rfl

-- A string comes back as itself or, beyond 65535 bytes, as a prefix.
def SameText (v : List UInt8) (d : Datum) : Prop :=
  ∃ read, d = .chars read ∧ (read = v ∨ 65535 < v.length ∧ read <+: v)

def Same : Field → Datum → Prop
  | .int _ v,d => d = .word v.toNat
  | .string v,d | .chars v _,d => SameText v d
  | .vector _ _,_ => False

-- Every field is read from where it was written, and read as what was written.
def ReadsBack (extract : Kind → Nat → Option (Datum × Nat)) (pos place : Nat) : List Field → Prop
  | [] => True
  | f :: rest => pos = place ∧ ∃ d after, extract f.kind pos = some (d,after) ∧ Same f d ∧
    ReadsBack extract after (place+(encode f).length) rest

-- A text before more fields fits its prefix, and the 32-bit left() shows all of it.
def Whole (v : List UInt8) (payload : Nat) (rest : List Field) : Prop :=
  (rest ≠ [] → payload ≤ 65535) ∧ v.length % 65536 ≤ (payload+(encodeAll rest).length) % 2^32

def Fits : List Field → Prop
  | [] => True
  | f :: rest => (match f with
    | .int _ _ => True
    | .string v => Whole v v.length rest
    | .chars v _ => Whole v (v.length % 65536) rest
    | .vector _ _ => False) ∧ Fits rest

variable {taken : Kind → Nat → Option (Datum × Nat)} {rest : List Field} {v payload : List UInt8}

theorem sameText_iff (part : payload <+: v) (most : v.length % 65536 ≤ payload.length) (less : k ≤ v.length % 65536) :
    SameText v (.chars (payload.take k)) ↔ (v.length ≤ 65535 → k = v.length) := by
  have size : (payload.take k).length = k := by
    rw [List.length_take]
    omega
  have front : payload.take k <+: v := (List.take_prefix k payload).trans part
  constructor
  · intro same short
    obtain ⟨read,eq,whole | long⟩ := same
    · injection eq with eq
      rw [← size,eq,whole]
    · omega
  · intro whole
    refine ⟨_,rfl,?_⟩
    by_cases short : v.length ≤ 65535
    · exact Or.inl (front.eq_of_length (size.trans (whole short)))
    · exact Or.inr ⟨Nat.lt_of_not_le short,front⟩

theorem read_once {d : Datum} {after : Nat} {P : Datum → Nat → Prop} :
    (∃ d' after', some (d,after) = some (d',after') ∧ P d' after') ↔ P d after := by
  constructor
  · rintro ⟨_,_,same,holds⟩
    cases same
    exact holds
  · exact fun holds => ⟨d,after,rfl,holds⟩

theorem text_back {n : Nat} (reads : Reads buf taken) (number : n % 65536 = v.length % 65536) (part : payload <+: v)
    (same : payload.length % 65536 = v.length % 65536) (stands : Stands buf pos (toBytes 2 n ++ (payload ++ encodeAll rest)))
    (ih : ∀ pos, Stands buf pos (encodeAll rest) → (ReadsBack taken pos pos rest ↔ Fits rest)) :
    (∃ d after, taken .string pos = some (d,after) ∧ SameText v d ∧ ReadsBack taken after (pos+(2+payload.length)) rest) ↔
      Whole v payload.length rest ∧ Fits rest := by
  have small : v.length % 65536 < 65536 := Nat.mod_lt _ (by decide)
  have most : v.length % 65536 ≤ payload.length := same ▸ Nat.mod_le ..
  have size : (payload ++ encodeAll rest).length = payload.length+(encodeAll rest).length := List.length_append
  have hold : held n (payload ++ encodeAll rest) =
      min (v.length % 65536) ((payload.length+(encodeAll rest).length) % 2^32) := by rw [held,number,size]
  have less : held n (payload ++ encodeAll rest) ≤ v.length % 65536 := by rw [hold]; exact Nat.min_le_left ..
  have text : (payload ++ encodeAll rest).take (held n (payload ++ encodeAll rest)) =
      payload.take (held n (payload ++ encodeAll rest)) := List.take_append_of_le_length (Nat.le_trans less most)
  rw [reads.string stands,text,read_once,sameText_iff part most less]
  have behind := stands_skip (stands_skip stands)
  rw [toBytes_length,Nat.add_assoc] at behind
  unfold Whole
  cases rest with
  | nil =>
      -- Nothing follows: the prefix is at most what is left.
      have none : (encodeAll []).length = 0 := rfl
      rw [none,Nat.add_zero] at hold ⊢
      have shown : v.length % 65536 ≤ payload.length % 2^32 := by omega
      have full : held n (payload ++ encodeAll []) = v.length % 65536 := by omega
      constructor
      · intro _
        exact ⟨⟨fun some => absurd rfl some,shown⟩,trivial⟩
      · intro _
        refine ⟨?_,trivial⟩
        intro short
        omega
  | cons f rest =>
      have onward := ih _ behind
      have size := part.length_le
      constructor
      · intro ⟨text,back⟩
        have place : pos+2+held n (payload ++ encodeAll (f :: rest)) = pos+(2+payload.length) := back.1
        have full : held n (payload ++ encodeAll (f :: rest)) = payload.length := by omega
        rw [place] at back
        refine ⟨⟨?_,?_⟩,onward.mp back⟩
        · intro _
          omega
        · omega
      · intro ⟨⟨short,shown⟩,fits⟩
        have small := short (List.cons_ne_nil _ _)
        have full : held n (payload ++ encodeAll (f :: rest)) = payload.length := by omega
        rw [full,Nat.add_assoc]
        refine ⟨?_,onward.mpr fits⟩
        intro _
        omega

theorem toNat_mod {width : Nat} (v : BitVec (8*width)) : v.toNat % 256^width = v.toNat := by
  have bits : 256^width = 2^(8*width) := by rw [Nat.pow_mul]
  rw [bits]
  exact Nat.mod_eq_of_lt v.isLt

theorem fields_back (reads : Reads buf taken) (fields : List Field) (stands : Stands buf pos (encodeAll fields)) :
    ReadsBack taken pos pos fields ↔ Fits fields := by
  induction fields generalizing pos with
  | nil => exact Iff.rfl
  | cons f rest ih =>
      have split : encodeAll (f :: rest) = encode f ++ encodeAll rest := List.flatMap_cons
      rw [split] at stands
      have behind := stands_skip stands
      unfold ReadsBack Fits
      rw [eq_self,true_and]
      cases f with
      | int width v =>
          have read := reads.int stands
          rw [toNat_mod] at read
          have onward := ih behind
          rw [encode,toBytes_length] at onward
          simp only [Field.kind,read,Same,encode,toBytes_length,true_and]
          rw [read_once,eq_self,true_and]
          exact onward
      | string v =>
          rw [encode,List.append_assoc] at stands
          have text := text_back reads rfl (List.prefix_refl v) rfl stands (fun _ => ih)
          simp only [Field.kind,Same,encode,List.length_append,toBytes_length]
          exact text
      | chars v nulFree =>
          rw [encode,List.append_assoc] at stands
          have size : (v.take (v.length % 2^16)).length = v.length % 65536 := by
            rw [List.length_take]
            omega
          have text := text_back (v := v) reads (Nat.mod_mod ..) (List.take_prefix ..) (by rw [size,Nat.mod_mod])
            stands (fun _ => ih)
          rw [size] at text
          simp only [Field.kind,Same,encode,List.length_append,toBytes_length,size]
          exact text
      | vector width v =>
          rw [false_and,iff_false]
          rintro ⟨_,_,read,_⟩
          cases reads.vector.symm.trans read

theorem append_result {st next : Stream} {bytes : List UInt8} (done : st.append bytes = some next) :
    next = {st with _buf := st._buf ++ bytes} ∧ next.size ≤ maxSize := by
  unfold Stream.append at done
  split at done
  · rename_i fits
    cases done
    exact ⟨rfl,Nat.le_trans (Nat.le_of_eq List.length_append) fits⟩
  · cases done

theorem encode_eq (v : List UInt8) (nulFree : 0 ∉ v) : encode (.string v) = encode (.chars v nulFree) ↔ v.length ≤ 65535 := by
  rw [encode,encode]
  constructor
  · intro same
    have cut := (List.append_inj same ((toBytes_length ..).trans (toBytes_length ..).symm)).2
    have size := congrArg List.length cut
    rw [List.length_take] at size
    omega
  · intro short
    have number : v.length % 2^16 = v.length := by omega
    rw [number,List.take_length]

theorem writers_agree {st a b : Stream} (nulFree : 0 ∉ v) (string : write st (.string v) = some a)
    (chars : write st (.chars v nulFree) = some b) : a = b ↔ v.length ≤ 65535 := by
  rw [write_eq] at string chars
  rw [← encode_eq v nulFree,(append_result string).1,(append_result chars).1]
  simp

-- The fields come back from where they were written, through either reader, when there is
-- no vector among them, every text before other fields fits its prefix (char* always does)
-- and left() is not cut to less than a text.
theorem fields_exact (junk : Nat → UInt8) (head : List UInt8) (fields : List Field) (st : Stream)
    (size : head.length ≤ maxSize) (written : writeAll ⟨head.length,head⟩ fields = some st) :
    ((ReadsBack (extract junk st._buf) st._pos head.length fields ∧
        ReadsBack (extractReader junk st._buf) head.length head.length fields) ↔ Fits fields) ∧
      ∀ (v : List UInt8) (nulFree : 0 ∉ v) (st a b : Stream), write st (.string v) = some a →
        write st (.chars v nulFree) = some b → (a = b ↔ v.length ≤ 65535) := by
  refine ⟨?_,fun v nulFree st a b => writers_agree nulFree⟩
  rw [writeAll_some ⟨head.length,head⟩ fields size] at written
  obtain ⟨eq,bound⟩ := append_result written
  have stands : Stands st._buf head.length (encodeAll fields) := by
    rw [eq]
    exact ⟨head,rfl,rfl⟩
  have byStream := fields_back (stream_reads bound junk) fields stands
  have byReader := fields_back (reader_reads bound junk) fields stands
  have cursor : st._pos = head.length := by rw [eq]
  rw [cursor,byStream,byReader,and_self]

theorem fields_exact_pair :
    ReadsBack (extract (fun _ => 0) [1,0,65,7]) 0 0 [.string [65],.int 1 7] ∧
      ReadsBack (extractReader (fun _ => 0) [1,0,65,7]) 0 0 [.string [65],.int 1 7] :=
  (fields_exact (fun _ => 0) [] [.string [65],.int 1 7] ⟨0,[1,0,65,7]⟩ (by decide) (by decide)).1.mpr
    ⟨⟨fun _ => by decide,by decide⟩,trivial,trivial⟩

-- 65536 characters get the prefix 0: the byte behind them is then read out of them.
theorem text_shifts {name : List UInt8} (long : name.length = 65536) :
    ∃ st, writeAll Stream.empty [.string name,.int 1 7] = some st ∧
      ∀ junk, ¬ ReadsBack (extract junk st._buf) 0 0 [.string name,.int 1 7] := by
  have whole : (encodeAll [.string name,.int 1 7]).length = 2+65536+1 := by
    simp [encodeAll,encode,long]
  have room : Stream.empty.size+(encodeAll [.string name,.int 1 7]).length ≤ maxSize := by
    rw [whole]
    decide
  have written := writeAll_some Stream.empty [.string name,.int 1 7] (by decide)
  rw [Stream.append,if_pos room] at written
  refine ⟨_,written,?_⟩
  intro junk back
  have fits := (fields_back (stream_reads (Nat.le_trans (Nat.le_of_eq List.length_append) room) _) _ ⟨[],rfl,rfl⟩).mp back
  have short := fits.1.1 (List.cons_ne_nil _ _)
  omega

theorem long_shifts : ¬ ∀ (junk : Nat → UInt8) (fields : List Field) (st : Stream), writeAll Stream.empty fields = some st →
    ReadsBack (extract junk st._buf) 0 0 fields ∧ ReadsBack (extractReader junk st._buf) 0 0 fields := by
  intro claim
  obtain ⟨st,written,shifted⟩ := text_shifts (List.length_replicate (n := 65536) (a := (97 : UInt8)))
  exact shifted _ (claim (fun _ => 0) _ _ written).1

end GameServer.Common.Fields
