import Mathlib.Algebra.Group.Nat.Defs
import GameServer.Common.Serialize

namespace GameServer.Common.Sizes
open Bytes

-- The Size of the S11NTraits, a sum of UInt32.
mutual
def Size : (type : S11NType) → type.Value → UInt32
  | .integer width,_ => UInt32.ofNat width
  | .array elem size,_ => UInt32.ofNat (elem*size)
  | .string,s => UInt32.ofNat ((chars s).length+2)
  | .vector elem,v => (elems v).foldl (fun size it => size + Size elem it) 2
  | .struct members,v => sizeMembers members v 0
def sizeMembers : (members : Members) → members.Values → UInt32 → UInt32
  | .none,_,len => len
  | .member type rest,v,len => sizeMembers rest v.2 (len + Size type v.1)
end

-- The members of a message, split behind the first n.
def count : Members → Nat
  | .none => 0
  | .member _ rest => count rest + 1

def front : Nat → Members → Members
  | 0,_ => .none
  | _+1,.none => .none
  | n+1,.member type rest => .member type (front n rest)

def back : Nat → Members → Members
  | 0,members => members
  | _+1,.none => .none
  | n+1,.member _ rest => back n rest

def keep : (n : Nat) → (members : Members) → members.Values → (front n members).Values
  | 0,_,_ => ()
  | _+1,.none,_ => ()
  | n+1,.member _ rest,v => (v.1,keep n rest v.2)

def drop : (n : Nat) → (members : Members) → members.Values → (back n members).Values
  | 0,_,v => v
  | _+1,.none,_ => ()
  | n+1,.member _ rest,v => drop n rest v.2

-- A message with MSG_SllN_n for its members.
structure Message where
  members : Members
  arity : count members ≤ 12

-- All MSG_SllN_n add up the sizes of the members up to the eleventh; the Size of the
-- twelfth stands in MSG_SllN_12 as a statement of its own, behind the return.
def Message.Size (m : Message) (v : m.members.Values) : UInt32 :=
  sizeMembers (front 11 m.members) (keep 11 m.members v) 0

def Message.Serialize (m : Message) (v : m.members.Values) (buffer : List UInt8) : List UInt8 × UInt32 :=
  serializeMembers m.members v buffer 0

-- How many bytes go into the buffer for a value: a string whose length is a
-- multiple of 65536 leaves out its characters.
mutual
def bytes : (type : S11NType) → type.Value → Nat
  | .integer width,_ => width
  | .array elem size,_ => elem*size
  | .string,s => if (chars s).length % 65536 = 0 then 2 else (chars s).length+2
  | .vector elem,v => 2 + ((elems v).map (bytes elem)).sum
  | .struct members,v => allBytes members v
def allBytes : (members : Members) → members.Values → Nat
  | .none,_ => 0
  | .member type rest,v => bytes type v.1 + allBytes rest v.2
end

-- The characters left out.
mutual
def lost : (type : S11NType) → type.Value → Nat
  | .integer _,_ => 0
  | .array _ _,_ => 0
  | .string,s => if (chars s).length % 65536 = 0 then (chars s).length else 0
  | .vector elem,v => ((elems v).map (lost elem)).sum
  | .struct members,v => allLost members v
def allLost : (members : Members) → members.Values → Nat
  | .none,_ => 0
  | .member type rest,v => lost type v.1 + allLost rest v.2
end

-- What is left of the bytes by the 16-bit counts of strings and vectors.
mutual
def counted : (type : S11NType) → type.Value → Nat
  | .integer width,_ => width
  | .array elem size,_ => elem*size
  | .string,s => (chars s).length % 65536 + 2
  | .vector elem,v => (2 + ((elems v).map (counted elem)).sum) % 65536
  | .struct members,v => allCounted members v
def allCounted : (members : Members) → members.Values → Nat
  | .none,_ => 0
  | .member type rest,v => counted type v.1 + allCounted rest v.2
end

-- Those counts hold: a string is shorter than 65536 or leaves out its characters,
-- and no vector takes more than 65535 bytes.
mutual
def Counts : (type : S11NType) → type.Value → Prop
  | .integer _,_ => True
  | .array _ _,_ => True
  | .string,s => (chars s).length < 65536 ∨ (chars s).length % 65536 = 0
  | .vector elem,v => 2 + ((elems v).map (bytes elem)).sum < 65536 ∧ ∀ it ∈ elems v, Counts elem it
  | .struct members,v => AllCount members v
def AllCount : (members : Members) → members.Values → Prop
  | .none,_ => True
  | .member type rest,v => Counts type v.1 ∧ AllCount rest v.2
end

theorem fold_sizes {f : α → UInt32} {g : α → Nat} (v : List α) (start : Nat) (each : ∀ it ∈ v, f it = UInt32.ofNat (g it)) :
    v.foldl (fun size it => size + f it) (UInt32.ofNat start) = UInt32.ofNat (start + (v.map g).sum) := by
  induction v generalizing start with
  | nil => rfl
  | cons it rest ih =>
      rw [List.foldl_cons,each it List.mem_cons_self,← UInt32.ofNat_add,
        ih _ (fun other member => each other (List.mem_cons_of_mem _ member)),List.map_cons,List.sum_cons,Nat.add_assoc]

theorem sum_map_add (v : List α) (f g : α → Nat) : (v.map fun it => f it + g it).sum = (v.map f).sum + (v.map g).sum := by
  induction v with
  | nil => rfl
  | cons it rest ih =>
      rw [List.map_cons,List.sum_cons,ih,List.map_cons,List.sum_cons,List.map_cons,List.sum_cons]
      omega

mutual
theorem size_eq : (type : S11NType) → (v : type.Value) → Size type v = UInt32.ofNat (bytes type v + lost type v)
  | .integer width,v => rfl
  | .array elem size,v => rfl
  | .string,s => by
      rw [Size,bytes,lost]
      split
      · rw [Nat.add_comm]
      · rfl
  | .vector elem,v => by
      have each := fun it (_ : it ∈ elems v) => size_eq elem it
      rw [Size,bytes,lost]
      exact (fold_sizes (elems v) 2 each).trans (by rw [sum_map_add,Nat.add_assoc])
  | .struct members,v => by
      rw [Size,bytes,lost]
      exact (members_size members v 0).trans (by rw [Nat.zero_add])
theorem members_size : (members : Members) → (v : members.Values) → (len : Nat) →
    sizeMembers members v (UInt32.ofNat len) = UInt32.ofNat (len + (allBytes members v + allLost members v))
  | .none,v,len => rfl
  | .member type rest,v,len => by
      rw [sizeMembers,size_eq type v.1,← UInt32.ofNat_add,members_size rest v.2,allBytes,allLost]
      congr 1
      omega
end

theorem widen (n : Nat) : (UInt16.ofNat n).toUInt32 = UInt32.ofNat (n % 65536) := by
  apply UInt32.toNat.inj
  rw [UInt16.toNat_toUInt32,UInt16.toNat_ofNat',UInt32.toNat_ofNat']
  omega

theorem fold_counts {step : List UInt8 → α → List UInt8 × UInt32} {g : α → Nat} (v : List α) (start : List UInt8) (n : Nat)
    (each : ∀ it ∈ v, ∀ buffer, (step buffer it).2 = UInt32.ofNat (g it)) :
    (v.foldl
      (fun state it =>
        let (grown,n) := step state.1 it
        (grown,state.2+n.toUInt16)) (start,UInt16.ofNat n)).2 = UInt16.ofNat (n + (v.map g).sum) := by
  induction v generalizing start n with
  | nil => rfl
  | cons it rest ih =>
      rw [List.foldl_cons]
      dsimp only
      rw [each it List.mem_cons_self start,UInt32.toUInt16_ofNat',← UInt16.ofNat_add,
        ih _ _ (fun other member => each other (List.mem_cons_of_mem _ member)),List.map_cons,List.sum_cons,Nat.add_assoc]

mutual
theorem counted_eq : (type : S11NType) → (v : type.Value) → (buffer : List UInt8) →
    (Serialize type v buffer).2 = UInt32.ofNat (counted type v)
  | .integer width,v,buffer => by rw [Serialize,counted]
  | .array elem size,v,buffer => by rw [Serialize,counted]
  | .string,s,buffer => by
      rw [Serialize,counted]
      dsimp only
      rw [widen]
      exact (UInt32.ofNat_add _ 2).symm
  | .vector elem,v,buffer => by
      have each := fun it (_ : it ∈ elems v) buffer => counted_eq elem it buffer
      rw [Serialize,counted]
      dsimp only
      exact (congrArg UInt16.toUInt32 (fold_counts (elems v) _ 2 each)).trans (widen _)
  | .struct members,v,buffer => by
      rw [Serialize,counted]
      exact (members_counted members v buffer 0).trans (by rw [Nat.zero_add])
theorem members_counted : (members : Members) → (v : members.Values) → (buffer : List UInt8) → (len : Nat) →
    (serializeMembers members v buffer (UInt32.ofNat len)).2 = UInt32.ofNat (len + allCounted members v)
  | .none,v,buffer,len => rfl
  | .member type rest,v,buffer,len => by
      rw [serializeMembers]
      dsimp only
      rw [counted_eq type v.1,← UInt32.ofNat_add,members_counted rest v.2,allCounted,Nat.add_assoc]
end

mutual
theorem bytes_eq : (type : S11NType) → (v : type.Value) → (buffer : List UInt8) →
    (Serialize type v buffer).1.length = buffer.length + bytes type v
  | .integer width,v,buffer => by rw [Serialize,bytes,List.length_append,toBytes_length]
  | .array elem size,v,buffer => by
      have length : (raw v).toList.length = elem*size := Vector.length_toList
      rw [Serialize,bytes,List.length_append,length]
  | .string,s,buffer => by
      have kept : (UInt16.ofNat (chars s).length).toNat = (chars s).length % 65536 := UInt16.toNat_ofNat'
      rw [Serialize,bytes]
      dsimp only
      by_cases zero : (chars s).length % 65536 = 0
      · rw [if_pos zero,if_neg (by rw [GT.gt,UInt16.lt_iff_toNat_lt,kept,zero]; decide),List.length_append,toBytes_length]
      · rw [if_neg zero,if_pos (by rw [GT.gt,UInt16.lt_iff_toNat_lt,kept]; exact Nat.pos_of_ne_zero zero),List.length_append,
          List.length_append,toBytes_length,Nat.add_assoc,Nat.add_comm 2]
  | .vector elem,v,buffer => by
      have each := fun it (_ : it ∈ elems v) buffer => serialize_appends elem it buffer
      have sizes : ∀ it, (Serialize elem it []).1.length = bytes elem it := fun it => (bytes_eq elem it []).trans (Nat.zero_add _)
      rw [Serialize,bytes]
      dsimp only
      rw [fold_appends _ _ each,List.length_append,List.length_append,toBytes_length,List.length_flatMap,Nat.add_assoc]
      simp only [sizes]
  | .struct members,v,buffer => by
      rw [Serialize,bytes]
      exact members_bytes members v buffer 0
theorem members_bytes : (members : Members) → (v : members.Values) → (buffer : List UInt8) → (len : UInt32) →
    (serializeMembers members v buffer len).1.length = buffer.length + allBytes members v
  | .none,v,buffer,len => rfl
  | .member type rest,v,buffer,len => by
      rw [serializeMembers,allBytes]
      dsimp only
      rw [members_bytes rest v.2,bytes_eq type v.1,Nat.add_assoc]
end

theorem sum_map_le {f g : α → Nat} (v : List α) (each : ∀ it ∈ v, f it ≤ g it) : (v.map f).sum ≤ (v.map g).sum := by
  induction v with
  | nil => exact Nat.le_refl _
  | cons it rest ih =>
      rw [List.map_cons,List.sum_cons,List.map_cons,List.sum_cons]
      exact Nat.add_le_add (each it List.mem_cons_self) (ih fun other member => each other (List.mem_cons_of_mem _ member))

theorem sum_map_eq {f g : α → Nat} (v : List α) (each : ∀ it ∈ v, f it ≤ g it) :
    (v.map f).sum = (v.map g).sum ↔ ∀ it ∈ v, f it = g it := by
  induction v with
  | nil => exact iff_of_true rfl (fun it member => absurd member List.not_mem_nil)
  | cons it rest ih =>
      obtain ⟨own,later⟩ := List.forall_mem_cons.mp each
      have below := sum_map_le rest later
      rw [List.map_cons,List.sum_cons,List.map_cons,List.sum_cons,List.forall_mem_cons,← ih later]
      omega

mutual
theorem counted_le : (type : S11NType) → (v : type.Value) → counted type v ≤ bytes type v
  | .integer width,v => Nat.le_refl _
  | .array elem size,v => Nat.le_refl _
  | .string,s => by
      rw [counted,bytes]
      split <;> omega
  | .vector elem,v => by
      have below := sum_map_le (elems v) (fun it _ => counted_le elem it)
      rw [counted,bytes]
      omega
  | .struct members,v => by
      rw [counted,bytes]
      exact members_counted_le members v
theorem members_counted_le : (members : Members) → (v : members.Values) → allCounted members v ≤ allBytes members v
  | .none,v => Nat.le_refl _
  | .member type rest,v => by
      rw [allCounted,allBytes]
      exact Nat.add_le_add (counted_le type v.1) (members_counted_le rest v.2)
end

mutual
theorem counted_iff : (type : S11NType) → (v : type.Value) → (counted type v = bytes type v ↔ Counts type v)
  | .integer width,v => iff_of_true rfl trivial
  | .array elem size,v => iff_of_true rfl trivial
  | .string,s => by
      rw [counted,bytes,Counts]
      split <;> omega
  | .vector elem,v => by
      have each := fun it (_ : it ∈ elems v) => counted_le elem it
      have below := sum_map_le (elems v) each
      have same := sum_map_eq (elems v) each
      have whole : (∀ it ∈ elems v, counted elem it = bytes elem it) ↔ ∀ it ∈ elems v, Counts elem it :=
        forall₂_congr fun it _ => counted_iff elem it
      rw [counted,bytes,Counts,← whole,← same]
      omega
  | .struct members,v => by
      rw [counted,bytes,Counts]
      exact members_counted_iff members v
theorem members_counted_iff : (members : Members) → (v : members.Values) → (allCounted members v = allBytes members v ↔ AllCount members v)
  | .none,v => iff_of_true rfl trivial
  | .member type rest,v => by
      have own := counted_le type v.1
      have later := members_counted_le rest v.2
      rw [allCounted,allBytes,AllCount,← counted_iff type v.1,← members_counted_iff rest v.2]
      omega
end

theorem split_bytes : (n : Nat) → (members : Members) → (v : members.Values) →
    allBytes members v = allBytes (front n members) (keep n members v) + allBytes (back n members) (drop n members v)
  | 0,_,_ => (Nat.zero_add _).symm
  | _+1,.none,_ => rfl
  | n+1,.member _ rest,v => by
      rw [allBytes,split_bytes n rest v.2,← Nat.add_assoc]
      rfl

-- When the three numbers agree: those of Size modulo 2^32, of Serialize modulo
-- 2^32 and of the bytes, `rest` of which Size leaves out.
theorem agree_iff {n c l rest : Nat} (below : c ≤ n + rest) :
    (n + rest = (n + l) % 2^32 ∧ UInt32.ofNat c = UInt32.ofNat (n + l)) ↔
      n + rest < 2^32 ∧ l % 2^32 = rest % 2^32 ∧ c = n + rest := by
  rw [← UInt32.toNat_inj,UInt32.toNat_ofNat',UInt32.toNat_ofNat']
  omega

-- Size is the number of bytes appended to the buffer and the value returned.
def Agrees (size : UInt32) (buffer : List UInt8) (out : List UInt8 × UInt32) : Prop :=
  out.1.length = buffer.length + size.toNat ∧ out.2 = size

theorem type_agrees (type : S11NType) (v : type.Value) (buffer : List UInt8) :
    Agrees (Size type v) buffer (Serialize type v buffer) ↔ bytes type v < 2^32 ∧ lost type v % 2^32 = 0 ∧ Counts type v := by
  have agree := agree_iff (l := lost type v) (show counted type v ≤ bytes type v + 0 from counted_le type v)
  rw [Nat.add_zero,Nat.zero_mod] at agree
  rw [Agrees,bytes_eq,counted_eq,size_eq,← counted_iff,UInt32.toNat_ofNat',Nat.add_left_cancel_iff,agree]

theorem message_agrees (m : Message) (v : m.members.Values) (buffer : List UInt8) :
    Agrees (m.Size v) buffer (m.Serialize v buffer) ↔ allBytes m.members v < 2^32 ∧
      allLost (front 11 m.members) (keep 11 m.members v) % 2^32 = allBytes (back 11 m.members) (drop 11 m.members v) % 2^32 ∧
        AllCount m.members v := by
  have below := members_counted_le m.members v
  have size : m.Size v = UInt32.ofNat (0 + _) := members_size (front 11 m.members) (keep 11 m.members v) 0
  have returned : (m.Serialize v buffer).2 = UInt32.ofNat (0 + _) := members_counted m.members v buffer 0
  have appended : (m.Serialize v buffer).1.length = _ := members_bytes m.members v buffer 0
  rw [split_bytes 11] at below
  rw [Agrees,appended,returned,size,← members_counted_iff,Nat.zero_add,Nat.zero_add,UInt32.toNat_ofNat',Nat.add_left_cancel_iff,
    split_bytes 11 m.members v,agree_iff below]

-- For the types the three numbers agree on exactly the values below 4 GiB that
-- leave out no characters of a string (up to a multiple of 4 GiB) and keep within the
-- 16-bit counts; for the messages what is left out has to make up for the twelfth
-- member as well.
theorem sizes_iff (type : S11NType) (v : type.Value) (m : Message) (w : m.members.Values) (buffer : List UInt8) :
    (Agrees (Size type v) buffer (Serialize type v buffer) ↔ bytes type v < 2^32 ∧ lost type v % 2^32 = 0 ∧ Counts type v) ∧
      (Agrees (m.Size w) buffer (m.Serialize w buffer) ↔ allBytes m.members w < 2^32 ∧
        allLost (front 11 m.members) (keep 11 m.members w) % 2^32 = allBytes (back 11 m.members) (drop 11 m.members w) % 2^32 ∧
          AllCount m.members w) :=
  ⟨type_agrees type v buffer,message_agrees m w buffer⟩

def copies (type : S11NType) : Nat → Members
  | 0 => .none
  | n+1 => .member type (copies type n)

def twelve : Message := ⟨copies (.integer 1) 12,by decide⟩

-- Twelve bytes are appended and returned, Size says eleven.
theorem twelfth_dropped : ¬Agrees (twelve.Size twelve.members.defaults) [] (twelve.Serialize twelve.members.defaults []) := by
  intro ⟨_,same⟩
  exact absurd same (by decide +kernel)

end GameServer.Common.Sizes
