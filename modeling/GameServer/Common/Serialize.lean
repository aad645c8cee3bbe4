import GameServer.Library.Bytes

namespace GameServer.Common
open Bytes

-- The types that have S11NTraits: the integers by their width in bytes, an
-- Array<Type,Size> by sizeof(Type) and Size, and an S11N_TRAITS_n struct by its
-- members in order.
mutual
inductive S11NType where
  | integer (width : Nat)
  | array (elem size : Nat)
  | string
  | vector (elem : S11NType)
  | struct (members : Members)
inductive Members where
  | none
  | member (type : S11NType) (rest : Members)
end

mutual
def S11NType.Value : S11NType → Type
  | .integer width => BitVec (8*width)
  | .array elem size => Vector UInt8 (elem*size)
  | .string => List UInt8
  | .vector elem => List elem.Value
  | .struct members => members.Values
def Members.Values : Members → Type
  | .none => Unit
  | .member type rest => type.Value × rest.Values
end

abbrev raw {elem size : Nat} (v : (S11NType.array elem size).Value) : Vector UInt8 (elem*size) := v
abbrev chars (str : S11NType.string.Value) : List UInt8 := str
abbrev elems {elem : S11NType} (v : (S11NType.vector elem).Value) : List elem.Value := v

-- A value-initialised instance, as resize() puts it into a vector.
mutual
def S11NType.default : (type : S11NType) → type.Value
  | .integer width => 0#(8*width)
  | .array elem size => Vector.replicate (elem*size) 0
  | .string => []
  | .vector _ => []
  | .struct members => members.defaults
def Members.defaults : (members : Members) → members.Values
  | .none => ()
  | .member type rest => (type.default,rest.defaults)
end

-- static_cast<UInt32>(-1)
def failed : UInt32 := -1

mutual
-- The grown buffer and the returned count. A vector counts its bytes in the
-- UInt16 that held its size.
def Serialize : (type : S11NType) → type.Value → List UInt8 → List UInt8 × UInt32
  | .integer width,v,buffer => (buffer ++ toBytes width v.toNat,UInt32.ofNat width)
  | .array elem size,v,buffer => (buffer ++ (raw v).toList,UInt32.ofNat (elem*size))
  | .string,str,buffer =>
    let l := UInt16.ofNat (chars str).length
    let headed := buffer ++ toBytes 2 l.toNat
    (if l > 0 then headed ++ chars str else headed,l.toUInt32+2)
  | .vector elem,v,buffer =>
    let l := UInt16.ofNat (elems v).length
    let (filled,count) := (elems v).foldl
      (fun state it =>
        let (grown,n) := Serialize elem it state.1
        (grown,state.2+n.toUInt16))
      (buffer ++ toBytes 2 l.toNat,(2 : UInt16))
    (filled,count.toUInt32)
  | .struct members,v,buffer => serializeMembers members v buffer 0
def serializeMembers : (members : Members) → members.Values → List UInt8 → UInt32 → List UInt8 × UInt32
  | .none,_,buffer,len => (buffer,len)
  | .member type rest,v,buffer,len =>
    let (grown,n) := Serialize type v.1 buffer
    serializeMembers rest v.2 grown (len+n)
end

theorem fold_appends {step : List UInt8 → α → List UInt8 × UInt32} {enc : α → List UInt8} (v : List α)
    (start : List UInt8 × UInt16) (each : ∀ it ∈ v, ∀ buffer, (step buffer it).1 = buffer ++ enc it) :
    (v.foldl
      (fun state it =>
        let (grown,n) := step state.1 it
        (grown,state.2+n.toUInt16)) start).1 = start.1 ++ v.flatMap enc := by
  induction v generalizing start with
  | nil => simp
  | cons it rest ih =>
      have first := each it List.mem_cons_self start.1
      rw [List.foldl_cons,ih _ (fun other member => each other (List.mem_cons_of_mem _ member))]
      dsimp only
      rw [first,List.flatMap_cons,List.append_assoc]

mutual
-- Whatever the value, its bytes go behind those of the buffer.
theorem serialize_appends : (type : S11NType) → (v : type.Value) → (buffer : List UInt8) →
    (Serialize type v buffer).1 = buffer ++ (Serialize type v []).1
  | .integer width,v,buffer => by simp [Serialize]
  | .array elem size,v,buffer => by simp [Serialize]
  | .string,str,buffer => by
      rw [Serialize,Serialize]
      dsimp only
      split <;> simp
  | .vector elem,v,buffer => by
      have each := fun it (_ : it ∈ elems v) buffer => serialize_appends elem it buffer
      rw [Serialize,Serialize]
      dsimp only
      rw [fold_appends _ _ each,fold_appends _ _ each,List.nil_append,List.append_assoc]
  | .struct members,v,buffer => by
      rw [Serialize,Serialize]
      exact members_append members v buffer 0 0
theorem members_append : (members : Members) → (v : members.Values) → (buffer : List UInt8) → (len len' : UInt32) →
    (serializeMembers members v buffer len).1 = buffer ++ (serializeMembers members v [] len').1
  | .none,v,buffer,len,len' => by simp [serializeMembers]
  | .member type rest,v,buffer,len,len' => by
      rw [serializeMembers,serializeMembers]
      dsimp only
      rw [members_append rest v.2 (Serialize type v.1 buffer).1 _ 0,
        members_append rest v.2 (Serialize type v.1 []).1 _ 0,serialize_appends type v.1 buffer,List.append_assoc]
end

-- What Unserialize leaves in the instance and returns, with every memcpy from
-- the buffer (address, length) and every nested call (buffer, size).
structure Outcome (α : Type) where
  value : α
  result : UInt32
  reads : List (Nat × Nat)
  calls : List (Nat × UInt32)

def resize (default : α) (v : List α) (n : Nat) : List α := v.take n ++ List.replicate (n-v.length) default

-- The loop over the elements of a vector: those decoded so far, those to come.
def unserializeElems (decode : α → Nat → UInt32 → Outcome α) (buffer : Nat) (size : UInt32) :
    List α → List α → UInt32 → Outcome (List α)
  | done,[],consumeSize => ⟨done,consumeSize,[],[]⟩
  | done,elem :: rest,consumeSize =>
    let call := (buffer+consumeSize.toNat,size-consumeSize)
    let out := decode elem call.1 call.2
    if out.result = failed then ⟨[],failed,out.reads,call :: out.calls⟩
    else
      let later := unserializeElems decode buffer size (done ++ [out.value]) rest (consumeSize+out.result)
      {later with reads := out.reads ++ later.reads,calls := call :: (out.calls ++ later.calls)}

variable (memory : Nat → UInt8)

mutual
def Unserialize : (type : S11NType) → type.Value → Nat → UInt32 → Outcome type.Value
  | .integer width,v,buffer,size =>
    if width > size.toNat then ⟨v,failed,[],[]⟩
    else ⟨BitVec.ofNat (8*width) (ofBytes (window memory buffer width)),UInt32.ofNat width,[(buffer,width)],[]⟩
  -- the test counts elements, the copy counts bytes
  | .array elem n,v,buffer,size =>
    if n > size.toNat then ⟨v,failed,[],[]⟩
    else ⟨Vector.ofFn fun i => memory (buffer+i),UInt32.ofNat (elem*n),[(buffer,elem*n)],[]⟩
  | .string,str,buffer,size =>
    if size < 2 then ⟨str,failed,[],[]⟩
    else
      let l := ofBytes (window memory buffer 2)
      if size.toNat < l+2 then ⟨str,failed,[(buffer,2)],[]⟩
      else ⟨window memory (buffer+2) l,UInt32.ofNat (2+l),(buffer,2) :: (if l > 0 then [(buffer+2,l)] else []),[]⟩
  | .vector elem,v,buffer,size =>
    if size < 2 then ⟨v,failed,[],[]⟩
    else
      let l := ofBytes (window memory buffer 2)
      if l > 1024 then ⟨v,failed,[(buffer,2)],[]⟩
      else
        let out := unserializeElems (fun it address left => Unserialize elem it address left) buffer size [] (resize elem.default (elems v) l) 2
        {out with reads := (buffer,2) :: out.reads}
  | .struct members,v,buffer,size => unserializeMembers members v buffer size 0
def unserializeMembers : (members : Members) → members.Values → Nat → UInt32 → UInt32 → Outcome members.Values
  | .none,v,_,_,len => ⟨v,len,[],[]⟩
  | .member type rest,v,buffer,size,len =>
    let call := (buffer+len.toNat,size-len)
    let out := Unserialize type v.1 call.1 call.2
    if out.result = failed then ⟨(out.value,v.2),failed,out.reads,call :: out.calls⟩
    else
      let later := unserializeMembers rest v.2 buffer size (len+out.result)
      ⟨(out.value,later.value),later.result,out.reads ++ later.reads,call :: (out.calls ++ later.calls)⟩
end

end GameServer.Common
