import GameServer.Common.Stream

namespace GameServer.GObject.ItemData
open Common Bytes

-- How an appendAttrToStream stops: the stream's vector throws, or an element is
-- read that its array does not have.
inductive Fault where
  | tooLong
  | outOfRange
  deriving DecidableEq

def read (array : Vector α n) (i : Nat) : Except Fault α :=
  match array[i]? with
  | some a => .ok a
  | none => .error .outOfRange

def write (st : Stream) (bytes : List UInt8) : Except Fault Stream :=
  match st.append bytes with
  | some st => .ok st
  | none => .error .tooLong

-- st << a << b << ..., each with its width.
def puts (st : Stream) (fields : List (Nat × Nat)) : Except Fault Stream :=
  fields.foldlM (fun st f => write st (toBytes f.1 f.2)) st

-- st.data<UInt8>(offset) = v: behind the end it is a static that takes the value.
def patch (st : Stream) (offset : Nat) (v : UInt8) : Stream :=
  if wrap64 (offset+1) > st.size then st else {st with _buf := st._buf.set offset v}

-- A round of the loops over pairs type[i], value[i]: one with a type goes to the
-- stream and is counted.
def putPair (width : Nat) (type : Vector (BitVec (8*width)) n) (value : Vector (BitVec 16) n) (state : Stream × UInt8) (i : Nat) :
    Except Fault (Stream × UInt8) := do
  let t ← read type i
  if t ≠ 0 then
    let v ← read value i
    let st ← puts state.1 [(width,t.toNat),(2,v.toNat)]
    return (st,state.2+1)
  else return state

def putPairs (width bound : Nat) (type : Vector (BitVec (8*width)) n) (value : Vector (BitVec 16) n) (st : Stream) :
    Except Fault (Stream × UInt8) :=
  (List.range bound).foldlM (putPair width type value) (st,0)

structure ItemEquipAttr2 where
  type1 : BitVec 8
  type2 : BitVec 8
  type3 : BitVec 8
  value1 : BitVec 16
  value2 : BitVec 16
  value3 : BitVec 16

namespace ItemEquipAttr2

def getCount (a : ItemEquipAttr2) : UInt8 :=
  if a.type1 ≠ 0 then
    if a.type2 ≠ 0 then
      if a.type3 ≠ 0 then 3 else 2
    else 1
  else 0

def appendAttrToStream (a : ItemEquipAttr2) (st : Stream) : Except Fault Stream :=
  if a.type1 ≠ 0 then
    if a.type2 ≠ 0 then
      if a.type3 ≠ 0 then
        puts st [(1,3),(1,a.type1.toNat),(2,a.value1.toNat),(1,a.type2.toNat),(2,a.value2.toNat),(1,a.type3.toNat),(2,a.value3.toNat)]
      else puts st [(1,2),(1,a.type1.toNat),(2,a.value1.toNat),(1,a.type2.toNat),(2,a.value2.toNat)]
    else puts st [(1,1),(1,a.type1.toNat),(2,a.value1.toNat)]
  else puts st [(1,0)]

end ItemEquipAttr2

structure ItemLingbaoAttr where
  tongling : BitVec 8
  lbColor : BitVec 8
  type : Vector (BitVec 8) 4
  value : Vector (BitVec 16) 4
  skill : Vector (BitVec 16) 2
  factor : Vector (BitVec 16) 2

namespace ItemLingbaoAttr

-- The skills behind the attributes, the first in front if there is one.
def putSkills (a : ItemLingbaoAttr) (st : Stream) : Except Fault Stream := do
  if (← read a.skill 0) ≠ 0 then
    puts st [(2,(← read a.skill 0).toNat),(2,(← read a.factor 0).toNat),(2,(← read a.skill 1).toNat),(2,(← read a.skill 2).toNat)]
  else
    puts st [(2,(← read a.skill 1).toNat),(2,(← read a.factor 1).toNat),(2,(← read a.skill 0).toNat),(2,(← read a.factor 0).toNat)]

def appendAttrToStream (a : ItemLingbaoAttr) (st : Stream) : Except Fault Stream :=
  if a.tongling = 0 then puts st [(1,0),(1,a.lbColor.toNat),(1,0),(2,0),(2,0),(2,0),(2,0)]
  else do
    let st ← puts st [(1,a.tongling.toNat),(1,a.lbColor.toNat)]
    let offset := st.size
    let st ← puts st [(1,0)]
    let (st,cnt) ← putPairs 1 4 a.type a.value st
    a.putSkills (patch st offset cnt)

end ItemLingbaoAttr

structure ItemPetAttr where
  lv : BitVec 8
  exp : BitVec 32
  skill : BitVec 32
  gems : Vector (BitVec 16) 4

namespace ItemPetAttr

def putGem (gems : Vector (BitVec 16) 4) (state : Stream × UInt8) (z : Nat) : Except Fault (Stream × UInt8) := do
  let gem ← read gems z
  if gem > 0 then
    let st ← puts state.1 [(2,gem.toNat)]
    return (st,state.2 ||| (1 <<< UInt8.ofNat z))
  else return state

def appendAttrToStream (a : ItemPetAttr) (st : Stream) : Except Fault Stream := do
  let st ← puts st [(4,a.skill.toNat),(1,a.lv.toNat),(4,a.exp.toNat)]
  let pos := st.size
  let st ← puts st [(1,0)]
  let (st,count) ← (List.range 4).foldlM (putGem a.gems) (st,0)
  return patch st pos count

end ItemPetAttr

structure ItemZhenyuanAttr where
  type : Vector (BitVec 8) 4
  value : Vector (BitVec 16) 4
  typeExtra : Vector (BitVec 16) 2
  valueExtra : Vector (BitVec 16) 2

namespace ItemZhenyuanAttr

def appendAttrToStream (a : ItemZhenyuanAttr) (st : Stream) : Except Fault Stream := do
  let offset := st.size
  let st ← puts st [(1,0)]
  let (st,cnt1) ← putPairs 1 4 a.type a.value st
  let (st,cnt2) ← putPairs 2 2 a.typeExtra a.valueExtra st
  return patch st offset ((cnt2 <<< 4) ||| cnt1)

end ItemZhenyuanAttr

end GameServer.GObject.ItemData
