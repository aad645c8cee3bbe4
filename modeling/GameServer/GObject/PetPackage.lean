import GameServer.Library.Tally

namespace GameServer.GObject

-- GData::ItemBaseType, as far as the pet package reads it.
structure ItemBaseType where
  subClass : UInt8
  reqLev : UInt16
  quality : UInt8
  maxQuantity : UInt16
  bindType : UInt8
  trumpExp : UInt32
  deriving DecidableEq, Repr

-- Game data that is loaded, and enumerators and functions that are declared
-- outside of the source.
structure GData where
  Item_Task : UInt8
  Item_Weapon : UInt8
  Item_InnateTrump : UInt8
  Item_Evolution : UInt8
  Item_Evolution3 : UInt8
  Item_PetGem : UInt8
  Item_PetEquip : UInt8
  IsZhenYuan : UInt8 → Bool
  IsLingShi : UInt8 → Bool
  LPETGEM_ID : UInt32
  RPETGEM_ID : UInt32
  itemBaseTypeManager : UInt32 → Option ItemBaseType
  GetItemSubClass : UInt32 → UInt8
  GetPetGemTypeIdByLev : UInt16 → UInt16
  getPetNDRed : UInt32 → UInt32
  getEquipMaxLev : UInt8
  getEquipExpData : UInt8 → Int → UInt32
  getEquipSkilLev : UInt8 → UInt8
  SKILL_ID : UInt32 → UInt32
  SKILLANDLEVEL : UInt32 → UInt8 → UInt32

-- Items 1000 to 2000 are pet gems that do not stack, those from 5000 on equips.
def GData.plain : GData where
  Item_Task := 250
  Item_Weapon := 200
  Item_InnateTrump := 210
  Item_Evolution := 220
  Item_Evolution3 := 222
  Item_PetGem := 1
  Item_PetEquip := 2
  IsZhenYuan _ := false
  IsLingShi _ := false
  LPETGEM_ID := 1000
  RPETGEM_ID := 2000
  itemBaseTypeManager id := if id < 1000 then none else some ⟨if id < 5000 then 1 else 2,1,5,1,0,10⟩
  GetItemSubClass id := if id < 1000 then 0 else if id < 5000 then 1 else 2
  GetPetGemTypeIdByLev _ := 1500
  getPetNDRed _ := 6000
  getEquipMaxLev := 10
  getEquipExpData lv _ := 100*(lv.toUInt32+1)
  getEquipSkilLev _ := 0
  SKILL_ID skill := skill/100
  SKILLANDLEVEL id lv := id*100+lv.toUInt32

def GData.IsEquip (g : GData) (subClass : UInt8) : Bool :=
  g.Item_Weapon ≤ subClass && subClass ≤ g.Item_InnateTrump || g.Item_Evolution ≤ subClass && subClass ≤ g.Item_Evolution3

def GData.IsPetItem (g : GData) (id : UInt32) : Bool := g.LPETGEM_ID ≤ id && id ≤ g.RPETGEM_ID

structure ItemBase where
  itemBaseType : ItemBaseType
  m_BindStatus : Bool
  m_TotalCount : UInt16
  deriving DecidableEq, Repr

namespace ItemBase

-- A new item after SetBindStatus.
def made (itemType : ItemBaseType) (bind : Bool) : ItemBase := ⟨itemType,bind,0⟩

def IncItem (item : ItemBase) (num : UInt16) : ItemBase := {item with m_TotalCount := item.m_TotalCount+num}

-- Size(num) adds num to the count it has; Size() is Size(0). `none`: a
-- division by maxQuantity 0.
def Size (item : ItemBase) (g : GData) (num : UInt16) : Option UInt16 :=
  if item.itemBaseType.subClass = g.Item_Task then some 0
  else if g.IsEquip item.itemBaseType.subClass then some 1
  else if item.itemBaseType.maxQuantity = 0 then none
  else some (UInt16.ofNat ((num.toNat+item.m_TotalCount.toNat+item.itemBaseType.maxQuantity.toNat-1)/item.itemBaseType.maxQuantity.toNat))

def Count (item : ItemBase) (g : GData) : UInt16 :=
  if g.IsEquip item.itemBaseType.subClass || g.IsZhenYuan item.itemBaseType.subClass || g.IsLingShi item.itemBaseType.subClass
  then 1 else item.m_TotalCount

end ItemBase

-- What ItemKey is made from: the key of a stack, and of an equip by its id.
structure ItemKey where
  id : UInt64
  bind : Bool
  deriving DecidableEq, Repr

-- The equips are a type with an id. A stack or an equip that is not there is
-- what the source has as NULL.
structure PetPackage (ε : Type _) where
  m_ItemSize : UInt16
  m_EquipSize : UInt16
  m_PetItems : AList fun _ : ItemKey => ItemBase
  m_PetEquips : AList fun _ : UInt64 => ε

namespace PetPackage
variable {ε : Type _}

def INIT_PETGEM_PACK_SIZE : UInt16 := 100
def INIT_PETARM_PACK_SIZE : UInt16 := 200

def empty : PetPackage ε := ⟨0,0,∅,∅⟩

def GetPetGemPgRestSize (p : PetPackage ε) : UInt16 :=
  if INIT_PETGEM_PACK_SIZE > p.m_ItemSize then INIT_PETGEM_PACK_SIZE-p.m_ItemSize else 0

def GetPetEqPgRestSize (p : PetPackage ε) : UInt16 :=
  if INIT_PETARM_PACK_SIZE > p.m_EquipSize then INIT_PETARM_PACK_SIZE-p.m_EquipSize else 0

section items
variable (g : GData)

def FindPetItem (p : PetPackage ε) (id : UInt32) (bind : Bool) : Option ItemBase := p.m_PetItems.lookup ⟨id.toUInt64,bind⟩

-- ITEM_BIND_CHECK
def bindCheck (bindType : UInt8) (bind : Bool) : Bool := bind || bindType == 1

-- `none`: the assertion on the id or the division in Size.
def AddItemFromDB (p : PetPackage ε) (id num : UInt32) (bind memory : Bool) : Option (Option ItemBase × PetPackage ε) :=
  if !g.IsPetItem id then none
  else
    match g.itemBaseTypeManager id,memory with
    | some itemType,true =>
      let bind := bindCheck itemType.bindType bind
      let item := ItemBase.made itemType bind
      (item.Size g 0).bind fun oldq => (item.Size g ((item.Count g).toUInt32+num).toUInt16).map fun newq =>
        let item := item.IncItem num.toUInt16
        (some item,{p with m_ItemSize := p.m_ItemSize+newq-oldq,m_PetItems := p.m_PetItems.insert ⟨id.toUInt64,bind⟩ item})
    | _,_ => some (none,p)

-- The item as it is left and m_ItemSize, or no room.
def TryAddPetItem (p : PetPackage ε) (item : ItemBase) (num : UInt16) : Option (Option (ItemBase × UInt16)) :=
  (item.Size g 0).bind fun oldq => (item.Size g (item.Count g+num)).map fun newq =>
    let cur := p.m_ItemSize-oldq+newq
    if cur > INIT_PETGEM_PACK_SIZE then none else some (item.IncItem num,cur)

-- The stack of the key, or a new one if there is memory for it.
def stackOf (p : PetPackage ε) (typeId : UInt32) (itemType : ItemBaseType) (bind memory : Bool) : Option ItemBase :=
  match p.FindPetItem typeId bind with
  | some item => some item
  | none => if memory then some (ItemBase.made itemType bind) else none

def AddPetItem (p : PetPackage ε) (typeId num : UInt32) (bind memory : Bool) : Option (Option ItemBase × PetPackage ε) :=
  if typeId = 0 ∨ num = 0 then some (none,p)
  else if !g.IsPetItem typeId then some (none,p)
  else
    match g.itemBaseTypeManager typeId with
    | none => some (none,p)
    | some itemType =>
      let bind := bindCheck itemType.bindType bind
      match p.stackOf typeId itemType bind memory with
      | none => some (none,p)
      | some item => (p.TryAddPetItem g item num.toUInt16).map fun
        | none => (none,p)
        | some (item,cur) => (some item,{p with m_ItemSize := cur,m_PetItems := p.m_PetItems.insert ⟨typeId.toUInt64,bind⟩ item})

end items

section equips
variable (getId : ε → UInt64)

-- ++m_EquipSize for a new key, and then the equip under its id.
def putEquip (p : PetPackage ε) (equip : ε) : PetPackage ε :=
  {p with
    m_EquipSize := if (p.m_PetEquips.lookup (getId equip)).isNone then p.m_EquipSize+1 else p.m_EquipSize
    m_PetEquips := p.m_PetEquips.insert (getId equip) equip}

def AddExistEquip (p : PetPackage ε) : Option ε → Option ε × PetPackage ε
  | none => (none,p)
  | some equip => (some equip,p.putEquip getId equip)

def AddPetEquip (p : PetPackage ε) : Option ε → Option ε × PetPackage ε
  | none => (none,p)
  | some equip => if p.GetPetEqPgRestSize < 1 then (none,p) else (some equip,p.putEquip getId equip)

-- --m_EquipSize
def takeEquip (p : PetPackage ε) (id : UInt64) : PetPackage ε :=
  {p with m_EquipSize := p.m_EquipSize-1,m_PetEquips := p.m_PetEquips.erase id}

def DelPetEquip (p : PetPackage ε) (id : UInt64) : Bool × PetPackage ε :=
  match p.m_PetEquips.lookup id with
  | none => (false,p)
  | some _ => (true,p.takeEquip id)

variable {getId}

@[simp] theorem lookup_put (p : PetPackage ε) (equip : ε) (id : UInt64) :
    (p.putEquip getId equip).m_PetEquips.lookup id = if id = getId equip then some equip else p.m_PetEquips.lookup id := by
  by_cases here : id = getId equip
  · subst here
    simp [putEquip]
  · simp [putEquip,here,AList.lookup_insert_ne here]

@[simp] theorem lookup_take (p : PetPackage ε) (id other : UInt64) :
    (p.takeEquip id).m_PetEquips.lookup other = if other = id then none else p.m_PetEquips.lookup other := by
  by_cases here : other = id
  · subst here
    simp [takeEquip]
  · simp [takeEquip,here,AList.lookup_erase_ne here]

theorem full_iff (p : PetPackage ε) : p.GetPetEqPgRestSize < 1 ↔ INIT_PETARM_PACK_SIZE ≤ p.m_EquipSize := by
  have most : INIT_PETARM_PACK_SIZE.toNat = 200 := rfl
  have one : (1 : UInt16).toNat = 1 := rfl
  unfold GetPetEqPgRestSize
  split
  · rename_i room
    rw [gt_iff_lt,UInt16.lt_iff_toNat_lt,most] at room
    rw [UInt16.lt_iff_toNat_lt,UInt16.le_iff_toNat_le,UInt16.toNat_sub,most,one]
    omega
  · rename_i full
    exact iff_of_true (by decide) (UInt16.not_lt.mp full)

end equips

end PetPackage

end GameServer.GObject
