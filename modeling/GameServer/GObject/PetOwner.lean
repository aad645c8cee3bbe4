import GameServer.GObject.PetPackage
import Mathlib.Data.Fintype.Basic

namespace GameServer.GObject
open PetPackage

structure ItemPetEqAttr where
  lv : UInt8
  exp : UInt32
  skill : UInt32
  gems : Fin 4 → UInt16
  deriving DecidableEq

structure ItemPetEq where
  id : UInt64
  itemBaseType : ItemBaseType
  m_BindStatus : Bool
  m_peAttr : ItemPetEqAttr
  deriving DecidableEq

def ItemPetEq.DoEquipBind (equip : ItemPetEq) (checkType : Bool) : ItemPetEq :=
  if !equip.m_BindStatus && (!checkType || equip.itemBaseType.bindType > 0) then {equip with m_BindStatus := true} else equip

abbrev FairyPet := UInt8 → Option ItemPetEq

-- FairyPet::findEquip gives the slot of the equip with an id.
structure PetSearch where
  findEquip : FairyPet → UInt64 → Option UInt8
  found : ∀ pet id pos, findEquip pet id = some pos → ∃ equip, pet pos = some equip ∧ equip.id = id

-- A search that looks at slot 0.
def PetSearch.plain : PetSearch where
  findEquip pet id := (pet 0).bind fun equip => if equip.id = id then some 0 else none
  found := by
    intro pet id pos found
    obtain ⟨equip,worn,same⟩ := Option.bind_eq_some_iff.mp found
    split at same
    · cases same
      exact ⟨equip,worn,by assumption⟩
    · cases same

-- What a player has of pets: his package and the pets with what they wear.
structure PetOwner where
  package : PetPackage ItemPetEq
  pets : UInt16 → Option FairyPet

-- Where an equip is that a call works on.
inductive Spot where
  | bag (id : UInt64)
  | worn (petId : UInt16) (pos : UInt8)
  deriving DecidableEq, Repr

namespace PetOwner

def equipAt (o : PetOwner) : Spot → Option ItemPetEq
  | .bag id => o.package.m_PetEquips.lookup id
  | .worn petId pos => (o.pets petId).bind fun pet => pet pos

-- Writes through the pointer to an equip.
def write (o : PetOwner) (equip : ItemPetEq) : Spot → PetOwner
  | .bag id => {o with package := {o.package with m_PetEquips := o.package.m_PetEquips.insert id equip}}
  | .worn petId pos => {o with pets := fun other => if other = petId then (o.pets other).map fun pet place => if place = pos then some equip else pet place
                                                    else o.pets other}

def DelPetEquip (o : PetOwner) (id : UInt64) : PetOwner := {o with package := (o.package.DelPetEquip id).2}

-- Every equip of the bag is under its id.
def Keyed (o : PetOwner) : Prop := ∀ id equip, o.equipAt (.bag id) = some equip → equip.id = id

-- FindPetEquip(id) takes 32 bits of the id, and FindPetEquip(pet, petId, pos,
-- id) hands it the petId.
def FindBagEquip (o : PetOwner) (id : UInt32) : Option Spot := (o.package.m_PetEquips.lookup id.toUInt64).map fun _ => .bag id.toUInt64

def FindPetEquip (o : PetOwner) (search : PetSearch) (petId : UInt16) (id : UInt64) : Option Spot :=
  if petId = 0 then o.FindBagEquip petId.toUInt32
  else (o.pets petId).bind fun pet => (search.findEquip pet id).map fun pos => .worn petId pos

theorem find_there (o : PetOwner) (search : PetSearch) (petId : UInt16) (id : UInt64) (found : o.FindPetEquip search petId id = some spot) :
    ∃ equip, o.equipAt spot = some equip ∧ (spot = .bag 0 ∧ petId = 0 ∨ ∃ pos, spot = .worn petId pos ∧ petId ≠ 0) := by
  unfold FindPetEquip FindBagEquip at found
  split at found
  · rename_i zero
    subst zero
    obtain ⟨equip,there,same⟩ := Option.map_eq_some_iff.mp found
    subst same
    exact ⟨equip,there,Or.inl ⟨rfl,rfl⟩⟩
  · rename_i other
    obtain ⟨pet,owned,worn⟩ := Option.bind_eq_some_iff.mp found
    obtain ⟨pos,placed,same⟩ := Option.map_eq_some_iff.mp worn
    subst same
    obtain ⟨equip,there,_⟩ := search.found pet id pos placed
    exact ⟨equip,by simp [equipAt,owned,there],Or.inr ⟨pos,rfl,other⟩⟩

theorem equipAt_write (o : PetOwner) (equip : ItemPetEq) {spot : Spot} (there : o.equipAt spot = some old) (other : Spot) :
    (o.write equip spot).equipAt other = if other = spot then some equip else o.equipAt other := by
  cases spot with
  | bag id =>
      cases other with
      | bag k =>
          by_cases same : k = id
          · subst same
            simp [write,equipAt]
          · simp [write,equipAt,same,AList.lookup_insert_ne same]
      | worn petId pos => simp [write,equipAt]
  | worn petId pos =>
      obtain ⟨pet,owned,_⟩ := Option.bind_eq_some_iff.mp there
      cases other with
      | bag k => simp [write,equipAt]
      | worn one place =>
          by_cases same : one = petId
          · subst same
            by_cases spot : place = pos <;> simp [write,equipAt,owned,spot]
          · simp [write,equipAt,same]

theorem equipAt_del (o : PetOwner) (id : UInt64) (other : Spot) :
    (o.DelPetEquip id).equipAt other = if other = .bag id then none else o.equipAt other := by
  unfold DelPetEquip PetPackage.DelPetEquip
  obtain absent | ⟨equip,there⟩ := Option.eq_none_or_eq_some (o.package.m_PetEquips.lookup id)
  · rw [absent]
    by_cases here : other = .bag id
    · subst here
      simpa [equipAt] using absent
    · rw [if_neg here]
  · rw [there]
    cases other with
    | bag k => simp [equipAt]
    | worn petId pos => simp [equipAt]

end PetOwner

-- An owner whose bag has every equip under its id.
structure Collector extends PetOwner where
  keyed : toPetOwner.Keyed

end GameServer.GObject
