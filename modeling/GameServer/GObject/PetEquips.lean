import GameServer.Library.History
import GameServer.GObject.PetPackage
import Mathlib.Logic.Function.Basic

namespace GameServer.GObject
open History PetPackage

variable {ε π : Type _}

-- The last slot of a pet. setEquip marks a refusal with 0xFF.
structure SlotLimit where
  PET_EQUIP_UPMAX : UInt8
  marked : PET_EQUIP_UPMAX < 0xFF

abbrev Slots (ε π : Type _) := π → UInt8 → Option ε

section model
variable [DecidableEq π]

def setSlot (slots : Slots ε π) (pet : π) (pos : UInt8) (equip : Option ε) : Slots ε π :=
  fun other place => if other = pet ∧ place = pos then equip else slots other place

theorem setSlot_again (slots : Slots ε π) (pet : π) (pos : UInt8) (a b : Option ε) :
    setSlot (setSlot slots pet pos a) pet pos b = setSlot slots pet pos b := by
  funext other place
  unfold setSlot
  split <;> rfl

theorem setSlot_same (slots : Slots ε π) (pet : π) (pos : UInt8) (bare : slots pet pos = none) : setSlot slots pet pos none = slots := by
  funext other place
  unfold setSlot
  split
  · rename_i here
    rw [here.1,here.2,bare]
  · rfl

-- FairyPet::setEquip takes the equip and gives back what was in the slot, or
-- sets pos to 0xFF.
def setEquip (slots : Slots ε π) (pet : π) (pos : UInt8) (equip : Option ε) (accepted : Bool) : Option ε × UInt8 × Slots ε π :=
  if accepted then (slots pet pos,pos,setSlot slots pet pos equip) else (none,0xFF,slots)

-- The bag and the pets. `alive` stands beside them for the statements: the
-- equips that were added and not deleted.
structure Wardrobe (ε π : Type _) where
  bag : PetPackage ε
  slots : Slots ε π
  alive : ε → Bool

namespace Wardrobe
variable (getId : ε → UInt64) (limit : SlotLimit)

def EquipTo (s : Wardrobe ε π) (id : UInt64) (pet : Option π) (pos : UInt8) (accepted : Bool) : Bool × Wardrobe ε π :=
  match pet with
  | none => (false,s)
  | some pet =>
    if pos > limit.PET_EQUIP_UPMAX then (false,s)
    else if id = 0 ∧ s.bag.GetPetEqPgRestSize < 1 then (false,s)
    else if id = 0 then
      let (old,_,slots) := setEquip s.slots pet pos none accepted
      match old with
      | none => (false,{s with slots := slots})
      | some old => (true,{s with bag := (s.bag.AddExistEquip getId (some old)).2,slots := slots})
    else
      match s.bag.m_PetEquips.lookup id with
      | none => (false,s)
      | some equip =>
        let (old,pos,slots) := setEquip s.slots pet pos (some equip) accepted
        if pos = 0xFF then (false,{s with slots := slots})
        else (true,{s with bag := ((s.bag.takeEquip id).AddExistEquip getId old).2,slots := slots})

end Wardrobe

inductive Outfit (ε π : Type _) where
  | AddPetEquip (equip : Option ε)
  | AddExistEquip (equip : Option ε)
  | DelPetEquip (id : UInt64)
  | EquipTo (id : UInt64) (pet : Option π) (pos : UInt8) (accepted : Bool)

variable [DecidableEq ε]

def raise (alive : ε → Bool) : Option ε → ε → Bool
  | none => alive
  | some equip => Function.update alive equip true

def lower (alive : ε → Bool) : Option ε → ε → Bool
  | none => alive
  | some equip => Function.update alive equip false

def outfitStep (getId : ε → UInt64) (limit : SlotLimit) (s : Wardrobe ε π) : Outfit ε π → Option (Bool × Wardrobe ε π)
  | .AddPetEquip equip =>
    let (added,bag) := s.bag.AddPetEquip getId equip
    some (added.isSome,{s with bag := bag,alive := raise s.alive added})
  | .AddExistEquip equip =>
    let (added,bag) := s.bag.AddExistEquip getId equip
    some (added.isSome,{s with bag := bag,alive := raise s.alive added})
  | .DelPetEquip id =>
    let (deleted,bag) := s.bag.DelPetEquip id
    some (deleted,{s with bag := bag,alive := lower s.alive (s.bag.m_PetEquips.lookup id)})
  | .EquipTo id pet pos accepted => some (s.EquipTo getId limit id pet pos accepted)

end model

-- An equip that lives is in the bag under its id or in one slot, never both.
structure Settled (getId : ε → UInt64) (bag : PetPackage ε) (slots : Slots ε π) (alive : ε → Bool) : Prop where
  keyed : ∀ id e, bag.m_PetEquips.lookup id = some e → getId e = id
  somewhere : ∀ e, alive e = true ↔ bag.m_PetEquips.lookup (getId e) = some e ∨ ∃ pet pos, slots pet pos = some e
  apart : ∀ e pet pos, slots pet pos = some e → bag.m_PetEquips.lookup (getId e) ≠ some e
  single : ∀ e pet pos other place, slots pet pos = some e → slots other place = some e → pet = other ∧ pos = place

structure Tallied (bag : PetPackage ε) : Prop where
  counted : bag.m_EquipSize.toNat = bag.m_PetEquips.keys.length
  bounded : bag.m_EquipSize ≤ INIT_PETARM_PACK_SIZE

structure Placed (getId : ε → UInt64) (s : Wardrobe ε π) : Prop where
  settled : Settled getId s.bag s.slots s.alive
  tallied : Tallied s.bag

-- The equip is not worn, and no other one in the bag has its id.
def Free (getId : ε → UInt64) (bag : PetPackage ε) (slots : Slots ε π) (e : ε) : Prop :=
  (∀ pet pos, slots pet pos ≠ some e) ∧ ∀ other, bag.m_PetEquips.lookup (getId e) = some other → other = e

-- An equip that is added is free, and AddExistEquip finds room for it. What
-- EquipTo takes off shares its id with nothing in the bag but what it puts on.
def Lawful (getId : ε → UInt64) (limit : SlotLimit) (s : Wardrobe ε π) : Outfit ε π → Prop
  | .AddPetEquip (some e) => INIT_PETARM_PACK_SIZE ≤ s.bag.m_EquipSize ∨ Free getId s.bag s.slots e
  | .AddExistEquip (some e) => Free getId s.bag s.slots e ∧
      (s.bag.m_EquipSize < INIT_PETARM_PACK_SIZE ∨ s.bag.m_PetEquips.lookup (getId e) = some e)
  | .EquipTo id (some pet) pos true => pos ≤ limit.PET_EQUIP_UPMAX →
      (if id = 0 then s.bag.m_EquipSize < INIT_PETARM_PACK_SIZE else s.bag.m_PetEquips.lookup id ≠ none) →
      ∀ old, s.slots pet pos = some old → s.bag.m_PetEquips.lookup (getId old) ≠ none → id ≠ 0 ∧ getId old = id
  | _ => True

variable {bag : PetPackage ε} {slots : Slots ε π} {alive : ε → Bool} {getId : ε → UInt64} {e : ε} {pet : π} {pos : UInt8}

theorem tallied_put (tallied : Tallied bag) (room : bag.m_EquipSize < INIT_PETARM_PACK_SIZE ∨ bag.m_PetEquips.lookup (getId e) ≠ none) :
    Tallied (bag.putEquip getId e) := by
  have most : INIT_PETARM_PACK_SIZE.toNat = 200 := rfl
  have counted := tallied.counted
  have bounded := UInt16.le_iff_toNat_le.mp tallied.bounded
  have one : (1 : UInt16).toNat = 1 := rfl
  by_cases new : bag.m_PetEquips.lookup (getId e) = none
  · have less := UInt16.lt_iff_toNat_lt.mp (room.resolve_right (fun known => known new))
    have absent : getId e ∉ bag.m_PetEquips.keys := AList.mem_keys.not.mp (AList.lookup_eq_none.mp new)
    constructor
    · simp only [putEquip,new,Option.isNone_none,if_true,AList.keys_insert,List.length_cons,List.erase_of_not_mem absent,UInt16.toNat_add,one]
      omega
    · simp only [putEquip,new,Option.isNone_none,if_true,UInt16.le_iff_toNat_le,UInt16.toNat_add,one]
      omega
  · have known : getId e ∈ bag.m_PetEquips.keys := by
      by_contra absent
      exact new (AList.lookup_eq_none.mpr (AList.mem_keys.not.mpr absent))
    have some := List.length_pos_of_mem known
    have old : (bag.m_PetEquips.lookup (getId e)).isNone = false := Option.isNone_eq_false_iff.mpr (Option.isSome_iff_ne_none.mpr new)
    constructor
    · simp only [putEquip,old,Bool.false_eq_true,if_false,AList.keys_insert,List.length_cons,List.length_erase_of_mem known]
      omega
    · simp only [putEquip,old,Bool.false_eq_true,if_false]
      exact tallied.bounded

theorem tallied_take {id : UInt64} (tallied : Tallied bag) (there : bag.m_PetEquips.lookup id = some e) :
    Tallied (bag.takeEquip id) ∧ (bag.takeEquip id).m_EquipSize < INIT_PETARM_PACK_SIZE := by
  have most : INIT_PETARM_PACK_SIZE.toNat = 200 := rfl
  have counted := tallied.counted
  have bounded := UInt16.le_iff_toNat_le.mp tallied.bounded
  have one : (1 : UInt16).toNat = 1 := rfl
  have known : id ∈ bag.m_PetEquips.keys := AList.mem_keys.mp (AList.lookup_isSome.mp (by rw [there]; rfl))
  have some := List.length_pos_of_mem known
  refine ⟨⟨?_,?_⟩,?_⟩
  · simp only [takeEquip,AList.keys_erase,List.length_erase_of_mem known,UInt16.toNat_sub,one]
    omega
  · simp only [takeEquip,UInt16.le_iff_toNat_le,UInt16.toNat_sub,one]
    omega
  · simp only [takeEquip,UInt16.lt_iff_toNat_lt,UInt16.toNat_sub,one]
    omega

theorem tallied_return {old : Option ε} (tallied : Tallied bag) (room : bag.m_EquipSize < INIT_PETARM_PACK_SIZE) :
    Tallied (bag.AddExistEquip getId old).2 := by
  cases old with
  | none => exact tallied
  | some x => exact tallied_put tallied (Or.inl room)

theorem out_of_dead (settled : Settled getId bag slots alive) (dead : alive e = false) :
    bag.m_PetEquips.lookup (getId e) ≠ some e ∧ ∀ pet pos, slots pet pos ≠ some e := by
  have nowhere := mt (settled.somewhere e).mpr (Bool.eq_false_iff.mp dead)
  exact ⟨fun inside => nowhere (Or.inl inside),fun pet pos worn => nowhere (Or.inr ⟨pet,pos,worn⟩)⟩

-- An empty bag and bare pets.
def Wardrobe.opening : Wardrobe ε π := ⟨PetPackage.empty,fun _ _ => none,fun _ => false⟩

theorem placed_opening (getId : ε → UInt64) : Placed getId (Wardrobe.opening : Wardrobe ε π) := by
  refine ⟨⟨?_,?_,?_,?_⟩,⟨rfl,UInt16.le_iff_toNat_le.mpr (Nat.zero_le _)⟩⟩
  · intro id e there
    cases there
  · intro e
    simp [Wardrobe.opening,PetPackage.empty]
  · intro e pet pos worn
    cases worn
  · intro e pet pos other place worn
    cases worn

section moves
variable [DecidableEq π]

-- What EquipTo can do: nothing, where the law asks nothing, or one of the two moves.
inductive Changed (getId : ε → UInt64) (limit : SlotLimit) (s : Wardrobe ε π) :
    UInt64 → Option π → UInt8 → Bool → Wardrobe ε π → Prop where
  | kept (id : UInt64) (pet : Option π) (pos : UInt8) (accepted : Bool) (lawful : Lawful getId limit s (.EquipTo id pet pos accepted)) :
      Changed getId limit s id pet pos accepted s
  | off (pet : π) (pos : UInt8) (old : ε) (inside : pos ≤ limit.PET_EQUIP_UPMAX) (room : s.bag.m_EquipSize < INIT_PETARM_PACK_SIZE)
      (worn : s.slots pet pos = some old) :
      Changed getId limit s 0 (some pet) pos true
        {s with bag := (s.bag.AddExistEquip getId (some old)).2,slots := setSlot s.slots pet pos none}
  | on (id : UInt64) (pet : π) (pos : UInt8) (equip : ε) (inside : pos ≤ limit.PET_EQUIP_UPMAX) (nonzero : id ≠ 0)
      (there : s.bag.m_PetEquips.lookup id = some equip) :
      Changed getId limit s id (some pet) pos true
        {s with
          bag := ((s.bag.takeEquip id).AddExistEquip getId (s.slots pet pos)).2
          slots := setSlot s.slots pet pos (some equip)}

theorem equipTo_changed (getId : ε → UInt64) (limit : SlotLimit) (s : Wardrobe ε π) (id : UInt64) (pet : Option π) (pos : UInt8) (accepted : Bool) :
    Changed getId limit s id pet pos accepted (s.EquipTo getId limit id pet pos accepted).2 := by
  cases pet with
  | none => exact .kept _ _ _ _ (by simp [Lawful])
  | some pet =>
      unfold Wardrobe.EquipTo
      dsimp only
      by_cases outside : pos > limit.PET_EQUIP_UPMAX
      · rw [if_pos outside]
        refine .kept _ _ _ _ ?_
        cases accepted with
        | false => trivial
        | true => exact fun inside => absurd outside (UInt8.not_lt.mpr inside)
      rw [if_neg outside]
      have inside := UInt8.not_lt.mp outside
      by_cases zero : id = 0
      · subst zero
        by_cases full : s.bag.GetPetEqPgRestSize < 1
        · rw [if_pos ⟨rfl,full⟩]
          refine .kept _ _ _ _ ?_
          cases accepted with
          | false => trivial
          | true =>
              intro _ room
              rw [if_pos rfl] at room
              exact absurd room (UInt16.not_lt.mpr ((full_iff s.bag).mp full))
        rw [if_neg (fun both => full both.2),if_pos rfl]
        have room := UInt16.not_le.mp (mt (full_iff s.bag).mpr full)
        cases accepted with
        | false => exact .kept _ _ _ _ trivial
        | true =>
            cases off : s.slots pet pos with
            | none =>
                simp only [setEquip,if_true,off,setSlot_same s.slots pet pos off]
                refine .kept _ _ _ _ ?_
                intro _ _ old worn
                cases off.symm.trans worn
            | some old =>
                simp only [setEquip,if_true,off]
                exact .off pet pos old inside room off
      · rw [if_neg (fun both => zero both.1),if_neg zero]
        cases there : s.bag.m_PetEquips.lookup id with
        | none =>
            refine .kept _ _ _ _ ?_
            cases accepted with
            | false => trivial
            | true =>
                intro _ known
                rw [if_neg zero] at known
                exact absurd there known
        | some equip =>
            cases accepted with
            | false => exact .kept _ _ _ _ trivial
            | true =>
                have unmarked : pos ≠ 0xFF := by
                  intro mark
                  have less := UInt8.lt_of_le_of_lt inside limit.marked
                  rw [mark] at less
                  exact absurd less (by decide)
                simp only [setEquip,if_true,unmarked,if_false]
                exact .on id pet pos equip inside zero there

-- An equip in the bag is lost when what was taken off comes under its id.
theorem not_lost {s : Wardrobe ε π} {old other : ε} {equip : Option ε} (placed : Placed getId s) (worn : s.slots pet pos = some old)
    (there : s.bag.m_PetEquips.lookup (getId old) = some other) (apart : equip ≠ some other)
    (after : Settled getId bag (setSlot s.slots pet pos equip) s.alive) (gone : bag.m_PetEquips.lookup (getId old) = some old) : False := by
  have own := placed.settled.keyed _ other there
  have lived := (placed.settled.somewhere other).mpr (Or.inl (own ▸ there))
  rcases (after.somewhere other).mp lived with inside | ⟨one,place,dressed⟩
  · rw [own,gone] at inside
    cases inside
    exact placed.settled.apart old pet pos worn there
  · unfold setSlot at dressed
    split at dressed
    · exact apart dressed
    · exact placed.settled.apart other one place dressed (own ▸ there)

end moves

variable [DecidableEq ε]

theorem settled_put (settled : Settled getId bag slots alive) (free : Free getId bag slots e) :
    Settled getId (bag.putEquip getId e) slots (Function.update alive e true) := by
  have foreign : ∀ x, x ≠ e → ((bag.putEquip getId e).m_PetEquips.lookup (getId x) = some x ↔ bag.m_PetEquips.lookup (getId x) = some x) := by
    intro x other
    rw [lookup_put]
    split
    · rename_i same
      refine iff_of_false (fun equal => other (Option.some.inj equal).symm) ?_
      intro there
      exact other (free.2 x (same ▸ there))
    · exact Iff.rfl
  refine ⟨?_,?_,?_,settled.single⟩
  · intro id x there
    rw [lookup_put] at there
    split at there
    · cases there
      exact Eq.symm (by assumption)
    · exact settled.keyed id x there
  · intro x
    by_cases self : x = e
    · subst self
      simp
    · rw [Function.update_of_ne self,settled.somewhere x,foreign x self]
  · intro x pet pos worn
    have other : x ≠ e := fun self => free.1 pet pos (self ▸ worn)
    rw [ne_eq,foreign x other]
    exact settled.apart x pet pos worn

theorem settled_take {id : UInt64} (settled : Settled getId bag slots alive) (there : bag.m_PetEquips.lookup id = some e) :
    Settled getId (bag.takeEquip id) slots (Function.update alive e false) := by
  have own := settled.keyed id e there
  have foreign : ∀ x, x ≠ e → ((bag.takeEquip id).m_PetEquips.lookup (getId x) = some x ↔ bag.m_PetEquips.lookup (getId x) = some x) := by
    intro x other
    rw [lookup_take]
    split
    · rename_i same
      refine iff_of_false (by simp) ?_
      intro inside
      rw [same,there] at inside
      exact other (Option.some.inj inside).symm
    · exact Iff.rfl
  refine ⟨?_,?_,?_,settled.single⟩
  · intro k x inside
    rw [lookup_take] at inside
    split at inside
    · cases inside
    · exact settled.keyed k x inside
  · intro x
    by_cases self : x = e
    · subst self
      rw [Function.update_self]
      refine iff_of_false (by decide) ?_
      rintro (inside | ⟨pet,pos,worn⟩)
      · simp [own] at inside
      · exact settled.apart x pet pos worn (own.symm ▸ there)
    · rw [Function.update_of_ne self,settled.somewhere x,foreign x self]
  · intro x pet pos worn
    have other : x ≠ e := by
      intro self
      subst self
      exact settled.apart x pet pos worn (own.symm ▸ there)
    rw [ne_eq,foreign x other]
    exact settled.apart x pet pos worn

-- What was taken off goes into the bag, alive as it was.
theorem settled_return {old : Option ε} (settled : Settled getId bag slots (lower alive old))
    (lived : ∀ x, old = some x → alive x = true) (room : ∀ x, old = some x → bag.m_PetEquips.lookup (getId x) = none) :
    Settled getId (bag.AddExistEquip getId old).2 slots alive := by
  cases old with
  | none => exact settled
  | some x =>
      have dead : lower alive (some x) x = false := Function.update_self ..
      have back := settled_put settled ⟨(out_of_dead settled dead).2,by rw [room x rfl]; simp⟩
      have same : Function.update (lower alive (some x)) x true = alive := by
        rw [lower,Function.update_idem,← lived x rfl,Function.update_eq_self]
      rwa [same] at back

-- An equip that is added is alive and in the bag afterwards.
theorem free_of_settled (settled : Settled getId bag slots alive) (after : Settled getId (bag.putEquip getId e) slots (Function.update alive e true)) :
    Free getId bag slots e := by
  constructor
  · intro pet pos worn
    exact after.apart e pet pos worn (by simp)
  · intro other there
    by_contra apart
    have own := settled.keyed _ other there
    have lived := (settled.somewhere other).mpr (Or.inl (own ▸ there))
    have kept := (after.somewhere other).mp ((Function.update_of_ne apart ..).trans lived)
    rcases kept with inside | ⟨pet,pos,worn⟩
    · rw [lookup_put,if_pos own] at inside
      exact apart (Option.some.inj inside).symm
    · exact settled.apart other pet pos worn (own ▸ there)

variable [DecidableEq π]

theorem settled_strip (settled : Settled getId bag slots alive) (pet : π) (pos : UInt8) :
    Settled getId bag (setSlot slots pet pos none) (lower alive (slots pet pos)) := by
  have left : ∀ other place x, setSlot slots pet pos none other place = some x → slots other place = some x := by
    intro other place x worn
    unfold setSlot at worn
    split at worn
    · cases worn
    · exact worn
  refine ⟨settled.keyed,?_,fun x other place worn => settled.apart x other place (left other place x worn),
    fun x one place two spot first second => settled.single x one place two spot (left one place x first) (left two spot x second)⟩
  intro x
  by_cases self : slots pet pos = some x
  · rw [self,lower,Function.update_self]
    refine iff_of_false (by decide) ?_
    rintro (inside | ⟨other,place,worn⟩)
    · exact settled.apart x pet pos self inside
    · obtain ⟨same,spot⟩ := settled.single x pet pos other place self (left other place x worn)
      subst same
      subst spot
      simp [setSlot] at worn
  · have kept : lower alive (slots pet pos) x = alive x := by
      cases off : slots pet pos with
      | none => rfl
      | some old => exact Function.update_of_ne (fun equal : x = old => self (by rw [off,equal])) ..
    rw [kept,settled.somewhere x]
    refine or_congr Iff.rfl ⟨?_,fun ⟨other,place,worn⟩ => ⟨other,place,left other place x worn⟩⟩
    intro ⟨other,place,worn⟩
    refine ⟨other,place,?_⟩
    unfold setSlot
    rw [if_neg]
    · exact worn
    · intro ⟨same,spot⟩
      subst same
      subst spot
      exact self worn

theorem settled_dress (settled : Settled getId bag slots alive) (pet : π) (pos : UInt8) (e : ε) (bare : slots pet pos = none) (dead : alive e = false) :
    Settled getId bag (setSlot slots pet pos (some e)) (Function.update alive e true) := by
  obtain ⟨outside,unworn⟩ := out_of_dead settled dead
  have old : ∀ other place x, x ≠ e → (setSlot slots pet pos (some e) other place = some x ↔ slots other place = some x) := by
    intro other place x apart
    unfold setSlot
    split
    · rename_i here
      refine iff_of_false (fun equal => apart (Option.some.inj equal).symm) ?_
      rw [here.1,here.2,bare]
      simp
    · exact Iff.rfl
  have here : ∀ other place, setSlot slots pet pos (some e) other place = some e → other = pet ∧ place = pos := by
    intro other place worn
    unfold setSlot at worn
    split at worn
    · assumption
    · exact absurd worn (unworn other place)
  refine ⟨settled.keyed,?_,?_,?_⟩
  · intro x
    by_cases self : x = e
    · subst self
      rw [Function.update_self]
      exact iff_of_true rfl (Or.inr ⟨pet,pos,by simp [setSlot]⟩)
    · simp only [Function.update_of_ne self,settled.somewhere x,old _ _ x self]
  · intro x other place worn
    by_cases self : x = e
    · subst self
      exact outside
    · exact settled.apart x other place ((old other place x self).mp worn)
  · intro x one place two spot first second
    by_cases self : x = e
    · subst self
      obtain ⟨a,b⟩ := here one place first
      obtain ⟨c,d⟩ := here two spot second
      exact ⟨a.trans c.symm,b.trans d.symm⟩
    · exact settled.single x one place two spot ((old one place x self).mp first) ((old two spot x self).mp second)

-- Taking off: the slot is emptied and its equip goes into the bag.
theorem settled_off {s : Wardrobe ε π} (placed : Placed getId s) (worn : s.slots pet pos = some e)
    (room : s.bag.m_PetEquips.lookup (getId e) = none) :
    Settled getId (s.bag.AddExistEquip getId (some e)).2 (setSlot s.slots pet pos none) s.alive := by
  have stripped := settled_strip placed.settled pet pos
  rw [worn] at stripped
  apply settled_return stripped
  · intro x same
    cases same
    exact (placed.settled.somewhere e).mpr (Or.inr ⟨pet,pos,worn⟩)
  · intro x same
    cases same
    exact room

-- Wearing: the equip leaves the bag for the slot, and what was in there goes
-- into the bag.
theorem settled_on {s : Wardrobe ε π} {id : UInt64} (placed : Placed getId s) (there : s.bag.m_PetEquips.lookup id = some e)
    (room : ∀ old, s.slots pet pos = some old → s.bag.m_PetEquips.lookup (getId old) ≠ none → getId old = id) :
    Settled getId ((s.bag.takeEquip id).AddExistEquip getId (s.slots pet pos)).2 (setSlot s.slots pet pos (some e)) s.alive := by
  have own := placed.settled.keyed id e there
  have stripped := settled_strip placed.settled pet pos
  have taken := settled_take stripped there
  have dressed := settled_dress taken pet pos e (by simp [setSlot]) (Function.update_self ..)
  have apart : s.slots pet pos ≠ some e := fun worn => placed.settled.apart e pet pos worn (own.symm ▸ there)
  have alive : lower s.alive (s.slots pet pos) e = true := by
    have lived := (placed.settled.somewhere e).mpr (Or.inl (own.symm ▸ there))
    cases off : s.slots pet pos with
    | none => exact lived
    | some old => exact (Function.update_of_ne (fun same : e = old => apart (by rw [off,same])) ..).trans lived
  have same : Function.update (Function.update (lower s.alive (s.slots pet pos)) e false) e true = lower s.alive (s.slots pet pos) := by
    rw [Function.update_idem,← alive,Function.update_eq_self]
  rw [same,setSlot_again] at dressed
  apply settled_return dressed
  · intro old worn
    exact (placed.settled.somewhere old).mpr (Or.inr ⟨pet,pos,worn⟩)
  · intro old worn
    rw [lookup_take]
    split
    · rfl
    · rename_i other
      by_contra inside
      exact other (room old worn inside)

theorem lawful_step (limit : SlotLimit) {s : Wardrobe ε π} {outfit : Outfit ε π} (placed : Placed getId s) (lawful : Lawful getId limit s outfit) :
    ∃ answer next, outfitStep getId limit s outfit = some (answer,next) ∧ Placed getId next := by
  cases outfit with
  | AddPetEquip equip =>
      refine ⟨_,_,rfl,?_⟩
      cases equip with
      | none => exact placed
      | some e =>
          dsimp only
          split
          · exact placed
          · rename_i room
            rw [full_iff] at room
            exact ⟨settled_put placed.settled (lawful.resolve_left room),tallied_put placed.tallied (Or.inl (UInt16.not_le.mp room))⟩
  | AddExistEquip equip =>
      refine ⟨_,_,rfl,?_⟩
      cases equip with
      | none => exact placed
      | some e =>
          obtain ⟨free,room⟩ := lawful
          exact ⟨settled_put placed.settled free,tallied_put placed.tallied (room.imp_right fun known => by simp [known])⟩
  | DelPetEquip id =>
      refine ⟨_,_,rfl,?_⟩
      cases there : s.bag.m_PetEquips.lookup id with
      | none => exact placed
      | some e => exact ⟨settled_take placed.settled there,(tallied_take placed.tallied there).1⟩
  | EquipTo id pet pos accepted =>
      have changed := equipTo_changed getId limit s id pet pos accepted
      rcases result : s.EquipTo getId limit id pet pos accepted with ⟨answer,next⟩
      rw [result] at changed
      refine ⟨answer,next,by rw [outfitStep,result],?_⟩
      cases changed with
      | kept _ _ _ _ _ => exact placed
      | off pet pos old inside room worn =>
          refine ⟨settled_off placed worn ?_,tallied_return placed.tallied room⟩
          by_contra known
          exact (lawful inside (by simpa using room) old worn known).1 rfl
      | on id pet pos equip inside nonzero there =>
          have off := tallied_take placed.tallied there
          refine ⟨settled_on placed there ?_,tallied_return off.1 off.2⟩
          intro old worn known
          exact (lawful inside (by simp [nonzero,there]) old worn known).2

theorem step_lawful (limit : SlotLimit) {s next : Wardrobe ε π} {outfit : Outfit ε π} (placed : Placed getId s)
    (moved : outfitStep getId limit s outfit = some (answer,next)) (after : Placed getId next) : Lawful getId limit s outfit := by
  cases outfit with
  | AddPetEquip equip =>
      cases equip with
      | none => trivial
      | some e =>
          by_cases full : s.bag.GetPetEqPgRestSize < 1
          · exact Or.inl ((full_iff s.bag).mp full)
          · simp only [outfitStep,PetPackage.AddPetEquip,full,if_false] at moved
            cases moved
            exact Or.inr (free_of_settled placed.settled after.settled)
  | AddExistEquip equip =>
      cases equip with
      | none => trivial
      | some e =>
          cases moved
          have free := free_of_settled placed.settled after.settled
          refine ⟨free,?_⟩
          cases there : s.bag.m_PetEquips.lookup (getId e) with
          | some other => exact Or.inr (congrArg some (free.2 other there))
          | none =>
              have bounded := after.tallied.bounded
              simp only [putEquip,there,Option.isNone_none,if_true] at bounded
              have most : INIT_PETARM_PACK_SIZE.toNat = 200 := rfl
              have one : (1 : UInt16).toNat = 1 := rfl
              have before := UInt16.le_iff_toNat_le.mp placed.tallied.bounded
              rw [UInt16.le_iff_toNat_le,UInt16.toNat_add,one] at bounded
              exact Or.inl (UInt16.lt_iff_toNat_lt.mpr (by omega))
  | DelPetEquip id => trivial
  | EquipTo id pet pos accepted =>
      have changed := equipTo_changed getId limit s id pet pos accepted
      rw [outfitStep] at moved
      rw [congrArg Prod.snd (Option.some.inj moved)] at changed
      cases changed with
      | kept _ _ _ _ lawful => exact lawful
      | off pet pos old inside room worn =>
          intro _ _ x same known
          cases worn.symm.trans same
          obtain ⟨other,there⟩ := Option.ne_none_iff_exists'.mp known
          exact (not_lost placed worn there (by simp) after.settled (by simp [PetPackage.AddExistEquip])).elim
      | on id pet pos equip inside nonzero there =>
          intro _ _ old worn known
          refine ⟨nonzero,?_⟩
          by_contra different
          obtain ⟨other,found⟩ := Option.ne_none_iff_exists'.mp known
          have apart : some equip ≠ some other := by
            intro same
            cases same
            exact different ((placed.settled.keyed _ _ found).symm.trans (placed.settled.keyed _ _ there))
          exact not_lost placed worn found apart after.settled (by simp [worn,PetPackage.AddExistEquip])

theorem equips_placed_iff (getId : ε → UInt64) (limit : SlotLimit) (history : List (Outfit ε π)) :
    Along (outfitStep getId limit) (fun _ _ _ next => Placed getId next) Wardrobe.opening history ↔
      Guarded (outfitStep getId limit) (Lawful getId limit) Wardrobe.opening history := by
  apply along_iff_guarded (placed_opening getId)
  · intro s outfit placed lawful
    obtain ⟨answer,next,moved,after⟩ := lawful_step limit placed lawful
    exact ⟨answer,next,moved,after,after⟩
  · intro s outfit answer next placed moved after
    exact step_lawful limit placed moved after

theorem crowd {s : Wardrobe UInt64 Unit} (limit : SlotLimit) (placed : Placed id s) (ids : List UInt64) (distinct : ids.Nodup)
    (new : ∀ i ∈ ids, s.bag.m_PetEquips.lookup i = none)
    (along : Along (outfitStep id limit) (fun _ _ _ next => Placed id next) s (ids.map fun i => .AddExistEquip (some i))) :
    s.bag.m_PetEquips.keys.length+ids.length ≤ 200 := by
  induction ids generalizing s with
  | nil =>
      have counted := placed.tallied.counted
      have bounded := UInt16.le_iff_toNat_le.mp placed.tallied.bounded
      have most : INIT_PETARM_PACK_SIZE.toNat = 200 := rfl
      rw [List.length_nil]
      omega
  | cons i rest ih =>
      obtain ⟨_,next,moved,after,later⟩ := along
      cases moved
      obtain ⟨other,distinct⟩ := List.nodup_cons.mp distinct
      have absent : i ∉ s.bag.m_PetEquips.keys := AList.mem_keys.not.mp (AList.lookup_eq_none.mp (new i List.mem_cons_self))
      have more := ih after distinct (by
        intro j member
        have apart : j ≠ i := fun same => other (same ▸ member)
        simp [apart,new j (List.mem_cons_of_mem _ member)]) later
      simp only [putEquip,id_eq,AList.keys_insert,List.length_cons,List.erase_of_not_mem absent] at more ⊢
      omega

theorem crowd_opening (ids : List UInt64) (distinct : ids.Nodup) (many : 200 < ids.length) :
    ¬ Along (outfitStep id ⟨4,by decide⟩) (fun _ _ _ next => Placed id next) (Wardrobe.opening : Wardrobe UInt64 Unit)
      (ids.map fun i => .AddExistEquip (some i)) := by
  intro along
  have few := crowd ⟨4,by decide⟩ (placed_opening id) ids distinct (fun _ _ => rfl) along
  omega

-- 201 equips are loaded.
theorem bag_overfull : ¬ Along (outfitStep id ⟨4,by decide⟩) (fun _ _ _ next => Placed id next)
    (Wardrobe.opening : Wardrobe UInt64 Unit) (((List.range 201).map UInt64.ofNat).map fun i => .AddExistEquip (some i)) := by
  apply crowd_opening
  · apply List.Nodup.map_on _ List.nodup_range
    intro i small j small' same
    have numbers := congrArg UInt64.toNat same
    rw [UInt64.toNat_ofNat',UInt64.toNat_ofNat'] at numbers
    have bound := List.mem_range.mp small
    have bound' := List.mem_range.mp small'
    omega
  · simp

end GameServer.GObject
