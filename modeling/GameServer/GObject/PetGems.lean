import GameServer.GObject.PetOwner

namespace GameServer.GObject
open PetPackage

-- PetPackage::TryDelPetItem refuses or says what m_ItemSize is afterwards. It
-- takes nothing that is not there.
structure Deletion where
  TryDelPetItem : UInt16 → ItemBase → UInt16 → Option UInt16
  enough : ∀ size item num left, TryDelPetItem size item num = some left → num ≤ item.m_TotalCount

def ItemBase.DecItem (item : ItemBase) (num : UInt16) : ItemBase := {item with m_TotalCount := item.m_TotalCount-num}

namespace PetPackage
variable {ε : Type _} (g : GData) (del : Deletion)

def DelPetItem (p : PetPackage ε) (id : UInt64) (num : UInt16) (bind : Bool) : Bool × PetPackage ε :=
  if num = 0 ∨ !g.IsPetItem id.toUInt32 then (false,p)
  else
    match p.FindPetItem id.toUInt32 bind with
    | none => (false,p)
    | some item =>
      match del.TryDelPetItem p.m_ItemSize item num with
      | none => (false,p)
      | some size =>
        let item := item.DecItem num
        if item.Count g = 0 then (true,{p with m_ItemSize := size,m_PetItems := p.m_PetItems.erase ⟨id,bind⟩})
        else (true,{p with m_ItemSize := size,m_PetItems := p.m_PetItems.insert ⟨id.toUInt32.toUInt64,bind⟩ item})

-- The first stack of a merge when every check before the product is passed.
def mergeItem (p : PetPackage ε) (gemId1 gemId2 : UInt16) : Option ItemBase :=
  if g.GetItemSubClass gemId1.toUInt32 ≠ g.Item_PetGem ∨ g.GetItemSubClass gemId2.toUInt32 ≠ g.Item_PetGem then none
  else if p.GetPetGemPgRestSize < 1 then none
  else
    match p.FindPetItem gemId1.toUInt32 true,p.FindPetItem gemId2.toUInt32 true with
    | some item1,some item2 =>
      if gemId1 = gemId2 ∧ item1.Count g < 2 then none
      else if item1.itemBaseType.reqLev ≠ item2.itemBaseType.reqLev then none
      else if item1.itemBaseType.quality ≠ item2.itemBaseType.quality then none
      else if item1.itemBaseType.reqLev ≥ 20 ∧ item1.itemBaseType.quality ≥ 5 then none
      else some item1
    | _,_ => none

-- `rnd` is uRand(10000), drawn for unequal gems only.
def product (gemId1 gemId2 reqLev : UInt16) (rnd : UInt32) : UInt16 :=
  if gemId1 = gemId2 then gemId1+1
  else if rnd < 4000 then gemId1+1
  else if rnd < 8000 then gemId2+1
  else g.GetPetGemTypeIdByLev reqLev

def dropGems (p : PetPackage ε) (gemId1 gemId2 : UInt16) : PetPackage ε :=
  if gemId1 = gemId2 then (p.DelPetItem g del gemId1.toUInt64 2 true).2
  else ((p.DelPetItem g del gemId1.toUInt64 1 true).2.DelPetItem g del gemId2.toUInt64 1 true).2

def MergePetGem (p : PetPackage ε) (gemId1 gemId2 ogid : UInt16) (rnd : UInt32) (memory : Bool) :
    Option (UInt8 × UInt16 × PetPackage ε) :=
  match p.mergeItem g gemId1 gemId2 with
  | none => some (0,ogid,p)
  | some item1 =>
    let ogid := product g gemId1 gemId2 item1.itemBaseType.reqLev rnd
    if g.GetItemSubClass ogid.toUInt32 ≠ g.Item_PetGem then some (0,ogid,p)
    else ((p.dropGems g del gemId1 gemId2).AddPetItem g ogid.toUInt32 1 true memory).map fun (_,p) => (1,ogid,p)

end PetPackage

-- `none`: gemPos 4 or 5, behind the last of the four sockets.
def PetOwner.DetachPetGem (g : GData) (search : PetSearch) (o : PetOwner) (petId : UInt32) (equipId : UInt64) (gemPos : UInt8)
    (memory : Bool) : Option (UInt8 × PetOwner) :=
  if gemPos > 5 then some (0,o)
  else if o.package.GetPetGemPgRestSize < 1 then some (0,o)
  else
    match o.FindPetEquip search petId.toUInt16 equipId with
    | none => some (0,o)
    | some spot =>
      (o.equipAt spot).bind fun equip =>
        if inside : gemPos.toNat < 4 then
          let oldGem := equip.m_peAttr.gems ⟨gemPos.toNat,inside⟩
          if oldGem = 0 then some (0,o)
          else
            let equip := {equip with m_peAttr := {equip.m_peAttr with gems := Function.update equip.m_peAttr.gems ⟨gemPos.toNat,inside⟩ 0}}
            let o := o.write equip spot
            (o.package.AddPetItem g oldGem.toUInt32 1 true memory).map fun (_,package) =>
              (1,{o with package := package}.write (equip.DoEquipBind true) spot)
        else none

-- How many items of a key the package holds.
def held {ε : Type _} (p : PetPackage ε) (key : ItemKey) : Nat := (p.m_PetItems.lookup key).elim 0 fun item => item.m_TotalCount.toNat

def gemKey (gemId : UInt16) : ItemKey := ⟨gemId.toUInt64,true⟩

def one (here : Prop) [Decidable here] : Nat := if here then 1 else 0

section statements
variable {ε : Type _} (g : GData) (del : Deletion) (search : PetSearch)

-- 1: the two gems left and the product came. 0: nothing happened.
def Conserves (p : PetPackage ε) (gemId1 gemId2 : UInt16) : Option (UInt8 × UInt16 × PetPackage ε) → Prop
  | none => False
  | some (result,ogid,next) => result = 0 ∧ next = p ∨
      result = 1 ∧ next.m_PetEquips = p.m_PetEquips ∧ ∀ key, held next key+one (key = gemKey gemId1)+one (key = gemKey gemId2) =
        held p key+one (key = gemKey ogid)

-- 1: the gem of the socket came into the package. 0: nothing happened.
def Moves (o : PetOwner) (petId : UInt32) (equipId : UInt64) (gemPos : UInt8) : Option (UInt8 × PetOwner) → Prop
  | none => False
  | some (result,next) => result = 0 ∧ next = o ∨
      result = 1 ∧ ∃ spot equip worn, ∃ inside : gemPos.toNat < 4,
        o.FindPetEquip search petId.toUInt16 equipId = some spot ∧ o.equipAt spot = some equip ∧ next.equipAt spot = some worn ∧
        worn.m_peAttr = {equip.m_peAttr with gems := Function.update equip.m_peAttr.gems ⟨gemPos.toNat,inside⟩ 0} ∧
        (∀ other ≠ spot, next.equipAt other = o.equipAt other) ∧
        ∀ key, held next.package key = held o.package key+one (key = gemKey (equip.m_peAttr.gems ⟨gemPos.toNat,inside⟩))

-- Whether the package would give the gems, and take one: `none` is a division
-- by maxQuantity 0.
def gives (p : PetPackage ε) (gemId num : UInt16) : Bool :=
  g.IsPetItem gemId.toUInt32 && ((p.FindPetItem gemId.toUInt32 true).bind fun item => del.TryDelPetItem p.m_ItemSize item num).isSome

def takes (p : PetPackage ε) (gemId : UInt16) (memory : Bool) : Option Bool :=
  if gemId = 0 ∨ !g.IsPetItem gemId.toUInt32 then some false
  else
    match g.itemBaseTypeManager gemId.toUInt32 with
    | none => some false
    | some itemType =>
      match p.stackOf gemId.toUInt32 itemType true memory with
      | none => some false
      | some item => (item.Size g 0).bind fun oldq => (item.Size g (item.Count g+1)).map fun newq =>
          decide (p.m_ItemSize-oldq+newq ≤ INIT_PETGEM_PACK_SIZE)

-- The product is taken and its stack does not run over, or it is refused.
def Accepts (p : PetPackage ε) (gemId : UInt16) (memory accepted : Bool) : Prop :=
  takes g p gemId memory = some accepted ∧ (accepted = true → held p (gemKey gemId) < 2^16-1)

-- Both gems are given and the product is taken. A product that is one of the
-- two gems may as well be kept back together with that gem.
def Settles (p : PetPackage ε) (gemId1 gemId2 ogid : UInt16) (memory : Bool) : Prop :=
  if gemId1 = gemId2 then gives g del p gemId1 2 = true ∧ Accepts g (p.dropGems g del gemId1 gemId2) ogid memory true
  else
    let given1 := gives g del p gemId1 1
    let given2 := gives g del (p.DelPetItem g del gemId1.toUInt64 1 true).2 gemId2 1
    ∃ accepted, Accepts g (p.dropGems g del gemId1 gemId2) ogid memory accepted ∧
      (if ogid = gemId1 then given2 = true ∧ given1 = accepted
       else if ogid = gemId2 then given1 = true ∧ given2 = accepted
       else given1 = true ∧ given2 = true ∧ accepted = true)

def Mergeable (p : PetPackage ε) (gemId1 gemId2 : UInt16) (rnd : UInt32) (memory : Bool) : Prop :=
  ∀ item1, p.mergeItem g gemId1 gemId2 = some item1 →
    let ogid := product g gemId1 gemId2 item1.itemBaseType.reqLev rnd
    g.GetItemSubClass ogid.toUInt32 = g.Item_PetGem → Settles g del p gemId1 gemId2 ogid memory

def Detachable (o : PetOwner) (petId : UInt32) (equipId : UInt64) (gemPos : UInt8) (memory : Bool) : Prop :=
  gemPos ≤ 5 → ¬ o.package.GetPetGemPgRestSize < 1 → ∀ spot equip, o.FindPetEquip search petId.toUInt16 equipId = some spot →
    o.equipAt spot = some equip → ∃ inside : gemPos.toNat < 4, equip.m_peAttr.gems ⟨gemPos.toNat,inside⟩ ≠ 0 →
      Accepts g o.package (equip.m_peAttr.gems ⟨gemPos.toNat,inside⟩) memory true

end statements

variable {ε : Type _} {g : GData} {del : Deletion} {search : PetSearch} {p : PetPackage ε}

theorem gemKey_inj : gemKey a = gemKey b ↔ a = b := by
  simp only [gemKey,ItemKey.mk.injEq,and_true]
  exact ⟨fun same => UInt16.toNat_inj.mp (by simpa using congrArg UInt64.toNat same),fun same => same ▸ rfl⟩

theorem held_insert (p : PetPackage ε) (size : UInt16) (item : ItemBase) (key other : ItemKey) :
    held {p with m_ItemSize := size,m_PetItems := p.m_PetItems.insert key item} other =
      if other = key then item.m_TotalCount.toNat else held p other := by
  by_cases here : other = key
  · subst here
    simp [held]
  · simp [held,here,AList.lookup_insert_ne here]

theorem held_erase (p : PetPackage ε) (size : UInt16) (key other : ItemKey) :
    held {p with m_ItemSize := size,m_PetItems := p.m_PetItems.erase key} other = if other = key then 0 else held p other := by
  by_cases here : other = key
  · subst here
    simp [held]
  · simp [held,here,AList.lookup_erase_ne here]

theorem held_lt (p : PetPackage ε) (key : ItemKey) : held p key < 2^16 := by
  unfold held
  cases p.m_PetItems.lookup key with
  | none => exact Nat.pow_pos (by decide)
  | some item => exact item.m_TotalCount.toNat_lt

theorem gem_narrow (gemId : UInt16) : gemId.toUInt64.toUInt32 = gemId.toUInt32 := by simp

theorem key_wide (gemId : UInt16) : (⟨gemId.toUInt32.toUInt64,true⟩ : ItemKey) = gemKey gemId := by simp [gemKey]

theorem find_gem (p : PetPackage ε) (gemId : UInt16) : p.FindPetItem gemId.toUInt32 true = p.m_PetItems.lookup (gemKey gemId) :=
  congrArg (fun key => (p.m_PetItems.lookup key : Option ItemBase)) (key_wide gemId)

-- A deletion does nothing or takes its number from the stack of the gem.
theorem del_cases (g : GData) (del : Deletion) (p : PetPackage ε) (gemId num : UInt16) (positive : num ≠ 0) :
    (gives g del p gemId num = false ∧ (p.DelPetItem g del gemId.toUInt64 num true).2 = p) ∨
    ∃ item size, gives g del p gemId num = true ∧ p.m_PetItems.lookup (gemKey gemId) = some item ∧ num ≤ item.m_TotalCount ∧
      (p.DelPetItem g del gemId.toUInt64 num true).2 = {p with
        m_ItemSize := size
        m_PetItems := if (item.DecItem num).Count g = 0 then p.m_PetItems.erase (gemKey gemId)
                      else p.m_PetItems.insert (gemKey gemId) (item.DecItem num)} := by
  unfold DelPetItem gives
  by_cases pet : g.IsPetItem gemId.toUInt32 = true
  · obtain absent | ⟨item,there⟩ := Option.eq_none_or_eq_some (p.m_PetItems.lookup (gemKey gemId))
    · apply Or.inl
      simp [positive,pet,find_gem,absent]
    · obtain refused | ⟨size,left⟩ := Option.eq_none_or_eq_some (del.TryDelPetItem p.m_ItemSize item num)
      · apply Or.inl
        simp [positive,pet,find_gem,there,refused]
      · refine Or.inr ⟨item,size,?_,there,del.enough _ _ _ _ left,?_⟩
        · simp [pet,find_gem,there,left]
        · simp only [gem_narrow,positive,pet,find_gem,there,left,key_wide,Bool.not_true,Bool.false_eq_true,or_self,↓reduceIte]
          split <;> rfl
  · apply Or.inl
    simp [pet]

theorem zero_of_count {item : ItemBase} (zero : item.Count g = 0) : item.m_TotalCount = 0 := by
  unfold ItemBase.Count at zero
  split at zero
  · cases zero
  · exact zero

-- What is given is gone from the stack of the gem, and from no other.
theorem del_balance (g : GData) (del : Deletion) (p : PetPackage ε) (gemId num : UInt16) (positive : num ≠ 0) :
    (p.DelPetItem g del gemId.toUInt64 num true).2.m_PetEquips = p.m_PetEquips ∧
    ∀ key, held (p.DelPetItem g del gemId.toUInt64 num true).2 key+(if gives g del p gemId num = true ∧ key = gemKey gemId then num.toNat else 0) =
      held p key := by
  obtain ⟨refused,same⟩ | ⟨item,size,given,there,enough,next⟩ := del_cases g del p gemId num positive
  · simp [refused,same]
  · have had : held p (gemKey gemId) = item.m_TotalCount.toNat := by simp [held,there]
    have rest : (item.DecItem num).m_TotalCount.toNat+num.toNat = item.m_TotalCount.toNat := by
      have less := UInt16.le_iff_toNat_le.mp enough
      rw [ItemBase.DecItem,UInt16.toNat_sub_of_le _ _ enough]
      omega
    rw [next]
    refine ⟨rfl,?_⟩
    intro key
    by_cases here : key = gemKey gemId
    · subst here
      simp only [given,and_self,↓reduceIte,had,← rest]
      split
      · rename_i empty
        rw [held_erase,if_pos rfl,zero_of_count empty,UInt16.toNat_zero]
      · rw [held_insert,if_pos rfl]
    · simp only [here,and_false,↓reduceIte,Nat.add_zero]
      split
      · rw [held_erase,if_neg here]
      · rw [held_insert,if_neg here]

theorem grown (item : ItemBase) : (item.IncItem 1).m_TotalCount.toNat = (item.m_TotalCount.toNat+1)%2^16 := UInt16.toNat_add _ _

theorem held_stack (there : p.stackOf gemId.toUInt32 itemType true memory = some item) : held p (gemKey gemId) = item.m_TotalCount.toNat := by
  unfold stackOf at there
  rw [find_gem] at there
  split at there
  · rename_i old found
    cases there
    simp [held,found]
  · rename_i absent
    split at there
    · cases there
      simp [held,absent,ItemBase.made]
    · cases there

-- One more on the stack of the gem if it is accepted.
structure Took (p : PetPackage ε) (gemId : UInt16) (accepted : Bool) (next : PetPackage ε) : Prop where
  refused : accepted = false → next = p
  equips : next.m_PetEquips = p.m_PetEquips
  counts : ∀ key, held next key = if accepted = true ∧ key = gemKey gemId then (held p key+1)%2^16 else held p key

theorem took_nothing (p : PetPackage ε) (gemId : UInt16) : Took p gemId false p := ⟨fun _ => rfl,rfl,fun key => by simp⟩

theorem took_one {item : ItemBase} (size : UInt16) (had : held p (gemKey gemId) = item.m_TotalCount.toNat) :
    Took p gemId true {p with m_ItemSize := size,m_PetItems := p.m_PetItems.insert (gemKey gemId) (item.IncItem 1)} := by
  refine ⟨by simp,rfl,?_⟩
  intro key
  rw [held_insert,grown,← had]
  by_cases here : key = gemKey gemId
  · subst here
    simp
  · simp [here]

theorem add_cases (p : PetPackage ε) (gemId : UInt16) (memory : Bool) :
    (takes g p gemId memory = none ∧ p.AddPetItem g gemId.toUInt32 1 true memory = none) ∨
    ∃ accepted answer next, takes g p gemId memory = some accepted ∧ p.AddPetItem g gemId.toUInt32 1 true memory = some (answer,next) ∧
      Took p gemId accepted next := by
  have zero : gemId.toUInt32 = 0 ↔ gemId = 0 :=
    ⟨fun same => UInt16.toNat_inj.mp (by simpa using congrArg UInt32.toNat same),fun same => same ▸ rfl⟩
  have refused : takes g p gemId memory = some false → p.AddPetItem g gemId.toUInt32 1 true memory = some (none,p) →
      ∃ accepted answer next, takes g p gemId memory = some accepted ∧ p.AddPetItem g gemId.toUInt32 1 true memory = some (answer,next) ∧
        Took p gemId accepted next := fun taken added => ⟨false,none,p,taken,added,took_nothing p gemId⟩
  by_cases void : gemId = 0 ∨ g.IsPetItem gemId.toUInt32 = false
  · apply Or.inr
    apply refused
    · rcases void with void | void <;> simp [takes,void]
    · rcases void with void | void <;> simp [AddPetItem,zero,void]
  obtain ⟨positive,pet⟩ := not_or.mp void
  obtain absent | ⟨itemType,found⟩ := Option.eq_none_or_eq_some (g.itemBaseTypeManager gemId.toUInt32)
  · exact Or.inr (refused (by simp [takes,absent]) (by simp [AddPetItem,absent]))
  obtain absent | ⟨item,there⟩ := Option.eq_none_or_eq_some (p.stackOf gemId.toUInt32 itemType true memory)
  · exact Or.inr (refused (by simp [takes,found,absent]) (by simp [AddPetItem,found,absent,bindCheck]))
  obtain crash | ⟨oldq,before⟩ := Option.eq_none_or_eq_some (item.Size g 0)
  · apply Or.inl
    simp [takes,AddPetItem,TryAddPetItem,bindCheck,zero,positive,pet,found,there,crash]
  obtain crash | ⟨newq,after⟩ := Option.eq_none_or_eq_some (item.Size g (item.Count g+1))
  · apply Or.inl
    simp [takes,AddPetItem,TryAddPetItem,bindCheck,zero,positive,pet,found,there,before,crash]
  · apply Or.inr
    by_cases full : p.m_ItemSize-oldq+newq > INIT_PETGEM_PACK_SIZE
    · apply refused
      · simp [takes,positive,pet,found,there,before,after,full]
      · simp [AddPetItem,TryAddPetItem,bindCheck,zero,positive,pet,found,there,before,after,full]
    · refine ⟨true,some (item.IncItem 1),_,?_,?_,took_one (p.m_ItemSize-oldq+newq) (held_stack there)⟩
      · simpa [takes,positive,pet,found,there,before,after] using UInt16.not_lt.mp full
      · simp [AddPetItem,TryAddPetItem,bindCheck,zero,positive,pet,found,there,before,after,full,gemKey]

theorem drop_same (g : GData) (del : Deletion) (p : PetPackage ε) (gemId : UInt16) :
    (p.dropGems g del gemId gemId).m_PetEquips = p.m_PetEquips ∧
    ∀ key, held (p.dropGems g del gemId gemId) key+(if gives g del p gemId 2 = true ∧ key = gemKey gemId then 2 else 0) = held p key := by
  rw [dropGems,if_pos rfl]
  exact del_balance g del p gemId 2 (by decide)

theorem drop_both (g : GData) (del : Deletion) (p : PetPackage ε) {gemId1 gemId2 : UInt16} (apart : gemId1 ≠ gemId2) :
    (p.dropGems g del gemId1 gemId2).m_PetEquips = p.m_PetEquips ∧
    ∀ key, held (p.dropGems g del gemId1 gemId2) key+
      (if gives g del (p.DelPetItem g del gemId1.toUInt64 1 true).2 gemId2 1 = true ∧ key = gemKey gemId2 then 1 else 0)+
      (if gives g del p gemId1 1 = true ∧ key = gemKey gemId1 then 1 else 0) = held p key := by
  rw [dropGems,if_neg apart]
  obtain ⟨first,counts1⟩ := del_balance g del p gemId1 1 (by decide)
  obtain ⟨second,counts2⟩ := del_balance g del (p.DelPetItem g del gemId1.toUInt64 1 true).2 gemId2 1 (by decide)
  refine ⟨second.trans first,?_⟩
  intro key
  rw [← counts1 key,← counts2 key]
  rfl

-- The counts come out exactly when the gems are settled.
theorem settles_same {p q next : PetPackage ε} {gemId ogid : UInt16} {given accepted : Bool} (new : ogid ≠ gemId)
    (drop : ∀ key, held q key+(if given = true ∧ key = gemKey gemId then 2 else 0) = held p key) (took : Took q ogid accepted next) :
    (∀ key, held next key+one (key = gemKey gemId)+one (key = gemKey gemId) = held p key+one (key = gemKey ogid)) ↔
      given = true ∧ accepted = true ∧ held q (gemKey ogid) < 2^16-1 := by
  have keys : gemKey ogid ≠ gemKey gemId := fun same => new (gemKey_inj.mp same)
  have few := held_lt q (gemKey ogid)
  constructor
  · intro counts
    have old := counts (gemKey gemId)
    have more := counts (gemKey ogid)
    rw [← drop,took.counts] at old more
    simp only [one,keys,keys.symm,and_false,and_true,↓reduceIte] at old more
    cases given <;> cases accepted <;> simp_all <;> omega
  · intro ⟨gone,come,room⟩
    subst gone come
    intro key
    rw [← drop,took.counts,one,one]
    by_cases here : key = gemKey ogid
    · subst here
      simp only [keys,and_false,and_true,↓reduceIte]
      omega
    · simp only [here,and_false,true_and,↓reduceIte]
      split <;> omega

theorem settles_apart {p q next : PetPackage ε} {gemId1 gemId2 ogid : UInt16} {given1 given2 accepted : Bool} (apart : gemId1 ≠ gemId2)
    (drop : ∀ key, held q key+(if given2 = true ∧ key = gemKey gemId2 then 1 else 0)+(if given1 = true ∧ key = gemKey gemId1 then 1 else 0) =
      held p key) (took : Took q ogid accepted next) :
    (∀ key, held next key+one (key = gemKey gemId1)+one (key = gemKey gemId2) = held p key+one (key = gemKey ogid)) ↔
      (accepted = true → held q (gemKey ogid) < 2^16-1) ∧
      (if ogid = gemId1 then given2 = true ∧ given1 = accepted
       else if ogid = gemId2 then given1 = true ∧ given2 = accepted
       else given1 = true ∧ given2 = true ∧ accepted = true) := by
  have keys : gemKey gemId1 ≠ gemKey gemId2 := fun same => apart (gemKey_inj.mp same)
  have few := held_lt q (gemKey ogid)
  have each : (∀ key, held next key+one (key = gemKey gemId1)+one (key = gemKey gemId2) = held p key+one (key = gemKey ogid)) ↔
      ∀ gemId, gemId = gemId1 ∨ gemId = gemId2 ∨ gemId = ogid →
        held next (gemKey gemId)+one (gemId = gemId1)+one (gemId = gemId2) = held p (gemKey gemId)+one (gemId = ogid) := by
    constructor
    · intro counts gemId _
      simpa only [one,gemKey_inj] using counts (gemKey gemId)
    · intro counts key
      by_cases gem : ∃ gemId, key = gemKey gemId ∧ (gemId = gemId1 ∨ gemId = gemId2 ∨ gemId = ogid)
      · obtain ⟨gemId,same,listed⟩ := gem
        subst same
        simpa only [one,gemKey_inj] using counts gemId listed
      · have no1 : key ≠ gemKey gemId1 := fun same => gem ⟨gemId1,same,Or.inl rfl⟩
        have no2 : key ≠ gemKey gemId2 := fun same => gem ⟨gemId2,same,Or.inr (Or.inl rfl)⟩
        have no3 : key ≠ gemKey ogid := fun same => gem ⟨ogid,same,Or.inr (Or.inr rfl)⟩
        rw [← drop,took.counts]
        simp [one,no1,no2,no3]
  rw [each]
  simp only [← drop,took.counts,gemKey_inj,one,forall_eq_or_imp,forall_eq,apart,apart.symm]
  by_cases first : ogid = gemId1
  · subst first
    cases given1 <;> cases given2 <;> cases accepted <;> simp [apart,apart.symm] <;> omega
  by_cases second : ogid = gemId2
  · subst second
    cases given1 <;> cases given2 <;> cases accepted <;> simp [apart,apart.symm] <;> omega
  · have first' := Ne.symm first
    have second' := Ne.symm second
    cases given1 <;> cases given2 <;> cases accepted <;> simp [first,first',second,second']
    omega

theorem settles_exact (p : PetPackage ε) (gemId1 gemId2 ogid : UInt16) (memory : Bool) (new : gemId1 = gemId2 → ogid ≠ gemId1) :
    Conserves p gemId1 gemId2 (((p.dropGems g del gemId1 gemId2).AddPetItem g ogid.toUInt32 1 true memory).map fun (_,p) => (1,ogid,p)) ↔
      Settles g del p gemId1 gemId2 ogid memory := by
  obtain ⟨crash,none⟩ | ⟨accepted,answer,next,taken,added,took⟩ := add_cases (g := g) (p.dropGems g del gemId1 gemId2) ogid memory
  · rw [none]
    refine iff_of_false id ?_
    unfold Settles
    split
    · intro settles
      cases crash.symm.trans settles.2.1
    · intro settles
      obtain ⟨accepted,accepts,_⟩ := settles
      cases crash.symm.trans accepts.1
  · rw [added]
    simp only [Option.map_some,Conserves]
    by_cases same : gemId1 = gemId2
    · subst same
      obtain ⟨equips,drop⟩ := drop_same g del p gemId1
      have counts := settles_same (new rfl) drop took
      simp only [Settles,Accepts,taken,Option.some.injEq,↓reduceIte]
      rw [counts]
      simp [took.equips,equips]
    · obtain ⟨equips,drop⟩ := drop_both g del p same
      have counts := settles_apart same drop took
      simp only [Settles,Accepts,taken,Option.some.injEq,same,↓reduceIte]
      rw [counts]
      simp [took.equips,equips]

theorem merge_conserves_iff (p : PetPackage ε) (gemId1 gemId2 ogid : UInt16) (rnd : UInt32) (memory : Bool) :
    Conserves p gemId1 gemId2 (p.MergePetGem g del gemId1 gemId2 ogid rnd memory) ↔ Mergeable g del p gemId1 gemId2 rnd memory := by
  unfold MergePetGem Mergeable
  cases merged : p.mergeItem g gemId1 gemId2 with
  | none => exact iff_of_true (Or.inl ⟨rfl,rfl⟩) (by intro item1 made; cases made)
  | some item1 =>
      simp only [Option.some.injEq,forall_eq']
      by_cases gem : g.GetItemSubClass (product g gemId1 gemId2 item1.itemBaseType.reqLev rnd).toUInt32 = g.Item_PetGem
      · simp only [gem,ne_eq,not_true,↓reduceIte,forall_const]
        apply settles_exact
        intro same
        simp [product,same]
      · simp only [gem,ne_eq,not_false_iff,↓reduceIte,IsEmpty.forall_iff,iff_true]
        exact Or.inl ⟨rfl,rfl⟩

theorem held_write (o : PetOwner) (equip : ItemPetEq) (spot : Spot) : held (o.write equip spot).package = held o.package := by
  cases spot <;> rfl

theorem takes_write (o : PetOwner) (equip : ItemPetEq) (spot : Spot) : takes g (o.write equip spot).package = takes g o.package := by
  cases spot <;> rfl

theorem equipAt_package {o : PetOwner} {package : PetPackage ItemPetEq} (same : package.m_PetEquips = o.package.m_PetEquips) (spot : Spot) :
    ({o with package := package} : PetOwner).equipAt spot = o.equipAt spot := by
  cases spot with
  | bag id => rw [PetOwner.equipAt,same]; rfl
  | worn petId pos => rfl

theorem detach_exact (o : PetOwner) (petId : UInt32) (equipId : UInt64) (gemPos : UInt8) (memory : Bool) (high : ¬ gemPos > 5)
    (room : ¬ o.package.GetPetGemPgRestSize < 1) (found : o.FindPetEquip search petId.toUInt16 equipId = some spot)
    (there : o.equipAt spot = some equip) (inside : gemPos.toNat < 4) (gem : equip.m_peAttr.gems ⟨gemPos.toNat,inside⟩ ≠ 0) :
    Moves search o petId equipId gemPos (o.DetachPetGem g search petId equipId gemPos memory) ↔
      Accepts g o.package (equip.m_peAttr.gems ⟨gemPos.toNat,inside⟩) memory true := by
  simp only [PetOwner.DetachPetGem,high,room,found,there,Option.bind_some,inside,gem,↓reduceIte,↓reduceDIte]
  generalize bare : ({equip with m_peAttr := {equip.m_peAttr with gems := Function.update equip.m_peAttr.gems ⟨gemPos.toNat,inside⟩ 0}} : ItemPetEq) = empty
  obtain ⟨crash,none⟩ | ⟨accepted,answer,next,taken,added,took⟩ :=
    add_cases (g := g) (o.write empty spot).package (equip.m_peAttr.gems ⟨gemPos.toNat,inside⟩) memory
  · rw [takes_write] at crash
    rw [none,Accepts,crash]
    exact iff_of_false id (by intro accepts; cases accepts.1)
  · rw [takes_write] at taken
    have middle (other : Spot) : ({o.write empty spot with package := next} : PetOwner).equipAt other = if other = spot then some empty else o.equipAt other := by
      rw [equipAt_package took.equips,PetOwner.equipAt_write o empty there]
    have placed (other : Spot) : (({o.write empty spot with package := next} : PetOwner).write (empty.DoEquipBind true) spot).equipAt other =
        if other = spot then some (empty.DoEquipBind true) else o.equipAt other := by
      rw [PetOwner.equipAt_write _ _ ((middle spot).trans (if_pos rfl)),middle]
      split <;> rfl
    have counts := took.counts
    simp only [held_write] at counts
    rw [added,Accepts,taken]
    simp only [Option.map_some,Option.some.injEq]
    constructor
    · intro moves
      obtain ⟨zero,_⟩ | ⟨_,spot',equip',worn,inside',found',there',_,_,_,count⟩ := moves
      · cases zero
      · cases found.symm.trans found'
        cases there.symm.trans there'
        have more := count (gemKey (equip.m_peAttr.gems ⟨gemPos.toNat,inside⟩))
        simp only [held_write,counts,and_true,one,↓reduceIte] at more
        have few := held_lt o.package (gemKey (equip.m_peAttr.gems ⟨gemPos.toNat,inside⟩))
        cases accepted with
        | false => simp at more
        | true =>
            refine ⟨rfl,fun _ => ?_⟩
            simp only [↓reduceIte] at more
            omega
    · rintro ⟨came,few⟩
      subst came
      refine Or.inr ⟨rfl,spot,equip,empty.DoEquipBind true,inside,found,there,?_,?_,?_,?_⟩
      · rw [placed,if_pos rfl]
      · rw [← bare]
        unfold ItemPetEq.DoEquipBind
        split <;> rfl
      · intro other apart
        rw [placed,if_neg apart]
      · intro key
        rw [held_write,counts,one]
        by_cases here : key = gemKey (equip.m_peAttr.gems ⟨gemPos.toNat,inside⟩)
        · subst here
          have := few trivial
          simp only [and_true,↓reduceIte]
          omega
        · simp [here]

theorem detach_moves_iff (o : PetOwner) (petId : UInt32) (equipId : UInt64) (gemPos : UInt8) (memory : Bool) :
    Moves search o petId equipId gemPos (o.DetachPetGem g search petId equipId gemPos memory) ↔
      Detachable g search o petId equipId gemPos memory := by
  have idle (same : o.DetachPetGem g search petId equipId gemPos memory = some (0,o)) :
      Moves search o petId equipId gemPos (o.DetachPetGem g search petId equipId gemPos memory) := by
    rw [same]
    exact Or.inl ⟨rfl,rfl⟩
  by_cases high : gemPos > 5
  · refine iff_of_true (idle (by simp [PetOwner.DetachPetGem,high])) ?_
    intro low
    exact absurd low (UInt8.not_le.mpr high)
  by_cases full : o.package.GetPetGemPgRestSize < 1
  · refine iff_of_true (idle (by simp [PetOwner.DetachPetGem,full])) ?_
    intro _ room
    exact absurd full room
  obtain absent | ⟨spot,found⟩ := Option.eq_none_or_eq_some (o.FindPetEquip search petId.toUInt16 equipId)
  · refine iff_of_true (idle (by simp [PetOwner.DetachPetGem,absent])) ?_
    intro _ _ spot equip found
    cases absent.symm.trans found
  obtain ⟨equip,there,_⟩ := o.find_there search petId.toUInt16 equipId found
  have reached : Detachable g search o petId equipId gemPos memory ↔ ∃ inside : gemPos.toNat < 4, equip.m_peAttr.gems ⟨gemPos.toNat,inside⟩ ≠ 0 →
      Accepts g o.package (equip.m_peAttr.gems ⟨gemPos.toNat,inside⟩) memory true := by
    constructor
    · intro detachable
      exact detachable (UInt8.not_lt.mp high) full spot equip found there
    · intro accepts _ _ spot' equip' found' there'
      cases found.symm.trans found'
      cases there.symm.trans there'
      exact accepts
  rw [reached]
  by_cases inside : gemPos.toNat < 4
  · by_cases gem : equip.m_peAttr.gems ⟨gemPos.toNat,inside⟩ = 0
    · refine iff_of_true (idle (by simp [PetOwner.DetachPetGem,high,full,found,there,inside,gem])) ⟨inside,?_⟩
      intro some
      exact absurd gem some
    · rw [detach_exact o petId equipId gemPos memory high full found there inside gem]
      exact ⟨fun accepts => ⟨inside,fun _ => accepts⟩,fun ⟨_,accepts⟩ => accepts gem⟩
  · refine iff_of_false ?_ (fun ⟨low,_⟩ => inside low)
    simp only [PetOwner.DetachPetGem,high,full,found,there,Option.bind_some,inside,↓reduceIte,↓reduceDIte]
    exact id

theorem gems_conserved_iff (g : GData) (del : Deletion) (search : PetSearch) :
    (∀ (p : PetPackage ε) (gemId1 gemId2 ogid : UInt16) (rnd : UInt32) (memory : Bool),
      Conserves p gemId1 gemId2 (p.MergePetGem g del gemId1 gemId2 ogid rnd memory) ↔ Mergeable g del p gemId1 gemId2 rnd memory) ∧
    ∀ (o : PetOwner) (petId : UInt32) (equipId : UInt64) (gemPos : UInt8) (memory : Bool),
      Moves search o petId equipId gemPos (o.DetachPetGem g search petId equipId gemPos memory) ↔
        Detachable g search o petId equipId gemPos memory :=
  ⟨merge_conserves_iff,detach_moves_iff⟩

-- One slot a gem.
def Deletion.plain : Deletion where
  TryDelPetItem size item num := if num ≤ item.m_TotalCount then some (size-num) else none
  enough := by
    intro size item num left given
    split at given
    · assumption
    · cases given

def pouch : PetPackage Unit where
  m_ItemSize := 62
  m_EquipSize := 0
  m_PetItems := ((∅ : AList fun _ : ItemKey => ItemBase).insert (gemKey 1000) ⟨⟨1,1,5,1,0,10⟩,true,2⟩).insert (gemKey 1001) ⟨⟨1,1,5,1,0,10⟩,true,60⟩
  m_PetEquips := ∅

-- Two gems go, and there is no room for what Size makes of 60 and one more.
theorem gems_vanish : ¬ Conserves pouch 1000 1000 (pouch.MergePetGem GData.plain Deletion.plain 1000 1000 0 0 true) := by
  intro conserves
  have merged : ((pouch.MergePetGem GData.plain Deletion.plain 1000 1000 0 0 true).map fun (result,ogid,next) =>
      (result,ogid,held next (gemKey 1001),held pouch (gemKey 1001))) = some (1,1001,60,60) := by decide +kernel
  cases made : pouch.MergePetGem GData.plain Deletion.plain 1000 1000 0 0 true with
  | none => rw [made] at merged; cases merged
  | some merge =>
      obtain ⟨result,ogid,next⟩ := merge
      rw [made] at conserves merged
      simp only [Option.map_some,Option.some.injEq,Prod.mk.injEq] at merged
      obtain ⟨rfl,rfl,kept,had⟩ := merged
      obtain ⟨zero,_⟩ | ⟨_,_,counts⟩ := conserves
      · cases zero
      · have more := counts (gemKey 1001)
        rw [kept,had] at more
        exact absurd more (by decide)

end GameServer.GObject
