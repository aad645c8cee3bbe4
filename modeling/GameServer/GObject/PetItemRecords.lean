import GameServer.GObject.PetPackage
import Mathlib.Algebra.Group.Nat.Defs

namespace GameServer.GObject
open ItemBase PetPackage

variable {ε : Type _} (g : GData)

-- What is pushed to the table `item`: Count() of a stack that was there, and
-- num itself of a new one.
inductive Pushed where
  | UPDATE (itemNum : UInt16) (id : UInt32) (bindType : Bool)
  | INSERT (id itemNum : UInt32) (bindType : Bool)
  deriving DecidableEq, Repr

def Pushed.itemNum : Pushed → Nat
  | .UPDATE itemNum _ _ => itemNum.toNat
  | .INSERT _ itemNum _ => itemNum.toNat

def Pushed.key : Pushed → ItemKey
  | .UPDATE _ id bindType => ⟨id.toUInt64,bindType⟩
  | .INSERT id _ bindType => ⟨id.toUInt64,bindType⟩

namespace PetPackage

-- AddPetItem with what it pushes.
def AddPetItemPushing (p : PetPackage ε) (typeId num : UInt32) (bind memory : Bool) :
    Option (Option ItemBase × PetPackage ε × List Pushed) :=
  if typeId = 0 ∨ num = 0 then some (none,p,[])
  else if !g.IsPetItem typeId then some (none,p,[])
  else
    match g.itemBaseTypeManager typeId with
    | none => some (none,p,[])
    | some itemType =>
      let bind := bindCheck itemType.bindType bind
      match p.FindPetItem typeId bind with
      | some item => (p.TryAddPetItem g item num.toUInt16).map fun
        | none => (none,p,[])
        | some (item,cur) =>
          (some item,{p with m_ItemSize := cur,m_PetItems := p.m_PetItems.insert ⟨typeId.toUInt64,bind⟩ item},[.UPDATE (item.Count g) typeId bind])
      | none =>
        if memory then (p.TryAddPetItem g (ItemBase.made itemType bind) num.toUInt16).map fun
          | none => (none,p,[])
          | some (item,cur) =>
            (some item,{p with m_ItemSize := cur,m_PetItems := p.m_PetItems.insert ⟨typeId.toUInt64,bind⟩ item},[.INSERT typeId num bind])
        else some (none,p,[])

def count (p : PetPackage ε) (key : ItemKey) : Nat := (p.m_PetItems.lookup key).elim 0 fun item => item.m_TotalCount.toNat

end PetPackage

theorem pushing_forgets (p : PetPackage ε) (typeId num : UInt32) (bind memory : Bool) :
    (p.AddPetItemPushing g typeId num bind memory).map (fun answer => (answer.1,answer.2.1)) = p.AddPetItem g typeId num bind memory := by
  unfold AddPetItemPushing AddPetItem stackOf
  split
  · rfl
  split
  · rfl
  cases g.itemBaseTypeManager typeId with
  | none => rfl
  | some itemType =>
      dsimp only
      cases p.FindPetItem typeId (bindCheck itemType.bindType bind) with
      | some item =>
          dsimp only
          rcases p.TryAddPetItem g item num.toUInt16 with _ | (_ | _) <;> rfl
      | none =>
          cases memory with
          | false => rfl
          | true =>
              simp only [if_true]
              rcases p.TryAddPetItem g (ItemBase.made itemType (bindCheck itemType.bindType bind)) num.toUInt16 with _ | (_ | _) <;> rfl

-- NULL leaves the bag and the table alone; a stack that is returned is the
-- one in the bag, grown by exactly num, and the table holds its count.
def Recorded (p : PetPackage ε) (typeId num : UInt32) : Option (Option ItemBase × PetPackage ε × List Pushed) → Prop
  | none => False
  | some (none,next,statements) => next = p ∧ statements = []
  | some (some item,next,statements) => ∃ statement, statements = [statement] ∧ statement.key.id = typeId.toUInt64 ∧
      next.m_PetItems.lookup statement.key = some item ∧ item.m_TotalCount.toNat = p.count statement.key+num.toNat ∧
      statement.itemNum = item.m_TotalCount.toNat

def single (item : ItemBase) : Bool :=
  g.IsEquip item.itemBaseType.subClass || g.IsZhenYuan item.itemBaseType.subClass || g.IsLingShi item.itemBaseType.subClass

-- There is no division by 0, and the bag has no room or the count stays in 16
-- bits, where a stack of a single class that is there counts for one.
def Recordable (p : PetPackage ε) (typeId num : UInt32) (bind memory : Bool) : Prop :=
  typeId = 0 ∨ num = 0 ∨ g.IsPetItem typeId = false ∨ ∀ itemType, g.itemBaseTypeManager typeId = some itemType →
    ∀ item, p.stackOf typeId itemType (bindCheck itemType.bindType bind) memory = some item →
      ∃ oldq newq, item.Size g 0 = some oldq ∧ item.Size g (item.Count g+num.toUInt16) = some newq ∧
        (p.m_ItemSize-oldq+newq > INIT_PETGEM_PACK_SIZE ∨ item.m_TotalCount.toNat+num.toNat < 2^16 ∧
          (p.FindPetItem typeId (bindCheck itemType.bindType bind) = none ∨ single g item = false ∨ item.m_TotalCount.toNat+num.toNat = 1))

theorem inc_exact_iff (item : ItemBase) (num : UInt32) :
    (item.IncItem num.toUInt16).m_TotalCount.toNat = item.m_TotalCount.toNat+num.toNat ↔ item.m_TotalCount.toNat+num.toNat < 2^16 := by
  have few := item.m_TotalCount.toNat_lt
  simp only [ItemBase.IncItem,UInt16.toNat_add,UInt32.toNat_toUInt16]
  omega

theorem count_inc_iff (item : ItemBase) (num : UInt16) :
    ((item.IncItem num).Count g).toNat = (item.IncItem num).m_TotalCount.toNat ↔
      single g item = false ∨ (item.IncItem num).m_TotalCount.toNat = 1 := by
  cases kind : single g item with
  | true =>
      rw [show (item.IncItem num).Count g = 1 from if_pos kind]
      simp [eq_comm]
  | false =>
      rw [show (item.IncItem num).Count g = (item.IncItem num).m_TotalCount from if_neg ((Bool.not_eq_true _).mpr kind)]
      simp

-- What TryAddPetItem comes to: the division by 0, no room, or the larger stack.
theorem try_add (p : PetPackage ε) (item : ItemBase) (num : UInt16) (R : Option (Option (ItemBase × UInt16)) → Prop) (fault : ¬ R none) :
    R (p.TryAddPetItem g item num) ↔ ∃ oldq newq, item.Size g 0 = some oldq ∧ item.Size g (item.Count g+num) = some newq ∧
      R (some (if p.m_ItemSize-oldq+newq > INIT_PETGEM_PACK_SIZE then none else some (item.IncItem num,p.m_ItemSize-oldq+newq))) := by
  unfold TryAddPetItem
  cases item.Size g 0 with
  | none => simpa using fault
  | some oldq =>
      cases item.Size g (item.Count g+num) with
      | none => simpa using fault
      | some newq => simp

-- One addition to a stack that counts what the bag counts under the key, for
-- either statement.
theorem addition_iff (p : PetPackage ε) (typeId num : UInt32) (bind : Bool) (item : ItemBase) (push : ItemBase → Pushed)
    (keyed : ∀ item, (push item).key = ⟨typeId.toUInt64,bind⟩) (same : item.m_TotalCount.toNat = p.count ⟨typeId.toUInt64,bind⟩) :
    Recorded p typeId num ((p.TryAddPetItem g item num.toUInt16).map fun
      | none => (none,p,[])
      | some (item,cur) => (some item,{p with m_ItemSize := cur,m_PetItems := p.m_PetItems.insert ⟨typeId.toUInt64,bind⟩ item},[push item])) ↔
    ∃ oldq newq, item.Size g 0 = some oldq ∧ item.Size g (item.Count g+num.toUInt16) = some newq ∧
      (p.m_ItemSize-oldq+newq > INIT_PETGEM_PACK_SIZE ∨ item.m_TotalCount.toNat+num.toNat < 2^16 ∧
        (push (item.IncItem num.toUInt16)).itemNum = (item.IncItem num.toUInt16).m_TotalCount.toNat) := by
  rw [try_add g p item num.toUInt16 (fun outcome => Recorded p typeId num (outcome.map _)) id]
  refine exists_congr fun oldq => exists_congr fun newq => and_congr_right fun _ => and_congr_right fun _ => ?_
  by_cases full : p.m_ItemSize-oldq+newq > INIT_PETGEM_PACK_SIZE
  · simp [full,Recorded]
  · have held : (p.m_PetItems.insert ⟨typeId.toUInt64,bind⟩ (item.IncItem num.toUInt16)).lookup (push (item.IncItem num.toUInt16)).key =
        some (item.IncItem num.toUInt16) := by
      rw [keyed]
      exact AList.lookup_insert _
    have named : (push (item.IncItem num.toUInt16)).key.id = typeId.toUInt64 := congrArg ItemKey.id (keyed _)
    have before : p.count (push (item.IncItem num.toUInt16)).key = item.m_TotalCount.toNat := by rw [keyed,same]
    simp [full,Recorded,held,named,before,inc_exact_iff]

theorem recorded_iff (p : PetPackage ε) (typeId num : UInt32) (bind memory : Bool) :
    Recorded p typeId num (p.AddPetItemPushing g typeId num bind memory) ↔ Recordable g p typeId num bind memory := by
  unfold AddPetItemPushing Recordable
  by_cases blank : typeId = 0 ∨ num = 0
  · rw [if_pos blank]
    exact iff_of_true ⟨rfl,rfl⟩ (blank.imp_right Or.inl)
  rw [if_neg blank]
  cases isItem : g.IsPetItem typeId with
  | false => exact iff_of_true ⟨rfl,rfl⟩ (Or.inr (Or.inr (Or.inl rfl)))
  | true =>
      obtain ⟨named,some⟩ := not_or.mp blank
      simp only [named,some,false_or,Bool.not_true,Bool.false_eq_true,if_false,Bool.true_eq_false]
      cases typed : g.itemBaseTypeManager typeId with
      | none => simp [Recorded]
      | some itemType =>
          simp only [Option.some.injEq,forall_eq',stackOf]
          cases found : p.FindPetItem typeId (bindCheck itemType.bindType bind) with
          | some item =>
              have same : item.m_TotalCount.toNat = p.count ⟨typeId.toUInt64,bindCheck itemType.bindType bind⟩ := by
                rw [PetPackage.count,show p.m_PetItems.lookup _ = _ from found]
                rfl
              simp only [Option.some.injEq,forall_eq',reduceCtorEq,false_or]
              rw [addition_iff g p typeId num _ item (fun item => .UPDATE (item.Count g) typeId _) (fun _ => rfl) same]
              refine exists_congr fun oldq => exists_congr fun newq => and_congr_right fun _ => and_congr_right fun _ =>
                or_congr_right (and_congr_right fun fits => ?_)
              rw [← (inc_exact_iff item num).mpr fits]
              exact count_inc_iff g item num.toUInt16
          | none =>
              cases memory with
              | false => simp [Recorded]
              | true =>
                  have same : (ItemBase.made itemType (bindCheck itemType.bindType bind)).m_TotalCount.toNat =
                      p.count ⟨typeId.toUInt64,bindCheck itemType.bindType bind⟩ := by
                    rw [PetPackage.count,show p.m_PetItems.lookup _ = _ from found]
                    rfl
                  simp only [if_true,Option.some.injEq,forall_eq',true_or,and_true]
                  rw [addition_iff g p typeId num _ _ (fun _ => .INSERT typeId num _) (fun _ => rfl) same]
                  refine exists_congr fun oldq => exists_congr fun newq => and_congr_right fun _ => and_congr_right fun _ =>
                    or_congr_right (and_iff_left_of_imp fun fits => ?_)
                  rw [(inc_exact_iff _ num).mpr fits]
                  exact (Nat.zero_add _).symm

-- 65537 of a gem: the stack has one, the table 65537.
theorem record_differs : ¬ ∀ (p : PetPackage Unit) (typeId num : UInt32) (bind memory : Bool),
    Recorded p typeId num (p.AddPetItemPushing GData.plain typeId num bind memory) := by
  intro every
  obtain ⟨statement,pushed,_,_,_,written⟩ := every PetPackage.empty 1500 65537 false true
  cases pushed
  revert written
  decide

end GameServer.GObject
