import GameServer.Library.History
import GameServer.GObject.PetPackage
import Mathlib.Algebra.Group.Nat.Defs

namespace GameServer.GObject
open History Tally ItemBase PetPackage

variable {ε : Type _} (g : GData)

-- ceil(count/maxQuantity)
def slots (item : ItemBase) : Nat :=
  ((item.Count g).toNat+item.itemBaseType.maxQuantity.toNat-1)/item.itemBaseType.maxQuantity.toNat

def Counted (p : PetPackage ε) : Prop := p.m_ItemSize.toNat = weight (slots g) p.m_PetItems

inductive Stocking where
  | AddItemFromDB (id num : UInt32) (bind memory : Bool)
  | AddPetItem (typeId num : UInt32) (bind memory : Bool)

def stockingStep (p : PetPackage ε) : Stocking → Option (Option ItemBase × PetPackage ε)
  | .AddItemFromDB id num bind memory => p.AddItemFromDB g id num bind memory
  | .AddPetItem typeId num bind memory => p.AddPetItem g typeId num bind memory

def Stocked (_ : PetPackage ε) (stocking : Stocking) (answer : Option ItemBase) (next : PetPackage ε) : Prop :=
  Counted g next ∧ match stocking,answer with
    | .AddPetItem _ _ _ _,some _ => next.m_ItemSize ≤ INIT_PETGEM_PACK_SIZE
    | _,_ => True

-- Classes whose count is always 1 but whose Size is not.
def special (item : ItemBase) : Bool :=
  !g.IsEquip item.itemBaseType.subClass && (g.IsZhenYuan item.itemBaseType.subClass || g.IsLingShi item.itemBaseType.subClass)

def constant (item : ItemBase) : Bool := item.itemBaseType.subClass == g.Item_Task || g.IsEquip item.itemBaseType.subClass

def pieces (most count : Nat) : Nat := (count+most-1)/most

-- When a new stack counts for the slots it takes, with `gone` slots under its key
-- before: where the size is constant, if it takes as many; where it counts as one item,
-- if that and the number fit into one slot; else if it takes the place of nothing.
def Begins (gone : Nat) (item : ItemBase) (num : UInt16) : Prop :=
  if constant g item then slots g (item.IncItem num) = gone
  else if special g item then
    if gone = 0 then 0 < (1+num).toNat ∧ (1+num).toNat ≤ item.itemBaseType.maxQuantity.toNat else num = 65535
  else gone = 0

-- When a stack that grows does: Size adds the count a second time, which the last slot
-- has to hold.
def Grows (item : ItemBase) (num : UInt16) : Prop :=
  if constant g item then slots g (item.IncItem num) = slots g item
  else if special g item then
    (1+num).toNat+item.m_TotalCount.toNat ≤
      item.itemBaseType.maxQuantity.toNat*pieces item.itemBaseType.maxQuantity.toNat item.m_TotalCount.toNat
  else
    (item.m_TotalCount+num).toNat+item.m_TotalCount.toNat ≤
      item.itemBaseType.maxQuantity.toNat*pieces item.itemBaseType.maxQuantity.toNat (item.m_TotalCount+num).toNat

-- An addition to the stack of a key, or of the first one there.
def Fits (p : PetPackage ε) (key : ItemKey) (item : ItemBase) (num : UInt16) : Prop :=
  match p.m_PetItems.lookup key with
  | some stack => Grows g stack num
  | none => Begins g 0 item num

-- The slots of the bag stay in 16 bits.
def Narrow (p : PetPackage ε) (gone : Nat) (item : ItemBase) (num : UInt16) : Prop :=
  p.m_ItemSize.toNat+slots g (item.IncItem num) < 2^16+gone

def Measured (p : PetPackage ε) : Stocking → Prop
  | .AddItemFromDB id num bind memory => g.IsPetItem id = true ∧ (memory = true → ∀ itemType, g.itemBaseTypeManager id = some itemType →
      let item := ItemBase.made itemType (bindCheck itemType.bindType bind)
      let gone := old (slots g) p.m_PetItems ⟨id.toUInt64,bindCheck itemType.bindType bind⟩
      (constant g item = false → itemType.maxQuantity ≠ 0) ∧ Begins g gone item num.toUInt16 ∧ Narrow g p gone item num.toUInt16)
  | .AddPetItem typeId num bind memory => typeId = 0 ∨ num = 0 ∨ g.IsPetItem typeId = false ∨
      ∀ itemType, g.itemBaseTypeManager typeId = some itemType →
        ∀ item, p.stackOf typeId itemType (bindCheck itemType.bindType bind) memory = some item →
          ∃ oldq newq, item.Size g 0 = some oldq ∧ item.Size g (item.Count g+num.toUInt16) = some newq ∧
            (p.m_ItemSize-oldq+newq > INIT_PETGEM_PACK_SIZE ∨
              Fits g p ⟨typeId.toUInt64,bindCheck itemType.bindType bind⟩ item num.toUInt16 ∧
              Narrow g p (old (slots g) p.m_PetItems ⟨typeId.toUInt64,bindCheck itemType.bindType bind⟩) item num.toUInt16)

-- Every stack has the type of its id.
def Typed (p : PetPackage ε) : Prop :=
  ∀ key item, p.m_PetItems.lookup key = some item → g.itemBaseTypeManager key.id.toUInt32 = some item.itemBaseType

theorem slots_lt (item : ItemBase) : slots g item < 2^16 := by
  have few := (item.Count g).toNat_lt
  unfold slots
  rcases Nat.eq_zero_or_pos item.itemBaseType.maxQuantity.toNat with zero | some
  · simp [zero]
  · rw [Nat.div_lt_iff_lt_mul some]
    have more := Nat.mul_le_mul_right (item.itemBaseType.maxQuantity.toNat-1) (Nat.le_of_lt_succ few)
    have wide : 2^16*item.itemBaseType.maxQuantity.toNat = 2^16*(item.itemBaseType.maxQuantity.toNat-1)+2^16 := by omega
    omega

theorem pieces_le (positive : 0 < most) (count k : Nat) : pieces most count ≤ k ↔ count ≤ most*k := by
  unfold pieces
  rw [Nat.le_iff_lt_add_one,Nat.div_lt_iff_lt_mul positive,Nat.add_mul,Nat.mul_comm k]
  omega

theorem pieces_small (positive : 0 < most) (count : Nat) : pieces most count ≤ count :=
  (pieces_le positive _ _).mpr (Nat.le_mul_of_pos_left count positive)

theorem count_special {item : ItemBase} (one : special g item = true) : item.Count g = 1 := by
  simp only [special,Bool.and_eq_true] at one
  unfold ItemBase.Count
  rw [if_pos]
  simpa [Bool.or_assoc] using Or.inr one.2

theorem slots_special (item : ItemBase) (one : special g item = true) (positive : 0 < item.itemBaseType.maxQuantity.toNat) :
    slots g item = 1 := by
  rw [slots,count_special g one,Nat.div_eq_iff positive]
  have single : (1 : UInt16).toNat = 1 := rfl
  omega

theorem count_plain (item : ItemBase) (varies : constant g item = false) (other : special g item = false) : item.Count g = item.m_TotalCount := by
  simp only [constant,Bool.or_eq_false_iff] at varies
  unfold ItemBase.Count
  rw [if_neg]
  simpa [special,varies.2] using other

theorem slots_plain (item : ItemBase) (varies : constant g item = false) (other : special g item = false) :
    slots g item = pieces item.itemBaseType.maxQuantity.toNat item.m_TotalCount.toNat := by
  rw [slots,count_plain g item varies other,pieces]

-- A size is constant for tasks and equips, and by the count for the rest.
theorem size_value {item : ItemBase} {total q : UInt16} (got : item.Size g total = some q) :
    (constant g item = true ∧ item.Size g 0 = some q) ∨
    (constant g item = false ∧ 0 < item.itemBaseType.maxQuantity.toNat ∧
      q.toNat = pieces item.itemBaseType.maxQuantity.toNat (total.toNat+item.m_TotalCount.toNat) % 2^16) := by
  unfold ItemBase.Size at got ⊢
  unfold constant
  by_cases task : item.itemBaseType.subClass = g.Item_Task
  · rw [if_pos task] at got ⊢
    exact Or.inl ⟨by simp [task],got⟩
  rw [if_neg task] at got ⊢
  by_cases equip : g.IsEquip item.itemBaseType.subClass = true
  · rw [if_pos equip] at got ⊢
    exact Or.inl ⟨by simp [equip],got⟩
  rw [if_neg equip] at got
  by_cases zero : item.itemBaseType.maxQuantity = 0
  · rw [if_pos zero] at got
    cases got
  rw [if_neg zero] at got
  cases got
  exact Or.inr ⟨by simp [task,equip],Nat.pos_of_ne_zero fun none => zero (UInt16.toNat_inj.mp none),rfl⟩

theorem size_now {item : ItemBase} {q : UInt16} (got : item.Size g 0 = some q) (varies : constant g item = false) :
    q.toNat = pieces item.itemBaseType.maxQuantity.toNat item.m_TotalCount.toNat := by
  rcases size_value g got with ⟨same,_⟩ | ⟨_,positive,size⟩
  · rw [varies] at same
    cases same
  · rw [size,UInt16.toNat_zero,Nat.zero_add]
    exact Nat.mod_eq_of_lt (Nat.lt_of_le_of_lt (pieces_small positive _) (UInt16.toNat_lt _))

theorem size_whole {item : ItemBase} (got : item.Size g total = some q) (varies : constant g item = false) :
    item.itemBaseType.maxQuantity ≠ 0 := by
  rcases size_value g got with ⟨same,_⟩ | ⟨_,positive,_⟩
  · rw [varies] at same
    cases same
  · intro zero
    rw [zero] at positive
    exact Nat.lt_irrefl 0 positive

theorem size_there {item : ItemBase} (total : UInt16) (whole : constant g item = false → item.itemBaseType.maxQuantity ≠ 0) :
    ∃ q, item.Size g total = some q := by
  unfold ItemBase.Size
  by_cases task : item.itemBaseType.subClass = g.Item_Task
  · exact ⟨_,if_pos task⟩
  rw [if_neg task]
  by_cases equip : g.IsEquip item.itemBaseType.subClass = true
  · exact ⟨_,if_pos equip⟩
  rw [if_neg equip,if_neg (whole (by simp [constant,task,equip]))]
  exact ⟨_,rfl⟩

-- The two sizes of an addition: constant for tasks and equips, by the count
-- for the rest, where a special class counts as one.
theorem size_kinds {item : ItemBase} {total oldq newq : UInt16} (before : item.Size g 0 = some oldq) (after : item.Size g total = some newq) :
    oldq = newq ∨
    ((∀ num, slots g (item.IncItem num) = 1) ∧ slots g item = 1 ∧ (item.m_TotalCount = 0 → oldq.toNat = 0)) ∨
    (oldq.toNat = slots g item ∧ item.Count g = item.m_TotalCount ∧ (item.m_TotalCount = 0 → newq.toNat = slots g (item.IncItem total))) := by
  rcases size_value g after with ⟨_,same⟩ | ⟨varies,positive,sized⟩
  · exact Or.inl (Option.some.inj (before.symm.trans same))
  · have first := size_now g before varies
    by_cases one : special g item = true
    · refine Or.inr (Or.inl ⟨fun num => slots_special g (item.IncItem num) one positive,slots_special g item one positive,fun bare => ?_⟩)
      rw [first,bare]
      exact Nat.le_zero.mp (pieces_small positive _)
    · have other := Bool.not_eq_true _ ▸ one
      refine Or.inr (Or.inr ⟨first.trans (slots_plain g item varies other).symm,count_plain g item varies other,fun bare => ?_⟩)
      rw [sized,slots_plain g (item.IncItem total) varies other]
      change pieces _ (total.toNat+item.m_TotalCount.toNat) % 2^16 = pieces _ (item.m_TotalCount+total).toNat
      rw [bare,UInt16.zero_add]
      exact Nat.mod_eq_of_lt (Nat.lt_of_le_of_lt (pieces_small positive _) (UInt16.toNat_lt _))

theorem sum_exact (m newq oldq : UInt16) (x y : Nat) (less : x ≤ m.toNat) (above : newq.toNat+x < oldq.toNat+y+2^16)
    (below : oldq.toNat+y < newq.toNat+x+2^16) :
    (m+newq-oldq).toNat+x = m.toNat+y ↔ newq.toNat+x = oldq.toNat+y ∧ m.toNat+newq.toNat < 2^16+oldq.toNat := by
  have := m.toNat_lt
  have := newq.toNat_lt
  have := oldq.toNat_lt
  rw [UInt16.toNat_sub,UInt16.toNat_add]
  omega

-- What an addition may be off by, which is never 2^16: for a new stack in
-- place of one of its type or of none, and for a stack that grows.
theorem new_bounds {item : ItemBase} {oldq newq : UInt16} {x : Nat} (num : UInt16) (bare : item.m_TotalCount = 0) (few : x < 2^16)
    (same : (∀ num, slots g (item.IncItem num) = 1) → x ≤ 1)
    (before : item.Size g 0 = some oldq) (after : ∃ total, item.Size g total = some newq ∧ (item.Count g = item.m_TotalCount → total = num)) :
    newq.toNat+x < oldq.toNat+slots g (item.IncItem num)+2^16 ∧ oldq.toNat+slots g (item.IncItem num) < newq.toNat+x+2^16 := by
  obtain ⟨total,after,plain⟩ := after
  have wide := slots_lt g (item.IncItem num)
  have long := newq.toNat_lt
  rcases size_kinds g before after with equal | ⟨ones,_,zero⟩ | ⟨first,count,exact⟩
  · subst equal
    omega
  · have small := same ones
    rw [zero bare,ones num]
    omega
  · have grown := exact bare
    rw [plain count] at grown
    have none : slots g item = 0 := by
      rw [slots,count,bare,UInt16.toNat_zero,Nat.zero_add]
      rcases Nat.eq_zero_or_pos item.itemBaseType.maxQuantity.toNat with zero | positive
      · simp [zero]
      · exact Nat.div_eq_of_lt (Nat.sub_lt positive Nat.one_pos)
    omega

theorem grown_bounds {item : ItemBase} (num : UInt16) {total oldq newq : UInt16}
    (before : item.Size g 0 = some oldq) (after : item.Size g total = some newq) :
    newq.toNat+slots g item < oldq.toNat+slots g (item.IncItem num)+2^16 ∧
      oldq.toNat+slots g (item.IncItem num) < newq.toNat+slots g item+2^16 := by
  have wide := slots_lt g (item.IncItem num)
  have old := slots_lt g item
  have long := newq.toNat_lt
  have short := oldq.toNat_lt
  rcases size_kinds g before after with equal | ⟨ones,one,_⟩ | ⟨first,_,_⟩
  · subst equal
    omega
  · rw [one,ones num]
    omega
  · omega

-- What Size makes of an addition is what the bag gains in slots, and the sum
-- stays in 16 bits. `gone` is what the key counted for before.
def Matches (p : PetPackage ε) (gone : Nat) (item : ItemBase) (num oldq newq : UInt16) : Prop :=
  newq.toNat+gone = oldq.toNat+slots g (item.IncItem num) ∧ p.m_ItemSize.toNat+newq.toNat < 2^16+oldq.toNat

theorem counted_insert {p : PetPackage ε} (counted : Counted g p) (key : ItemKey) (item : ItemBase) (num oldq newq : UInt16)
    (above : newq.toNat+old (slots g) p.m_PetItems key < oldq.toNat+slots g (item.IncItem num)+2^16)
    (below : oldq.toNat+slots g (item.IncItem num) < newq.toNat+old (slots g) p.m_PetItems key+2^16) :
    Counted g {p with m_ItemSize := p.m_ItemSize+newq-oldq,m_PetItems := p.m_PetItems.insert key (item.IncItem num)} ↔
      Matches g p (old (slots g) p.m_PetItems key) item num oldq newq := by
  have sum := weight_insert (slots g) p.m_PetItems key (item.IncItem num)
  have less := old_le (slots g) p.m_PetItems key
  rw [← counted] at sum less
  have exact := sum_exact p.m_ItemSize newq oldq _ _ less above below
  rw [Matches,← exact,Counted]
  dsimp only
  omega

-- A count and more of it take the slots of the count where the last one holds them.
theorem pieces_hold {a b : Nat} (positive : 0 < most) (small : a < 2^16) (few : b < 2^16) :
    pieces most (a+b) % 2^16 = pieces most a ↔ a+b ≤ most*pieces most a := by
  have above : pieces most a ≤ pieces most (a+b) := by
    refine (pieces_le positive _ _).mpr (Nat.le_trans (Nat.le_add_right a b) ((pieces_le positive _ _).mp (Nat.le_refl _)))
  rw [←pieces_le positive]
  by_cases single : most = 1
  · subst single
    simp only [pieces,Nat.add_sub_cancel,Nat.div_one]
    omega
  · have wide : pieces most (a+b) < 2^16 := by
      rw [pieces,Nat.div_lt_iff_lt_mul positive]
      omega
    rw [Nat.mod_eq_of_lt wide]
    omega

theorem matches_narrow {p : PetPackage ε} {gone : Nat} {item : ItemBase} {num oldq newq : UInt16} {kept : Prop}
    (same : newq.toNat+gone = oldq.toNat+slots g (item.IncItem num) ↔ kept) :
    Matches g p gone item num oldq newq ↔ kept ∧ Narrow g p gone item num := by
  unfold Matches Narrow
  rw [same]
  refine and_congr_right fun holds => ?_
  have equal := same.mpr holds
  omega

theorem matches_constant {item : ItemBase} {num oldq newq : UInt16} (before : item.Size g 0 = some oldq) (after : item.Size g 0 = some newq) :
    newq.toNat+gone = oldq.toNat+slots g (item.IncItem num) ↔ slots g (item.IncItem num) = gone := by
  cases before.symm.trans after
  omega

theorem begins_iff {p : PetPackage ε} {gone : Nat} {item : ItemBase} {num oldq newq : UInt16} (bare : item.m_TotalCount = 0)
    (ones : (∀ num, slots g (item.IncItem num) = 1) → gone ≤ 1) (before : item.Size g 0 = some oldq)
    (after : item.Size g (item.Count g+num) = some newq) :
    Matches g p gone item num oldq newq ↔ Begins g gone item num ∧ Narrow g p gone item num := by
  refine matches_narrow g ?_
  unfold Begins
  rcases size_value g after with ⟨same,after⟩ | ⟨varies,positive,size⟩
  · rw [if_pos same]
    exact matches_constant g before after
  · have none : oldq.toNat = 0 := by
      rw [size_now g before varies,bare]
      exact Nat.le_zero.mp (pieces_small positive _)
    rw [bare,UInt16.toNat_zero,Nat.add_zero,Nat.mod_eq_of_lt (Nat.lt_of_le_of_lt (pieces_small positive _) (UInt16.toNat_lt _))] at size
    rw [if_neg (by simp [varies]),none,size]
    by_cases one : special g item = true
    · have few := ones fun num => slots_special g (item.IncItem num) one positive
      rw [if_pos one,slots_special g (item.IncItem num) one positive,count_special g one]
      have within := pieces_le positive (1+num).toNat 1
      have nothing := pieces_le positive (1+num).toNat 0
      by_cases fresh : gone = 0
      · rw [if_pos fresh]
        omega
      · rw [if_neg fresh]
        have last : num = 65535 ↔ (1+num).toNat = 0 := by
          rw [←UInt16.toNat_inj,UInt16.toNat_add]
          have := num.toNat_lt
          change num.toNat = 65535 ↔ (1+num.toNat) % 2^16 = 0
          omega
        rw [last]
        omega
    · have other := Bool.not_eq_true _ ▸ one
      rw [if_neg one,slots_plain g (item.IncItem num) varies other,count_plain g item varies other]
      change _+gone = 0+pieces item.itemBaseType.maxQuantity.toNat (item.m_TotalCount+num).toNat ↔ _
      omega

theorem grows_iff {p : PetPackage ε} {item : ItemBase} {num oldq newq : UInt16} (before : item.Size g 0 = some oldq)
    (after : item.Size g (item.Count g+num) = some newq) :
    Matches g p (slots g item) item num oldq newq ↔ Grows g item num ∧ Narrow g p (slots g item) item num := by
  refine matches_narrow g ?_
  unfold Grows
  rcases size_value g after with ⟨same,after⟩ | ⟨varies,positive,size⟩
  · rw [if_pos same]
    exact matches_constant g before after
  · rw [if_neg (by simp [varies]),size_now g before varies,size]
    by_cases one : special g item = true
    · rw [if_pos one,slots_special g (item.IncItem num) one positive,slots_special g item one positive,count_special g one,Nat.add_right_cancel_iff,
        Nat.add_comm,pieces_hold positive (UInt16.toNat_lt _) (UInt16.toNat_lt _)]
    · have other := Bool.not_eq_true _ ▸ one
      rw [if_neg one,slots_plain g (item.IncItem num) varies other,slots_plain g item varies other,count_plain g item varies other,
        Nat.add_comm (_ % _),Nat.add_left_cancel_iff]
      exact pieces_hold positive (UInt16.toNat_lt _) (UInt16.toNat_lt _)

theorem sub_then_add (m oldq newq : UInt16) : m-oldq+newq = m+newq-oldq := by
  have := m.toNat_lt
  have := newq.toNat_lt
  have := oldq.toNat_lt
  apply UInt16.toNat_inj.mp
  rw [UInt16.toNat_add,UInt16.toNat_sub,UInt16.toNat_sub,UInt16.toNat_add]
  omega

theorem typed_insert {p : PetPackage ε} (typed : Typed g p) {key : ItemKey} {item : ItemBase} (size : UInt16)
    (found : g.itemBaseTypeManager key.id.toUInt32 = some item.itemBaseType) :
    Typed g {p with m_ItemSize := size,m_PetItems := p.m_PetItems.insert key item} := by
  intro other stack there
  by_cases here : other = key
  · subst here
    rw [AList.lookup_insert] at there
    cases there
    exact found
  · rw [AList.lookup_insert_ne here] at there
    exact typed other stack there

theorem old_ones {p : PetPackage ε} (typed : Typed g p) (key : ItemKey) {item : ItemBase}
    (found : g.itemBaseTypeManager key.id.toUInt32 = some item.itemBaseType) (bare : item.m_TotalCount = 0)
    (ones : ∀ num, slots g (item.IncItem num) = 1) : old (slots g) p.m_PetItems key ≤ 1 := by
  unfold old
  cases there : p.m_PetItems.lookup key with
  | none => exact Nat.zero_le 1
  | some stack =>
      have same : stack.itemBaseType = item.itemBaseType := Option.some.inj ((typed key stack there).symm.trans found)
      have one := ones stack.m_TotalCount
      apply Nat.le_of_eq
      simpa [slots,ItemBase.Count,ItemBase.IncItem,same,bare] using one

theorem old_lt (p : PetPackage ε) (key : ItemKey) : old (slots g) p.m_PetItems key < 2^16 := by
  unfold old
  cases p.m_PetItems.lookup key with
  | none => exact Nat.pow_pos (by decide)
  | some stack => exact slots_lt g stack

-- Where the sizes can be read, an addition counts exactly when its stack takes what
-- Size makes of it.
theorem fromDB_exact {p : PetPackage ε} {id num : UInt32} {bind : Bool} {oldq newq : UInt16} (counted : Counted g p) (typed : Typed g p)
    (pet : g.IsPetItem id = true) (found : g.itemBaseTypeManager id = some itemType) {item : ItemBase}
    (fresh : item = ItemBase.made itemType (bindCheck itemType.bindType bind))
    (before : item.Size g 0 = some oldq) (after : item.Size g ((item.Count g).toUInt32+num).toUInt16 = some newq) :
    ∃ next, p.AddItemFromDB g id num bind true = some (some (item.IncItem num.toUInt16),next) ∧ Typed g next ∧
      (Counted g next ↔ Begins g (old (slots g) p.m_PetItems ⟨id.toUInt64,bindCheck itemType.bindType bind⟩) item num.toUInt16 ∧
        Narrow g p (old (slots g) p.m_PetItems ⟨id.toUInt64,bindCheck itemType.bindType bind⟩) item num.toUInt16) := by
  have type : g.itemBaseTypeManager id.toUInt64.toUInt32 = some item.itemBaseType := by
    rw [fresh,UInt32.toUInt32_toUInt64]
    exact found
  have bare : item.m_TotalCount = 0 := by rw [fresh]; rfl
  have ones := old_ones g typed ⟨id.toUInt64,bindCheck itemType.bindType bind⟩ type bare
  have bounds := new_bounds g num.toUInt16 bare (old_lt g p ⟨id.toUInt64,bindCheck itemType.bindType bind⟩)
    ones before ⟨_,after,by intro plain; rw [plain,bare]; simp⟩
  have sizes := counted_insert g counted _ _ _ _ _ bounds.1 bounds.2
  rw [UInt32.toUInt16_add,UInt16.toUInt16_toUInt32] at after
  refine ⟨_,?_,typed_insert g typed _ (by exact type),sizes.trans (begins_iff g bare ones before after)⟩
  subst fresh
  simp only [AddItemFromDB,pet,found,before,after,UInt32.toUInt16_add,UInt16.toUInt16_toUInt32,Bool.not_true,Bool.false_eq_true,↓reduceIte,
    Option.bind_some,Option.map_some]

-- The stack an addition goes to: the one of the key, or a new one.
theorem stackOf_parts {p : PetPackage ε} {typeId : UInt32} {bind memory : Bool} (typed : Typed g p)
    (found : g.itemBaseTypeManager typeId = some itemType) (stack : p.stackOf typeId itemType bind memory = some item) :
    item.itemBaseType = itemType ∧ (p.m_PetItems.lookup ⟨typeId.toUInt64,bind⟩ = some item ∨
      p.m_PetItems.lookup ⟨typeId.toUInt64,bind⟩ = none ∧ item.m_TotalCount = 0) := by
  unfold stackOf FindPetItem at stack
  split at stack
  · rename_i old there
    cases stack
    have type := typed _ _ there
    rw [UInt32.toUInt32_toUInt64] at type
    exact ⟨Option.some.inj (type.symm.trans found),Or.inl there⟩
  · rename_i absent
    split at stack
    · cases stack
      exact ⟨rfl,Or.inr ⟨absent,rfl⟩⟩
    · cases stack

theorem addPetItem_exact {p : PetPackage ε} {typeId num : UInt32} {bind memory : Bool} {oldq newq : UInt16} (counted : Counted g p)
    (typed : Typed g p) (found : g.itemBaseTypeManager typeId = some itemType)
    (stack : p.stackOf typeId itemType bind memory = some item) (before : item.Size g 0 = some oldq)
    (after : item.Size g (item.Count g+num.toUInt16) = some newq) :
    Typed g {p with m_ItemSize := p.m_ItemSize-oldq+newq,m_PetItems := p.m_PetItems.insert ⟨typeId.toUInt64,bind⟩ (item.IncItem num.toUInt16)} ∧
      (Counted g {p with m_ItemSize := p.m_ItemSize-oldq+newq,m_PetItems := p.m_PetItems.insert ⟨typeId.toUInt64,bind⟩ (item.IncItem num.toUInt16)} ↔
        Fits g p ⟨typeId.toUInt64,bind⟩ item num.toUInt16 ∧
          Narrow g p (old (slots g) p.m_PetItems ⟨typeId.toUInt64,bind⟩) item num.toUInt16) := by
  obtain ⟨same,there⟩ := stackOf_parts g typed found stack
  have type : g.itemBaseTypeManager typeId.toUInt64.toUInt32 = some item.itemBaseType := by
    rw [same,UInt32.toUInt32_toUInt64]
    exact found
  refine ⟨typed_insert g typed _ (by exact type),?_⟩
  rw [sub_then_add,Fits]
  rcases there with there | ⟨absent,bare⟩
  · have counts : old (slots g) p.m_PetItems ⟨typeId.toUInt64,bind⟩ = slots g item := by rw [old,there]; rfl
    have bounds := grown_bounds g num.toUInt16 before after
    have sizes := counted_insert g counted ⟨typeId.toUInt64,bind⟩ _ _ _ _ (by rw [counts]; exact bounds.1) (by rw [counts]; exact bounds.2)
    rw [sizes,counts,there]
    exact grows_iff g before after
  · have ones := old_ones g typed ⟨typeId.toUInt64,bind⟩ type bare
    have none : old (slots g) p.m_PetItems ⟨typeId.toUInt64,bind⟩ = 0 := by rw [old,absent]; rfl
    have bounds := new_bounds g num.toUInt16 bare (old_lt g p ⟨typeId.toUInt64,bind⟩) ones before
      ⟨_,after,by intro plain; rw [plain,bare,UInt16.zero_add]⟩
    have sizes := counted_insert g counted _ _ _ _ _ bounds.1 bounds.2
    rw [none] at sizes ones
    rw [sizes,none,absent]
    exact begins_iff g bare ones before after

theorem measured_step {p : PetPackage ε} {stocking : Stocking} (counted : Counted g p) (typed : Typed g p) (measured : Measured g p stocking) :
    ∃ answer next, stockingStep g p stocking = some (answer,next) ∧ Stocked g p stocking answer next ∧ Counted g next ∧ Typed g next := by
  cases stocking with
  | AddItemFromDB id num bind memory =>
      obtain ⟨pet,measured⟩ := measured
      cases memory with
      | false => exact ⟨none,p,by simp [stockingStep,AddItemFromDB,pet],⟨counted,trivial⟩,counted,typed⟩
      | true =>
          cases found : g.itemBaseTypeManager id with
          | none => exact ⟨none,p,by simp [stockingStep,AddItemFromDB,pet,found],⟨counted,trivial⟩,counted,typed⟩
          | some itemType =>
              obtain ⟨whole,gains⟩ := measured rfl itemType found
              obtain ⟨oldq,before⟩ := size_there g 0 whole
              obtain ⟨newq,after⟩ := size_there g _ whole
              obtain ⟨next,added,kept,exact⟩ := fromDB_exact g counted typed pet found rfl before after
              exact ⟨_,next,added,⟨exact.mpr gains,trivial⟩,exact.mpr gains,kept⟩
  | AddPetItem typeId num bind memory =>
      have refused : (p.AddPetItem g typeId num bind memory = some (none,p)) →
          ∃ answer next, stockingStep g p (.AddPetItem typeId num bind memory) = some (answer,next) ∧
            Stocked g p (.AddPetItem typeId num bind memory) answer next ∧ Counted g next ∧ Typed g next :=
        fun same => ⟨none,p,same,⟨counted,trivial⟩,counted,typed⟩
      by_cases void : typeId = 0 ∨ num = 0
      · exact refused (by simp [AddPetItem,void])
      by_cases pet : g.IsPetItem typeId = true
      · cases found : g.itemBaseTypeManager typeId with
        | none => exact refused (by simp [AddPetItem,void,pet,found])
        | some itemType =>
            cases stack : p.stackOf typeId itemType (bindCheck itemType.bindType bind) memory with
            | none => exact refused (by simp [AddPetItem,void,pet,found,stack])
            | some item =>
                have sized := measured.resolve_left (fun zero => void (Or.inl zero))
                have sized := (sized.resolve_left (fun zero => void (Or.inr zero))).resolve_left (by simp [pet])
                obtain ⟨oldq,newq,before,after,room⟩ := sized itemType found item stack
                by_cases full : p.m_ItemSize-oldq+newq > INIT_PETGEM_PACK_SIZE
                · exact refused (by simp [AddPetItem,void,pet,found,stack,TryAddPetItem,before,after,full])
                · obtain ⟨kept,exact⟩ := addPetItem_exact g counted typed found stack before after
                  have next := exact.mpr (room.resolve_left full)
                  refine ⟨some (item.IncItem num.toUInt16),_,?_,⟨next,UInt16.not_lt.mp full⟩,next,kept⟩
                  simp [stockingStep,AddPetItem,void,pet,found,stack,TryAddPetItem,before,after,full]
      · exact refused (by simp [AddPetItem,void,pet])

theorem step_measured {p next : PetPackage ε} {stocking : Stocking} (counted : Counted g p) (typed : Typed g p)
    (moved : stockingStep g p stocking = some (answer,next)) (sum : Counted g next) : Measured g p stocking := by
  cases stocking with
  | AddItemFromDB id num bind memory =>
      by_cases pet : g.IsPetItem id = true
      · refine ⟨pet,?_⟩
        intro some itemType found
        subst some
        simp only [stockingStep,AddItemFromDB,pet,found,Bool.not_true,Bool.false_eq_true,↓reduceIte] at moved
        obtain ⟨oldq,before,moved⟩ := Option.bind_eq_some_iff.mp moved
        obtain ⟨newq,after,equal⟩ := Option.map_eq_some_iff.mp moved
        obtain ⟨other,added,_,exact⟩ := fromDB_exact g counted typed pet found rfl before after
        refine ⟨size_whole g before,exact.mp ?_⟩
        simp only [AddItemFromDB,pet,found,before,after,Bool.not_true,Bool.false_eq_true,↓reduceIte,Option.bind_some,Option.map_some] at added
        cases equal
        cases added
        exact sum
      · simp [stockingStep,AddItemFromDB,pet] at moved
  | AddPetItem typeId num bind memory =>
      by_cases zero : typeId = 0
      · exact Or.inl zero
      by_cases none : num = 0
      · exact Or.inr (Or.inl none)
      by_cases pet : g.IsPetItem typeId = true
      · refine Or.inr (Or.inr (Or.inr ?_))
        intro itemType found item stack
        simp only [stockingStep,AddPetItem,zero,none,or_self,pet,found,stack,TryAddPetItem,Bool.not_true,Bool.false_eq_true,↓reduceIte] at moved
        obtain ⟨answer,sized,equal⟩ := Option.map_eq_some_iff.mp moved
        obtain ⟨oldq,before,sized⟩ := Option.bind_eq_some_iff.mp sized
        obtain ⟨newq,after,sized⟩ := Option.map_eq_some_iff.mp sized
        refine ⟨oldq,newq,before,after,?_⟩
        by_cases full : p.m_ItemSize-oldq+newq > INIT_PETGEM_PACK_SIZE
        · exact Or.inl full
        · rw [if_neg full] at sized
          subst sized
          cases equal
          exact Or.inr ((addPetItem_exact g counted typed found stack before after).2.mp sum)
      · exact Or.inr (Or.inr (Or.inl (Bool.not_eq_true _ ▸ pet)))

structure Shelved (p : PetPackage ε) : Prop where
  counted : Counted g p
  typed : Typed g p

theorem shelved_empty : Shelved g (PetPackage.empty : PetPackage ε) :=
  ⟨rfl,by intro key item there; cases there⟩

theorem sizes_exact_iff (history : List Stocking) :
    Along (stockingStep g) (Stocked g) (PetPackage.empty : PetPackage ε) history ↔
      Guarded (stockingStep g) (Measured g) (PetPackage.empty : PetPackage ε) history := by
  apply along_iff_guarded (shelved_empty g)
  · intro p stocking shelved measured
    obtain ⟨answer,next,moved,good,counted,typed⟩ := measured_step g shelved.counted shelved.typed measured
    exact ⟨answer,next,moved,good,counted,typed⟩
  · intro p stocking answer next shelved moved good
    exact step_measured g shelved.counted shelved.typed moved good.1

-- A gem and then another one on its stack: two slots that count as three.
theorem size_drifts : ¬ Along (stockingStep GData.plain) (Stocked GData.plain) (PetPackage.empty : PetPackage Unit)
    [.AddPetItem 1000 1 true true,.AddPetItem 1000 1 true true] := by
  intro along
  obtain ⟨_,_,first,_,_,_,second,⟨counted,_⟩,_⟩ := along
  have sizes : ((stockingStep GData.plain (PetPackage.empty : PetPackage Unit) (.AddPetItem 1000 1 true true)).bind fun (_,p) =>
      (stockingStep GData.plain p (.AddPetItem 1000 1 true true)).map fun (_,p) =>
        (p.m_ItemSize.toNat,weight (slots GData.plain) p.m_PetItems)) = some (3,2) := by decide +kernel
  rw [first,Option.bind_some] at sizes
  dsimp only at sizes
  rw [second,Option.map_some] at sizes
  obtain ⟨three,two⟩ := Prod.mk.inj (Option.some.inj sizes)
  exact absurd (three.symm.trans (counted.trans two)) (by decide)

end GameServer.GObject
