import GameServer.GObject.PetUpgrade

namespace GameServer.GObject
open PetPackage

-- A package gives one of an item that it has, and only that.
structure Materials (μ : Type _) where
  GetItemAnyNum : μ → UInt32 → Nat
  DelItemAny : μ → UInt32 → μ
  taken : ∀ m id, 1 ≤ GetItemAnyNum m id →
    ∀ other, GetItemAnyNum (DelItemAny m id) other = if other = id then GetItemAnyNum m id-1 else GetItemAnyNum m other

structure HoneyFall where
  m_hft_value : UInt8 → UInt32

namespace HoneyFall

def e_HFT_MAX : UInt8 := 5

def checkHft (hft : UInt8) : Bool := hft ≠ 0 && hft < e_HFT_MAX

def getHftValue (hf : HoneyFall) (hft : UInt8) : UInt32 := if checkHft hft then hf.m_hft_value hft else 0

def setHftValue (hf : HoneyFall) (hft : UInt8) (value : UInt32) : HoneyFall :=
  if checkHft hft then ⟨Function.update hf.m_hft_value hft value⟩ else hf

def incHftValue (hf : HoneyFall) (hft : UInt8) : HoneyFall := if checkHft hft then hf.setHftValue hft (hf.m_hft_value hft+1) else hf

end HoneyFall

def s_item : List UInt32 := [582,583,584,585]

-- Names that UpPetEquip uses and does not declare: e_HFT_Pet_NDJJ, the item id
-- of getPetNDRed, the id and the type that the new equip is made of. `id` is
-- the next one of the generator.
structure Names where
  e_HFT_Pet_NDJJ : UInt8
  itemId : UInt32
  typeId : UInt32
  itype : ItemBaseType
  id : UInt64

structure Reforger (μ : Type _) where
  owner : PetOwner
  materials : μ
  honeyFall : Option HoneyFall

-- The level goes down until there is experience for it, and one up there.
def levelDown (g : GData) (exp : UInt32) : Nat → UInt8 → UInt8
  | 0,lv => lv
  | i+1,lv => if exp ≥ g.getEquipExpData (UInt8.ofNat (i+1)) 5 then lv+1 else levelDown g exp i (lv-1)

def ItemPetEq.lowered (g : GData) (equip : ItemPetEq) : ItemPetEq :=
  {equip with m_peAttr := {equip.m_peAttr with lv := levelDown g equip.m_peAttr.exp equip.m_peAttr.lv.toNat equip.m_peAttr.lv}}

namespace Reforger
variable {μ : Type _} (g : GData) (search : PetSearch) (mat : Materials μ) (names : Names)

-- The equip when every check before the materials are taken is passed.
def ready (s : Reforger μ) (petId : UInt16) (equipId : UInt64) : Option (HoneyFall × Spot × ItemPetEq) :=
  s.honeyFall.bind fun hf => (s.owner.FindPetEquip search petId equipId).bind fun spot => (s.owner.equipAt spot).bind fun equip =>
    if s.owner.package.GetPetGemPgRestSize < 1 then none
    else if ∃ id ∈ s_item, mat.GetItemAnyNum s.materials id < 1 then none
    else if equip.itemBaseType.quality ≠ 5 then none
    else if g.GetItemSubClass (g.getPetNDRed names.itemId) ≠ g.Item_PetEquip then none
    else some (hf,spot,equip)

-- `rnd` is uRand(100).
def UpPetEquip (s : Reforger μ) (petId : UInt16) (equipId : UInt64) (rnd : UInt32) : UInt8 × Reforger μ :=
  match s.ready g search mat names petId equipId with
  | none => (2,s)
  | some (hf,spot,equip) =>
    let s := {s with materials := s_item.foldl mat.DelItemAny s.materials}
    let chance := (10+hf.getHftValue names.e_HFT_Pet_NDJJ).toUInt16
    if rnd > chance.toUInt32 then (1,{s with honeyFall := some (hf.incHftValue names.e_HFT_Pet_NDJJ)})
    else if (g.itemBaseTypeManager names.typeId).isNone then (2,s)
    else if equip.m_peAttr.lv > g.getEquipMaxLev then (2,s)
    else
      let old := (equip.lowered g).learn g
      let equip : ItemPetEq := ⟨names.id,names.itype,true,old.m_peAttr⟩
      let owner := (s.owner.write old spot).DelPetEquip equipId
      match owner.package.AddPetEquip ItemPetEq.id (some equip) with
      | (none,package) => (2,{s with owner := {owner with package := package}})
      | (some _,package) =>
        (0,{s with owner := {owner with package := package},honeyFall := some (hf.setHftValue names.e_HFT_Pet_NDJJ 0)})

-- One of each material less, and nothing else.
def Consumed (s next : Reforger μ) : Prop :=
  ∀ id, mat.GetItemAnyNum next.materials id+(if id ∈ s_item then 1 else 0) = mat.GetItemAnyNum s.materials id

def Fresh (o : PetOwner) (id : UInt64) : Prop := ∀ place equip, o.equipAt place = some equip → equip.id ≠ id

-- An equip with an id that nobody had came, the old one left, and nobody else
-- moved.
structure Replaced (spot : Spot) (o next : PetOwner) : Prop where
  items : next.package.m_ItemSize = o.package.m_ItemSize ∧ next.package.m_PetItems = o.package.m_PetItems
  size : next.package.m_EquipSize = o.package.m_EquipSize
  new : ∃ place new, Fresh o new.id ∧ (place = spot ∨ o.equipAt place = none) ∧ next.equipAt place = some new ∧
    ∀ other ≠ place, next.equipAt other = if other = spot then none else o.equipAt other

def Upright (s : Reforger μ) (petId : UInt16) (equipId : UInt64) : UInt8 × Reforger μ → Prop
  | (result,next) => result = 2 ∧ next = s ∨
      result = 1 ∧ Consumed mat s next ∧ next.owner = s.owner ∧
        (∃ hf hf', s.honeyFall = some hf ∧ next.honeyFall = some hf' ∧ ∀ hft ≠ names.e_HFT_Pet_NDJJ, hf'.m_hft_value hft = hf.m_hft_value hft) ∨
      result = 0 ∧ Consumed mat s next ∧ ∃ spot, s.owner.FindPetEquip search petId equipId = some spot ∧ Replaced spot s.owner next.owner

-- What a lucky draw needs: the equip of the bag with id 0, the item type, a
-- level that is not over the highest, room, and a new id.
def Reforgeable (s : Reforger μ) (petId : UInt16) (equipId : UInt64) (rnd : UInt32) : Prop :=
  ∀ hf spot equip, s.ready g search mat names petId equipId = some (hf,spot,equip) →
    rnd ≤ (10+hf.getHftValue names.e_HFT_Pet_NDJJ).toUInt16.toUInt32 →
      petId = 0 ∧ equipId = 0 ∧ (g.itemBaseTypeManager names.typeId).isSome ∧ equip.m_peAttr.lv ≤ g.getEquipMaxLev ∧
        s.owner.package.m_EquipSize-1 < INIT_PETARM_PACK_SIZE ∧ Fresh s.owner names.id

variable {g : GData} {search : PetSearch} {mat : Materials μ} {names : Names}

theorem consumed_list (items : List UInt32) (distinct : items.Nodup) (m : μ) (enough : ∀ id ∈ items, 1 ≤ mat.GetItemAnyNum m id) (id : UInt32) :
    mat.GetItemAnyNum (items.foldl mat.DelItemAny m) id+(if id ∈ items then 1 else 0) = mat.GetItemAnyNum m id := by
  induction items generalizing m with
  | nil => rfl
  | cons item items ih =>
      obtain ⟨other,distinct⟩ := List.nodup_cons.mp distinct
      have some := enough item List.mem_cons_self
      have taken := mat.taken m item some
      have rest := ih distinct (mat.DelItemAny m item) (by
        intro id member
        have apart : id ≠ item := fun same => other (same ▸ member)
        rw [taken,if_neg apart]
        exact enough id (List.mem_cons_of_mem _ member))
      rw [List.foldl_cons]
      rw [taken] at rest
      by_cases here : id = item
      · subst here
        simp only [other,List.mem_cons,true_or,↓reduceIte] at rest ⊢
        omega
      · simpa [here] using rest

theorem ready_parts {s : Reforger μ} {petId : UInt16} {equipId : UInt64} (ready : s.ready g search mat names petId equipId = some (hf,spot,equip)) :
    s.honeyFall = some hf ∧ s.owner.FindPetEquip search petId equipId = some spot ∧ s.owner.equipAt spot = some equip ∧
      ∀ id ∈ s_item, 1 ≤ mat.GetItemAnyNum s.materials id := by
  obtain ⟨hf',falls,ready⟩ := Option.bind_eq_some_iff.mp ready
  obtain ⟨spot',found,ready⟩ := Option.bind_eq_some_iff.mp ready
  obtain ⟨equip',there,ready⟩ := Option.bind_eq_some_iff.mp ready
  split at ready
  · cases ready
  split at ready
  · cases ready
  rename_i enough
  split at ready
  · cases ready
  split at ready
  · cases ready
  · cases ready
    refine ⟨falls,found,there,?_⟩
    intro id member
    by_contra few
    exact enough ⟨id,member,Nat.lt_of_not_le few⟩

theorem consumed (s : Reforger μ) (enough : ∀ id ∈ s_item, 1 ≤ mat.GetItemAnyNum s.materials id) (next : Reforger μ)
    (taken : next.materials = s_item.foldl mat.DelItemAny s.materials) : Consumed mat s next := by
  intro id
  rw [taken]
  exact consumed_list s_item (by decide) s.materials enough id

-- A refusal that comes after the materials were taken.
theorem late_refusal {s next : Reforger μ} {petId : UInt16} {equipId : UInt64} (consumed : Consumed mat s next) :
    ¬ Upright search mat names s petId equipId (2,next) := by
  intro upright
  obtain ⟨_,same⟩ | ⟨wrong,_⟩ | ⟨wrong,_⟩ := upright
  · have one := consumed 582
    rw [same,if_pos (by decide)] at one
    omega
  · cases wrong
  · cases wrong

theorem equipAt_put (o : PetOwner) (equip : ItemPetEq) (other : Spot) :
    ({o with package := o.package.putEquip ItemPetEq.id equip} : PetOwner).equipAt other =
      if other = .bag equip.id then some equip else o.equipAt other := by
  cases other with
  | bag id => simp [PetOwner.equipAt]
  | worn petId pos => simp [PetOwner.equipAt]

theorem size_write (o : PetOwner) (equip : ItemPetEq) (spot : Spot) : (o.write equip spot).package.m_EquipSize = o.package.m_EquipSize := by
  cases spot <;> rfl

theorem size_del {o : PetOwner} {id : UInt64} (there : o.equipAt (.bag id) = some equip) :
    (o.DelPetEquip id).package.m_EquipSize = o.package.m_EquipSize-1 := by
  have found : o.package.m_PetEquips.lookup id = some equip := there
  simp [PetOwner.DelPetEquip,PetPackage.DelPetEquip,found,PetPackage.takeEquip]

-- The old equip written, an id deleted, and the new equip put in the bag.
def reforged (o : PetOwner) (old : ItemPetEq) (spot : Spot) (id : UInt64) (new : ItemPetEq) : PetOwner :=
  {(o.write old spot).DelPetEquip id with package := ((o.write old spot).DelPetEquip id).package.putEquip ItemPetEq.id new}

theorem items_kept (o : PetOwner) (old new : ItemPetEq) (spot : Spot) (id : UInt64) :
    (reforged o old spot id new).package.m_ItemSize = o.package.m_ItemSize ∧
      (reforged o old spot id new).package.m_PetItems = o.package.m_PetItems := by
  have same : ((o.write old spot).DelPetEquip id).package.m_ItemSize = o.package.m_ItemSize ∧
      ((o.write old spot).DelPetEquip id).package.m_PetItems = o.package.m_PetItems := by
    unfold PetOwner.DelPetEquip PetPackage.DelPetEquip
    dsimp only
    split <;> cases spot <;> exact ⟨rfl,rfl⟩
  exact same

-- Where everybody is then.
theorem reforged_at {o : PetOwner} (there : o.equipAt spot = some equip) (old new : ItemPetEq) (id : UInt64) (other : Spot) :
    (reforged o old spot id new).equipAt other =
      if other = .bag new.id then some new else if other = .bag id then none else if other = spot then some old else o.equipAt other := by
  rw [reforged,equipAt_put,PetOwner.equipAt_del,PetOwner.equipAt_write o old there]

-- Whoever was replaced is not at its place any more.
theorem replaced_away {o next : PetOwner} (replaced : Replaced spot o next) (there : o.equipAt spot = some equip)
    (found : next.equipAt spot = some stays) : stays.id ≠ equip.id := by
  obtain ⟨place,came,fresh,_,here,others⟩ := replaced.new
  intro self
  by_cases own : place = spot
  · subst own
    cases here.symm.trans found
    exact fresh place equip there self.symm
  · rw [others spot (Ne.symm own),if_pos rfl] at found
    cases found

theorem replaced_fresh {o : PetOwner} (there : o.equipAt spot = some equip) {old : ItemPetEq} (same : old.id = equip.id)
    (new : ItemPetEq) (id : UInt64) (replaced : Replaced spot o (reforged o old spot id new)) : Fresh o new.id := by
  have placed := reforged_at there old new id
  obtain ⟨place,came,fresh,free,here,_⟩ := replaced.new
  by_cases own : place = .bag new.id
  · subst own
    rw [placed,if_pos rfl] at here
    cases here
    exact fresh
  · rw [placed,if_neg own] at here
    split at here
    · cases here
    · rename_i kept
      split at here
      · rename_i self
        subst self
        have stays := (placed place).trans (by rw [if_neg own,if_neg kept,if_pos rfl])
        exact absurd same (replaced_away replaced there stays)
      · rename_i other
        rw [free.resolve_left other] at here
        cases here

theorem replaced_bag {o : PetOwner} (keyed : o.Keyed) {id : UInt64} (there : o.equipAt (.bag id) = some equip) (old new : ItemPetEq)
    (unknown : Fresh o new.id) : Replaced (.bag id) o (reforged o old (.bag id) id new) := by
  have placed := reforged_at there old new id
  have free : o.equipAt (.bag new.id) = none := by
    by_contra taken
    obtain ⟨other,found⟩ := Option.ne_none_iff_exists'.mp taken
    exact unknown _ other found (keyed _ _ found)
  have written := PetOwner.equipAt_write o old there
  have own : (o.write old (.bag id)).equipAt (.bag id) = some old := (written _).trans (if_pos rfl)
  refine ⟨items_kept o old new _ id,?_,.bag new.id,new,unknown,Or.inr free,(placed _).trans (if_pos rfl),?_⟩
  · have absent : ((o.write old (.bag id)).DelPetEquip id).package.m_PetEquips.lookup new.id = none := by
      have gone : ((o.write old (.bag id)).DelPetEquip id).equipAt (.bag new.id) = none := by
        rw [PetOwner.equipAt_del,written,free]
        split
        · rfl
        · rfl
      exact gone
    simp [reforged,PetPackage.putEquip,absent,size_del own,size_write]
  · intro other apart
    rw [placed,if_neg apart]
    split
    · rfl
    · rfl

theorem replaced_iff {o : PetOwner} (keyed : o.Keyed) (there : o.equipAt spot = some equip) {old : ItemPetEq} (same : old.id = equip.id)
    (new : ItemPetEq) (id : UInt64) : Replaced spot o (reforged o old spot id new) ↔ spot = .bag id ∧ Fresh o new.id := by
  constructor
  · intro replaced
    have unknown := replaced_fresh there same new id replaced
    refine ⟨?_,unknown⟩
    by_contra apart
    have other : spot ≠ .bag new.id := by
      intro at_
      subst at_
      exact unknown _ equip there (keyed _ _ there)
    have stays := (reforged_at there old new id spot).trans (by rw [if_neg other,if_neg apart,if_pos rfl])
    exact replaced_away replaced there stays same
  · intro ⟨at_,unknown⟩
    subst at_
    exact replaced_bag keyed there old new unknown

theorem lowered_id (equip : ItemPetEq) : ((equip.lowered g).learn g).id = equip.id := by
  unfold ItemPetEq.learn
  dsimp only
  split <;> rfl

-- A lucky draw that passed the two late checks.
theorem lucky_iff {o : Collector} (m : μ) (hf : HoneyFall) {petId : UInt16} {equipId : UInt64} {rnd : UInt32}
    (ready : (⟨o.toPetOwner,m,some hf⟩ : Reforger μ).ready g search mat names petId equipId = some (hf,spot,equip))
    (lucky : ¬ rnd > (10+hf.getHftValue names.e_HFT_Pet_NDJJ).toUInt16.toUInt32) (type : (g.itemBaseTypeManager names.typeId).isSome)
    (level : ¬ equip.m_peAttr.lv > g.getEquipMaxLev) :
    Upright search mat names ⟨o.toPetOwner,m,some hf⟩ petId equipId
      ((⟨o.toPetOwner,m,some hf⟩ : Reforger μ).UpPetEquip g search mat names petId equipId rnd) ↔
      petId = 0 ∧ equipId = 0 ∧ o.package.m_EquipSize-1 < INIT_PETARM_PACK_SIZE ∧ Fresh o.toPetOwner names.id := by
  obtain ⟨_,found,there,enough⟩ := ready_parts ready
  have exact := replaced_iff o.keyed there (lowered_id (g := g) equip) ⟨names.id,names.itype,true,((equip.lowered g).learn g).m_peAttr⟩ equipId
  have typed : (g.itemBaseTypeManager names.typeId).isNone = false := by
    rw [Option.isNone_eq_false_iff]
    exact type
  have bag : spot = .bag equipId ↔ petId = 0 ∧ equipId = 0 := by
    obtain ⟨_,_,⟨at_,pet⟩ | ⟨pos,at_,pet⟩⟩ := o.find_there search petId equipId found
    · rw [at_]
      simp [pet,eq_comm]
    · rw [at_]
      simp [pet]
  unfold UpPetEquip
  rw [ready]
  simp only [lucky,typed,level,Bool.false_eq_true,↓reduceIte,PetPackage.AddPetEquip,PetPackage.full_iff]
  by_cases full : INIT_PETARM_PACK_SIZE ≤ ((o.write ((equip.lowered g).learn g) spot).DelPetEquip equipId).package.m_EquipSize
  · rw [if_pos full]
    refine iff_of_false (late_refusal (consumed _ enough _ rfl)) ?_
    intro ⟨pet,id,room,_⟩
    have own := (o.toPetOwner.equipAt_write ((equip.lowered g).learn g) there spot).trans (if_pos rfl)
    rw [bag.mpr ⟨pet,id⟩] at own full
    rw [size_del own,size_write] at full
    exact absurd room (UInt16.not_lt.mpr full)
  · rw [if_neg full]
    have room (at_ : spot = .bag equipId) : o.package.m_EquipSize-1 < INIT_PETARM_PACK_SIZE := by
      have own := (o.toPetOwner.equipAt_write ((equip.lowered g).learn g) there spot).trans (if_pos rfl)
      rw [at_] at own full
      rw [size_del own,size_write] at full
      exact UInt16.not_le.mp full
    constructor
    · intro upright
      obtain ⟨wrong,_⟩ | ⟨wrong,_⟩ | ⟨_,_,spot',found',replaced⟩ := upright
      · cases wrong
      · cases wrong
      · cases found.symm.trans found'
        obtain ⟨at_,fresh⟩ := exact.mp replaced
        obtain ⟨pet,id⟩ := bag.mp at_
        exact ⟨pet,id,room at_,fresh⟩
    · intro ⟨pet,id,_,fresh⟩
      exact Or.inr (Or.inr ⟨rfl,consumed _ enough _ rfl,spot,found,exact.mpr ⟨bag.mpr ⟨pet,id⟩,fresh⟩⟩)

theorem reforge_exact_iff (g : GData) (search : PetSearch) (mat : Materials μ) (names : Names) (o : Collector) (m : μ) (honeyFall : Option HoneyFall)
    (petId : UInt16) (equipId : UInt64) (rnd : UInt32) :
    Upright search mat names ⟨o.toPetOwner,m,honeyFall⟩ petId equipId
      ((⟨o.toPetOwner,m,honeyFall⟩ : Reforger μ).UpPetEquip g search mat names petId equipId rnd) ↔
      Reforgeable g search mat names ⟨o.toPetOwner,m,honeyFall⟩ petId equipId rnd := by
  unfold Reforgeable
  cases ready : (⟨o.toPetOwner,m,honeyFall⟩ : Reforger μ).ready g search mat names petId equipId with
  | none =>
      rw [UpPetEquip,ready]
      exact iff_of_true (Or.inl ⟨rfl,rfl⟩) (by intro hf spot equip wrong; cases wrong)
  | some found =>
      obtain ⟨hf,spot,equip⟩ := found
      obtain ⟨falls,_,_,enough⟩ := ready_parts ready
      subst falls
      by_cases unlucky : rnd > (10+hf.getHftValue names.e_HFT_Pet_NDJJ).toUInt16.toUInt32
      · refine iff_of_true ?_ ?_
        · rw [UpPetEquip,ready]
          dsimp only
          rw [if_pos unlucky]
          refine Or.inr (Or.inl ⟨rfl,consumed _ enough _ rfl,rfl,hf,_,rfl,rfl,?_⟩)
          intro hft other
          unfold HoneyFall.incHftValue HoneyFall.setHftValue
          split
          · exact Function.update_of_ne other _ _
          · rfl
        · intro hf' spot' equip' same lucky
          cases same
          exact absurd unlucky (UInt32.not_lt.mpr lucky)
      by_cases type : (g.itemBaseTypeManager names.typeId).isSome
      · by_cases level : equip.m_peAttr.lv > g.getEquipMaxLev
        · refine iff_of_false ?_ ?_
          · rw [UpPetEquip,ready]
            dsimp only
            rw [if_neg unlucky,if_neg (by simpa [Option.isSome_iff_ne_none] using type),if_pos level]
            exact late_refusal (consumed _ enough _ rfl)
          · intro reforgeable
            exact absurd level (UInt8.not_lt.mpr (reforgeable hf spot equip rfl (UInt32.not_lt.mp unlucky)).2.2.2.1)
        · rw [lucky_iff m hf ready unlucky type level]
          constructor
          · intro ⟨pet,id,room,fresh⟩ hf' spot' equip' same _
            cases same
            exact ⟨pet,id,type,UInt8.not_lt.mp level,room,fresh⟩
          · intro reforgeable
            obtain ⟨pet,id,_,_,room,fresh⟩ := reforgeable hf spot equip rfl (UInt32.not_lt.mp unlucky)
            exact ⟨pet,id,room,fresh⟩
      · refine iff_of_false ?_ ?_
        · rw [UpPetEquip,ready]
          dsimp only
          rw [if_neg unlucky,if_pos (by simpa using type)]
          exact late_refusal (consumed _ enough _ rfl)
        · intro reforgeable
          exact type (reforgeable hf spot equip rfl (UInt32.not_lt.mp unlucky)).2.2.1

def Materials.plain : Materials (UInt32 → Nat) where
  GetItemAnyNum m := m
  DelItemAny m id := Function.update m id (m id-1)
  taken := by
    intro m id _ other
    by_cases here : other = id
    · subst here
      simp
    · simp [here]

-- The equip that the pet wears: it is still there when its successor comes.
theorem old_stays : ¬ Upright PetSearch.plain Materials.plain ⟨1,7,5000,⟨2,1,5,1,0,10⟩,9⟩
    ⟨PetOwner.keeper.toPetOwner,fun _ => 1,some ⟨fun _ => 0⟩⟩ 1 7
    ((⟨PetOwner.keeper.toPetOwner,fun _ => 1,some ⟨fun _ => 0⟩⟩ : Reforger (UInt32 → Nat)).UpPetEquip GData.plain PetSearch.plain Materials.plain
      ⟨1,7,5000,⟨2,1,5,1,0,10⟩,9⟩ 1 7 0) := by
  intro upright
  have ready : (⟨PetOwner.keeper.toPetOwner,fun _ => 1,some ⟨fun _ => 0⟩⟩ : Reforger (UInt32 → Nat)).ready GData.plain PetSearch.plain Materials.plain
      ⟨1,7,5000,⟨2,1,5,1,0,10⟩,9⟩ 1 7 = some (⟨fun _ => 0⟩,.worn 1 0,⟨7,⟨2,1,5,1,0,10⟩,true,⟨1,0,0,fun _ => 0⟩⟩) := rfl
  obtain ⟨pet,_⟩ := (lucky_iff _ _ ready (by decide) rfl (by decide)).mp upright
  exact absurd pet (by decide)

end Reforger

end GameServer.GObject
