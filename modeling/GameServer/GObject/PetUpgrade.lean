import GameServer.Common.StringTokenizer
import GameServer.GObject.PetOwner

namespace GameServer.GObject
open PetPackage

-- The level loop: `steps` levels are left up to the highest.
def levelUp (g : GData) (exp : UInt32) (rank : Int) : Nat → UInt8 → UInt8
  | 0,lv => lv
  | steps+1,lv => if exp < g.getEquipExpData lv rank then lv else levelUp g exp rank steps (lv+1)

namespace ItemPetEq
variable (g : GData)

def rank (equip : ItemPetEq) : Int := equip.itemBaseType.quality.toNat-2

def upExp (equip : ItemPetEq) : UInt32 := g.getEquipExpData equip.m_peAttr.lv equip.rank

def hasGem (equip : ItemPetEq) : Prop := ∃ i, g.GetItemSubClass (equip.m_peAttr.gems i).toUInt32 = g.Item_PetGem

instance (equip : ItemPetEq) : Decidable (equip.hasGem g) := inferInstanceAs (Decidable (∃ _, _))

-- equipUpgrade(equip, eatEq): its result, and what it writes to the equip.
def equipUpgrade (equip eatEq : ItemPetEq) : UInt64 × Option ItemPetEq :=
  if equip.upExp g = 0 then (0,none)
  else
    let exp := equip.m_peAttr.exp+(eatEq.itemBaseType.trumpExp+eatEq.m_peAttr.exp)
    if exp ≥ equip.upExp g then
      let lv := levelUp g exp equip.rank (g.getEquipMaxLev.toNat-equip.m_peAttr.lv.toNat) equip.m_peAttr.lv
      if lv ≥ g.getEquipMaxLev then (1,some {equip with m_peAttr := {equip.m_peAttr with lv := g.getEquipMaxLev,exp := exp}})
      else (eatEq.id,some {equip with m_peAttr := {equip.m_peAttr with lv := lv,exp := exp}})
    else (eatEq.id,some {equip with m_peAttr := {equip.m_peAttr with exp := exp}})

-- The skill of the level.
def learn (equip : ItemPetEq) : ItemPetEq :=
  let skillLev := g.getEquipSkilLev equip.m_peAttr.lv
  let skill := g.SKILLANDLEVEL (g.SKILL_ID equip.m_peAttr.skill) skillLev
  if skillLev ≠ 0 ∧ skill ≠ equip.m_peAttr.skill then {equip with m_peAttr := {equip.m_peAttr with skill := skill}} else equip

end ItemPetEq

-- The keys of the equips whose experience was added so far, the last one first.
structure Meal where
  owner : PetOwner
  fed : List UInt64

namespace PetOwner
variable (g : GData) (search : PetSearch) (spot : Spot)

-- FindPetEquip(id) and DelPetEquip(id) take the same id at two widths.
def itemId (token : List Char) : UInt64 := UInt64.ofInt (atoll token)
def itemKey (token : List Char) : UInt64 := (itemId token).toUInt32.toUInt64

-- One id of the list, and whether it is the last one to be looked at. `none`:
-- the upgraded equip is read after it was deleted.
def feed (m : Meal) (token : List Char) : Option (Bool × Meal) :=
  match m.owner.equipAt (.bag (itemKey token)) with
  | none => some (false,m)
  | some eatEq =>
    if eatEq.hasGem g then some (false,m)
    else (m.owner.equipAt spot).map fun equip =>
      let (res,written) := equip.equipUpgrade g eatEq
      let res := res.toUInt32
      let m := match written with
        | none => m
        | some fat => ⟨m.owner.write fat spot,itemKey token :: m.fed⟩
      if res > 0 then (decide (res = 1),{m with owner := m.owner.DelPetEquip (itemId token)}) else (false,m)

def feedAll (m : Meal) : List (List Char) → Option (Bool × Meal)
  | [] => some (false,m)
  | token :: tokens => (feed g spot m token).bind fun (last,m) => if last then some (true,m) else feedAll m tokens

-- for(UInt8 i = 0; i < tk.count(); ++i): with more than 255 tokens the first
-- 256 come round again.
def feedRounds (tokens : List (List Char)) : Nat → Meal → Option Meal
  | 0,_ => none
  | rounds+1,m => (feedAll g spot m (tokens.take 256)).bind fun (last,m) =>
      if last || tokens.length < 256 then some m else feedRounds tokens rounds m

def equipUpgrade (o : PetOwner) (petId : UInt32) (equipId : UInt64) (idStr : List Char) (rounds : Nat) : Option (UInt8 × Meal) :=
  match o.FindPetEquip search petId.toUInt16 equipId with
  | none => some (0,⟨o,[]⟩)
  | some spot => (o.equipAt spot).bind fun equip =>
      if equip.m_peAttr.lv ≥ g.getEquipMaxLev then some (0,⟨o,[]⟩)
      else (feedRounds g spot (StringTokenizer idStr ',') rounds ⟨o,[]⟩).bind fun m =>
        (m.owner.equipAt spot).map fun equip => (1,{m with owner := m.owner.write (equip.learn g) spot})

-- trumpExp + exp
def worth (o : PetOwner) (key : UInt64) : Nat :=
  (o.equipAt (.bag key)).elim 0 fun eatEq => eatEq.itemBaseType.trumpExp.toNat+eatEq.m_peAttr.exp.toNat

-- Whose experience was added is who left the bag, once each, and the upgraded
-- equip is there with the sum.
structure Fair (o : PetOwner) (petId : UInt32) (equipId : UInt64) (m : Meal) : Prop where
  once : m.fed.Nodup
  removed : ∀ key, key ∈ m.fed ↔ o.equipAt (.bag key) ≠ none ∧ m.owner.equipAt (.bag key) = none
  gained : ∀ spot equip, o.FindPetEquip search petId.toUInt16 equipId = some spot → o.equipAt spot = some equip →
    ∃ fat, m.owner.equipAt spot = some fat ∧ fat.m_peAttr.exp.toNat = equip.m_peAttr.exp.toNat+(m.fed.map (worth o)).sum

-- The equip that is fed and the one that it eats.
def eats (o : PetOwner) (token : List Char) : Option (ItemPetEq × ItemPetEq) :=
  (o.equipAt (.bag (itemKey token))).bind fun eatEq =>
    if eatEq.hasGem g then none
    else (o.equipAt spot).bind fun equip => if equip.upExp g = 0 then none else some (equip,eatEq)

-- Enough experience for every level up to the highest.
def Tops (equip eatEq : ItemPetEq) : Prop :=
  ∀ lv, equip.m_peAttr.lv ≤ lv → lv < g.getEquipMaxLev →
    g.getEquipExpData lv equip.rank ≤ equip.m_peAttr.exp+(eatEq.itemBaseType.trumpExp+eatEq.m_peAttr.exp)

-- Whom the id names at 32 bits it names at 64, which is not the upgraded equip,
-- not 0 below the highest level, and the sum stays in 32 bits.
def Paid (o : PetOwner) (token : List Char) : Prop :=
  ∀ equip eatEq, eats g spot o token = some (equip,eatEq) → itemId token = itemKey token ∧ spot ≠ .bag (itemKey token) ∧
    (itemKey token = 0 → Tops g equip eatEq) ∧
    equip.m_peAttr.exp.toNat+(eatEq.itemBaseType.trumpExp.toNat+eatEq.m_peAttr.exp.toNat) < 2^32

def Stops (o : PetOwner) (token : List Char) : Prop :=
  ∃ equip eatEq, eats g spot o token = some (equip,eatEq) ∧ (Tops g equip eatEq ∨ itemKey token = 1)

-- Every id that is looked at is paid for, and one of them ends the loop unless
-- the list does.
def Paying (short : Prop) (m : Meal) : List (List Char) → Prop
  | [] => short
  | token :: tokens => Paid g spot m.owner token ∧
      (Stops g spot m.owner token ∨ ∀ next, feed g spot m token = some (false,next) → Paying short next tokens)

end PetOwner

-- The loop ends at the highest level exactly if there is experience for every
-- level on the way.
theorem levelUp_spec (g : GData) (exp : UInt32) (rank : Int) (steps : Nat) (lv : UInt8) (left : lv.toNat+steps = g.getEquipMaxLev.toNat) :
    levelUp g exp rank steps lv ≤ g.getEquipMaxLev ∧
    (levelUp g exp rank steps lv ≥ g.getEquipMaxLev ↔ ∀ i, lv ≤ i → i < g.getEquipMaxLev → g.getEquipExpData i rank ≤ exp) := by
  induction steps generalizing lv with
  | zero =>
      have top : lv = g.getEquipMaxLev := UInt8.toNat_inj.mp left
      subst top
      refine ⟨UInt8.le_refl _,iff_of_true (UInt8.le_refl _) ?_⟩
      intro i above below
      exact absurd below (UInt8.not_lt.mpr above)
  | succ steps ih =>
      have below : lv < g.getEquipMaxLev := UInt8.lt_iff_toNat_lt.mpr (by omega)
      have more := g.getEquipMaxLev.toNat_lt
      have next : (lv+1).toNat = lv.toNat+1 := by
        have one : (1 : UInt8).toNat = 1 := rfl
        rw [UInt8.toNat_add,one]
        exact Nat.mod_eq_of_lt (by omega)
      have after (i : UInt8) : lv+1 ≤ i ↔ lv ≤ i ∧ i ≠ lv := by
        rw [UInt8.le_iff_toNat_le,UInt8.le_iff_toNat_le,ne_eq,← UInt8.toNat_inj,next]
        omega
      rw [levelUp]
      split
      · rename_i short
        refine ⟨UInt8.le_of_lt below,iff_of_false (UInt8.not_le.mpr below) ?_⟩
        intro enough
        exact absurd short (UInt32.not_lt.mpr (enough lv (UInt8.le_refl _) below))
      · rename_i enough
        obtain ⟨most,exact⟩ := ih (lv+1) (by omega)
        refine ⟨most,exact.trans ⟨?_,?_⟩⟩
        · intro above i least most
          by_cases here : i = lv
          · subst here
            exact UInt32.not_lt.mp enough
          · exact above i ((after i).mpr ⟨least,here⟩) most
        · intro above i least most
          exact above i ((after i).mp least).1 most

namespace PetOwner
variable {g : GData} {spot : Spot}

-- What equipUpgrade leaves of an equip that may still rise.
structure Fattened (g : GData) (equip eatEq : ItemPetEq) (res : UInt64) (fat : ItemPetEq) : Prop where
  same : fat.id = equip.id ∧ fat.m_peAttr.gems = equip.m_peAttr.gems
  exp : fat.m_peAttr.exp = equip.m_peAttr.exp+(eatEq.itemBaseType.trumpExp+eatEq.m_peAttr.exp)
  res : Tops g equip eatEq ∧ res = 1 ∨ ¬ Tops g equip eatEq ∧ res = eatEq.id ∧ fat.m_peAttr.lv < g.getEquipMaxLev

theorem upgrade_fattens (equip eatEq : ItemPetEq) (below : equip.m_peAttr.lv < g.getEquipMaxLev) (rises : equip.upExp g ≠ 0) :
    ∃ res fat, equip.equipUpgrade g eatEq = (res,some fat) ∧ Fattened g equip eatEq res fat := by
  have steps := UInt8.lt_iff_toNat_lt.mp below
  obtain ⟨most,top⟩ := levelUp_spec g (equip.m_peAttr.exp+(eatEq.itemBaseType.trumpExp+eatEq.m_peAttr.exp)) equip.rank
    (g.getEquipMaxLev.toNat-equip.m_peAttr.lv.toNat) equip.m_peAttr.lv (by omega)
  unfold ItemPetEq.equipUpgrade
  rw [if_neg rises]
  dsimp only
  split
  · split
    · rename_i high
      exact ⟨_,_,rfl,⟨rfl,rfl⟩,rfl,Or.inl ⟨top.mp high,rfl⟩⟩
    · rename_i low
      exact ⟨_,_,rfl,⟨rfl,rfl⟩,rfl,Or.inr ⟨fun tops => low (top.mpr tops),rfl,UInt8.not_le.mp low⟩⟩
  · rename_i short
    exact ⟨_,_,rfl,⟨rfl,rfl⟩,rfl,Or.inr ⟨fun tops => short (tops _ (UInt8.le_refl _) below),rfl,below⟩⟩

theorem eats_parts {o : PetOwner} {token : List Char} (eaten : eats g spot o token = some (equip,eatEq)) :
    o.equipAt (.bag (itemKey token)) = some eatEq ∧ ¬ eatEq.hasGem g ∧ o.equipAt spot = some equip ∧ equip.upExp g ≠ 0 := by
  obtain ⟨other,there,eaten⟩ := Option.bind_eq_some_iff.mp eaten
  split at eaten
  · cases eaten
  · rename_i bare
    obtain ⟨self,placed,eaten⟩ := Option.bind_eq_some_iff.mp eaten
    split at eaten
    · cases eaten
    · rename_i rises
      cases eaten
      exact ⟨there,bare,placed,rises⟩

-- The id is of no equip, or of one with a gem, or there is no next level.
def Idle (g : GData) (spot : Spot) (o : PetOwner) (token : List Char) : Prop :=
  o.equipAt (.bag (itemKey token)) = none ∨ (∃ eatEq, o.equipAt (.bag (itemKey token)) = some eatEq ∧ eatEq.hasGem g) ∨
    ∃ equip, o.equipAt spot = some equip ∧ equip.upExp g = 0

theorem idle_or_eats (o : PetOwner) (token : List Char) (there : o.equipAt spot = some equip) :
    Idle g spot o token ∨ ∃ eatEq, eats g spot o token = some (equip,eatEq) := by
  obtain absent | ⟨eatEq,found⟩ := Option.eq_none_or_eq_some (o.equipAt (.bag (itemKey token)))
  · exact Or.inl (Or.inl absent)
  by_cases gem : eatEq.hasGem g
  · exact Or.inl (Or.inr (Or.inl ⟨eatEq,found,gem⟩))
  by_cases flat : equip.upExp g = 0
  · exact Or.inl (Or.inr (Or.inr ⟨equip,there,flat⟩))
  · exact Or.inr ⟨eatEq,by simp [eats,found,gem,there,flat]⟩

theorem not_eats (idle : Idle g spot o token) : eats g spot o token = none := by
  obtain absent | ⟨eatEq,found,gem⟩ | ⟨equip,there,flat⟩ := idle
  · simp [eats,absent]
  · simp [eats,found,gem]
  · simp [eats,there,flat]

theorem idle_feed {m : Meal} (idle : Idle g spot m.owner token) : feed g spot m token = some (false,m) := by
  unfold feed
  obtain absent | ⟨eatEq,found⟩ := Option.eq_none_or_eq_some (m.owner.equipAt (.bag (itemKey token)))
  · rw [absent]
  rw [found]
  by_cases gem : eatEq.hasGem g
  · simp [gem]
  · obtain absent | ⟨other,found',gem'⟩ | ⟨equip,there,flat⟩ := idle
    · cases absent.symm.trans found
    · cases found.symm.trans found'
      exact absurd gem' gem
    · simp [gem,there,ItemPetEq.equipUpgrade,flat]

-- One equip was eaten: it is in the books, and whoever has the id at 64 bits
-- is deleted unless the result is 0.
structure Ate (g : GData) (spot : Spot) (m : Meal) (token : List Char) (equip eatEq : ItemPetEq) (last : Bool) (next : Meal) (fat : ItemPetEq) : Prop where
  same : fat.id = equip.id ∧ fat.m_peAttr.gems = equip.m_peAttr.gems
  exp : fat.m_peAttr.exp = equip.m_peAttr.exp+(eatEq.itemBaseType.trumpExp+eatEq.m_peAttr.exp)
  low : last = false → fat.m_peAttr.lv < g.getEquipMaxLev
  stops : last = true ↔ Tops g equip eatEq ∨ itemKey token = 1
  fed : next.fed = itemKey token :: m.fed
  gone : Tops g equip eatEq ∨ itemKey token ≠ 0 → next.owner.equipAt (.bag (itemId token)) = none
  kept : ∀ other, other ≠ .bag (itemId token) ∨ ¬ (Tops g equip eatEq ∨ itemKey token ≠ 0) →
    next.owner.equipAt other = if other = spot then some fat else m.owner.equipAt other

theorem itemKey_narrow (token : List Char) (n : UInt32) : (itemKey token).toUInt32 = n ↔ itemKey token = n.toUInt64 := by
  unfold itemKey
  rw [UInt32.toUInt32_toUInt64]
  exact UInt32.toUInt64_inj.symm

theorem feed_eats {m : Meal} {token : List Char} (keyed : Keyed m.owner) (eaten : eats g spot m.owner token = some (equip,eatEq))
    (below : equip.m_peAttr.lv < g.getEquipMaxLev) :
    ∃ last next fat, feed g spot m token = some (last,next) ∧ Ate g spot m token equip eatEq last next fat := by
  obtain ⟨found,bare,there,rises⟩ := eats_parts eaten
  obtain ⟨res,fat,upgraded,fattened⟩ := upgrade_fattens equip eatEq below rises
  have id := keyed _ _ found
  have zero := itemKey_narrow token 0
  have one := itemKey_narrow token 1
  have written (other : Spot) := equipAt_write m.owner fat there other
  obtain ⟨tops,first⟩ | ⟨low,own,lower⟩ := fattened.res
  · subst first
    refine ⟨true,⟨(m.owner.write fat spot).DelPetEquip (itemId token),itemKey token :: m.fed⟩,fat,?_,fattened.same,fattened.exp,?_,?_,rfl,?_,?_⟩
    · simp [feed,found,bare,there,upgraded]
    · simp
    · simp [tops]
    · intro _
      rw [equipAt_del,if_pos rfl]
    · intro other kept
      rw [equipAt_del,if_neg (kept.resolve_right fun no => no (Or.inl tops)),written]
  · rw [id] at own
    subst own
    by_cases void : itemKey token = 0
    · refine ⟨false,⟨m.owner.write fat spot,itemKey token :: m.fed⟩,fat,?_,fattened.same,fattened.exp,fun _ => lower,?_,rfl,?_,?_⟩
      · have none : (itemKey token).toUInt32 = 0 := zero.mpr void
        simp [feed,found,bare,there,upgraded,none]
      · simp [low,void]
      · simp [low,void]
      · intro other _
        exact written other
    · refine ⟨decide (itemKey token = 1),⟨(m.owner.write fat spot).DelPetEquip (itemId token),itemKey token :: m.fed⟩,fat,?_,fattened.same,
        fattened.exp,fun _ => lower,?_,rfl,?_,?_⟩
      · have some : (itemKey token).toUInt32 > 0 := UInt32.pos_iff_ne_zero.mpr fun none => void (zero.mp none)
        simpa [feed,found,bare,there,upgraded,some] using one
      · simp [low]
      · intro _
        rw [equipAt_del,if_pos rfl]
      · intro other kept
        rw [equipAt_del,if_neg (kept.resolve_right fun no => no (Or.inr void)),written]

theorem Ate.place (ate : Ate g spot m token equip eatEq last next fat) (other : Spot) :
    (other = .bag (itemId token) ∧ next.owner.equipAt other = none) ∨
      next.owner.equipAt other = if other = spot then some fat else m.owner.equipAt other := by
  by_cases gone : other = .bag (itemId token) ∧ (Tops g equip eatEq ∨ itemKey token ≠ 0)
  · obtain ⟨here,gone⟩ := gone
    exact Or.inl ⟨here,here ▸ ate.gone gone⟩
  · exact Or.inr (ate.kept other (not_and_or.mp gone))

-- What every run keeps: the others in the bag are as they were or gone, and the
-- keys in the books fit in 32 bits.
structure Run (o : PetOwner) (spot : Spot) (m : Meal) : Prop where
  keyed : Keyed m.owner
  frame : ∀ key, .bag key ≠ spot → m.owner.equipAt (.bag key) = o.equipAt (.bag key) ∨ m.owner.equipAt (.bag key) = none
  narrow : ∀ key ∈ m.fed, key.toUInt32.toUInt64 = key

def Low (g : GData) (spot : Spot) (m : Meal) : Prop := ∀ equip, m.owner.equipAt spot = some equip → equip.m_peAttr.lv < g.getEquipMaxLev

-- The books are right so far, or they cannot be right any more.
structure Even (o : PetOwner) (spot : Spot) (start : Nat) (m : Meal) : Prop extends Run o spot m where
  once : m.fed.Nodup
  removed : ∀ key, key ∈ m.fed ↔ o.equipAt (.bag key) ≠ none ∧ m.owner.equipAt (.bag key) = none
  gained : ∃ equip, m.owner.equipAt spot = some equip ∧ equip.m_peAttr.exp.toNat = start+(m.fed.map (worth o)).sum

def Spoiled (o : PetOwner) (spot : Spot) (start : Nat) (m : Meal) : Prop :=
  (∃ key ∈ m.fed, m.owner.equipAt (.bag key) ≠ none) ∨ ¬ m.fed.Nodup ∨ m.owner.equipAt spot = none ∨
    ∃ equip, m.owner.equipAt spot = some equip ∧ equip.m_peAttr.exp.toNat < start+(m.fed.map (worth o)).sum

variable {o : PetOwner} {start : Nat} {m next : Meal} {token : List Char}

theorem ate_run (run : Run o spot m) (there : m.owner.equipAt spot = some equip) (ate : Ate g spot m token equip eatEq last next fat) :
    Run o spot next ∧ (last = false → Low g spot next) := by
  refine ⟨⟨?_,?_,?_⟩,?_⟩
  · intro id other found
    obtain ⟨_,gone⟩ | kept := ate.place (.bag id)
    · cases gone.symm.trans found
    · rw [kept] at found
      split at found
      · rename_i here
        cases found
        rw [← here] at there
        exact ate.same.1.trans (run.keyed id _ there)
      · exact run.keyed id other found
  · intro key apart
    obtain ⟨_,gone⟩ | kept := ate.place (.bag key)
    · exact Or.inr gone
    · rw [kept,if_neg apart]
      exact run.frame key apart
  · intro key booked
    rw [ate.fed] at booked
    obtain same | before := List.mem_cons.mp booked
    · rw [same,itemKey,UInt32.toUInt32_toUInt64]
    · exact run.narrow key before
  · intro going self placed
    obtain ⟨_,gone⟩ | kept := ate.place spot
    · cases gone.symm.trans placed
    · rw [kept,if_pos rfl] at placed
      cases placed
      exact ate.low going

-- The experience of an equip in the bag is what it was, unless it is the one
-- that grows.
theorem worth_eaten (run : Run o spot m) (found : m.owner.equipAt (.bag key) = some eatEq) (apart : .bag key ≠ spot) :
    worth o key = eatEq.itemBaseType.trumpExp.toNat+eatEq.m_peAttr.exp.toNat := by
  obtain same | gone := run.frame key apart
  · rw [worth,← same,found]
    rfl
  · cases gone.symm.trans found

theorem exp_most (equip eatEq : ItemPetEq) :
    (equip.m_peAttr.exp+(eatEq.itemBaseType.trumpExp+eatEq.m_peAttr.exp)).toNat =
      (equip.m_peAttr.exp.toNat+(eatEq.itemBaseType.trumpExp.toNat+eatEq.m_peAttr.exp.toNat))%2^32 := by
  rw [UInt32.toNat_add,UInt32.toNat_add]
  omega

-- Whoever ate himself is in the books and there, or is gone.
theorem self_spoils (ate : Ate g spot m token equip eatEq last next fat) (self : spot = .bag (itemKey token)) :
    Spoiled o spot start next := by
  cases there : next.owner.equipAt spot with
  | none => exact Or.inr (Or.inr (Or.inl there))
  | some equip =>
      refine Or.inl ⟨itemKey token,by rw [ate.fed]; exact List.mem_cons_self,?_⟩
      rw [← self,there]
      exact Option.some_ne_none equip

theorem spoiled_ate (run : Run o spot m) (eaten : eats g spot m.owner token = some (equip,eatEq)) (spoiled : Spoiled o spot start m)
    (ate : Ate g spot m token equip eatEq last next fat) : Spoiled o spot start next := by
  obtain ⟨found,_,there,_⟩ := eats_parts eaten
  by_cases self : spot = .bag (itemKey token)
  · exact self_spoils ate self
  have apart : Spot.bag (itemKey token) ≠ spot := fun same => self same.symm
  obtain ⟨key,booked,stays⟩ | double | gone | ⟨other,placed,less⟩ := spoiled
  · obtain ⟨here,_⟩ | kept := ate.place (.bag key)
    · have same : key = itemId token := Spot.bag.inj here
      have again : itemKey token = key := by
        rw [itemKey,← same]
        exact run.narrow key booked
      refine Or.inr (Or.inl ?_)
      rw [ate.fed,again]
      exact fun once => (List.nodup_cons.mp once).1 booked
    · refine Or.inl ⟨key,by rw [ate.fed]; exact List.mem_cons_of_mem _ booked,?_⟩
      rw [kept]
      split
      · exact Option.some_ne_none fat
      · exact stays
  · refine Or.inr (Or.inl ?_)
    rw [ate.fed]
    exact fun once => double (List.nodup_cons.mp once).2
  · cases gone.symm.trans there
  · cases placed.symm.trans there
    refine Or.inr (Or.inr ?_)
    obtain ⟨_,gone⟩ | kept := ate.place spot
    · exact Or.inl gone
    · rw [if_pos rfl] at kept
      refine Or.inr ⟨fat,kept,?_⟩
      have sum := exp_most equip eatEq
      rw [ate.exp,ate.fed,List.map_cons,List.sum_cons,worth_eaten run found apart]
      omega

theorem bag_before (run : Run o spot m) (found : m.owner.equipAt (.bag key) = some eatEq) (apart : .bag key ≠ spot) :
    o.equipAt (.bag key) = some eatEq := by
  obtain same | gone := run.frame key apart
  · exact same.symm.trans found
  · cases gone.symm.trans found

theorem paid_ate (even : Even o spot start m) (eaten : eats g spot m.owner token = some (equip,eatEq))
    (ate : Ate g spot m token equip eatEq last next fat) (paid : Paid g spot m.owner token) :
    Even o spot start next ∧ next.owner.equipAt (.bag (itemKey token)) = none := by
  obtain ⟨found,_,there,_⟩ := eats_parts eaten
  obtain ⟨same,self,zero,small⟩ := paid equip eatEq eaten
  have apart : Spot.bag (itemKey token) ≠ spot := fun same => self same.symm
  have gone : next.owner.equipAt (.bag (itemKey token)) = none := by
    rw [← same]
    apply ate.gone
    by_cases void : itemKey token = 0
    · exact Or.inl (zero void)
    · exact Or.inr void
  have had := bag_before even.toRun found apart
  obtain ⟨self',placed,sum⟩ := even.gained
  cases placed.symm.trans there
  refine ⟨⟨(ate_run even.toRun there ate).1,?_,?_,?_⟩,gone⟩
  · rw [ate.fed]
    refine List.nodup_cons.mpr ⟨?_,even.once⟩
    intro booked
    cases ((even.removed _).mp booked).2.symm.trans found
  · intro key
    rw [ate.fed,List.mem_cons]
    by_cases here : key = itemKey token
    · subst here
      simp [had,gone]
    · obtain ⟨at_,_⟩ | kept := ate.place (.bag key)
      · exact absurd ((Spot.bag.inj at_).trans same) here
      · rw [kept]
        by_cases own : Spot.bag key = spot
        · have alive : m.owner.equipAt (.bag key) ≠ none := by rw [own,there]; exact Option.some_ne_none equip
          have unbooked : key ∉ m.fed := fun booked => alive ((even.removed key).mp booked).2
          simp [own,here,unbooked]
        · simp [own,here,even.removed key]
  · obtain ⟨at_,_⟩ | kept := ate.place spot
    · exact absurd (at_.trans (congrArg Spot.bag same)) self
    · rw [if_pos rfl] at kept
      refine ⟨fat,kept,?_⟩
      rw [ate.exp,exp_most,ate.fed,List.map_cons,List.sum_cons,worth_eaten even.toRun found apart,Nat.mod_eq_of_lt small,sum]
      omega

theorem unpaid_ate (even : Even o spot start m) (eaten : eats g spot m.owner token = some (equip,eatEq))
    (ate : Ate g spot m token equip eatEq last next fat) (unpaid : ¬ Paid g spot m.owner token) : Spoiled o spot start next := by
  obtain ⟨found,_,there,_⟩ := eats_parts eaten
  obtain ⟨self',placed,sum⟩ := even.gained
  cases placed.symm.trans there
  have booked : itemKey token ∈ next.fed := by
    rw [ate.fed]
    exact List.mem_cons_self
  by_cases self : spot = .bag (itemKey token)
  · exact self_spoils ate self
  have apart : Spot.bag (itemKey token) ≠ spot := fun same => self same.symm
  by_cases same : itemId token = itemKey token
  · by_cases zero : itemKey token = 0 → Tops g equip eatEq
    · have large : 2^32 ≤ equip.m_peAttr.exp.toNat+(eatEq.itemBaseType.trumpExp.toNat+eatEq.m_peAttr.exp.toNat) := by
        by_contra small
        apply unpaid
        intro equip' eatEq' eaten'
        cases eaten.symm.trans eaten'
        exact ⟨same,self,zero,Nat.not_le.mp small⟩
      refine Or.inr (Or.inr ?_)
      obtain ⟨_,gone⟩ | kept := ate.place spot
      · exact Or.inl gone
      · rw [if_pos rfl] at kept
        refine Or.inr ⟨fat,kept,?_⟩
        rw [ate.exp,exp_most,ate.fed,List.map_cons,List.sum_cons,worth_eaten even.toRun found apart]
        omega
    · obtain ⟨void,low⟩ := Classical.not_imp.mp zero
      have kept := ate.kept (.bag (itemKey token)) (Or.inr (by simp [void,low]))
      rw [if_neg apart] at kept
      exact Or.inl ⟨_,booked,by rw [kept,found]; exact Option.some_ne_none eatEq⟩
  · have kept := ate.kept (.bag (itemKey token)) (Or.inl fun at_ => same (Spot.bag.inj at_).symm)
    rw [if_neg apart] at kept
    exact Or.inl ⟨_,booked,by rw [kept,found]; exact Option.some_ne_none eatEq⟩

-- One id that is paid for.
theorem paid_step (even : Even o spot start m) (low : Low g spot m) (paid : Paid g spot m.owner token) :
    ∃ last next, feed g spot m token = some (last,next) ∧ Even o spot start next ∧ (last = false → Low g spot next) ∧
      (last = true ↔ Stops g spot m.owner token) ∧ (last = false → Idle g spot next.owner token) := by
  obtain ⟨equip,there,_⟩ := even.gained
  obtain idle | ⟨eatEq,eaten⟩ := idle_or_eats m.owner token there
  · refine ⟨false,m,idle_feed idle,even,fun _ => low,?_,fun _ => idle⟩
    simp [Stops,not_eats idle]
  · obtain ⟨last,next,fat,fed,ate⟩ := feed_eats even.keyed eaten (low equip there)
    obtain ⟨kept,gone⟩ := paid_ate even eaten ate paid
    refine ⟨last,next,fed,kept,(ate_run even.toRun there ate).2,?_,fun _ => Or.inl gone⟩
    simp [Stops,eaten,ate.stops]

-- One that is not, and one after it.
theorem unpaid_step (even : Even o spot start m) (low : Low g spot m) (unpaid : ¬ Paid g spot m.owner token)
    (fed : feed g spot m token = some (last,next)) :
    Run o spot next ∧ (last = false → Low g spot next) ∧ Spoiled o spot start next := by
  obtain ⟨equip,there,_⟩ := even.gained
  obtain idle | ⟨eatEq,eaten⟩ := idle_or_eats m.owner token there
  · apply absurd _ unpaid
    intro equip' eatEq' eaten
    cases (not_eats idle).symm.trans eaten
  · obtain ⟨_,_,fat,fed',ate⟩ := feed_eats even.keyed eaten (low equip there)
    cases fed.symm.trans fed'
    obtain ⟨run,below⟩ := ate_run even.toRun there ate
    exact ⟨run,below,unpaid_ate even eaten ate unpaid⟩

theorem spoiled_step (run : Run o spot m) (low : Low g spot m) (spoiled : Spoiled o spot start m)
    (fed : feed g spot m token = some (last,next)) :
    Run o spot next ∧ (last = false → Low g spot next) ∧ Spoiled o spot start next := by
  cases there : m.owner.equipAt spot with
  | none =>
      have still : next = m := by
        unfold feed at fed
        split at fed
        · cases fed
          rfl
        · split at fed
          · cases fed
            rfl
          · rw [there] at fed
            cases fed
      subst still
      exact ⟨run,fun _ => low,spoiled⟩
  | some equip =>
      obtain idle | ⟨eatEq,eaten⟩ := idle_or_eats m.owner token there
      · cases fed.symm.trans (idle_feed idle)
        exact ⟨run,fun _ => low,spoiled⟩
      · obtain ⟨_,_,fat,fed',ate⟩ := feed_eats run.keyed eaten (low equip there)
        cases fed.symm.trans fed'
        obtain ⟨kept,below⟩ := ate_run run there ate
        exact ⟨kept,below,spoiled_ate run eaten spoiled ate⟩

theorem idle_step (run : Run o spot m) (low : Low g spot m) {other : List Char} (idle : Idle g spot m.owner other)
    (there : m.owner.equipAt spot = some equip) (fed : feed g spot m token = some (last,next)) : Idle g spot next.owner other := by
  obtain still | ⟨eatEq,eaten⟩ := idle_or_eats m.owner token there
  · cases fed.symm.trans (idle_feed still)
    exact idle
  obtain ⟨_,_,fat,fed',ate⟩ := feed_eats run.keyed eaten (low equip there)
  cases fed.symm.trans fed'
  obtain ⟨_,gone⟩ | kept := ate.place (.bag (itemKey other))
  · exact Or.inl gone
  obtain absent | ⟨gemmed,found,gem⟩ | ⟨equip',there',flat⟩ := idle
  · have apart : Spot.bag (itemKey other) ≠ spot := by
      intro same
      rw [same,there] at absent
      cases absent
    rw [if_neg apart] at kept
    exact Or.inl (kept.trans absent)
  · refine Or.inr (Or.inl ?_)
    by_cases own : Spot.bag (itemKey other) = spot
    · rw [own,there] at found
      cases found
      rw [if_pos own] at kept
      refine ⟨fat,kept,?_⟩
      rw [ItemPetEq.hasGem,ate.same.2]
      exact gem
    · rw [if_neg own] at kept
      exact ⟨gemmed,kept.trans found,gem⟩
  · cases there.symm.trans there'
    exact absurd flat (eats_parts eaten).2.2.2

theorem feedAll_cons {tokens : List (List Char)} (fed : feed g spot m token = some (last,next)) :
    feedAll g spot m (token :: tokens) = if last then some (true,next) else feedAll g spot next tokens := by
  rw [feedAll,fed,Option.bind_some]

theorem spoiled_all {tokens : List (List Char)} (run : Run o spot m) (low : Low g spot m) (spoiled : Spoiled o spot start m)
    (fed : feedAll g spot m tokens = some (last,next)) :
    Run o spot next ∧ (last = false → Low g spot next) ∧ Spoiled o spot start next := by
  induction tokens generalizing m with
  | nil =>
      cases fed
      exact ⟨run,fun _ => low,spoiled⟩
  | cons token tokens ih =>
      obtain ⟨⟨stop,middle⟩,one,rest⟩ := Option.bind_eq_some_iff.mp fed
      obtain ⟨run',low',spoiled'⟩ := spoiled_step run low spoiled one
      cases stop with
      | true =>
          cases rest
          exact ⟨run',low',spoiled'⟩
      | false => exact ih run' (low' rfl) spoiled' rest

theorem even_all {tokens : List (List Char)} {short : Prop} (even : Even o spot start m) (low : Low g spot m)
    (paying : Paying g spot short m tokens) :
    ∃ last next, feedAll g spot m tokens = some (last,next) ∧ Even o spot start next ∧ (last = true ∨ short) := by
  induction tokens generalizing m with
  | nil => exact ⟨false,m,rfl,even,Or.inr paying⟩
  | cons token tokens ih =>
      obtain ⟨paid,later⟩ := paying
      obtain ⟨last,next,fed,even',low',stops,_⟩ := paid_step even low paid
      rw [feedAll_cons fed]
      cases last with
      | true => exact ⟨true,next,rfl,even',Or.inl rfl⟩
      | false =>
          have going := later.resolve_left (by intro stop; cases stops.mpr stop)
          exact ih even' (low' rfl) (going next fed)

-- Conversely, and what the ids are worth after a list that did not stop.
theorem paying_all {tokens : List (List Char)} (short : Prop) (even : Even o spot start m) (low : Low g spot m)
    (fed : feedAll g spot m tokens = some (last,next)) :
    (Run o spot next ∧ (last = false → Low g spot next) ∧ Spoiled o spot start next) ∨
    (last = true ∨ short → Paying g spot short m tokens) ∧
      (last = false → (∀ other, Idle g spot m.owner other → Idle g spot next.owner other) ∧ ∀ token ∈ tokens, Idle g spot next.owner token) := by
  induction tokens generalizing m with
  | nil =>
      cases fed
      refine Or.inr ⟨?_,fun _ => ⟨fun _ idle => idle,fun token member => nomatch member⟩⟩
      intro enough
      exact enough.resolve_left (fun no => nomatch no)
  | cons token tokens ih =>
      obtain ⟨⟨stop,middle⟩,one,rest⟩ := Option.bind_eq_some_iff.mp fed
      by_cases paid : Paid g spot m.owner token
      · obtain ⟨_,_,one',even',low',stops,idle⟩ := paid_step even low paid
        cases one.symm.trans one'
        cases stop with
        | true =>
            cases rest
            exact Or.inr ⟨fun _ => ⟨paid,Or.inl (stops.mp rfl)⟩,fun no => nomatch no⟩
        | false =>
            obtain spoiled | ⟨paying,idles⟩ := ih even' (low' rfl) rest
            · exact Or.inl spoiled
            · refine Or.inr ⟨?_,?_⟩
              · intro enough
                refine ⟨paid,Or.inr ?_⟩
                intro next' fed'
                cases one.symm.trans fed'
                exact paying enough
              · intro going
                obtain ⟨keep,all⟩ := idles going
                obtain ⟨equip,there,_⟩ := even.gained
                refine ⟨fun other still => keep other (idle_step even.toRun low still there one),?_⟩
                intro other member
                obtain same | later := List.mem_cons.mp member
                · rw [same]
                  exact keep token (idle rfl)
                · exact all other later
      · obtain ⟨run',low',spoiled⟩ := unpaid_step even low paid one
        cases stop with
        | true =>
            cases rest
            exact Or.inl ⟨run',low',spoiled⟩
        | false => exact Or.inl (spoiled_all run' (low' rfl) spoiled rest)

theorem idle_all {tokens : List (List Char)} (idle : ∀ token ∈ tokens, Idle g spot m.owner token) : feedAll g spot m tokens = some (false,m) := by
  induction tokens with
  | nil => rfl
  | cons token tokens ih =>
      rw [feedAll_cons (idle_feed (idle token List.mem_cons_self))]
      exact ih fun other member => idle other (List.mem_cons_of_mem _ member)

-- A list of more than 255 ids that is of no use any more is read for ever.
theorem idle_rounds {tokens : List (List Char)} (idle : ∀ token ∈ tokens.take 256, Idle g spot m.owner token) (long : ¬ tokens.length < 256)
    (rounds : Nat) : feedRounds g spot tokens rounds m = none := by
  induction rounds with
  | zero => rfl
  | succ rounds ih =>
      rw [feedRounds,idle_all idle]
      simpa [long] using ih

theorem spoiled_rounds {tokens : List (List Char)} (rounds : Nat) (run : Run o spot m) (low : Low g spot m) (spoiled : Spoiled o spot start m)
    (fed : feedRounds g spot tokens rounds m = some next) : Spoiled o spot start next := by
  induction rounds generalizing m with
  | zero => cases fed
  | succ rounds ih =>
      obtain ⟨⟨last,middle⟩,all,rest⟩ := Option.bind_eq_some_iff.mp fed
      obtain ⟨run',low',spoiled'⟩ := spoiled_all run low spoiled all
      dsimp only at rest
      split at rest
      · cases rest
        exact spoiled'
      · rename_i going
        have on : last = false := by simp_all
        exact ih run' (low' on) spoiled' rest

theorem paying_rounds {tokens : List (List Char)} (rounds : Nat) (even : Even o spot start m) (low : Low g spot m)
    (fed : feedRounds g spot tokens rounds m = some next) :
    Spoiled o spot start next ∨ Paying g spot (tokens.length < 256) m (tokens.take 256) := by
  cases rounds with
  | zero => cases fed
  | succ rounds =>
      obtain ⟨⟨last,middle⟩,all,rest⟩ := Option.bind_eq_some_iff.mp fed
      dsimp only at rest
      split at rest
      · rename_i enough
        cases rest
        obtain ⟨_,_,spoiled⟩ | ⟨paying,_⟩ := paying_all (tokens.length < 256) even low all
        · exact Or.inl spoiled
        · exact Or.inr (paying (by simpa using enough))
      · rename_i going
        have on : last = false ∧ ¬ tokens.length < 256 := by simpa using going
        obtain ⟨run',low',spoiled⟩ | ⟨_,idles⟩ := paying_all (tokens.length < 256) even low all
        · exact Or.inl (spoiled_rounds rounds run' (low' on.1) spoiled rest)
        · rw [idle_rounds (idles on.1).2 on.2] at rest
          cases rest

theorem learn_exp (equip : ItemPetEq) : (equip.learn g).m_peAttr.exp = equip.m_peAttr.exp := by
  unfold ItemPetEq.learn
  dsimp only
  split <;> rfl

theorem even_start (keyed : Keyed o) (there : o.equipAt spot = some equip) : Even o spot equip.m_peAttr.exp.toNat ⟨o,[]⟩ := by
  refine ⟨⟨keyed,fun _ _ => Or.inl rfl,fun key booked => nomatch booked⟩,List.nodup_nil,?_,equip,there,rfl⟩
  intro key
  refine iff_of_false (fun booked => nomatch booked) ?_
  intro ⟨before,after⟩
  exact before after

-- The books of the loop are the ones of the call.
theorem fair_of_even {search : PetSearch} {petId : UInt32} {equipId : UInt64} (found : o.FindPetEquip search petId.toUInt16 equipId = some spot)
    (start : o.equipAt spot = some equip) (even : Even o spot equip.m_peAttr.exp.toNat m) (there : m.owner.equipAt spot = some fat) :
    Fair search o petId equipId {m with owner := m.owner.write (fat.learn g) spot} := by
  refine ⟨even.once,?_,?_⟩
  · intro key
    rw [even.removed,equipAt_write m.owner (fat.learn g) there]
    by_cases own : Spot.bag key = spot
    · simp [own,there]
    · rw [if_neg own]
  · intro spot' equip' found' start'
    cases found.symm.trans found'
    cases start.symm.trans start'
    obtain ⟨self,placed,sum⟩ := even.gained
    cases there.symm.trans placed
    refine ⟨fat.learn g,?_,?_⟩
    · rw [equipAt_write m.owner _ there,if_pos rfl]
    · rw [learn_exp,sum]

theorem spoiled_unfair {search : PetSearch} {petId : UInt32} {equipId : UInt64} (found : o.FindPetEquip search petId.toUInt16 equipId = some spot)
    (start : o.equipAt spot = some equip) (spoiled : Spoiled o spot equip.m_peAttr.exp.toNat m) (there : m.owner.equipAt spot = some fat)
    (fair : Fair search o petId equipId {m with owner := m.owner.write (fat.learn g) spot}) : False := by
  obtain ⟨key,booked,stays⟩ | double | gone | ⟨self,placed,less⟩ := spoiled
  · have gone := ((fair.removed key).mp booked).2
    rw [equipAt_write m.owner (fat.learn g) there] at gone
    split at gone
    · cases gone
    · exact stays gone
  · exact double fair.once
  · cases gone.symm.trans there
  · obtain ⟨last,placed',sum⟩ := fair.gained spot equip found start
    rw [equipAt_write m.owner _ there,if_pos rfl] at placed'
    cases placed'
    cases there.symm.trans placed
    rw [learn_exp] at sum
    exact absurd sum (Nat.ne_of_lt less)

theorem upgrade_fair_iff (g : GData) (search : PetSearch) (o : Collector) (petId : UInt32) (equipId : UInt64) (idStr : List Char) :
    (∃ rounds result m, o.equipUpgrade g search petId equipId idStr rounds = some (result,m) ∧ Fair search o.toPetOwner petId equipId m) ↔
      ∀ spot equip, o.FindPetEquip search petId.toUInt16 equipId = some spot → o.equipAt spot = some equip →
        equip.m_peAttr.lv < g.getEquipMaxLev →
          Paying g spot ((StringTokenizer idStr ',').length < 256) ⟨o.toPetOwner,[]⟩ ((StringTokenizer idStr ',').take 256) := by
  have idle (idle : ∀ rounds, o.equipUpgrade g search petId equipId idStr rounds = some (0,⟨o.toPetOwner,[]⟩)) :
      ∃ rounds result m, o.equipUpgrade g search petId equipId idStr rounds = some (result,m) ∧ Fair search o.toPetOwner petId equipId m := by
    refine ⟨0,0,_,idle 0,List.nodup_nil,?_,?_⟩
    · intro key
      exact iff_of_false (fun booked => nomatch booked) fun ⟨before,after⟩ => before after
    · intro spot equip _ there
      exact ⟨equip,there,rfl⟩
  obtain absent | ⟨spot,found⟩ := Option.eq_none_or_eq_some (o.FindPetEquip search petId.toUInt16 equipId)
  · refine iff_of_true (idle fun rounds => by simp [equipUpgrade,absent]) ?_
    intro spot equip found
    cases absent.symm.trans found
  obtain ⟨equip,there,_⟩ := o.find_there search petId.toUInt16 equipId found
  by_cases below : equip.m_peAttr.lv < g.getEquipMaxLev
  · have even := even_start o.keyed there
    have low : Low g spot ⟨o.toPetOwner,[]⟩ := by
      intro self placed
      cases there.symm.trans placed
      exact below
    have unfolded (rounds : Nat) : o.equipUpgrade g search petId equipId idStr rounds =
        (feedRounds g spot (StringTokenizer idStr ',') rounds ⟨o.toPetOwner,[]⟩).bind fun m =>
          (m.owner.equipAt spot).map fun equip => (1,{m with owner := m.owner.write (equip.learn g) spot}) := by
      simp [equipUpgrade,found,there,UInt8.not_le.mpr below]
    constructor
    · intro ⟨rounds,result,m,ran,fair⟩ spot' equip' found' there' _
      cases found.symm.trans found'
      cases there.symm.trans there'
      rw [unfolded] at ran
      obtain ⟨meal,fed,wrote⟩ := Option.bind_eq_some_iff.mp ran
      obtain ⟨fat,placed,same⟩ := Option.map_eq_some_iff.mp wrote
      cases same
      obtain spoiled | paying := paying_rounds rounds even low fed
      · exact (spoiled_unfair found there spoiled placed fair).elim
      · exact paying
    · intro paying
      obtain ⟨last,m,fed,kept,ended⟩ := even_all even low (paying spot equip found there below)
      obtain ⟨fat,placed,_⟩ := kept.gained
      have ran : feedRounds g spot (StringTokenizer idStr ',') 1 ⟨o.toPetOwner,[]⟩ = some m := by
        rw [feedRounds,fed,Option.bind_some]
        exact if_pos (by simpa using ended)
      refine ⟨1,1,_,?_,fair_of_even (g := g) found there kept placed⟩
      rw [unfolded,ran,Option.bind_some,placed,Option.map_some]
  · refine iff_of_true (idle fun rounds => by simp [equipUpgrade,found,there,UInt8.not_lt.mp below]) ?_
    intro spot' equip' found' there' low
    cases found.symm.trans found'
    cases there.symm.trans there'
    exact absurd low below

theorem one_round (search : PetSearch) (petId : UInt32) (equipId : UInt64) {idStr : List Char} (short : (StringTokenizer idStr ',').length < 256)
    (rounds : Nat) : o.equipUpgrade g search petId equipId idStr (rounds+1) = o.equipUpgrade g search petId equipId idStr 1 := by
  simp [equipUpgrade,feedRounds,short]

-- A pet wears equip 7 in slot 0, and equip 5 is in the bag.
def keeper : Collector where
  package := ⟨0,1,∅,(∅ : AList fun _ : UInt64 => ItemPetEq).insert 5 ⟨5,⟨2,1,5,1,0,10⟩,true,⟨1,30,0,fun _ => 0⟩⟩⟩
  pets petId := if petId = 1 then some fun pos => if pos = 0 then some ⟨7,⟨2,1,5,1,0,10⟩,true,⟨1,0,0,fun _ => 0⟩⟩ else none else none
  keyed := by
    intro id equip found
    by_cases five : id = 5
    · subst five
      cases found
      rfl
    · cases (AList.lookup_insert_ne five).symm.trans found

-- 2^32+5: equip 5 gives its experience and stays.
theorem experience_free : ¬ ∃ rounds result m,
    keeper.equipUpgrade GData.plain PetSearch.plain 1 7 "4294967301".toList rounds = some (result,m) ∧ Fair PetSearch.plain keeper.toPetOwner 1 7 m := by
  intro ⟨rounds,result,m,ran,fair⟩
  have short : (StringTokenizer "4294967301".toList ',').length < 256 := by decide +kernel
  have books : (keeper.equipUpgrade GData.plain PetSearch.plain 1 7 "4294967301".toList 1).map (fun (_,m) =>
      (m.fed,(m.owner.equipAt (.bag 5)).isSome)) = some ([5],true) := by decide +kernel
  cases rounds with
  | zero =>
      have nothing : keeper.equipUpgrade GData.plain PetSearch.plain 1 7 "4294967301".toList 0 = none := by decide +kernel
      cases nothing.symm.trans ran
  | succ rounds =>
      rw [one_round PetSearch.plain 1 7 short] at ran
      rw [ran,Option.map_some,Option.some.injEq,Prod.mk.injEq] at books
      obtain ⟨fed,stays⟩ := books
      have gone := ((fair.removed 5).mp (by rw [fed]; exact List.mem_cons_self)).2
      rw [gone] at stays
      cases stays

end PetOwner

end GameServer.GObject
