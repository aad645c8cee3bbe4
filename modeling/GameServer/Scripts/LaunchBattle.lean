import Mathlib.Logic.Basic

namespace GameServer.Scripts.LaunchBattle

-- The levels that a fighter keeps for its four pieces of equipment.
structure Fighter where
  GetClothLvl : Nat
  GetHeadLvl : Nat
  GetShoesLvl : Nat
  GetDWeaponLvl : Nat

structure BattleFighter where
  GetId : Nat
  getStar : Nat
  GetIsFirstBattle : Bool
  GetFighter : Option Fighter
  GetSoldierHp : Nat → Nat
  GetSoldierMp : Nat → Nat
  getHP : Nat
  getMP : Nat
  GetEnergy : Nat

structure BattleInfo (ρ : Type _) where
  mainFighter : ρ
  children : List ρ

-- The classes General (γ), Equip (ε) and Role (ρ) and heroConfig.
structure Classes (γ ε ρ : Type _) where
  General : Nat → γ
  setStar : γ → Nat → γ
  setMapId : γ → Nat → γ
  setEquipList : γ → List ε → γ
  setBattleInfo : γ → BattleInfo ρ → γ
  Equip : Option Nat → ε
  setLevel : ε → Nat → ε
  setRank : ε → Nat → ε
  Role : ρ
  setNumber : ρ → Nat → ρ
  setHp : ρ → Nat → ρ
  setMp : ρ → Nat → ρ
  setEnergy : ρ → Nat → ρ
  getEquips : Nat → Nat → Option Nat

-- How a fighter reads a stored level.
structure PowerUp where
  GetEquipPowerUpLvl : Fighter → Nat → Nat
  GetEquipPowerUpRank : Fighter → Nat → Nat
  lvl_mod : ∀ fgt k, GetEquipPowerUpLvl fgt k = k%10
  rank_div : ∀ fgt k, GetEquipPowerUpRank fgt k = k/10

section source
variable {γ ε ρ : Type _} (C : Classes γ ε ρ) (P : PowerUp)

def storedLevel (i : Nat) : Option Fighter → Nat
  | none => 0
  | some fgt =>
    if i = 1 then fgt.GetClothLvl
    else if i = 2 then fgt.GetHeadLvl
    else if i = 3 then fgt.GetShoesLvl
    else if i = 4 then fgt.GetDWeaponLvl
    else 0

-- `none`: a method of nil is called.
def equip_1 (bf1 : BattleFighter) (i : Nat) : Option ε :=
  let equipObj := C.Equip (C.getEquips bf1.GetId i)
  let fgt := bf1.GetFighter
  let k := storedLevel i fgt
  match fgt with
  | none => none
  | some fgt => some (C.setRank (C.setLevel equipObj (P.GetEquipPowerUpLvl fgt k)) (P.GetEquipPowerUpRank fgt k))

def equip_2 (bf2 : BattleFighter) (i : Nat) : Option ε :=
  let equipObj := C.Equip (C.getEquips bf2.GetId i)
  let fgt := bf2.GetFighter
  let k := storedLevel i fgt
  some (C.setRank (C.setLevel equipObj (k%10)) ((k-k%10)/10))

def soldier (bf : BattleFighter) (i : Nat) : ρ :=
  C.setMp (C.setHp (C.setNumber C.Role i) (bf.GetSoldierHp (i-1))) (bf.GetSoldierMp (i-1))

-- The carried-over state, the same for both sides.
def withInfo (bf : BattleFighter) (general : γ) : γ :=
  if ¬bf.GetIsFirstBattle then
    let role := C.setEnergy (C.setMp (C.setHp C.Role bf.getHP) bf.getMP) bf.GetEnergy
    C.setBattleInfo general ⟨role,(List.range' 1 10).map (soldier C bf)⟩
  else general

-- launchBattle up to the two generals.
def generals (bf1 bf2 : BattleFighter) (mapId1 mapId2 : Nat) : Option (γ × γ) :=
  let general_1 := C.setMapId (C.setStar (C.General bf1.GetId) bf1.getStar) mapId1
  let general_2 := C.setMapId (C.setStar (C.General bf2.GetId) bf2.getStar) mapId2
  ([1,2,3,4].mapM (equip_1 C P bf1)).bind fun equipList_1 =>
    ([1,2,3,4].mapM (equip_2 C bf2)).bind fun equipList_2 =>
      some (withInfo C bf1 (C.setEquipList general_1 equipList_1),withInfo C bf2 (C.setEquipList general_2 equipList_2))

-- Both ways round the battle has the same two generals.
def SideIndependent (f g : BattleFighter) (mapF mapG : Nat) : Prop :=
  ∃ a b, generals C P f g mapF mapG = some (a,b) ∧ generals C P g f mapG mapF = some (b,a)

end source

section sides
variable {γ ε ρ : Type _} {C : Classes γ ε ρ} {P : PowerUp} {bf1 bf2 : BattleFighter} {mapId1 mapId2 : Nat}

-- With a fighter the two blocks do the same.
theorem equip_same (bf : BattleFighter) (fought : bf.GetFighter ≠ none) (i : Nat) : equip_1 C P bf i = equip_2 C bf i := by
  unfold equip_1 equip_2
  cases has : bf.GetFighter with
  | none => exact absurd has fought
  | some fgt =>
      have tens (k : Nat) : (k-k%10)/10 = k/10 := by omega
      dsimp only
      rw [P.lvl_mod,P.rank_div,tens]

-- The second block builds a general for everyone.
def general (C : Classes γ ε ρ) (bf : BattleFighter) (mapId : Nat) : γ :=
  let equip (i : Nat) : ε :=
    let k := storedLevel i bf.GetFighter
    C.setRank (C.setLevel (C.Equip (C.getEquips bf.GetId i)) (k%10)) ((k-k%10)/10)
  withInfo C bf (C.setEquipList (C.setMapId (C.setStar (C.General bf.GetId) bf.getStar) mapId) ([1,2,3,4].map equip))

theorem generals_fought (fought : bf1.GetFighter ≠ none) :
    generals C P bf1 bf2 mapId1 mapId2 = some (general C bf1 mapId1,general C bf2 mapId2) := by
  have same : equip_1 C P bf1 = equip_2 C bf1 := funext (equip_same bf1 fought)
  rw [generals,same]
  rfl

theorem generals_none (none_ : bf1.GetFighter = none) : generals C P bf1 bf2 mapId1 mapId2 = none := by
  have first : equip_1 C P bf1 1 = none := by
    unfold equip_1
    rw [none_]
  rw [generals,List.mapM_cons,first]
  rfl

end sides

theorem sides_iff {γ ε ρ : Type _} (C : Classes γ ε ρ) (P : PowerUp) (f g : BattleFighter) (mapF mapG : Nat) :
    SideIndependent C P f g mapF mapG ↔ f.GetFighter ≠ none ∧ g.GetFighter ≠ none := by
  constructor
  · rintro ⟨a,b,built,swapped⟩
    refine ⟨fun none_ => ?_,fun none_ => ?_⟩
    · rw [generals_none none_] at built
      cases built
    · rw [generals_none none_] at swapped
      cases swapped
  · rintro ⟨foughtF,foughtG⟩
    exact ⟨_,_,generals_fought foughtF,generals_fought foughtG⟩

structure Gear where
  id : Option Nat
  level : Nat
  rank : Nat

structure Soldier where
  number : Nat
  hp : Nat
  mp : Nat
  energy : Nat

structure Hero where
  id : Nat
  star : Nat
  mapId : Nat
  equipList : List Gear
  battleInfo : Option (BattleInfo Soldier)

-- Classes of plain records, without equipment in the configuration.
def records : Classes Hero Gear Soldier where
  General id := ⟨id,0,0,[],none⟩
  setStar general star := {general with star := star}
  setMapId general mapId := {general with mapId := mapId}
  setEquipList general equipList := {general with equipList := equipList}
  setBattleInfo general info := {general with battleInfo := some info}
  Equip id := ⟨id,0,0⟩
  setLevel equip level := {equip with level := level}
  setRank equip rank := {equip with rank := rank}
  Role := ⟨0,0,0,0⟩
  setNumber role number := {role with number := number}
  setHp role hp := {role with hp := hp}
  setMp role mp := {role with mp := mp}
  setEnergy role energy := {role with energy := energy}
  getEquips _ _ := none

def monster : BattleFighter := ⟨1,0,true,none,fun _ => 0,fun _ => 0,0,0,0⟩

theorem monster_first : ¬SideIndependent records ⟨fun _ k => k%10,fun _ k => k/10,fun _ _ => rfl,fun _ _ => rfl⟩ monster monster 0 0 := by
  rintro ⟨_,_,built,_⟩
  cases built

end GameServer.Scripts.LaunchBattle
