import Mathlib.Data.List.Basic

namespace GameServer.Battle

structure Ascoord where
  x : UInt8 := 0
  y : UInt8 := 0
  deriving DecidableEq, Repr

-- The fields of a fighter the battle ground reads and writes.
structure BattleFighter where
  side : UInt8 := 0
  hp : Int := 0
  typeId : UInt8 := 1
  cls : UInt8 := 1
  attackRange : UInt8 := 0
  movePower : UInt8 := 0
  groundX : UInt8 := 0
  groundY : UInt8 := 0
  battleIndex : UInt8 := 0
  owner : Option Nat := none
  deriving DecidableEq, Repr

-- A BattleFighter* is a number; `fighter` is the heap it points into.
structure Ground where
  sizeX : UInt8 := 0
  sizeY : UInt8 := 0
  mapGround : Nat → UInt8 := fun _ => 0
  mapFighters : Nat → Option Nat := fun _ => none
  fighter : Nat → BattleFighter := fun _ => {}
  currentBf : Nat := 0
  start : Ascoord := {}
  target : Ascoord := {}
  -- the map's attack direction of a side, and a player's VAR_ATTACK_STYLE
  attackDirect : UInt8 → UInt8 := fun _ => 0
  attackStyle : Nat → UInt32 := fun _ => 0
  -- what reads outside the RideSub and priority tables give
  rideSubBeyond : UInt8 → UInt8 → UInt8 := fun _ _ => 0
  priorityBeyond : UInt8 → UInt8 → UInt8 := fun _ _ => 0
  -- what GetRideZone, called for a target, finds in its uninitialised i in a row
  stale : Ascoord → UInt8 → UInt8 := fun _ _ => 0

namespace Ground

def current (b : Ground) : BattleFighter := b.fighter b.currentBf

-- x+y*_x, in int
def index (b : Ground) (p : Ascoord) : Nat := p.x.toNat + p.y.toNat * b.sizeX.toNat

def ground (b : Ground) (p : Ascoord) : UInt8 := b.mapGround (b.index p)

def fighterAt (b : Ground) (p : Ascoord) : Option BattleFighter := (b.mapFighters (b.index p)).map b.fighter

def isInMap (b : Ground) (p : Ascoord) : Bool := p.x < b.sizeX && p.y < b.sizeY

def getAround (p : Ascoord) : List Ascoord :=
  if p.y % 2 = 0 then
    [⟨p.x-1,p.y⟩,⟨p.x+1,p.y⟩,⟨p.x-1,p.y+1⟩,⟨p.x,p.y+1⟩,⟨p.x-1,p.y-1⟩,⟨p.x,p.y-1⟩]
  else
    [⟨p.x,p.y-1⟩,⟨p.x+1,p.y⟩,⟨p.x+1,p.y-1⟩,⟨p.x-1,p.y⟩,⟨p.x,p.y+1⟩,⟨p.x+1,p.y+1⟩]

-- Coordinates outside the map are dropped.
def checkUp (b : Ground) (cells : List Ascoord) : List Ascoord := cells.filter b.isInMap

def isInAround (b : Ground) (p t : Ascoord) : Bool := (b.checkUp (getAround t)).contains p

-- Ground 0, a living fighter next to the end of the route, or a living enemy
-- anywhere but on the end.
def isObstract (b : Ground) (p : Ascoord) : Bool :=
  b.ground p == 0 ||
  (match b.fighterAt p with
    | none => false
    | some f => f.hp > 0 && b.isInAround p b.target) ||
  (p != b.target && match b.fighterAt p with
    | none => false
    | some f => f.side != b.current.side && f.hp > 0)

-- The six-neighbour grid in doubled coordinates; Ascoord keeps eight bits.
def convertConverstion (p : Ascoord) : Ascoord :=
  if p.y % 2 = 1 then ⟨(p.x+1)*2-p.y%2,p.y⟩ else ⟨p.x*2-p.y%2,p.y⟩

def rideSub : List (List UInt8) := [[1,1,2,3],[1,2,2,3],[1,1,2,3]]

-- RideSub[stype-1][form-1]
def getRideSub (b : Ground) (p : Ascoord) : UInt8 :=
  let stype := b.current.typeId
  let form := b.ground p
  if 1 ≤ stype ∧ stype ≤ 3 ∧ 1 ≤ form ∧ form ≤ 4 then
    (rideSub.getD (stype-1).toNat []).getD (form-1).toNat 0
  else b.rideSubBeyond stype form

def getGValue (b : Ground) (p : Ascoord) : UInt8 := b.getRideSub p * 2

-- The second difference is the source's own: pos.y with itself.
def getHValue (b : Ground) (p : Ascoord) : UInt8 :=
  let pos := convertConverstion p
  let stop := convertConverstion b.target
  UInt8.ofNat (((pos.x.toNat : Int)-stop.x.toNat).natAbs + ((pos.y.toNat : Int)-pos.y.toNat).natAbs)

theorem index_lt {b : Ground} (inside : b.isInMap p = true) : b.index p < b.sizeX.toNat*b.sizeY.toNat := by
  simp only [isInMap,Bool.and_eq_true,decide_eq_true_eq,UInt8.lt_iff_toNat_lt] at inside
  unfold index
  have rows : (p.y.toNat+1) * b.sizeX.toNat ≤ b.sizeY.toNat * b.sizeX.toNat := Nat.mul_le_mul_right _ inside.2
  rw [Nat.succ_mul] at rows
  rw [Nat.mul_comm b.sizeX.toNat]
  omega

theorem index_inj {b : Ground} (one : b.isInMap p = true) (two : b.isInMap q = true) (same : b.index p = b.index q) : p = q := by
  simp only [isInMap,Bool.and_eq_true,decide_eq_true_eq,UInt8.lt_iff_toNat_lt] at one two
  unfold index at same
  have columns : p.x.toNat = q.x.toNat := by
    have := congrArg (· % b.sizeX.toNat) same
    simpa [Nat.mod_eq_of_lt one.1,Nat.mod_eq_of_lt two.1] using this
  have rows : p.y.toNat = q.y.toNat := by
    rw [columns] at same
    exact Nat.eq_of_mul_eq_mul_right (by omega) (Nat.add_left_cancel same)
  obtain ⟨x,y⟩ := p
  obtain ⟨x',y'⟩ := q
  exact congr (congrArg Ascoord.mk (UInt8.toNat_inj.mp columns)) (UInt8.toNat_inj.mp rows)

end Ground
end GameServer.Battle
