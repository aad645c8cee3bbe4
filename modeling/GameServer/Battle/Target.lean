import GameServer.Battle.Route

namespace GameServer.Battle

structure AttackInfo where
  attack : Ascoord
  target : Ascoord
  deriving DecidableEq, Repr

structure TargetInfo where
  bo : Nat
  attack : Ascoord
  cost : UInt8
  pri : UInt8
  deriving DecidableEq, Repr

namespace Ground

def living (b : Ground) (p : Ascoord) : Bool :=
  match b.fighterAt p with
  | none => false
  | some f => f.hp > 0

-- Ground that can be stood on with a living fighter of another side on it.
def hasEnemy (b : Ground) (p : Ascoord) : Bool :=
  b.ground p != 0 && match b.fighterAt p with
    | none => false
    | some f => f.side != b.current.side && f.hp > 0

def isCurrent (b : Ground) (p : Ascoord) : Bool := b.mapFighters (b.index p) == some b.currentBf

-- The test of the row loop is on y, not on j, so the rows run to the end of the map.
def getNearEnemy (b : Ground) (x y : UInt8) : List Ascoord :=
  let range := b.current.attackRange + b.current.movePower
  let rows := if y < b.sizeY then
    (List.range b.sizeY.toNat).filter fun j => (if y > range then y - range else 0).toNat ≤ j else []
  let columns := (List.range b.sizeX.toNat).filter fun i =>
    (if x > range then x - range else 0).toNat ≤ i && i ≤ x.toNat + range.toNat
  (rows.flatMap fun j => columns.map fun i => ⟨UInt8.ofNat i,UInt8.ofNat j⟩).filter fun p =>
    b.hasEnemy p && !b.isCurrent p

def distance (a c : UInt8) : Nat := ((a.toNat : Int)-c.toNat).natAbs

def isInAttackZone (b : Ground) (stand target : Ascoord) : Bool :=
  let dis := b.current.attackRange
  let s := convertConverstion stand
  let t := convertConverstion target
  if distance t.y s.y > dis.toNat then false
  else distance t.x s.x + distance t.y s.y ≤ 2*dis.toNat

def enemyCanAttack (b : Ground) (stand target : Ascoord) : Bool :=
  match b.fighterAt stand with
  | none => false
  | some f =>
    let dx := stand.x - target.x
    let dy := stand.y - target.y
    (dx*dx + dy*dy).toNat ≤ f.attackRange.toNat*f.attackRange.toNat

def getNeighbourEnemy (b : Ground) (x y : UInt8) : List Ascoord := (b.checkUp (getAround ⟨x,y⟩)).filter b.hasEnemy

-- i starts from what its own storage held before.
def getRideZone (b : Ground) (call : Ascoord) : List Ascoord :=
  let ride := b.current.movePower
  let x := b.current.groundX
  let y := b.current.groundY
  let rows := (List.range b.sizeY.toNat).filter fun j =>
    (if y > ride then y - ride else 0).toNat ≤ j && j < y.toNat + ride.toNat
  let columns := fun (j : Nat) =>
    let i := b.stale call (UInt8.ofNat j)
    let first := (if i > ride then i - ride else 0).toNat
    (List.range' first (b.sizeX.toNat - first)).takeWhile fun i =>
      i + ride.toNat > b.sizeX.toNat || i < x.toNat + ride.toNat
  (rows.flatMap fun j => (columns j).map fun i => ⟨UInt8.ofNat i,UInt8.ofNat j⟩).filter fun p =>
    b.ground p != 0 && !b.living p && !b.isCurrent p

def getBackPosition (b : Ground) (call : Ascoord) (vecNearEnemy : List Ascoord) : List AttackInfo :=
  (b.getRideZone call).flatMap fun it => vecNearEnemy.filterMap fun iter =>
    if b.isInAttackZone it iter && !b.enemyCanAttack iter it then some ⟨it,iter⟩ else none

def getDistance (lp rp : Ascoord) : UInt8 :=
  let lh := convertConverstion lp
  let rh := convertConverstion rp
  let j := UInt8.ofNat (distance lh.y rh.y)
  let downI := lh.x - j
  let upI := lh.x + j
  if rh.x ≥ downI ∧ rh.x ≤ upI then j - 1
  else if rh.x < downI then j + (downI - rh.x)/2 - 1
  else j + (rh.x - upI)/2 - 1

def isNearbyHaveEnemy (b : Ground) (p : Ascoord) : Bool :=
  (b.checkUp (getAround p)).any fun q => b.hasEnemy q && !b.isCurrent q

def priorityTable : List (List UInt8) := [[1,1,2],[1,2,1],[2,1,3]]

-- priority[cls-1][cls'-1]
def priority (b : Ground) (cls cls' : UInt8) : UInt8 :=
  if 1 ≤ cls ∧ cls ≤ 3 ∧ 1 ≤ cls' ∧ cls' ≤ 3 then
    (priorityTable.getD (cls-1).toNat []).getD (cls'-1).toNat 0
  else b.priorityBeyond cls cls'

-- The columns or rows between the fighter and a target straight ahead, taken
-- from the size of the map; 0 for a target that is not.
def straight (b : Ground) (target : Ascoord) : UInt8 :=
  let x := b.current.groundX
  let y := b.current.groundY
  let dir := if b.attackDirect b.current.side = 0 then 1 else b.attackDirect b.current.side
  if dir = 1 then (if target.y = y ∧ x > target.x then b.sizeX - (x - target.x) else 0)
  else if dir = 2 then (if target.y = y ∧ x < target.x then b.sizeX - (target.x - x) else 0)
  else if dir = 3 then (if x = target.x ∧ target.y < y then b.sizeY - (y - target.y) else 0)
  else if dir = 4 then (if x = target.x ∧ target.y > y then b.sizeY - (target.y - y) else 0)
  else 0

-- Only a fighter whose owner has set the other attack style gets the extra.
def prefersStraight (b : Ground) : Bool :=
  match b.current.owner with
  | none => false
  | some owner => b.attackStyle owner != 0

def addPriority (b : Ground) (target : Ascoord) : UInt8 :=
  if b.prefersStraight then b.straight target * 2 else 0

-- A push reads the class of the fighter on the target's cell: `none` is a NULL read.
def pushTarget (b : Ground) (target attack : Ascoord) (cost : UInt8) : Option (List TargetInfo) :=
  (b.mapFighters (b.index target)).map fun bo =>
    [⟨bo,attack,cost,b.priority b.current.cls (b.fighter bo).cls + b.addPriority target⟩]

-- Walking on to p: its ground, and one more beside an enemy unless p touches the target.
def walkOn (b : Ground) (target p : Ascoord) (cost : UInt8) : UInt8 :=
  let cost := cost + b.getRideSub p
  if b.isNearbyHaveEnemy p && getDistance p target > 0 then cost + 1 else cost

-- How a walk along a path ends: on a free cell in the zone, on a taken one, or
-- past the end of the path.
inductive Walked where
  | attack (p : Ascoord) (cost : UInt8)
  | taken
  | beyond (cost : UInt8)
  deriving DecidableEq, Repr

-- The loop of Analyse from the cell `it`.
def analyseWalk (b : Ground) (target : Ascoord) : Ascoord → List Ascoord → UInt8 → Walked
  | it,rest,cost =>
    if b.isInAttackZone it target then (if b.living it then .taken else .attack it cost)
    else match rest with
      | [] => .beyond cost
      | p :: rest => analyseWalk b target p rest (b.walkOn target p cost)

theorem analyseWalk_last (b : Ground) (target it : Ascoord) (cost : UInt8) : b.analyseWalk target it [] cost =
    if b.isInAttackZone it target then (if b.living it then .taken else .attack it cost) else .beyond cost := rfl

theorem analyseWalk_on (b : Ground) (target it p : Ascoord) (rest : List Ascoord) (cost : UInt8) :
    b.analyseWalk target it (p :: rest) cost =
      if b.isInAttackZone it target then (if b.living it then .taken else .attack it cost)
      else b.analyseWalk target p rest (b.walkOn target p cost) := rfl

-- The path comes from its end, as GetRoute lists it. Too short a path gives no
-- target; to an enemy beside it the fighter does not walk.
def analysePath (b : Ground) (list : List Ascoord) (target : Ascoord) : Option Walked :=
  match list.reverse with
  | [] | [_] => none
  | [_,_] => some (.attack b.start 0)
  | first :: rest => some (b.analyseWalk target first rest 0)

-- Past the move power, a last step to a cell next to the target is still granted
-- while something is left before it.
def analyseOffer (b : Ground) (target attack : Ascoord) (cost : UInt8) : Option (List TargetInfo) :=
  let ride := b.getRideSub attack
  let movePower := b.current.movePower
  if cost > movePower then
    if cost - ride ≥ movePower then some []
    else if b.isInAround attack target then b.pushTarget target attack cost
    else some []
  else b.pushTarget target attack cost

-- A walk past the end of its path would read through end().
def analyse (b : Ground) (list : List Ascoord) (target : Ascoord) : Option (List TargetInfo) :=
  match b.analysePath list target with
  | none => some []
  | some .taken => some []
  | some (.beyond _) => none
  | some (.attack attack cost) => b.analyseOffer target attack cost

-- The loop of BowAnalyse, which leaves the start out.
def bowWalk (b : Ground) (target : Ascoord) : List Ascoord → UInt8 → Walked
  | [],cost => .beyond cost
  | p :: rest,cost =>
    let cost := cost + b.getRideSub p
    if b.isInAttackZone p target then (if b.living p then .taken else .attack p cost)
    else bowWalk b target rest (if b.isNearbyHaveEnemy p && getDistance p target > 0 then cost + 1 else cost)

def bowPath (b : Ground) (list : List Ascoord) (target : Ascoord) : Option Walked :=
  match list.reverse with
  | [] | [_] => none
  | _ :: path => some (b.bowWalk target path 0)

def bowOffer (b : Ground) (target attack : Ascoord) (cost : UInt8) : Option (List TargetInfo) :=
  if cost > b.current.movePower then some [] else b.pushTarget target attack cost

-- A walk without a cell in the zone keeps the default attack cell (0,0).
def bowAnalyse (b : Ground) (list : List Ascoord) (target : Ascoord) : Option (List TargetInfo) :=
  match b.bowPath list target with
  | none => some []
  | some .taken => some []
  | some (.attack attack cost) => b.bowOffer target attack cost
  | some (.beyond cost) => b.bowOffer target {} cost

-- SetStart, SetEnd, ComputeRoute and GetRoute.
def findRoute (b : Ground) (start target : Ascoord) : Option (List Ascoord) := do
  let b := {b with start,target}
  let s ← b.computeRoute
  let (_,path) ← b.getRoute s
  return path

def own (b : Ground) : Ascoord := ⟨b.current.groundX,b.current.groundY⟩

def shootCurrentAttack (b : Ground) (target : Ascoord) : Option (List TargetInfo) := b.pushTarget target b.own 0

def shootFrontAttack (b : Ground) (target : Ascoord) : Option (List TargetInfo) := do
  let path ← b.findRoute b.own target
  {b with start := b.own,target}.analyse path target

def shootBackAttack (b : Ground) (target : Ascoord) : Option (List TargetInfo) :=
  let vecEnemy := b.getNearEnemy b.own.x b.own.y
  match b.getBackPosition target vecEnemy with
  | [] => b.shootCurrentAttack target
  | vecFinal => (vecFinal.mapM fun (it : AttackInfo) => do
      let path ← b.findRoute b.own it.attack
      b.bowAnalyse path it.target).map List.flatten

def attackInStyle (b : Ground) (x y : UInt8) (target : Ascoord) : Option (List TargetInfo) :=
  let myPos : Ascoord := ⟨x,y⟩
  let vecNeighbourEnemy := b.getNeighbourEnemy x y
  if b.isInAround myPos target && vecNeighbourEnemy.length ≤ 6 then b.shootBackAttack target
  else if vecNeighbourEnemy.length == 6 || b.isInAttackZone myPos target then b.shootCurrentAttack target
  else b.shootFrontAttack target

def bowGetTarget (b : Ground) (x y : UInt8) (vecEnemy : List Ascoord) : Option (List TargetInfo) :=
  (vecEnemy.mapM fun it => b.attackInStyle x y it).map List.flatten

def getTarget (b : Ground) (x y : UInt8) : Option (List TargetInfo) :=
  let vecEnemy := b.getNearEnemy x y
  if b.current.typeId = 3 then b.bowGetTarget x y vecEnemy
  else (vecEnemy.mapM fun it => do
    let path ← b.findRoute ⟨x,y⟩ it
    {b with start := ⟨x,y⟩,target := it}.analyse path it).map List.flatten

end Ground
end GameServer.Battle
