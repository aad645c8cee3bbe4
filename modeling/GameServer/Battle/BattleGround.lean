import Mathlib.Data.List.Sort
import GameServer.Battle.Number
import GameServer.Battle.Walk

namespace GameServer.Battle
open OrderedMap

-- The fighters waiting behind the one on a revival cell.
structure BenchInfo where
  x : UInt8
  y : UInt8
  listFighter : List Nat := []
  deriving DecidableEq, Repr

-- An entry of _map2preInfo under its camp. `fgt` is what the lookup of the
-- fighter gives: NULL, or what CreateFighter then makes of it, itself NULL or a
-- fighter with the HP of its DistributeInfo.
structure FighterInfo where
  campId : UInt8
  posx : UInt8
  posy : UInt8
  fgt : Option (Option BattleFighter)

-- What a Move asks of the rest of the server: the target std::sort puts first,
-- the HPs the fight leaves, whether an owner's ConsumeCampaginFood is willing,
-- and the fighter CreateFighter makes of a fallen one.
structure Outcome where
  choice : Nat := 0
  hpCurrent : Int := 0
  hpTarget : Int := 0
  fedCurrent : Bool := false
  fedTarget : Bool := false
  bornCurrent : BattleFighter := {}
  bornTarget : BattleFighter := {}

structure BattleGround extends Ground where
  mapCamp : Nat → UInt8 := fun _ => 0
  relivePoint : Nat → Bool := fun _ => false
  numbers : Numbers := {}
  camp2fighters : List (UInt8 × List Nat) := []
  listBench : List BenchInfo := []
  listFighters : List Nat := []
  -- the next free address of the heap
  next : Nat := 0
  -- the campaign food of every owner
  food : List Nat := []

namespace BattleGround

def hp (b : BattleGround) (bf : Nat) : Int := (b.fighter bf).hp

def cellOf (b : BattleGround) (bf : Nat) : Ascoord := ⟨(b.fighter bf).groundX,(b.fighter bf).groundY⟩

def on (b : BattleGround) (p : Ascoord) : Option Nat := b.mapFighters (b.index p)

def isRelivePoint (b : BattleGround) (p : Ascoord) : Bool := b.relivePoint (b.index p)

def setFighter (b : BattleGround) (bf : Nat) (f : BattleFighter) : BattleGround :=
  {b with fighter := Function.update b.fighter bf f}

def setCell (b : BattleGround) (p : Ascoord) (bf : Option Nat) : BattleGround :=
  {b with mapFighters := Function.update b.mapFighters (b.index p) bf}

def setBattleIndex (b : BattleGround) (bf : Nat) (actId : UInt8) : BattleGround :=
  b.setFighter bf {b.fighter bf with battleIndex := actId}

def getBenchInfo (listBench : List BenchInfo) (p : Ascoord) : Option BenchInfo :=
  listBench.find? fun info => info.x = p.x ∧ info.y = p.y

def getFrontFighter (b : BattleGround) (p : Ascoord) : Option Nat :=
  (getBenchInfo b.listBench p).bind fun info => info.listFighter.head?

-- GetBenchInfo, a new BenchInfo where there is none, and InsertFighter.
def insertBench (p : Ascoord) (bf : Nat) : List BenchInfo → List BenchInfo
  | [] => [⟨p.x,p.y,[bf]⟩]
  | info :: rest =>
      if info.x = p.x ∧ info.y = p.y then {info with listFighter := info.listFighter ++ [bf]} :: rest
      else info :: insertBench p bf rest

def insertFighter (b : BattleGround) (p : Ascoord) (bf : Nat) : BattleGround :=
  {b with listBench := insertBench p bf b.listBench}

def popBench (p : Ascoord) : List BenchInfo → List BenchInfo
  | [] => []
  | info :: rest =>
      if info.x = p.x ∧ info.y = p.y then {info with listFighter := info.listFighter.tail} :: rest
      else info :: popBench p rest

def popFrontFighter (b : BattleGround) (p : Ascoord) : BattleGround :=
  {b with listBench := popBench p b.listBench}

-- camp2fighters[campId], which makes an empty list where there is none.
def touchCamp (b : BattleGround) (campId : UInt8) : BattleGround :=
  {b with camp2fighters := upsert campId (fun old => old.getD []) b.camp2fighters}

-- camp2fighters[campId].push_back(bf)
def pushCamp (b : BattleGround) (campId : UInt8) (bf : Nat) : BattleGround :=
  {b with camp2fighters := upsert campId (fun old => old.getD [] ++ [bf]) b.camp2fighters}

-- _mapFighters[x+y*_x] = bf and its battle index.
def occupy (b : BattleGround) (p : Ascoord) (bf : Nat) : BattleGround :=
  let (actId,numbers) := b.numbers.getBattleIndex p.x p.y
  {b.setCell p bf with numbers}.setBattleIndex bf actId

def setObject (b : BattleGround) (p : Ascoord) (bf : Nat) (flag : Bool) : BattleGround :=
  if b.isInMap p = false then b
  else if flag = false ∧ b.on (b.cellOf bf) ≠ some bf then b
  else match b.on p with
    | some _ => if b.isRelivePoint p then b.insertFighter p bf else b
    | none => b.occupy p bf

def create (b : BattleGround) (p : Ascoord) (made : BattleFighter) : BattleGround :=
  {b.setFighter b.next {made with groundX := p.x,groundY := p.y} with next := b.next+1}

def newFighter (b : BattleGround) (p : Ascoord) (created : Option BattleFighter) (flag : Bool := false) : BattleGround × Option Nat :=
  match created with
  | none => (b,none)
  | some made =>
    if flag then (b.create p made,some b.next)
    else ((b.create p made).setObject p b.next true,some b.next)

-- The camp's list is looked up before the fighter is made.
def enter (b : BattleGround) (info : FighterInfo) : BattleGround :=
  match info.fgt with
  | none => b
  | some created =>
    match (b.touchCamp info.campId).newFighter ⟨info.posx,info.posy⟩ created with
    | (b,none) => b
    | (b,some bft) => b.pushCamp info.campId bft

def preStart (b : BattleGround) (infos : List FighterInfo) : BattleGround := infos.foldl enter b

-- SetExtraFighterActId for the fighters MixExtraFighterByForceId hands it.
def setExtraFighterActId (b : BattleGround) (extra : List Nat) : BattleGround :=
  extra.foldl (fun b bf =>
    let maxID := b.numbers.maxID + 1
    {b with numbers := {b.numbers with maxID}}.setBattleIndex bf maxID.toUInt8) b

def getAllRelivePoint (b : BattleGround) (forceId : UInt8) : List Ascoord :=
  ((List.range b.sizeY.toNat).flatMap fun j =>
    (List.range b.sizeX.toNat).map fun i => (⟨UInt8.ofNat i,UInt8.ofNat j⟩ : Ascoord)).filter fun p =>
      b.isRelivePoint p && b.mapCamp (b.index p) = forceId

-- The first cell without a BenchInfo, else the first with the fewest waiting.
def minNumRelive (listBench : List BenchInfo) : List Ascoord → Option Ascoord → Nat → Option Ascoord
  | [],ascoord,_ => ascoord
  | p :: rest,ascoord,fighterNum =>
    match getBenchInfo listBench p with
    | none => some p
    | some info =>
      let num := info.listFighter.length % 2^16
      if num < fighterNum then minNumRelive listBench rest (some p) num
      else minNumRelive listBench rest ascoord fighterNum

def getMinNumRelive (b : BattleGround) (forceId : UInt8) : Option Ascoord :=
  minNumRelive b.listBench (b.getAllRelivePoint forceId) none 0xFF

-- camp2fighters[forceId].remove(bft)
def removeCamp (b : BattleGround) (forceId : UInt8) (bft : Nat) : BattleGround :=
  {b with camp2fighters := upsert forceId (fun old => (old.getD []).filter (· != bft)) b.camp2fighters}

-- Also the pointer Relive leaves in its argument.
def relive (b : BattleGround) (bft : Nat) (born : BattleFighter) : BattleGround × Nat :=
  let cell := b.cellOf bft
  let forceId := (b.fighter bft).side
  let actId := (b.fighter bft).battleIndex
  let b := b.removeCamp forceId bft
  match b.getMinNumRelive forceId with
  | none => (b,bft)
  | some r =>
    let bf := b.next
    let b := (b.newFighter r (some born)).1.setBattleIndex bf actId
    let b := b.insertFighter r bf
    let front := (b.getFrontFighter r).getD bf
    let b := ((b.popFrontFighter r).setCell cell none).pushCamp forceId front
    (b.setCell r front,front)

-- The current fighter leaves its cell; from a revival cell the first one
-- waiting steps up.
def leave (b : BattleGround) : BattleGround :=
  let cell := b.own
  let b := b.setCell cell none
  if b.isRelivePoint cell then
    match b.getFrontFighter cell with
    | none => b
    | some bft => (b.popFrontFighter cell).setCell cell bft
  else b

def relocate (b : BattleGround) (p : Ascoord) : BattleGround :=
  (b.leave.setCell p b.currentBf).setFighter b.currentBf {b.current with groundX := p.x,groundY := p.y}

-- Nothing happens on ground 0; else the two come out with any HP.
def fight (b : BattleGround) (bo : Nat) (o : Outcome) : BattleGround :=
  if b.ground b.own = 0 ∨ b.ground (b.cellOf bo) = 0 then b
  else
    let b := b.setFighter b.currentBf {b.current with hp := o.hpCurrent}
    b.setFighter bo {b.fighter bo with hp := o.hpTarget}

def consumeCampaginFood (b : BattleGround) (player : Nat) (willing : Bool) : Option BattleGround :=
  if willing ∧ 100 ≤ b.food.getD player 0 then some {b with food := b.food.set player (b.food.getD player 0 - 100)}
  else none

-- A fallen fighter with an owner who can pay comes back and is queued again.
def fall (b : BattleGround) (bft : Nat) (fed : Bool) (born : BattleFighter) : BattleGround × Nat :=
  match (b.fighter bft).owner with
  | none => (b,bft)
  | some player =>
    match b.consumeCampaginFood player fed with
    | none => (b,bft)
    | some b =>
      let (b,bft) := b.relive bft born
      ({b with listFighters := b.listFighters ++ [bft]},bft)

def currentFalls (b : BattleGround) (o : Outcome) : BattleGround :=
  if b.hp b.currentBf ≤ 0 then
    let (b,bft) := b.fall b.currentBf o.fedCurrent o.bornCurrent
    {b with currentBf := bft}
  else b

def targetFalls (b : BattleGround) (bo : Nat) (o : Outcome) : BattleGround :=
  if b.hp bo ≤ 0 then ((b.setCell (b.cellOf bo) none).fall bo o.fedTarget o.bornTarget).1 else b

def approach (b : BattleGround) (attack : Ascoord) : BattleGround := if attack = b.own then b else b.relocate attack

def strike (b : BattleGround) (target : TargetInfo) (o : Outcome) : BattleGround :=
  (((b.approach target.attack).fight target.bo o).currentFalls o).targetFalls target.bo o

def move (b : BattleGround) (o : Outcome) : Option BattleGround :=
  match b.getTarget b.own.x b.own.y with
  | none => none
  | some [] => (b.getMovePosition ⟨0xFF,0xFF⟩).map fun m => if m = ⟨0xFF,0xFF⟩ then b else b.relocate m
  | some (first :: rest) => some (b.strike ((first :: rest).getD o.choice first) o)

-- listFighters.sort by battle index, a stable sort.
def before (b : BattleGround) (one two : Nat) : Prop := (b.fighter one).battleIndex ≤ (b.fighter two).battleIndex

instance (b : BattleGround) : DecidableRel b.before := fun _ _ => inferInstanceAs (Decidable (_ ≤ _))

def sortFighters (b : BattleGround) (fighters : List Nat) : List Nat := fighters.insertionSort b.before

def getAllBattleFighter (b : BattleGround) : BattleGround :=
  {b with listFighters := b.sortFighters (b.listFighters ++ b.camp2fighters.flatMap fun camp => camp.2)}

def someCampIsAllDie (b : BattleGround) (campId : UInt8) : Bool :=
  ((find campId b.camp2fighters).getD []).all fun bf => b.hp bf ≤ 0

def checkIsStop (b : BattleGround) : Bool :=
  let num := UInt8.ofNat (b.camp2fighters.countP fun camp => b.someCampIsAllDie camp.1)
  let totalCamp := UInt8.ofNat b.camp2fighters.length
  b.camp2fighters.length ≤ 1 || num.toNat + 1 ≥ totalCamp.toNat

-- The dead in front are dropped; the first one alive is the current fighter.
def nextTurn (b : BattleGround) : Option BattleGround :=
  match b.listFighters.dropWhile fun bf => b.hp bf ≤ 0 with
  | [] => none
  | bf :: rest => some {b with listFighters := bf :: rest,currentBf := bf}

def endTurn (b : BattleGround) : BattleGround := {b with listFighters := b.sortFighters b.listFighters.tail}

-- The turn loop for as many turns as there are outcomes: the grounds on which the
-- turns were taken and the one it ends with, or `none` while somebody has a turn left.
def turnLoop : List Outcome → BattleGround → Option (List BattleGround × BattleGround)
  | [],b =>
    match b.nextTurn with
    | none => some ([],{b with listFighters := []})
    | some _ => none
  | o :: plays,b =>
    match b.nextTurn with
    | none => some ([],{b with listFighters := []})
    | some now => do
      let after ← now.move o
      let (turns,last) ← turnLoop plays after.endTurn
      return (now :: turns,last)

def fightOneRound (b : BattleGround) (plays : List Outcome) : Option (List BattleGround × BattleGround) :=
  if b.checkIsStop then some ([],b) else turnLoop plays b.getAllBattleFighter

end BattleGround
end GameServer.Battle
