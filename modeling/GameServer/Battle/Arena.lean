import GameServer.Battle.BattleGround

-- The arena: two layouts enter, and every living fighter moves once a round.
namespace GameServer.Battle
open OrderedMap

-- Who AutoEnterFighters is called for: a player with both layouts, or the place on
-- the arena board, which a player or a robot may have.
inductive Entrant where
  | player (arenaLayout arenaDefendLayout : List (UInt8 × UInt16))
  | member
  | robot (ground : UInt8) (fighters : List UInt16)

def MAXPOS : Nat := 6

-- Seven points a side; the last one is not written out and so 0,0.
def map2Point : List (List (UInt8 × UInt8)) :=
  [[(2,0),(1,1),(2,2),(1,0),(0,1),(1,2),(0,0)],
   [(3,0),(3,1),(3,2),(4,0),(4,1),(4,2),(0,0)]]

-- A robot's fighters take the positions but its front one; who is no fighter is left out.
def robotLayout (known : UInt16 → Bool) (ground : UInt8) (fighters : List UInt16) : List (UInt8 × UInt16) :=
  ((((List.range MAXPOS).filter (· ≠ ground.toNat % 6)).map UInt8.ofNat).zip fighters).filter fun entry => known entry.2

-- What the entrant's side is laid out like; `none` where the call returns at once.
def entrantLayout (known : UInt16 → Bool) (index : UInt8) : Entrant → Option (List (UInt8 × UInt16))
  | .player arenaLayout arenaDefendLayout => some (if index = 1 then arenaLayout else arenaDefendLayout)
  | .member => none
  | .robot ground fighters => if index = 1 then none else some (robotLayout known ground fighters)

namespace BattleGround

-- The entries of a layout on the map; `none` reads outside map2Point.
def enterLayout (b : BattleGround) (index : UInt8) (find : UInt16 → Option (Option BattleFighter)) :
    List (UInt8 × UInt16) → Option (List FighterInfo)
  | [] => some []
  | (pos,fighterId) :: layout =>
    if fighterId = 0 then b.enterLayout index find layout
    else do
      let row ← map2Point[(index-1).toNat]?
      let (x,y) ← row[pos.toNat]?
      let infos ← b.enterLayout index find layout
      if b.sizeX ≤ x then return infos
      else if b.sizeY ≤ y then return infos
      else return ⟨index,x,y,find fighterId⟩ :: infos

-- What is pushed to _map2preInfo[index].
def autoEnterFighters (b : BattleGround) (index : UInt8) (entrant : Entrant) (find : UInt16 → Option (Option BattleFighter)) :
    Option (List FighterInfo) :=
  if index = 0 then some []
  else match entrantLayout (fun fighterId => (find fighterId).isSome) index entrant with
    | none => some []
    | some layout => b.enterLayout index find layout

-- The current fighter changes its cell; nobody steps up behind it.
def walk (b : BattleGround) (p : Ascoord) : BattleGround :=
  ((b.setCell b.own none).setCell p b.currentBf).setFighter b.currentBf {b.current with groundX := p.x,groundY := p.y}

def closeIn (b : BattleGround) (attack : Ascoord) : BattleGround := if attack = b.own then b else b.walk attack

-- Nobody is taken from the map or made anew, whatever the fight leaves.
def arenaMove (b : BattleGround) (o : Outcome) : Option BattleGround :=
  match b.getTarget b.own.x b.own.y with
  | none => none
  | some [] => (b.getMovePosition ⟨0xFF,0xFF⟩).map fun move => if move = ⟨0xFF,0xFF⟩ then b else b.walk move
  | some (first :: rest) =>
    let target := (first :: rest).getD o.choice first
    some ((b.closeIn target.attack).fight target.bo o)

-- A round over the fighters queued when it began: the grounds on which they acted.
-- The plays are numbered by actCount.
def arenaRound (plays : Nat → Outcome) : List Nat → Nat → BattleGround → Option (List BattleGround × BattleGround)
  | [],_,b => some ([],b)
  | bf :: copy,actCount,b =>
    if b.hp bf ≤ 0 then arenaRound plays copy actCount b
    else do
      let now := {b with currentBf := bf}
      let after ← now.arenaMove (plays actCount)
      let (turns,last) ← arenaRound plays copy (actCount+1) after
      return (now :: turns,last)

-- The rounds that are left, and the rounds that are played.
def arenaLoop (plays : Nat → Outcome) : Nat → Nat → BattleGround → Option (List (List BattleGround) × BattleGround)
  | 0,_,b => some ([],b)
  | rounds+1,actCount,b =>
    if b.checkIsStop then some ([],b)
    else do
      let (turns,after) ← arenaRound plays b.listFighters actCount b
      let (later,last) ← arenaLoop plays rounds (actCount+turns.length) after
      return (turns :: later,last)

-- `_roundId > 100` ends it.
def arenaStart (b : BattleGround) (infos : List FighterInfo) (plays : Nat → Outcome) : Option (List (List BattleGround) × BattleGround) :=
  arenaLoop plays 101 0 (b.preStart infos).getAllBattleFighter

def getAliveForce (b : BattleGround) : List UInt8 :=
  (b.camp2fighters.filter fun camp => camp.1 ≠ 0 && !b.someCampIsAllDie camp.1).map Prod.fst

def getCaptureId (b : BattleGround) : UInt8 :=
  match b.getAliveForce with
  | [force] => force
  | _ => 0

-- The force that comes to own the city, where the room has a status.
def setCaptureForce (b : BattleGround) (status : Bool) : Option UInt8 :=
  if b.camp2fighters.isEmpty then none
  else if status = false then none
  else if b.getCaptureId ≠ 0 then some b.getCaptureId else none

end BattleGround
end GameServer.Battle
