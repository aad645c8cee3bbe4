import GameServer.Battle.Ground
import GameServer.Library.OrderedMap
import Mathlib.Algebra.GroupWithZero.Nat

namespace GameServer.Battle
open OrderedMap

-- What goes wrong in InitMapFight: a loop that never ends, and ++it on the
-- iterator of an entry that was just erased.
inductive Fault where
  | neverEnds
  | erasedIterator
  deriving DecidableEq, Repr

-- What the numbering reads of the map. `mapCamp` also says what a read past
-- the end of _mapCamp gives; `preForces` is _map2preInfo.size(), zero when the
-- constructor calls InitMapFight.
structure Camps where
  sizeX : UInt8 := 0
  sizeY : UInt8 := 0
  mapCamp : Nat → UInt8 := fun _ => 0
  actCamp : List UInt8 := []
  attackDirect : UInt8 → UInt8 := fun _ => 0
  preForces : Nat := 0

structure Numbers where
  num2pos : List (UInt8 × Ascoord) := []
  maxID : UInt16 := 0
  deriving DecidableEq, Repr

-- num2pos.insert keeps the entry a key already has.
def Numbers.add (n : Numbers) (p : Ascoord) : Numbers :=
  let maxID := n.maxID + 1
  ⟨upsert maxID.toUInt8 (fun old => old.getD p) n.num2pos,maxID⟩

-- GetBattleIndex: the number of the cell, else a fresh one.
def Numbers.getBattleIndex (n : Numbers) (x y : UInt8) : UInt8 × Numbers :=
  match n.num2pos.find? (fun entry => entry.2.x == x && entry.2.y == y) with
  | some entry => (entry.1,n)
  | none => ((n.maxID+1).toUInt8,{n with maxID := n.maxID+1})

-- The values an eight bit counter takes in a for loop whose body leaves it
-- alone; 256 rounds see every value, so `none` is a loop that never ends.
def counts (test : UInt8 → Bool) (next : UInt8 → UInt8) : Nat → UInt8 → Option (List UInt8)
  | 0,_ => none
  | fuel+1,i => if test i then (counts test next fuel (next i)).map (i :: ·) else some []

-- for(i = 0; i < n; ++i), for(i = n-1; i >= 0; --i) with its break on i > n,
-- and for(i = 1; i <= n; ++i).
def below (n : UInt8) : Option (List UInt8) := counts (fun i => i < n) (·+1) 257 0
def downFrom (n : UInt8) : Option (List UInt8) := counts (fun i => !(i > n)) (·-1) 257 (n-1)
def oneTo (n : UInt8) : Option (List UInt8) := counts (fun i => i ≤ n) (·+1) 257 1

namespace Camps

abbrev Queues := List (UInt8 × List Ascoord)

def campAt (c : Camps) (p : Ascoord) : UInt8 := c.mapCamp (p.x.toNat + p.y.toNat * c.sizeX.toNat)

def isInMap (c : Camps) (p : Ascoord) : Bool := p.x < c.sizeX && p.y < c.sizeY

-- _camp2pos[campId].push_back(p)
def pushBack (camp : UInt8) (m : Queues) (p : Ascoord) : Queues := upsert camp (fun old => old.getD [] ++ [p]) m

-- The cells a search looks at, in its order.
def leftToRight (c : Camps) : Option (List Ascoord) := do
  let columns ← below c.sizeX
  let rows ← below c.sizeY
  return columns.flatMap fun i => rows.map fun j => ⟨i,j⟩

-- An odd row whose cell has camp 0 is looked at one column further left.
def rightToLeft (c : Camps) : Option (List Ascoord) := do
  let columns ← downFrom c.sizeX
  let rows ← below c.sizeY
  return columns.flatMap fun i => rows.map fun j =>
    if j % 2 = 1 ∧ c.campAt ⟨i,j⟩ = 0 then ⟨i-1,j⟩ else ⟨i,j⟩

def upToDown (c : Camps) : Option (List Ascoord) := do
  let rows ← below c.sizeY
  let columns ← below c.sizeX
  return rows.flatMap fun j => columns.map fun i => ⟨i,j⟩

def downToUp (c : Camps) : Option (List Ascoord) := do
  let rows ← downFrom c.sizeY
  let columns ← below c.sizeX
  return rows.flatMap fun j => columns.map fun i => ⟨i,j⟩

def gather (c : Camps) (camp : UInt8) (store : Queues → Ascoord → Queues) (m : Queues) (cells : List Ascoord) : Queues :=
  cells.foldl (fun m p => if c.campAt p = camp then store m p else m) m

-- A first cell starts a list of its own, a later one is pushed; for a queue
-- that is a map entry both are push_back.
def searchFromLeftToRight (c : Camps) (camp : UInt8) (m : Queues) : Option Queues :=
  c.leftToRight.map (c.gather camp (pushBack camp) m)

def searchFromRightToLeft (c : Camps) (camp : UInt8) (m : Queues) : Option Queues :=
  c.rightToLeft.map (c.gather camp (pushBack camp) m)

-- Here the list with the first cell is never stored, so the queue that
-- operator[] made stays empty.
def searchFromUpToDown (c : Camps) (camp : UInt8) (m : Queues) : Option Queues :=
  c.upToDown.map (c.gather camp (fun m p =>
    upsert camp (fun old => if (old.getD []).isEmpty then [] else old.getD [] ++ [p]) m) m)

def searchFromDownToUp (c : Camps) (camp : UInt8) (m : Queues) : Option Queues :=
  c.downToUp.map (c.gather camp (pushBack camp) m)

def getCampAttackOrder (c : Camps) (camp dir : UInt8) (m : Queues) : Option Queues :=
  if dir = 0 ∨ dir = 1 then c.searchFromLeftToRight camp m
  else if dir = 2 then c.searchFromRightToLeft camp m
  else if dir = 3 then c.searchFromUpToDown camp m
  else if dir = 4 then c.searchFromDownToUp camp m
  else some m

def getSpecialDirection (c : Camps) : UInt8 := if 1 ≤ c.preForces ∧ c.preForces ≤ 4 then 1 else 0

-- UInt8 forceNum = vecCamp.size()
def forceNum (c : Camps) : UInt8 := UInt8.ofNat c.actCamp.length

-- With five camps only camp 5 is searched.
def setCampActId (c : Camps) : Option Queues :=
  if c.forceNum < 2 then some []
  else if c.forceNum = 5 then c.getCampAttackOrder 5 c.getSpecialDirection []
  else do
    let camps ← oneTo c.forceNum
    camps.foldlM (fun m camp => c.getCampAttackOrder camp (c.attackDirect camp) m) []

-- One pass of the for loop: the entries behind the iterator and those from it on.
def pass (seen : Queues) (n : Numbers) : Queues → Except Fault (Queues × Numbers)
  | [] => .ok (seen,n)
  | (_,[]) :: _ => .error .erasedIterator
  | (camp,point :: queue) :: rest => pass (seen ++ [(camp,queue)]) (n.add point) rest

def number : Nat → Queues → Numbers → Except Fault Numbers
  | _,[],n => .ok n
  | 0,_ :: _,_ => .error .neverEnds
  | rounds+1,entry :: rest,n => do
      let (m,n) ← pass [] n (entry :: rest)
      number rounds m n

-- Every pass takes a point from the first queue or ends the loop.
def setEachPosNumber (m : Queues) (n : Numbers) : Except Fault Numbers :=
  number ((m.map fun entry => entry.2.length).sum + 1) m n

-- The part of InitMapFight that numbers the cells.
def initMapFight (c : Camps) : Except Fault Numbers :=
  match c.setCampActId with
  | none => .error .neverEnds
  | some m => setEachPosNumber m {}

end Camps
end GameServer.Battle
