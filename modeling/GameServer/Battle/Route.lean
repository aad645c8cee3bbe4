import GameServer.Battle.Ground

namespace GameServer.Battle

-- The node of the A* search. A node made from its coordinate alone has parent
-- (0,0); ComputeRoute sets g and h itself.
structure Node where
  node : Ascoord
  parent : Ascoord := {}
  g : UInt8 := 0
  h : UInt8 := 0
  deriving DecidableEq, Repr

def isInList (list : List Node) (p : Ascoord) : Bool := list.any (·.node == p)

def findFromList (list : List Node) (p : Ascoord) : Option Node := list.find? (·.node == p)

-- The first node of least g+h (in int) leaves the open list.
def popBestStep (openList : List Node) : Option (Node × List Node) :=
  match openList with
  | [] => none
  | first :: rest =>
    let best := rest.foldl (fun node it => if node.g.toNat+node.h.toNat > it.g.toNat+it.h.toNat then it else node) first
    some (best,openList.eraseP (·.node == best.node))

-- The node found is written through its pointer.
def reparent (list : List Node) (cur parent : Ascoord) (g : UInt8) : List Node :=
  match list with
  | [] => []
  | node :: rest =>
    if node.node = cur then {node with g,parent} :: rest else node :: reparent rest cur parent g

namespace Ground

def judgeSurround (b : Ground) (closeList openList : List Node) (cur parent : Ascoord) (g : UInt8) :
    Bool × List Node :=
  if !isInList closeList cur && !b.isObstract cur then
    match findFromList openList cur with
    | none => (cur == b.target,openList ++ [{node := cur,parent,g,h := b.getHValue cur}])
    | some node => (false,if node.g > g then reparent openList cur parent g else openList)
  else (false,openList)

-- The for loop over the cells around the popped node; the first push of the end
-- leaves it.
def expand (b : Ground) (closeList : List Node) (node : Node) : List Ascoord → List Node → Bool × List Node
  | [],openList => (false,openList)
  | it :: rest,openList =>
    match b.judgeSurround closeList openList it node.node (node.g + b.getGValue it) with
    | (true,openList) => (true,openList)
    | (false,openList) => expand b closeList node rest openList

structure Search where
  found : Bool
  openList : List Node
  closeList : List Node
  deriving DecidableEq, Repr

-- One round of the while loop: `none` when the open list is empty.
def round (b : Ground) (openList closeList : List Node) : Option (Bool × List Node × List Node) :=
  match popBestStep openList with
  | none => none
  | some (node,openList) =>
    let closeList := closeList ++ [node]
    let (found,openList) := b.expand closeList node (b.checkUp (getAround node.node)) openList
    some (found,openList,closeList)

-- The while loop, with the rounds it has left.
def searchLoop (b : Ground) : Nat → List Node → List Node → Option Search
  | 0,_,_ => none
  | rounds+1,openList,closeList =>
    match b.round openList closeList with
    | none => some ⟨false,openList,closeList⟩
    | some (true,openList,closeList) => some ⟨true,openList,closeList⟩
    | some (false,openList,closeList) => searchLoop b rounds openList closeList

def startNode (b : Ground) : Node := {node := b.start,g := 0,h := b.getHValue b.start}

-- Every round but the last closes the start or another cell of the map, so
-- _x*_y+2 rounds are enough.
def computeRoute (b : Ground) : Option Search :=
  b.searchLoop (b.sizeX.toNat*b.sizeY.toNat+2) [b.startNode] []

-- From a node of the closed list back to the start. A parent that is not in the
-- list would be a NULL read; so would a chain that never ends.
def walkBack (b : Ground) (closeList : List Node) : Nat → Option Node → Option (List Ascoord)
  | 0,_ => none
  | _,none => none
  | rounds+1,some node =>
    if node.node ≠ b.start then
      (walkBack b closeList rounds (findFromList closeList node.parent)).map (node.node :: ·)
    else some [node.node]

def getRoute (b : Ground) (s : Search) : Option (Bool × List Ascoord) :=
  match findFromList s.openList b.target with
  | none => some (false,[])
  | some node =>
    (b.walkBack s.closeList (s.closeList.length+1) (findFromList s.closeList node.parent)).map
      fun list => (true,node.node :: list)

end Ground
end GameServer.Battle
