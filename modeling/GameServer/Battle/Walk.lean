import GameServer.Battle.Target

namespace GameServer.Battle
namespace Ground

-- The enemies a fighter without a target walks to: its own row first, then the
-- rows from the top.
def moveGetEnemy (b : Ground) : List Ascoord :=
  let y := b.current.groundY
  if y > b.sizeY then [] else
    let row := fun (j : Nat) => ((List.range b.sizeX.toNat).map fun i => (⟨UInt8.ofNat i,UInt8.ofNat j⟩ : Ascoord)).filter b.hasEnemy
    row y.toNat ++ ((List.range b.sizeY.toNat).filter (· != y.toNat)).flatMap row

-- The first cell from the end of the path without a living fighter.
def getMovePos (b : Ground) (path : List Ascoord) (move : Ascoord) : Ascoord :=
  match path.reverse.find? (fun p => !b.living p) with
  | some p => p
  | none => move

-- How far along the path the move power lasts: the last cell taken. The first
-- cell of the path costs nothing, an enemy nearby one more.
def moveFlag (b : Ground) (begin : Ascoord) : List Ascoord → Ascoord → UInt8 → Ascoord
  | [],flag,_ => flag
  | p :: rest,flag,cost =>
    if cost ≥ b.current.movePower then flag
    else
      let cost := if p = begin then cost else cost + b.getRideSub p
      moveFlag b begin rest p (if b.isNearbyHaveEnemy p then cost + 1 else cost)

-- The cells up to the flag, the flag included.
def upTo (flag : Ascoord) : List Ascoord → List Ascoord
  | [] => []
  | p :: rest => if p = flag then [p] else p :: upTo flag rest

theorem upTo_mem {path : List Ascoord} (member : p ∈ upTo flag path) : p ∈ path := by
  induction path with
  | nil => cases member
  | cons q rest ih =>
      rw [upTo] at member
      split at member
      · rw [List.mem_singleton.mp member]
        exact List.mem_cons_self ..
      · rcases List.mem_cons.mp member with rfl | later
        · exact List.mem_cons_self ..
        · exact List.mem_cons_of_mem _ (ih later)

-- A path of two cells leads to the target itself unless the ground two
-- coordinates and a width away is 0; the flag stays (0,0) then.
def moveAnalyse (b : Ground) (list : List Ascoord) (target move : Ascoord) : Ascoord :=
  let path := list.reverse
  match path with
  | [] | [_] => move
  | [_,_] =>
    let move := if b.mapGround (target.x.toNat + target.y.toNat + b.sizeX.toNat) = 0 then b.start else target
    b.getMovePos (upTo {} path) move
  | begin :: _ => b.getMovePos (upTo (b.moveFlag begin path {} 0) path) move

-- (0xFF,0xFF) stands for no move.
def getMovePosition (b : Ground) (move : Ascoord) : Option Ascoord :=
  match b.moveGetEnemy with
  | [] => some move
  | target :: _ => do
    let path ← b.findRoute b.own target
    return {b with start := b.own,target}.moveAnalyse path target move

end Ground
end GameServer.Battle
