import GameServer.Library.History
import Mathlib.Algebra.Group.Nat.Defs

namespace GameServer.GObject
open History

-- `rounds` counts the calls of StartOneRound.
structure SingleBattle where
  NextStartTime : UInt32
  rounds : Nat
  deriving DecidableEq, Repr

structure RoomBattle where
  stage : UInt8
  battles : List (Option SingleBattle)
  deriving DecidableEq, Repr

-- One run of the timer: what TimeUtil::Now() gives, and how long the round
-- takes that battle j of room i starts.
structure Tick where
  now : UInt32
  timeCost : Nat → Nat → UInt16

namespace SingleBattle

-- fabs of the UInt32 difference: it does not go below 0.
def due (b : SingleBattle) (now : UInt32) : Bool := now-b.NextStartTime ≤ 1

def start (b : SingleBattle) (now : UInt32) (timeCost : UInt16) : SingleBattle := ⟨timeCost.toUInt32+now,b.rounds+1⟩

def turn (b : SingleBattle) (now : UInt32) (timeCost : UInt16) : SingleBattle :=
  if b.NextStartTime = 0 then b.start now timeCost
  else if b.due now then b.start now timeCost
  else b

end SingleBattle

def RoomBattle.turn (room : RoomBattle) (now : UInt32) (timeCost : Nat → UInt16) : RoomBattle :=
  if room.stage ≠ 1 then room
  else {room with battles := room.battles.mapIdx fun j battle => battle.map fun b => b.turn now (timeCost j)}

def World_clanBattle_OneRound (rooms : List RoomBattle) (tick : Tick) : List RoomBattle :=
  rooms.mapIdx fun i room => room.turn tick.now (tick.timeCost i)

-- Between two ticks other handlers may leave any rooms.
inductive BattleEvent where
  | tick (tick : Tick)
  | rooms (rooms : List RoomBattle)

def battleStep (rooms : List RoomBattle) : BattleEvent → Option (Unit × List RoomBattle)
  | .tick tick => some ((),World_clanBattle_OneRound rooms tick)
  | .rooms rooms => some ((),rooms)

-- Battle j of room i, and the stage of the room.
def battleAt (rooms : List RoomBattle) (i j : Nat) : Option (UInt8 × SingleBattle) :=
  rooms[i]?.bind fun room => (room.battles[j]?.join).map (room.stage,·)

-- A tick starts the next round of exactly the battles of stage 1 whose time has
-- come, and sets their next one.
def OnTime (rooms : List RoomBattle) (event : BattleEvent) (_ : Unit) (next : List RoomBattle) : Prop :=
  match event with
  | .tick tick => ∀ i j b, battleAt rooms i j = some (1,b) → battleAt next i j =
      some (1,if b.NextStartTime ≤ tick.now then b.start tick.now (tick.timeCost i j) else b)
  | .rooms _ => True

-- The tick is not more than a second late for a battle that is scheduled.
def Punctual (rooms : List RoomBattle) : BattleEvent → Prop
  | .tick tick => ∀ i j b, battleAt rooms i j = some (1,b) → b.NextStartTime = 0 ∨
      tick.now.toNat ≤ b.NextStartTime.toNat+1 ∧ (tick.now = 0 → b.NextStartTime ≠ 0xFFFFFFFF)
  | .rooms _ => True

theorem battleAt_turn (rooms : List RoomBattle) (tick : Tick) (found : battleAt rooms i j = some (1,b)) :
    battleAt (World_clanBattle_OneRound rooms tick) i j = some (1,b.turn tick.now (tick.timeCost i j)) := by
  obtain ⟨room,here,seat⟩ := Option.bind_eq_some_iff.mp found
  obtain ⟨battle,placed,equal⟩ := Option.map_eq_some_iff.mp seat
  obtain ⟨stage,same⟩ := Prod.mk.inj equal
  subst same
  have there := Option.join_eq_some_iff.mp placed
  simp [battleAt,World_clanBattle_OneRound,RoomBattle.turn,here,stage,there]

theorem start_ne (b : SingleBattle) (now : UInt32) (timeCost : UInt16) : b.start now timeCost ≠ b := by
  intro same
  exact absurd (congrArg SingleBattle.rounds same) (Nat.succ_ne_self _)

theorem turn_starts (b : SingleBattle) (now : UInt32) (timeCost : UInt16) :
    b.turn now timeCost = b.start now timeCost ↔ b.NextStartTime = 0 ∨ b.due now = true := by
  unfold SingleBattle.turn
  split
  · simp [*]
  split
  · simp [*]
  · simp [*,(start_ne b now timeCost).symm]

theorem due_iff (b : SingleBattle) (now : UInt32) : b.due now = true ↔
    now.toNat = b.NextStartTime.toNat ∨ now.toNat = b.NextStartTime.toNat+1 ∨ now.toNat = 0 ∧ b.NextStartTime.toNat = 2^32-1 := by
  have early := b.NextStartTime.toNat_lt
  have late := now.toNat_lt
  simp only [SingleBattle.due,decide_eq_true_eq,UInt32.le_iff_toNat_le,UInt32.toNat_sub]
  have one : (1 : UInt32).toNat = 1 := rfl
  omega

theorem turn_on_time (b : SingleBattle) (now : UInt32) (timeCost : UInt16) :
    b.turn now timeCost = (if b.NextStartTime ≤ now then b.start now timeCost else b) ↔
      b.NextStartTime = 0 ∨ now.toNat ≤ b.NextStartTime.toNat+1 ∧ (now = 0 → b.NextStartTime ≠ 0xFFFFFFFF) := by
  have starts := turn_starts b now timeCost
  have stays : b.turn now timeCost = b ↔ ¬ (b.NextStartTime = 0 ∨ b.due now = true) := by
    rw [← starts]
    unfold SingleBattle.turn
    have other := start_ne b now timeCost
    split <;> simp [*,other.symm]
  have zero : b.NextStartTime = 0 ↔ b.NextStartTime.toNat = 0 := UInt32.toNat_inj.symm
  have first : now = 0 ↔ now.toNat = 0 := UInt32.toNat_inj.symm
  have last : b.NextStartTime = 0xFFFFFFFF ↔ b.NextStartTime.toNat = 2^32-1 := UInt32.toNat_inj.symm
  have early := b.NextStartTime.toNat_lt
  have late := now.toNat_lt
  split
  · rename_i come
    rw [starts,due_iff,zero,first,ne_eq,last]
    rw [UInt32.le_iff_toNat_le] at come
    omega
  · rename_i ahead
    rw [stays,due_iff,zero,first,ne_eq,last]
    rw [UInt32.le_iff_toNat_le] at ahead
    omega

theorem rounds_on_time_iff (rooms : List RoomBattle) (history : List BattleEvent) :
    Along battleStep OnTime rooms history ↔ Guarded battleStep Punctual rooms history := by
  apply @along_iff_guarded _ _ _ battleStep OnTime Punctual (fun _ => True) rooms history trivial
  · intro rooms event _ punctual
    cases event with
    | tick tick =>
        refine ⟨(),_,rfl,?_,trivial⟩
        intro i j b found
        rw [battleAt_turn rooms tick found,(turn_on_time b tick.now (tick.timeCost i j)).mpr (punctual i j b found)]
    | rooms other => exact ⟨(),_,rfl,trivial,trivial⟩
  · intro rooms event answer next _ moved onTime
    cases event with
    | tick tick =>
        cases Option.some.inj moved
        intro i j b found
        have after := onTime i j b found
        rw [battleAt_turn rooms tick found] at after
        exact (turn_on_time b tick.now (tick.timeCost i j)).mp (Prod.mk.inj (Option.some.inj after)).2
    | rooms other => trivial

-- A battle that was missed once keeps still at every later tick.
theorem missed_stalls (rooms : List RoomBattle) (ticks : List Tick) (found : battleAt rooms i j = some (1,b))
    (scheduled : b.NextStartTime ≠ 0) (missed : ∀ tick ∈ ticks, b.NextStartTime.toNat+1 < tick.now.toNat) :
    battleAt (ticks.foldl World_clanBattle_OneRound rooms) i j = some (1,b) := by
  induction ticks generalizing rooms with
  | nil => exact found
  | cons tick rest ih =>
      have late := missed tick List.mem_cons_self
      have quiet : b.turn tick.now (tick.timeCost i j) = b := by
        unfold SingleBattle.turn
        rw [if_neg scheduled,if_neg]
        rw [due_iff]
        omega
      apply ih
      · rw [battleAt_turn rooms tick found,quiet]
      · intro other member
        exact missed other (List.mem_cons_of_mem _ member)

-- A round of 5 seconds started at 10, and the next tick at 17.
theorem round_skipped :
    ¬ Along battleStep OnTime [⟨1,[some ⟨0,0⟩]⟩] [.tick ⟨10,fun _ _ => 5⟩,.tick ⟨17,fun _ _ => 5⟩] := by
  intro along
  obtain ⟨_,_,first,_,_,_,second,onTime,_⟩ := along
  cases Option.some.inj first
  cases Option.some.inj second
  exact absurd (onTime 0 0 ⟨15,1⟩ (by decide)) (by decide)

end GameServer.GObject
