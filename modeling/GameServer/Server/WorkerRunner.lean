import GameServer.Library.Objects
import GameServer.Library.OrderedMap

namespace GameServer.Server.Runner

-- A timer's TimerEvent. Its param and callback are the user's.
structure TimerEvent where
  ev : Nat := 0
  interval : UInt32
  deriving DecidableEq, Repr

-- A struct event of libevent: whom it is given to, whether it was made with
-- EV_PERSIST and _event_timer_process or for _event_timer_process_firsttime,
-- and the time it waits for, when it is pending.
structure Event where
  te : Nat
  persist : Bool
  pending : Option (UInt32 × UInt32) := none
  deriving DecidableEq, Repr

-- The callbacks that are running, the innermost first: the one AddTimer calls
-- itself, before the event is in _events; one of _event_timer_process; and one of
-- _event_timer_process_firsttime.
inductive Frame where
  | adding (ev te : Nat)
  | process (te : Nat)
  | firsttime (te : Nat)
  deriving DecidableEq, Repr

inductive Stage where
  | fresh
  | begun
  | running
  | ended
  deriving DecidableEq, Repr

-- m_Log, _event_base and m_MsgHandler as NULL or not, the map of the events, and
-- the heap.
structure WorkerRunner where
  stage : Stage := .fresh
  log : Bool := false
  base : Bool := false
  handler : Bool := false
  events : List (Nat × Nat) := []
  evs : Objects Event := {}
  timers : Objects TimerEvent := {}
  stack : List Frame := []
  deriving DecidableEq, Repr

-- What the world answers an AddTimer: the allocation of the TimerEvent, event_new
-- and event_add.
structure Luck where
  timer : Bool := true
  event : Bool := true
  add : Bool := true
  deriving DecidableEq, Repr

inductive Call where
  -- RunnerProc: whether the Log could be made, and event_base_new
  | runnerProc (log base : Bool)
  -- Init was true
  | handler
  | addTimer (interval fisrtInterval : UInt32) (luck : Luck)
  | removeTimer (timer : Nat)
  | expire (ev : Nat)
  -- the innermost callback comes back; what event_add says to the first-time one
  | back (add : Bool)
  | destroy
  deriving DecidableEq, Repr

inductive Answer where
  | none
  | timer (handle : Option Nat)
  | removed (found : Bool)
  | ran (te : Nat)
  | destroyed
  deriving DecidableEq, Repr

def timeval (ms : UInt32) : UInt32 × UInt32 := (ms/1000,(ms%1000)*1000)

namespace WorkerRunner

-- event_free, which also deletes the event from the loop.
def eventFree (w : WorkerRunner) (ev : Nat) : Option WorkerRunner :=
  (w.evs.get ev).map fun _ => {w with evs := w.evs.free ev}

def deleteTimer (w : WorkerRunner) (te : Nat) : Option WorkerRunner :=
  (w.timers.get te).map fun _ => {w with timers := w.timers.free te}

def release (w : WorkerRunner) (ev te : Nat) : Option WorkerRunner := do
  let w ← w.eventFree ev
  w.deleteTimer te

-- event_add: an event without a base cannot be added.
def eventAdd (w : WorkerRunner) (ev : Nat) (tv : UInt32 × UInt32) (add : Bool) : Option (Bool × WorkerRunner) :=
  (w.evs.get ev).map fun event =>
    if add && w.base then (true,{w with evs := w.evs.set ev {event with pending := some tv}}) else (false,w)

-- _events[ev] = te
def enter (w : WorkerRunner) (ev te : Nat) : WorkerRunner :=
  {w with events := OrderedMap.upsert ev (fun _ => te) w.events}

def erase (w : WorkerRunner) (ev : Nat) : WorkerRunner := {w with events := w.events.filter fun entry => entry.1 ≠ ev}

def addTimer (w : WorkerRunner) (interval fisrtInterval : UInt32) (luck : Luck) : Option (Answer × WorkerRunner) :=
  if luck.timer = false then some (.timer none,w)
  else do
    let te := w.timers.next
    let w := {w with timers := w.timers.alloc {interval}}
    let persist := fisrtInterval = 0 ∨ fisrtInterval = 0xFFFFFFFF
    if luck.event = false then
      let w ← w.deleteTimer te
      return (.timer none,w)
    let ev := w.evs.next
    let w := {w with evs := w.evs.alloc {te,persist},timers := w.timers.set te {ev,interval}}
    let (added,w) ← w.eventAdd ev (timeval (if persist then interval else fisrtInterval)) luck.add
    if added = false then
      let w ← w.release ev te
      return (.timer none,w)
    if fisrtInterval = 0 then return (.none,{w with stack := .adding ev te :: w.stack})
    return (.timer (some ev),w.enter ev te)

def removeTimer (w : WorkerRunner) (timer : Nat) : Option (Answer × WorkerRunner) :=
  match OrderedMap.find timer w.events with
  | none => some (.removed false,w)
  | some te => (w.release timer te).map fun w => (.removed true,w.erase timer)

-- The loop runs one callback at a time. An event that does not persist is no
-- longer pending when its callback runs.
def expire (w : WorkerRunner) (ev : Nat) : Option (Answer × WorkerRunner) :=
  if w.stage ≠ .running ∨ w.stack ≠ [] then some (.none,w)
  else match w.evs.get ev with
    | none => some (.none,w)
    | some event =>
      if event.pending = none then some (.none,w)
      else do
        let _ ← w.timers.get event.te
        if event.persist then return (.ran event.te,{w with stack := [.process event.te]})
        return (.ran event.te,{w with
          evs := w.evs.set ev {event with pending := none}
          stack := [.firsttime event.te]})

-- What is left of a callback after the user's part. The first-time one deletes,
-- assigns and adds its event again.
def back (w : WorkerRunner) (add : Bool) : Option (Answer × WorkerRunner) :=
  match w.stack with
  | [] => some (.none,w)
  | .adding ev te :: stack => some (.timer (some ev),{w with stack}.enter ev te)
  | .process _ :: stack => some (.none,{w with stack})
  | .firsttime te :: stack => do
    let timer ← w.timers.get te
    let event ← w.evs.get timer.ev
    let w := {w with stack,evs := w.evs.set timer.ev {event with te,persist := true,pending := none}}
    let (added,w) ← w.eventAdd timer.ev (timeval timer.interval) add
    if added then return (.none,w)
    let w ← (w.erase timer.ev).release timer.ev te
    return (.none,w)

-- The trace lines go through m_Log, NULL or not.
def trace (w : WorkerRunner) : Option Unit := if w.log then some () else none

def freeAll : WorkerRunner → List (Nat × Nat) → Option WorkerRunner
  | w,[] => some w
  | w,(ev,te) :: rest => do
    let _ ← w.trace
    let w ← w.release ev te
    freeAll w rest

-- The base is freed when it is NULL. Nothing asks whether a callback is running.
def destroy (w : WorkerRunner) : Option (Answer × WorkerRunner) := do
  let w ← freeAll w w.events
  let w := {w with events := []}
  if w.base = false then w.trace
  if w.handler then w.trace
  return (.destroyed,{w with handler := false,log := false,stage := .ended})

def step (w : WorkerRunner) : Call → Option (Answer × WorkerRunner)
  | .runnerProc log base => some (.none,if w.stage = .fresh then {w with stage := .begun,log,base} else w)
  | .handler => some (.none,if w.stage = .begun ∧ w.base then {w with stage := .running,handler := true} else w)
  | .addTimer interval fisrtInterval luck => w.addTimer interval fisrtInterval luck
  | .removeTimer timer => w.removeTimer timer
  | .expire ev => w.expire ev
  | .back add => w.back add
  | .destroy => w.destroy

-- What the calls about timers leave alone.
structure Steady (w w' : WorkerRunner) : Prop where
  stage : w'.stage = w.stage
  log : w'.log = w.log
  base : w'.base = w.base
  handler : w'.handler = w.handler

section steady
variable {w w' w'' : WorkerRunner} {ev te : Nat} {answer : Answer}

theorem steady_refl (w : WorkerRunner) : Steady w w := ⟨rfl,rfl,rfl,rfl⟩

theorem steady_trans (one : Steady w w') (other : Steady w' w'') : Steady w w'' :=
  ⟨other.stage.trans one.stage,other.log.trans one.log,other.base.trans one.base,other.handler.trans one.handler⟩

theorem deleteTimer_steady (deleted : w.deleteTimer te = some w') : Steady w w' := by
  obtain ⟨_,_,rfl⟩ := Option.map_eq_some_iff.mp deleted
  exact ⟨rfl,rfl,rfl,rfl⟩

theorem release_steady (released : w.release ev te = some w') : Steady w w' := by
  obtain ⟨_,freed,deleted⟩ := Option.bind_eq_some_iff.mp released
  obtain ⟨_,_,rfl⟩ := Option.map_eq_some_iff.mp freed
  have after := deleteTimer_steady deleted
  exact ⟨after.stage,after.log,after.base,after.handler⟩

theorem eventAdd_steady {tv : UInt32 × UInt32} {add added : Bool} (armed : w.eventAdd ev tv add = some (added,w')) : Steady w w' := by
  obtain ⟨_,_,same⟩ := Option.map_eq_some_iff.mp armed
  split at same <;> cases same <;> exact ⟨rfl,rfl,rfl,rfl⟩

theorem addTimer_steady {interval fisrtInterval : UInt32} {luck : Luck}
    (done : w.addTimer interval fisrtInterval luck = some (answer,w')) : Steady w w' := by
  unfold addTimer at done
  split at done
  · cases done
    exact steady_refl w
  · dsimp only at done
    split at done
    · obtain ⟨_,deleted,done⟩ := Option.bind_eq_some_iff.mp done
      have after := deleteTimer_steady deleted
      cases done
      exact ⟨after.stage,after.log,after.base,after.handler⟩
    · obtain ⟨⟨added,_⟩,armed,done⟩ := Option.bind_eq_some_iff.mp done
      have before := eventAdd_steady armed
      dsimp only at done
      split at done
      · obtain ⟨_,released,done⟩ := Option.bind_eq_some_iff.mp done
        have after := steady_trans before (release_steady released)
        cases done
        exact ⟨after.stage,after.log,after.base,after.handler⟩
      · split at done <;> cases done <;> exact ⟨before.stage,before.log,before.base,before.handler⟩

theorem removeTimer_steady {timer : Nat} (done : w.removeTimer timer = some (answer,w')) : Steady w w' := by
  unfold removeTimer at done
  split at done
  · cases done
    exact steady_refl w
  · obtain ⟨_,released,done⟩ := Option.map_eq_some_iff.mp done
    have before := release_steady released
    cases done
    exact ⟨before.stage,before.log,before.base,before.handler⟩

theorem expire_steady (done : w.expire ev = some (answer,w')) : Steady w w' := by
  unfold expire at done
  split at done
  · cases done
    exact steady_refl w
  · split at done
    · cases done
      exact steady_refl w
    · split at done
      · cases done
        exact steady_refl w
      · obtain ⟨_,_,done⟩ := Option.bind_eq_some_iff.mp done
        split at done <;> cases done <;> exact ⟨rfl,rfl,rfl,rfl⟩

theorem back_steady {add : Bool} (done : w.back add = some (answer,w')) : Steady w w' := by
  unfold back at done
  split at done
  · cases done
    exact steady_refl w
  · cases done
    exact ⟨rfl,rfl,rfl,rfl⟩
  · cases done
    exact ⟨rfl,rfl,rfl,rfl⟩
  · obtain ⟨timer,_,done⟩ := Option.bind_eq_some_iff.mp done
    obtain ⟨event,_,done⟩ := Option.bind_eq_some_iff.mp done
    obtain ⟨⟨added,_⟩,armed,done⟩ := Option.bind_eq_some_iff.mp done
    have before := eventAdd_steady armed
    dsimp only at done
    split at done
    · cases done
      exact ⟨before.stage,before.log,before.base,before.handler⟩
    · obtain ⟨_,released,done⟩ := Option.bind_eq_some_iff.mp done
      have after := release_steady released
      cases done
      exact steady_trans ⟨before.stage,before.log,before.base,before.handler⟩ ⟨after.stage,after.log,after.base,after.handler⟩

-- A Destroy makes no handler.
theorem destroy_handler (done : w.destroy = some (answer,w')) (there : w'.handler = true) : w.handler = true := by
  unfold destroy at done
  obtain ⟨_,_,done⟩ := Option.bind_eq_some_iff.mp done
  have gone : w'.handler = false := by
    simp only [Option.bind_eq_bind] at done
    split at done
    · obtain ⟨_,_,done⟩ := Option.bind_eq_some_iff.mp done
      split at done
      · obtain ⟨_,_,done⟩ := Option.bind_eq_some_iff.mp done
        cases done
        rfl
      · cases done
        rfl
    · split at done
      · obtain ⟨_,_,done⟩ := Option.bind_eq_some_iff.mp done
        cases done
        rfl
      · cases done
        rfl
  rw [gone] at there
  cases there

end steady
end WorkerRunner
end GameServer.Server.Runner
