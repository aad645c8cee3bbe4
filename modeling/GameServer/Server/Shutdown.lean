import GameServer.Library.History
import GameServer.Server.WorkerRunner

namespace GameServer.Server.Runner.Shutdown
open WorkerRunner

-- Where RunnerProc is. Until the base is asked for, the Log is the thread's own.
inductive Pc where
  | log
  | base (log : Bool)
  | init
  | handler
  | msgTimer
  | timer
  | activate
  | enter
  | loop
  | unInit
  | destroy
  | ended
  deriving DecidableEq, Repr

-- Where the one Shutdown is: m_IsActive cleared, then m_MsgHandler seen.
inductive Phase where
  | idle
  | cleared
  | found
  | returned
  deriving DecidableEq, Repr

inductive Work where
  | message
  | timer
  deriving DecidableEq, Repr

-- A runner and its thread: m_Timerinterval, m_IsActive, m_IsPause, m_CheckPause,
-- the handler's m_RunnerShutdown, the loop's break, and the TimerEvents of Run.
structure Thread where
  interval : UInt32
  runner : WorkerRunner := {}
  pc : Pc := .log
  active : Bool := false
  paused : Bool := false
  checkPause : Bool := false
  flag : Bool := false
  broken : Bool := false
  own : List (Nat × Work) := []
  phase : Phase := .idle
  crashed : Bool := false
  deriving DecidableEq, Repr

inductive Move where
  -- RunnerProc and Run
  | log (made : Bool)
  | base (made : Bool)
  | init (ok : Bool)
  | handler
  | msgTimer (luck : Luck)
  | timer (luck : Luck)
  | activate
  | enter
  | expire (ev : Nat)
  | leave
  | unInit
  | destroy
  -- what Init, UnInit and the callbacks do
  | addTimer (interval fisrtInterval : UInt32) (luck : Luck)
  | removeTimer (timer : Nat)
  | back (add : Bool)
  -- other threads
  | pause
  | resume
  | setActive
  | check
  | tell
  deriving DecidableEq, Repr

namespace Thread

def run (t : Thread) (call : Call) (rest : Answer → Thread → Option Work × Thread) : Option Work × Thread :=
  match t.runner.step call with
  | none => (none,{t with crashed := true})
  | some (answer,runner) => rest answer {t with runner}

-- A thread that is not active breaks its loop, and does its work once more.
def doProcess (work : Work) (t : Thread) : Option Work × Thread :=
  let t := if t.active then t else {t with broken := true}
  if t.paused then (none,{t with checkPause := false}) else (some work,t)

def doProcessMsg : Thread → Option Work × Thread := doProcess .message

def doProcessTimer : Thread → Option Work × Thread := doProcess .timer

def callback : Work → Thread → Option Work × Thread
  | .message => doProcessMsg
  | .timer => doProcessTimer

-- AddTimer of Run, whose first callback comes at once.
def addProcess (t : Thread) (interval : UInt32) (luck : Luck) (work : Work) : Option Work × Thread :=
  t.run (.addTimer interval 0 luck) fun answer t' =>
    if answer = .none then callback work {t' with own := (t.runner.timers.next,work) :: t'.own} else (none,t')

def expire (t : Thread) (ev : Nat) : Option Work × Thread :=
  t.run (.expire ev) fun answer t =>
    match answer with
    | .ran te =>
      match t.own.find? fun entry => entry.1 = te with
      | some (_,work) => callback work t
      | none => (none,t)
    | _ => (none,t)

-- event_base_loop goes on while an event is pending.
def waits (t : Thread) : Bool := t.runner.evs.slots.any fun slot => slot.any fun event => event.pending.isSome

-- The user's code runs in Init, in UnInit and in a callback.
def user (t : Thread) (call : Call) : Option Work × Thread :=
  if t.pc = .init ∨ t.pc = .unInit ∨ t.runner.stack ≠ [] then t.run call fun _ t => (none,t) else (none,t)

def move (t : Thread) : Move → Option Work × Thread
  | .log made => (none,if t.pc = .log then {t with pc := .base made} else t)
  | .base made =>
    match t.pc with
    | .base log => t.run (.runnerProc log made) fun _ t => (none,{t with pc := if made then .init else .destroy})
    | _ => (none,t)
  | .init ok => (none,if t.pc = .init ∧ t.runner.stack = [] then {t with pc := if ok then .handler else .destroy} else t)
  | .handler =>
    if t.pc = .handler then t.run .handler fun _ t => (none,{t with flag := false,pc := .msgTimer}) else (none,t)
  | .msgTimer luck => if t.pc = .msgTimer then {t with pc := .timer}.addProcess 25 luck .message else (none,t)
  | .timer luck =>
    if t.pc = .timer ∧ t.runner.stack = [] then
      if t.interval > 0 then {t with pc := .activate}.addProcess t.interval luck .timer else (none,{t with pc := .activate})
    else (none,t)
  | .activate => (none,if t.pc = .activate ∧ t.runner.stack = [] then {t with active := true,pc := .enter} else t)
  -- event_base_loop forgets an earlier break
  | .enter => (none,if t.pc = .enter then {t with broken := false,pc := .loop} else t)
  | .expire ev => if t.pc = .loop ∧ t.broken = false then t.expire ev else (none,t)
  | .leave =>
    (none,if t.pc = .loop ∧ t.runner.stack = [] ∧ (t.broken ∨ t.waits = false) then {t with pc := .unInit} else t)
  | .unInit => (none,if t.pc = .unInit ∧ t.runner.stack = [] then {t with pc := .destroy} else t)
  | .destroy => if t.pc = .destroy then t.run .destroy fun _ t => (none,{t with pc := .ended}) else (none,t)
  | .addTimer interval fisrtInterval luck => t.user (.addTimer interval fisrtInterval luck)
  | .removeTimer timer => t.user (.removeTimer timer)
  | .back add => t.user (.back add)
  | .pause => (none,if t.paused then t else {t with checkPause := true,paused := true})
  | .resume => (none,if t.paused then {t with paused := false} else t)
  | .setActive => (none,if t.phase = .idle then {t with active := false,phase := .cleared} else t)
  | .check =>
    (none,if t.phase = .cleared then {t with phase := if t.runner.handler then .found else .returned} else t)
  -- the handler may have been deleted since
  | .tell =>
    (none,if t.phase = .found then
        if t.runner.handler then {t with flag := true,phase := .returned} else {t with crashed := true}
      else t)

def step (t : Thread) (move : Move) : Option (Option Work × Thread) :=
  some (if t.crashed then (none,t) else t.move move)

end Thread

-- Nobody is told to go on: m_IsActive is false, the handler that is there knows,
-- and the loop does not run for an active worker.
structure Heard (t : Thread) : Prop where
  idle : t.active = false
  told : t.runner.handler = true → t.flag = true
  stopped : ¬(t.pc = .loop ∧ t.active = true)

-- What is asked of a step: once Shutdown has returned, it is heard.
def Good (_ : Thread) (_ : Move) (_ : Option Work) (t : Thread) : Prop := t.phase = .returned → Heard t

-- After Shutdown has returned no handler is made and Run does not set m_IsActive;
-- nor has Run set it when Shutdown, past SetActive(false), comes to return.
def Guard (t : Thread) (move : Move) : Prop :=
  t.crashed = false →
    match move with
    | .handler => t.pc = .handler → t.phase ≠ .returned
    | .activate => t.pc = .activate ∧ t.runner.stack = [] → t.phase ≠ .returned
    | .check => t.phase = .cleared ∧ t.runner.handler = false → t.active = false
    | .tell => t.phase = .found ∧ t.runner.handler = true → t.active = false
    | _ => True

-- What RunnerProc has done of the runner so far.
def Stands (w : WorkerRunner) : Pc → Prop
  | .log | .base _ => w.stage = .fresh
  | .init | .handler => w.stage = .begun ∧ w.base = true
  | _ => True

structure Inv (t : Thread) : Prop where
  stands : Stands t.runner t.pc
  heard : t.phase = .returned → Heard t

-- A step that is about timers only. Of the runner it makes no call or one.
structure Calm (t t' : Thread) : Prop where
  path : History.Reached WorkerRunner.step t.runner t'.runner
  runner : Steady t.runner t'.runner
  pc : t'.pc = t.pc
  phase : t'.phase = t.phase
  active : t'.active = t.active
  flag : t'.flag = t.flag

-- What a step can do.
inductive Takes (t : Thread) : Move → Thread → Prop where
  | calm {move t'} (pc : Pc) : (Stands t.runner t.pc → Stands t.runner pc) → Calm {t with pc} t' → Takes t move t'
  | base {log made answer runner} : t.pc = .base log → t.runner.step (.runnerProc log made) = some (answer,runner) →
      Takes t (.base made) {t with runner,pc := if made then .init else .destroy}
  | handler {answer runner} : t.pc = .handler → t.runner.step .handler = some (answer,runner) →
      Takes t .handler {t with runner,flag := false,pc := .msgTimer}
  | activate : t.pc = .activate ∧ t.runner.stack = [] → Takes t .activate {t with active := true,pc := .enter}
  | destroy {answer runner} : t.runner.step .destroy = some (answer,runner) → Takes t .destroy {t with runner,pc := .ended}
  | setActive : t.phase = .idle → Takes t .setActive {t with active := false,phase := .cleared}
  | check : t.phase = .cleared → Takes t .check {t with phase := if t.runner.handler then .found else .returned}
  | tell : t.phase = .found ∧ t.runner.handler = true → Takes t .tell {t with flag := true,phase := .returned}

section steps
variable {t t' t'' : Thread}

theorem calm_same (runner : t'.runner = t.runner) (pc : t'.pc = t.pc) (phase : t'.phase = t.phase) (active : t'.active = t.active)
    (flag : t'.flag = t.flag) : Calm t t' :=
  ⟨runner ▸ .start,runner ▸ steady_refl _,pc,phase,active,flag⟩

theorem calm_refl (t : Thread) : Calm t t := calm_same rfl rfl rfl rfl rfl

theorem calm_trans (one : Calm t t') (other : Calm t' t'') : Calm t t'' :=
  ⟨History.reached_trans one.path other.path,steady_trans one.runner other.runner,other.pc.trans one.pc,
    other.phase.trans one.phase,other.active.trans one.active,other.flag.trans one.flag⟩

-- A call of the runner either faults or goes on.
theorem run_cases (t : Thread) (call : Call) (rest : Answer → Thread → Option Work × Thread) :
    t.run call rest = (none,{t with crashed := true}) ∨
      ∃ answer runner, t.runner.step call = some (answer,runner) ∧ t.run call rest = rest answer {t with runner} := by
  unfold Thread.run
  cases done : t.runner.step call with
  | none => exact .inl rfl
  | some pair => exact .inr ⟨pair.1,pair.2,rfl,rfl⟩

theorem run_done {call : Call} {answer : Answer} {runner : WorkerRunner} (done : t.runner.step call = some (answer,runner))
    (rest : Answer → Thread → Option Work × Thread) : t.run call rest = rest answer {t with runner} := by
  unfold Thread.run
  rw [done]

theorem doProcess_calm (work : Work) (t : Thread) : Calm t (t.doProcess work).2 := by
  unfold Thread.doProcess
  dsimp only
  split <;> split <;> exact calm_same rfl rfl rfl rfl rfl

theorem callback_calm (work : Work) (t : Thread) : Calm t (Thread.callback work t).2 := by
  cases work with
  | message => exact doProcess_calm .message t
  | timer => exact doProcess_calm .timer t

theorem run_calm (call : Call) (rest : Answer → Thread → Option Work × Thread)
    (steady : ∀ answer runner, t.runner.step call = some (answer,runner) → Steady t.runner runner)
    (calm : ∀ answer t', Calm t' (rest answer t').2) : Calm t (t.run call rest).2 := by
  rcases run_cases t call rest with fault | ⟨answer,runner,done,goes⟩
  · rw [fault]
    exact calm_same rfl rfl rfl rfl rfl
  · rw [goes]
    have here : Calm t {t with runner} := ⟨.step .start done,steady answer runner done,rfl,rfl,rfl,rfl⟩
    exact calm_trans here (calm answer {t with runner})

theorem addProcess_calm (t : Thread) (interval : UInt32) (luck : Luck) (work : Work) :
    Calm t (t.addProcess interval luck work).2 := by
  refine run_calm _ _ (fun _ _ => addTimer_steady) fun answer t' => ?_
  split
  · have here : Calm t' {t' with own := (t.runner.timers.next,work) :: t'.own} := calm_same rfl rfl rfl rfl rfl
    exact calm_trans here (callback_calm work _)
  · exact calm_refl t'

theorem expire_calm (t : Thread) (ev : Nat) : Calm t (t.expire ev).2 := by
  refine run_calm _ _ (fun _ _ => expire_steady) fun answer t' => ?_
  split
  · split
    · exact callback_calm _ t'
    · exact calm_refl t'
  · exact calm_refl t'

theorem user_calm (t : Thread) (call : Call)
    (steady : ∀ answer runner, t.runner.step call = some (answer,runner) → Steady t.runner runner) : Calm t (t.user call).2 := by
  unfold Thread.user
  split
  · exact run_calm _ _ steady fun _ t' => calm_refl t'
  · exact calm_refl t

theorem stays {move : Move} (calm : Calm t t') : Takes t move t' := .calm t.pc id calm

-- RunnerProc goes on to a place where nothing is said of the runner.
theorem goes_on {move : Move} (pc : Pc) (stands : Stands t.runner pc) : Takes t move {t with pc} :=
  .calm pc (fun _ => stands) (calm_refl _)

theorem move_takes (t : Thread) (move : Move) : Takes t move (t.move move).2 := by
  have faults : ∀ move, Takes t move {t with crashed := true} := fun _ => stays (calm_same rfl rfl rfl rfl rfl)
  have rests : ∀ move, Takes t move t := fun _ => stays (calm_refl t)
  cases move with
  | log made =>
      dsimp only [Thread.move]
      split
      · rename_i here
        exact .calm (.base made) (fun stands => by rw [here] at stands; exact stands) (calm_refl _)
      · exact rests _
  | base made =>
      dsimp only [Thread.move]
      split
      · rename_i log here
        rcases run_cases t (.runnerProc log made) fun _ t => (none,{t with pc := if made then .init else .destroy})
          with fault | ⟨answer,runner,done,goes⟩
        · rw [fault]
          exact faults _
        · rw [goes]
          exact .base here done
      · exact rests _
  | init ok =>
      dsimp only [Thread.move]
      split
      · rename_i here
        refine .calm _ (fun stands => ?_) (calm_refl _)
        rw [here.1] at stands
        split
        · exact stands
        · trivial
      · exact rests _
  | handler =>
      dsimp only [Thread.move]
      split
      · rename_i here
        rcases run_cases t .handler fun _ t => (none,{t with flag := false,pc := .msgTimer}) with fault | ⟨answer,runner,done,goes⟩
        · rw [fault]
          exact faults _
        · rw [goes]
          exact .handler here done
      · exact rests _
  | msgTimer luck =>
      dsimp only [Thread.move]
      split
      · exact .calm .timer (fun _ => trivial) (addProcess_calm _ _ _ _)
      · exact rests _
  | timer luck =>
      dsimp only [Thread.move]
      split
      · split
        · exact .calm .activate (fun _ => trivial) (addProcess_calm _ _ _ _)
        · exact goes_on .activate trivial
      · exact rests _
  | activate =>
      dsimp only [Thread.move]
      split
      · rename_i here
        exact .activate here
      · exact rests _
  | enter =>
      dsimp only [Thread.move]
      split
      · exact .calm .loop (fun _ => trivial) (calm_same rfl rfl rfl rfl rfl)
      · exact rests _
  | expire ev =>
      dsimp only [Thread.move]
      split
      · exact stays (expire_calm t ev)
      · exact rests _
  | leave =>
      dsimp only [Thread.move]
      split
      · exact goes_on .unInit trivial
      · exact rests _
  | unInit =>
      dsimp only [Thread.move]
      split
      · exact goes_on .destroy trivial
      · exact rests _
  | destroy =>
      dsimp only [Thread.move]
      split
      · rcases run_cases t .destroy fun _ t => (none,{t with pc := .ended}) with fault | ⟨answer,runner,done,goes⟩
        · rw [fault]
          exact faults _
        · rw [goes]
          exact .destroy done
      · exact rests _
  | addTimer interval fisrtInterval luck => exact stays (user_calm t _ fun _ _ => addTimer_steady)
  | removeTimer timer => exact stays (user_calm t _ fun _ _ => removeTimer_steady)
  | back add => exact stays (user_calm t _ fun _ _ => back_steady)
  | pause =>
      dsimp only [Thread.move]
      split
      · exact rests _
      · exact stays (calm_same rfl rfl rfl rfl rfl)
  | resume =>
      dsimp only [Thread.move]
      split
      · exact stays (calm_same rfl rfl rfl rfl rfl)
      · exact rests _
  | setActive =>
      dsimp only [Thread.move]
      split
      · rename_i here
        exact .setActive here
      · exact rests _
  | check =>
      dsimp only [Thread.move]
      split
      · rename_i here
        exact .check here
      · exact rests _
  | tell =>
      dsimp only [Thread.move]
      split
      · rename_i here
        split
        · rename_i there
          exact .tell ⟨here,there⟩
        · exact faults _
      · exact rests _

theorem step_cases {move : Move} {work : Option Work} (moved : t.step move = some (work,t')) : Takes t move t' := by
  unfold Thread.step at moved
  split at moved
  · cases moved
    exact stays (calm_refl t)
  · have taken := move_takes t move
    rw [Option.some.inj moved] at taken
    exact taken

theorem heard_of (idle : t.active = false) (told : t.runner.handler = true → t.flag = true) : Heard t :=
  ⟨idle,told,fun running => by rw [idle] at running; cases running.2⟩

theorem heard_calm (heard : Heard t) (calm : Calm t t') : Heard t' :=
  heard_of (calm.active.trans heard.idle) fun here => calm.flag.trans (heard.told (calm.runner.handler.symm.trans here))

theorem stands_steady {w w' : WorkerRunner} {pc : Pc} (stands : Stands w pc) (steady : Steady w w') : Stands w' pc := by
  cases pc with
  | log => exact steady.stage.trans stands
  | base _ => exact steady.stage.trans stands
  | init => exact ⟨steady.stage.trans stands.1,steady.base.trans stands.2⟩
  | handler => exact ⟨steady.stage.trans stands.1,steady.base.trans stands.2⟩
  | _ => trivial

-- The two calls in which RunnerProc makes something of the runner.
theorem base_done (inv : Inv t) {log made : Bool} (here : t.pc = .base log) :
    t.runner.step (.runnerProc log made) = some (.none,{t.runner with stage := .begun,log,base := made}) := by
  have stands := inv.stands
  rw [here] at stands
  have fresh : t.runner.stage = .fresh := stands
  dsimp only [WorkerRunner.step]
  rw [if_pos fresh]

theorem handler_done (inv : Inv t) (here : t.pc = .handler) :
    t.runner.step .handler = some (.none,{t.runner with stage := .running,handler := true}) := by
  have stands := inv.stands
  rw [here] at stands
  have begun : t.runner.stage = .begun ∧ t.runner.base = true := stands
  dsimp only [WorkerRunner.step]
  rw [if_pos begun]

theorem takes_inv {move : Move} (inv : Inv t) (up : t.crashed = false) (guard : Guard t move) (taken : Takes t move t') : Inv t' := by
  have guard := guard up
  cases taken with
  | calm pc stands calm =>
      refine ⟨?_,fun returned => ?_⟩
      · rw [calm.pc]
        exact stands_steady (stands inv.stands) calm.runner
      · have heard := inv.heard (calm.phase.symm.trans returned)
        exact heard_calm (t:={t with pc}) (heard_of heard.idle heard.told) calm
  | base here done =>
      cases (base_done inv here).symm.trans done
      refine ⟨?_,fun returned => heard_of (inv.heard returned).idle (inv.heard returned).told⟩
      dsimp only
      split
      · rename_i made
        exact ⟨rfl,made⟩
      · trivial
  | handler here done => exact ⟨trivial,fun returned => absurd returned (guard here)⟩
  | activate here => exact ⟨trivial,fun returned => absurd returned (guard here)⟩
  | destroy done =>
      refine ⟨trivial,fun returned => heard_of (inv.heard returned).idle fun there => ?_⟩
      exact (inv.heard returned).told (destroy_handler done there)
  | setActive here => exact ⟨inv.stands,nofun⟩
  | check here =>
      refine ⟨inv.stands,fun returned => ?_⟩
      cases there : t.runner.handler with
      | true =>
          dsimp only at returned
          rw [if_pos there] at returned
          cases returned
      | false => exact heard_of (guard ⟨here,there⟩) fun there' => by rw [there] at there'; cases there'
  | tell here => exact ⟨inv.stands,fun _ => heard_of (guard here) fun _ => rfl⟩

theorem step_good {move : Move} (inv : Inv t) (guard : Guard t move) :
    ∃ work t', t.step move = some (work,t') ∧ Good t move work t' ∧ Inv t' := by
  unfold Thread.step
  cases up : t.crashed with
  | true => exact ⟨none,t,rfl,inv.heard,inv⟩
  | false =>
      have kept := takes_inv inv up guard (move_takes t move)
      exact ⟨_,_,rfl,kept.heard,kept⟩

theorem step_guard {move : Move} {work : Option Work} (inv : Inv t) (moved : t.step move = some (work,t'))
    (good : Good t move work t') : Guard t move := by
  intro up
  unfold Thread.step at moved
  rw [up,if_neg Bool.false_ne_true] at moved
  replace good : (t.move move).2.phase = .returned → Heard (t.move move).2 := by
    rw [Option.some.inj moved]
    exact good
  cases move with
  | handler =>
      intro here returned
      dsimp only [Thread.move] at good
      rw [if_pos here,run_done (handler_done inv here)] at good
      cases (good returned).told rfl
  | activate =>
      intro here returned
      dsimp only [Thread.move] at good
      rw [if_pos here] at good
      cases (good returned).idle
  | check =>
      intro here
      dsimp only [Thread.move] at good
      rw [if_pos here.1,here.2] at good
      exact (good rfl).idle
  | tell =>
      intro here
      dsimp only [Thread.move] at good
      rw [if_pos here.1,if_pos here.2] at good
      exact (good rfl).idle
  | _ => trivial

theorem doProcess_broken (idle : t.active = false) (work : Work) : (t.doProcess work).2.broken = true := by
  have here : ¬t.active = true := by
    rw [idle]
    exact Bool.false_ne_true
  unfold Thread.doProcess
  rw [if_neg here]
  dsimp only
  split <;> rfl

theorem callback_broken (idle : t.active = false) (work : Work) : (Thread.callback work t).2.broken = true := by
  cases work with
  | message => exact doProcess_broken idle .message
  | timer => exact doProcess_broken idle .timer

theorem expire_broken (idle : t.active = false) {ev : Nat} {work : Work} (worked : t.expire ev = (some work,t')) : t'.broken = true := by
  unfold Thread.expire at worked
  rcases run_cases t (.expire ev) _ with fault | ⟨answer,runner,_,goes⟩
  · rw [fault] at worked
    cases worked
  · rw [goes] at worked
    dsimp only at worked
    split at worked
    · split at worked
      · rename_i own _
        have broken := callback_broken (t:={t with runner}) idle own
        rw [worked] at broken
        exact broken
      · cases worked
    · cases worked

-- A worker that has heard works at most once more.
theorem heard_last (heard : Heard t) {ev : Nat} {work : Work} (worked : t.step (.expire ev) = some (some work,t')) (ev' : Nat) :
    t'.step (.expire ev') = some (none,t') := by
  unfold Thread.step at worked
  split at worked
  · cases worked
  · dsimp only [Thread.move] at worked
    split at worked
    · have broken := expire_broken heard.idle (Option.some.inj worked)
      unfold Thread.step
      split
      · rfl
      · dsimp only [Thread.move]
        rw [if_neg fun goes => by rw [broken] at goes; cases goes.2]
    · cases worked

-- Nobody clears m_IsActive a second time.
def Lost (t : Thread) : Prop := t.phase = .returned ∧ t.active = true

theorem takes_lost {move : Move} (lost : Lost t) (taken : Takes t move t') : Lost t' := by
  have returned : ∀ phase, phase ≠ .returned → t.phase ≠ phase := fun phase other same => other (same.symm.trans lost.1)
  cases taken with
  | calm pc stands calm => exact ⟨calm.phase.trans lost.1,calm.active.trans lost.2⟩
  | base here done => exact lost
  | handler here done => exact lost
  | activate here => exact ⟨lost.1,rfl⟩
  | destroy done => exact lost
  | setActive here => exact absurd here (returned .idle nofun)
  | check here => exact absurd here (returned .cleared nofun)
  | tell here => exact absurd here.1 (returned .found nofun)

-- A request that is lost stays lost.
theorem lost_stays (lost : Lost t) (path : History.Reached Thread.step t t') : Lost t' :=
  History.reached_inv path lost fun _ _ _ _ kept moved => takes_lost kept (step_cases moved)

theorem takes_runner {move : Move} (taken : Takes t move t') : History.Reached WorkerRunner.step t.runner t'.runner := by
  cases taken with
  | calm pc stands calm => exact calm.path
  | base here done => exact .step .start done
  | handler here done => exact .step .start done
  | destroy done => exact .step .start done
  | activate here => exact .start
  | setActive here => exact .start
  | check here => exact .start
  | tell here => exact .start

-- Under the thread its runner goes from call to call.
theorem runner_reached (path : History.Reached Thread.step t t') : History.Reached WorkerRunner.step t.runner t'.runner := by
  induction path with
  | start => exact .start
  | step _ moved ih => exact History.reached_trans ih (takes_runner (step_cases moved))

end steps

theorem inv_start (interval : UInt32) : Inv {interval} := ⟨rfl,nofun⟩

theorem shutdown_heard_iff (interval : UInt32) (history : List Move) :
    History.Along Thread.step Good {interval} history ↔ History.Guarded Thread.step Guard {interval} history :=
  History.along_iff_guarded (inv_start interval) (fun _ _ inv guard => step_good inv guard)
    fun _ _ _ _ inv moved good => step_guard inv moved good

-- A Shutdown before the handler, and one between the handler and Run's m_IsActive:
-- the loop runs, and the runner is active.
theorem shutdown_lost :
    ¬History.Along Thread.step Good {interval := 0} [.setActive,.check,.log true,.base true,.init true,.handler] ∧
    ¬History.Along Thread.step Good {interval := 0} [.log true,.base true,.init true,.handler,.setActive,.check,.tell,
      .msgTimer {},.back true,.timer {},.activate,.enter] := by
  constructor
  · rintro ⟨_,_,⟨⟩,_,_,_,⟨⟩,_,_,_,⟨⟩,_,_,_,⟨⟩,_,_,_,⟨⟩,_,_,_,⟨⟩,good,_⟩
    cases (good rfl).told rfl
  · rintro ⟨_,_,⟨⟩,_,_,_,⟨⟩,_,_,_,⟨⟩,_,_,_,⟨⟩,_,_,_,⟨⟩,_,_,_,⟨⟩,_,_,_,⟨⟩,_,_,_,⟨⟩,_,_,_,⟨⟩,_,_,_,⟨⟩,_,_,_,⟨⟩,_,_,_,⟨⟩,good,_⟩
    exact (good rfl).stopped ⟨rfl,rfl⟩

end GameServer.Server.Runner.Shutdown
