import Mathlib.Data.List.Basic

namespace GameServer.Common.ThreadImpl

-- Core/Common/Thread_POSIX.h and Thread_POSIX.cpp: the thread that uses a ThreadImpl and those
-- it starts, one access to what they share a step.

variable {ρ κ π : Type _}

-- The argument of startImpl; a callable gets a pointer, which may be null.
inductive Job (ρ κ π : Type _) where
  | runnable (target : ρ)
  | callable (target : κ) (pData : Option π)

-- ThreadData with the counter of its RefCountedObject and what its pCallbackTarget points to;
-- done is an event that nothing resets.
structure ThreadData (ρ κ π : Type _) where
  pRunnableTarget : Option ρ := none
  callback : Option κ := none
  pData : Option π := none
  thread : Option Nat := none
  done : Bool := false
  counter : Nat := 1
  deleted : Bool := false

namespace ThreadData

variable (d : ThreadData ρ κ π)

def duplicate : ThreadData ρ κ π := {d with counter := d.counter+1}

def release : ThreadData ρ κ π :=
  if d.counter-1 = 0 then {d with counter := d.counter-1,deleted := true} else {d with counter := d.counter-1}

def isRunningImpl : Bool := d.pRunnableTarget.isSome || d.callback.isSome

-- What startImpl looks at before it throws.
def busy : Job ρ κ π → Bool
  | .runnable _ => d.pRunnableTarget.isSome
  | .callable _ _ => d.callback.isSome

def clear : Job ρ κ π → ThreadData ρ κ π
  | .runnable _ => {d with pRunnableTarget := none}
  | .callable _ _ => {d with callback := none,pData := none}

end ThreadData

-- Where runnableEntry or callableEntry is: at its copy of _pData, at the call, behind it, at
-- the second pointer to clear, at the event, at the end of its copy.
inductive Pc where
  | born
  | entered
  | running
  | returned
  | cleared
  | finished
  | told
  | exited
  deriving DecidableEq

-- A thread of the system, what it was started for and what it has called.
structure Pthread (ρ κ π : Type _) where
  job : Job ρ κ π
  pc : Pc := .born
  calls : List (Job ρ κ π) := []
  joined : Bool := false
  detached : Bool := false

-- Where the user is: in startImpl, in a joinImpl or in the destructor.
inductive User (ρ κ π : Type _) where
  | outside
  | checked (job : Job ρ κ π)
  | half (target : κ) (pData : Option π)
  | ready (job : Job ρ κ π)
  | waiting (timed slept : Bool)
  | reaping
  | releasing
  | gone

structure State (ρ κ π : Type _) where
  data : ThreadData ρ κ π := {}
  user : User ρ κ π := .outside
  threads : List (Pthread ρ κ π) := []
  crashed : Bool := false

inductive Action (ρ κ π : Type _) where
  | start (job : Job ρ κ π)
  | write
  | create (made : Bool)
  | join (timed : Bool)
  | look
  | timeOut
  | reap
  | destroy
  | release
  | move (pid : Nat)

namespace State

variable (s : State ρ κ π)

def crash : State ρ κ π := {s with crashed := true}

def alive : Bool :=
  match s.user with
  | .gone => false
  | _ => true

-- The thread goes on to its next place with the data as they are then.
def goes (pid : Nat) (t : Pthread ρ κ π) (pc : Pc) (data : ThreadData ρ κ π) : State ρ κ π :=
  {s with data := data,threads := s.threads.set pid {t with pc := pc}}

def calls (pid : Nat) (t : Pthread ρ κ π) (job : Job ρ κ π) : State ρ κ π :=
  {s with threads := s.threads.set pid {t with pc := .running,calls := t.calls ++ [job]}}

def entry (pid : Nat) (t : Pthread ρ κ π) : Option (State ρ κ π) :=
  match t.pc with
  | .exited => none
  | .running => some (s.goes pid t .returned s.data)
  | .born => some (if s.alive ∧ ¬s.data.deleted then s.goes pid t .entered s.data.duplicate else s.crash)
  | pc =>
      if s.data.deleted then some s.crash
      else
        some <|
          match pc,t.job with
          | .entered,.runnable _ =>
              match s.data.pRunnableTarget with
              | some target => s.calls pid t (.runnable target)
              | none => s.crash
          | .entered,.callable _ _ =>
              match s.data.callback with
              | some target => s.calls pid t (.callable target s.data.pData)
              | none => s.crash
          | .returned,.runnable _ => s.goes pid t .finished {s.data with pRunnableTarget := none}
          | .returned,.callable _ _ => s.goes pid t .cleared {s.data with callback := none}
          | .cleared,_ => s.goes pid t .finished {s.data with pData := none}
          | .finished,_ => s.goes pid t .told {s.data with done := true}
          | _,_ => s.goes pid t .exited s.data.release

-- pthread_detach and pthread_join of the thread that was started last.
def detach : State ρ κ π :=
  match s.data.thread with
  | none => s.crash
  | some pid =>
      match s.threads[pid]? with
      | none => s.crash
      | some t => {s with threads := s.threads.set pid {t with detached := true}}

def reap : Option (State ρ κ π) :=
  match s.data.thread with
  | none => some s.crash
  | some pid =>
      match s.threads[pid]? with
      | none => some s.crash
      | some t =>
          if t.joined ∨ t.detached then some s.crash
          else if t.pc = .exited then some {s with user := .outside,threads := s.threads.set pid {t with joined := true}}
          else none

-- What the user does with the data of the ThreadImpl.
def use : Action ρ κ π → Option (State ρ κ π)
  | .start job =>
      match s.user with
      | .outside => some (if s.data.busy job then s else {s with user := .checked job})
      | _ => none
  | .write =>
      match s.user with
      | .checked (.runnable target) => some {s with data := {s.data with pRunnableTarget := some target},user := .ready (.runnable target)}
      | .checked (.callable target pData) => some {s with data := {s.data with callback := some target},user := .half target pData}
      | .half target pData => some {s with data := {s.data with pData := pData},user := .ready (.callable target pData)}
      | _ => none
  | .create made =>
      match s.user with
      | .ready job =>
          some <|
            if made then
              {s with data := {s.data with thread := some s.threads.length},user := .outside,threads := s.threads ++ [{job := job}]}
            else {s with data := s.data.clear job,user := .outside}
      | _ => none
  | .join timed =>
      match s.user with
      | .outside => some {s with user := .waiting timed false}
      | _ => none
  | .look =>
      match s.user with
      | .waiting timed _ => some {s with user := if s.data.done then .reaping else .waiting timed true}
      | _ => none
  | .timeOut =>
      match s.user with
      | .waiting true true => some {s with user := .outside}
      | _ => none
  | .reap =>
      match s.user with
      | .reaping => s.reap
      | _ => none
  | .destroy =>
      match s.user with
      | .outside => some {(if s.data.isRunningImpl then s.detach else s) with user := .releasing}
      | _ => none
  | .release =>
      match s.user with
      | .releasing => some {s with data := s.data.release,user := .gone}
      | _ => none
  | .move _ => none

def step : Action ρ κ π → Option (State ρ κ π)
  | .move pid => s.threads[pid]?.bind (s.entry pid)
  | action => if s.alive then if s.data.deleted then some s.crash else s.use action else none

-- The thread of a ThreadImpl is joined before the next one starts, and joined once, and has
-- begun before the ThreadImpl goes.
def Allowed : Action ρ κ π → Prop
  | .start _ => ∀ t ∈ s.threads, t.joined = true
  | .join _ => ∃ t ∈ s.threads, t.joined = false
  | .destroy => ∀ t ∈ s.threads, t.pc ≠ .born
  | _ => True

inductive Reached : State ρ κ π → Prop where
  | init : Reached {}
  | step {s s'} (a : Action ρ κ π) : Reached s → s.Allowed a → s.step a = some s' → Reached s'

end State

end GameServer.Common.ThreadImpl
