import Mathlib.Algebra.GroupWithZero.Nat
import Mathlib.Data.Bool.Basic
import GameServer.Common.ThreadImpl

namespace GameServer.Common.ThreadRuns
open ThreadImpl

variable {ρ κ π : Type _}

def holds : Pc → Bool
  | .born | .exited => false
  | _ => true

def begun : Pc → Bool
  | .born | .entered => false
  | _ => true

def tells : Pc → Bool
  | .told | .exited => true
  | _ => false

-- The steps that are left.
def left : Pc → Nat
  | .born => 7
  | .entered => 6
  | .running => 5
  | .returned => 4
  | .cleared => 3
  | .finished => 2
  | .told => 1
  | .exited => 0

def Filled (d : ThreadData ρ κ π) : Job ρ κ π → Prop
  | .runnable target => d.pRunnableTarget = some target ∧ d.callback = none ∧ d.pData = none
  | .callable target pData => d.pRunnableTarget = none ∧ d.callback = some target ∧ d.pData = pData

def Empty (d : ThreadData ρ κ π) : Prop := d.pRunnableTarget = none ∧ d.callback = none ∧ d.pData = none

def Fields (d : ThreadData ρ κ π) (job : Job ρ κ π) : Pc → Prop
  | .born | .entered | .running | .returned => Filled d job
  | .cleared => d.pRunnableTarget = none ∧ d.callback = none
  | .finished | .told | .exited => Empty d

structure Quiet (t : Pthread ρ κ π) : Prop where
  pc : t.pc = .exited
  calls : t.calls = [t.job]
  joined : t.joined = true

-- What startImpl has written.
def Prepared (d : ThreadData ρ κ π) : User ρ κ π → Prop
  | .outside | .checked _ | .releasing | .gone => Empty d
  | .half target _ => d.pRunnableTarget = none ∧ d.callback = some target ∧ d.pData = none
  | .ready job => Filled d job
  | .waiting _ _ | .reaping => False

-- A wait sleeps only for the first thread.
def Joining (past : List (Pthread ρ κ π)) (t : Pthread ρ κ π) (done : Bool) : User ρ κ π → Prop
  | .outside => True
  | .waiting _ slept => slept = true → past = []
  | .reaping => done = true
  | .releasing | .gone => t.pc ≠ .born
  | .checked _ | .half _ _ | .ready _ => False

-- No thread is left to join.
structure Rest (s : State ρ κ π) : Prop where
  whole : s.crashed = false
  quiet : ∀ t ∈ s.threads, Quiet t
  place : Prepared s.data s.user
  counter : s.data.counter = s.alive.toNat
  deleted : s.data.deleted = !s.alive
  done : s.data.done = !s.threads.isEmpty

-- The thread behind all others is to be joined.
structure Busy (s : State ρ κ π) (past : List (Pthread ρ κ π)) (t : Pthread ρ κ π) : Prop where
  whole : s.crashed = false
  threads : s.threads = past ++ [t]
  quiet : ∀ u ∈ past, Quiet u
  loose : t.joined = false
  place : Joining past t s.data.done s.user
  thread : s.data.thread = some past.length
  fields : Fields s.data t.job t.pc
  counter : s.data.counter = s.alive.toNat + (holds t.pc).toNat
  deleted : s.data.deleted = decide (s.data.counter = 0)
  done : s.data.done = (!past.isEmpty || tells t.pc)
  calls : t.calls = if begun t.pc then [t.job] else []
  detached : t.detached = true → s.user = .releasing ∨ s.user = .gone

-- What the user has done, by where it was.
inductive Used (s : State ρ κ π) : Action ρ κ π → State ρ κ π → Prop where
  | start {job} : s.user = .outside → Used s (.start job) (if s.data.busy job then s else {s with user := .checked job})
  | runnable {target} : s.user = .checked (.runnable target) →
      Used s .write {s with data := {s.data with pRunnableTarget := some target},user := .ready (.runnable target)}
  | callable {target pData} : s.user = .checked (.callable target pData) →
      Used s .write {s with data := {s.data with callback := some target},user := .half target pData}
  | pointer {target pData} : s.user = .half target pData →
      Used s .write {s with data := {s.data with pData := pData},user := .ready (.callable target pData)}
  | created {job} : s.user = .ready job →
      Used s (.create true) {s with
        data := {s.data with thread := some s.threads.length},user := .outside,threads := s.threads ++ [{job := job}]}
  | failed {job} : s.user = .ready job → Used s (.create false) {s with data := s.data.clear job,user := .outside}
  | join {timed} : s.user = .outside → Used s (.join timed) {s with user := .waiting timed false}
  | look {timed slept} : s.user = .waiting timed slept →
      Used s .look {s with user := if s.data.done then .reaping else .waiting timed true}
  | timeOut : s.user = .waiting true true → Used s .timeOut {s with user := .outside}
  | reap {s'} : s.user = .reaping → s.reap = some s' → Used s .reap s'
  | destroy : s.user = .outside → Used s .destroy {(if s.data.isRunningImpl then s.detach else s) with user := .releasing}
  | release : s.user = .releasing → Used s .release {s with data := s.data.release,user := .gone}

theorem use_cases {s s' : State ρ κ π} {a : Action ρ κ π} (used : s.use a = some s') : Used s a s' := by
  cases a with
  | move pid => cases used
  | write =>
      dsimp only [State.use] at used
      split at used
      · rename_i here
        cases used
        exact .runnable here
      · rename_i here
        cases used
        exact .callable here
      · rename_i here
        cases used
        exact .pointer here
      · cases used
  | create made =>
      dsimp only [State.use] at used
      split at used
      · rename_i here
        cases used
        cases made with
        | true => exact .created here
        | false => exact .failed here
      · cases used
  | reap =>
      dsimp only [State.use] at used
      split at used
      · rename_i here
        exact .reap here used
      · cases used
  | start job | join timed | look | timeOut | destroy | release =>
      dsimp only [State.use] at used
      split at used
      · rename_i here
        cases used
        constructor
        exact here
      · cases used

section moves

variable {s s' : State ρ κ π} {past : List (Pthread ρ κ π)} {t t' : Pthread ρ κ π}

theorem set_last (past : List (Pthread ρ κ π)) (t t' : Pthread ρ κ π) : (past ++ [t]).set past.length t' = past ++ [t'] := by
  rw [List.set_append_right _ _ (Nat.le_refl _),Nat.sub_self]
  rfl

theorem get_last (past : List (Pthread ρ κ π)) (t : Pthread ρ κ π) : (past ++ [t])[past.length]? = some t := by
  rw [List.getElem?_append_right (Nat.le_refl _),Nat.sub_self]
  rfl

theorem busy_kept (busy : Busy s past t) (pc : holds t.pc = true) : s.data.deleted = false := by
  rw [busy.deleted,busy.counter,pc]
  exact decide_eq_false (Nat.succ_ne_zero _)

theorem busy_alive (busy : Busy s past t) (pc : t.pc = .born) : s.alive = true := by
  have place := busy.place
  unfold State.alive
  cases user : s.user with
  | gone =>
      rw [user] at place
      exact absurd pc place
  | _ => rfl

theorem busy_goes (busy : Busy s past t) {pc : Pc} {data : ThreadData ρ κ π} (later : pc ≠ .born) (thread : data.thread = s.data.thread)
    (fields : Fields data t.job pc) (counter : data.counter = s.alive.toNat + (holds pc).toNat)
    (deleted : data.deleted = decide (data.counter = 0)) (done : data.done = (s.data.done || tells pc))
    (told : tells t.pc = true → tells pc = true) (same : begun pc = begun t.pc) :
    Busy (s.goes past.length t pc data) past {t with pc := pc} := by
  refine ⟨busy.whole,?_,busy.quiet,busy.loose,?_,thread.trans busy.thread,fields,counter,deleted,?_,?_,busy.detached⟩
  · unfold State.goes
    rw [busy.threads,set_last]
  · have place := busy.place
    show Joining past _ data.done s.user
    cases user : s.user with
    | outside => trivial
    | waiting timed slept =>
        rw [user] at place
        exact place
    | reaping =>
        rw [user] at place
        exact done.trans (by rw [show s.data.done = true from place,Bool.true_or])
    | releasing | gone => exact later
    | checked job | half target pData | ready job =>
        rw [user] at place
        exact place.elim
  · refine done.trans ?_
    rw [busy.done,Bool.or_assoc]
    cases before : tells t.pc with
    | false => rw [Bool.false_or]
    | true => rw [told before,Bool.or_true]
  · refine busy.calls.trans ?_
    rw [same]

theorem busy_calls (busy : Busy s past t) (pc : t.pc = .entered) : Busy (s.calls past.length t t.job) past {t with pc := .running,calls := t.calls ++ [t.job]} := by
  have fields := busy.fields
  have counter := busy.counter
  have calls := busy.calls
  have done := busy.done
  rw [pc] at fields counter calls done
  refine ⟨busy.whole,?_,busy.quiet,busy.loose,?_,busy.thread,fields,counter,busy.deleted,done,?_,busy.detached⟩
  · unfold State.calls
    rw [busy.threads,set_last]
  · have place := busy.place
    show Joining past _ s.data.done s.user
    cases user : s.user with
    | outside => trivial
    | releasing | gone => exact nofun
    | waiting timed slept | reaping =>
        rw [user] at place
        exact place
    | checked job | half target pData | ready job =>
        rw [user] at place
        exact place.elim
  · rw [calls]
    rfl

theorem release_counter (d : ThreadData ρ κ π) (n : Nat) (counter : d.counter = n+1) (kept : d.deleted = false) :
    d.release = {d with counter := n,deleted := decide (n = 0)} := by
  unfold ThreadData.release
  rw [counter,Nat.add_sub_cancel]
  split
  · rename_i none
    rw [decide_eq_true none]
  · rename_i some
    rw [decide_eq_false some,← kept]

theorem busy_move (busy : Busy s past t) (moved : s.entry past.length t = some s') : ∃ t', Busy s' past t' ∧ left t'.pc < left t.pc := by
  have fields := busy.fields
  have counter := busy.counter
  unfold State.entry at moved
  cases pc : t.pc with
  | born =>
      have alive := busy_alive busy pc
      have kept : s.data.deleted = false := by
        rw [busy.deleted,counter,alive,Bool.toNat_true]
        exact decide_eq_false (by omega)
      rw [pc] at fields counter
      simp only [pc,alive,kept,Bool.false_eq_true,not_false_eq_true,and_self,if_true] at moved
      cases moved
      refine ⟨_,busy_goes busy (by decide) rfl fields ?_ ?_ (Bool.or_false _).symm (by rw [pc]; decide) (by rw [pc]; rfl),show 6 < 7 by decide⟩
      · exact congrArg (·+1) counter
      · exact kept.trans (decide_eq_false (Nat.succ_ne_zero _)).symm
  | running =>
      rw [pc] at fields counter
      simp only [pc] at moved
      cases moved
      exact ⟨_,busy_goes busy (by decide) rfl fields counter busy.deleted (Bool.or_false _).symm (by rw [pc]; decide) (by rw [pc]; rfl),show 4 < 5 by decide⟩
  | exited =>
      simp only [pc] at moved
      cases moved
  | entered =>
      have kept := busy_kept busy (by rw [pc]; rfl)
      have called := busy_calls busy pc
      rw [pc] at fields
      cases job : t.job with
      | runnable target =>
          rw [job] at fields called
          simp only [pc,kept,job,fields.1,Bool.false_eq_true,if_false] at moved
          cases moved
          exact ⟨_,called,show 5 < 6 by decide⟩
      | callable target pData =>
          rw [job] at fields called
          simp only [pc,kept,job,fields.2.1,fields.2.2,Bool.false_eq_true,if_false] at moved
          cases moved
          exact ⟨_,called,show 5 < 6 by decide⟩
  | returned =>
      have kept := busy_kept busy (by rw [pc]; rfl)
      rw [pc] at fields counter
      cases job : t.job with
      | runnable target =>
          rw [job] at fields
          simp only [pc,kept,job,Bool.false_eq_true,if_false] at moved
          cases moved
          exact ⟨_,busy_goes busy (by decide) rfl ⟨rfl,fields.2.1,fields.2.2⟩ counter (kept.symm.trans busy.deleted) (Bool.or_false _).symm
            (by rw [pc]; decide) (by rw [pc]; rfl),show 2 < 4 by decide⟩
      | callable target pData =>
          rw [job] at fields
          simp only [pc,kept,job,Bool.false_eq_true,if_false] at moved
          cases moved
          exact ⟨_,busy_goes busy (by decide) rfl ⟨fields.1,rfl⟩ counter (kept.symm.trans busy.deleted) (Bool.or_false _).symm
            (by rw [pc]; decide) (by rw [pc]; rfl),show 3 < 4 by decide⟩
  | cleared =>
      have kept := busy_kept busy (by rw [pc]; rfl)
      rw [pc] at fields counter
      simp only [pc,kept,Bool.false_eq_true,if_false] at moved
      cases moved
      exact ⟨_,busy_goes busy (by decide) rfl ⟨fields.1,fields.2,rfl⟩ counter (kept.symm.trans busy.deleted) (Bool.or_false _).symm
        (by rw [pc]; decide) (by rw [pc]; rfl),show 2 < 3 by decide⟩
  | finished =>
      have kept := busy_kept busy (by rw [pc]; rfl)
      rw [pc] at fields counter
      simp only [pc,kept,Bool.false_eq_true,if_false] at moved
      cases moved
      exact ⟨_,busy_goes busy (by decide) rfl fields counter (kept.symm.trans busy.deleted) (Bool.or_true _).symm (by rw [pc]; decide) (by rw [pc]; rfl),show 1 < 2 by decide⟩
  | told =>
      have kept := busy_kept busy (by rw [pc]; rfl)
      rw [pc] at fields counter
      simp only [pc,kept,Bool.false_eq_true,if_false] at moved
      cases moved
      rw [release_counter s.data s.alive.toNat counter kept]
      refine ⟨_,busy_goes busy (by decide) rfl fields rfl rfl ?_ (fun _ => rfl) (by rw [pc]; rfl),show 0 < 1 by decide⟩
      have done := busy.done
      rw [pc] at done
      refine done.trans ?_
      show (!past.isEmpty || true) = (s.data.done || true)
      rw [Bool.or_true,Bool.or_true]

end moves

section uses

variable {s s' : State ρ κ π} {past : List (Pthread ρ κ π)} {t : Pthread ρ κ π}

theorem alive_here {user : User ρ κ π} (here : s.user = user) (stays : user ≠ .gone) : s.alive = true := by
  unfold State.alive
  rw [here]
  cases user with
  | gone => exact absurd rfl stays
  | _ => rfl

-- The user goes elsewhere and nothing else changes.
theorem busy_user (busy : Busy s past t) {user : User ρ κ π} (alive : State.alive {s with user := user} = s.alive)
    (place : Joining past t s.data.done user)
    (attached : t.detached = false) : Busy {s with user := user} past t := by
  refine ⟨busy.whole,busy.threads,busy.quiet,busy.loose,place,busy.thread,busy.fields,?_,busy.deleted,busy.done,busy.calls,?_⟩
  · rw [alive]
    exact busy.counter
  · intro detached
    rw [attached] at detached
    cases detached

theorem busy_attached (busy : Busy s past t) {user : User ρ κ π} (here : s.user = user) (held : user ≠ .releasing) (stays : user ≠ .gone) :
    t.detached = false := by
  cases detached : t.detached with
  | false => rfl
  | true =>
      have ended := busy.detached detached
      rw [here] at ended
      exact (ended.elim held stays).elim

theorem busy_detach (busy : Busy s past t) (begun : t.pc ≠ .born) (alive : s.alive = true) :
    Busy {s.detach with user := .releasing} past {t with detached := true} := by
  have there : s.threads[past.length]? = some t := busy.threads ▸ get_last past t
  have detached : s.detach = {s with threads := past ++ [{t with detached := true}]} := by
    unfold State.detach
    rw [busy.thread]
    dsimp only
    rw [there,busy.threads]
    dsimp only
    rw [set_last]
  rw [detached]
  have counter := busy.counter
  rw [alive] at counter
  exact ⟨busy.whole,rfl,busy.quiet,busy.loose,begun,busy.thread,busy.fields,counter,busy.deleted,busy.done,busy.calls,fun _ => Or.inl rfl⟩

theorem busy_release (busy : Busy s past t) (here : s.user = .releasing) : Busy {s with data := s.data.release,user := .gone} past t := by
  have counter := busy.counter
  have deleted := busy.deleted
  have place := busy.place
  have alive : s.alive = true := alive_here here nofun
  rw [alive,Bool.toNat_true,Nat.add_comm] at counter
  rw [counter] at deleted
  rw [here] at place
  rw [release_counter s.data _ counter (deleted.trans (decide_eq_false (Nat.succ_ne_zero _)))]
  exact ⟨busy.whole,busy.threads,busy.quiet,busy.loose,place,busy.thread,busy.fields,(Nat.zero_add _).symm,rfl,busy.done,busy.calls,
    fun _ => Or.inr rfl⟩

theorem busy_reap (busy : Busy s past t) (here : s.user = .reaping) (used : s.reap = some s') : t.pc = .exited ∧ Rest s' := by
  have there : s.threads[past.length]? = some t := busy.threads ▸ get_last past t
  have attached := busy_attached busy here nofun nofun
  unfold State.reap at used
  rw [busy.thread] at used
  dsimp only at used
  rw [there] at used
  dsimp only at used
  rw [if_neg (by rw [busy.loose,attached]; decide)] at used
  split at used
  · rename_i exited
    cases used
    have fields := busy.fields
    have counter := busy.counter
    have calls := busy.calls
    have deleted := busy.deleted
    have alive : s.alive = true := alive_here here nofun
    rw [exited] at fields counter calls
    rw [alive] at counter
    refine ⟨exited,busy.whole,?_,fields,counter,?_,?_⟩
    · rw [busy.threads,set_last]
      intro u member
      rcases List.mem_append.mp member with old | new
      · exact busy.quiet u old
      · rw [List.mem_singleton.mp new]
        exact ⟨exited,calls,rfl⟩
    · rw [deleted,counter]
      rfl
    · have done := busy.done
      rw [exited] at done
      rw [busy.threads,set_last]
      refine done.trans ?_
      show (!past.isEmpty || true) = _
      rw [Bool.or_true]
      cases past with
      | nil => rfl
      | cons u past => rfl
  · cases used

theorem busy_use (busy : Busy s past t) {a : Action ρ κ π} (allowed : s.Allowed a) (used : s.use a = some s') :
    Rest s' ∨ Busy s' past t ∨ Busy s' past {t with detached := true} := by
  have member : t ∈ s.threads := by
    rw [busy.threads]
    exact List.mem_append_right _ List.mem_cons_self
  have place := busy.place
  cases use_cases used with
  | start here =>
      have joined := allowed t member
      rw [busy.loose] at joined
      cases joined
  | runnable here | callable here | pointer here | created here | failed here =>
      rw [here] at place
      exact place.elim
  | join here =>
      exact Or.inr (Or.inl (busy_user busy (alive_here here nofun).symm nofun (busy_attached busy here nofun nofun)))
  | look here =>
      have attached := busy_attached busy here nofun nofun
      have alive := alive_here here nofun
      refine Or.inr (Or.inl ?_)
      cases done : s.data.done with
      | true => exact busy_user busy alive.symm done attached
      | false =>
          refine busy_user busy alive.symm (fun _ => ?_) attached
          have told := busy.done
          rw [done] at told
          have none := (Bool.or_eq_false_iff.mp told.symm).1
          cases past with
          | nil => rfl
          | cons u past => cases none
  | timeOut here =>
      exact Or.inr (Or.inl (busy_user busy (alive_here here nofun).symm trivial (busy_attached busy here nofun nofun)))
  | reap here reaped => exact Or.inl (busy_reap busy here reaped).2
  | destroy here =>
      have begun := allowed t member
      have alive := alive_here here nofun
      have attached := busy_attached busy here nofun nofun
      cases s.data.isRunningImpl with
      | true => exact Or.inr (Or.inr (busy_detach busy begun alive))
      | false => exact Or.inr (Or.inl (busy_user busy alive.symm begun attached))
  | release here => exact Or.inr (Or.inl (busy_release busy here))

theorem empty_idle {d : ThreadData ρ κ π} (empty : Empty d) : d.isRunningImpl = false ∧ ∀ job, d.busy job = false := by
  refine ⟨?_,?_⟩
  · unfold ThreadData.isRunningImpl
    rw [empty.1,empty.2.1]
    rfl
  · intro job
    cases job with
    | runnable target => exact congrArg Option.isSome empty.1
    | callable target pData => exact congrArg Option.isSome empty.2.1

-- Steps of startImpl and of the destructor.
theorem rest_user (rest : Rest s) {data : ThreadData ρ κ π} {user : User ρ κ π} (alive : s.alive = true)
    (still : State.alive {s with data := data,user := user} = true) (counter : data.counter = s.data.counter)
    (deleted : data.deleted = s.data.deleted) (done : data.done = s.data.done) (place : Prepared data user) :
    Rest {s with data := data,user := user} := by
  refine ⟨rest.whole,rest.quiet,place,?_,?_,done.trans rest.done⟩
  · rw [still,← alive]
    exact counter.trans rest.counter
  · rw [still,← alive]
    exact deleted.trans rest.deleted

theorem rest_there (rest : Rest s) (alive : s.alive = true) : s.data.counter = 1 ∧ s.data.deleted = false := by
  have counter := rest.counter
  have deleted := rest.deleted
  rw [alive] at counter deleted
  exact ⟨counter,deleted⟩

theorem rest_create (rest : Rest s) {job : Job ρ κ π} (here : s.user = .ready job) :
    Busy {s with data := {s.data with thread := some s.threads.length},user := .outside,threads := s.threads ++ [{job := job}]}
      s.threads {job := job} := by
  have place := rest.place
  rw [here] at place
  obtain ⟨counter,deleted⟩ := rest_there rest (alive_here here nofun)
  refine ⟨rest.whole,rfl,rest.quiet,rfl,trivial,rfl,place,counter,?_,?_,rfl,nofun⟩
  · rw [deleted,counter]
    rfl
  · exact rest.done.trans (Bool.or_false _).symm

theorem rest_release (rest : Rest s) (here : s.user = .releasing) : Rest {s with data := s.data.release,user := .gone} := by
  have place := rest.place
  rw [here] at place
  obtain ⟨counter,deleted⟩ := rest_there rest (alive_here here nofun)
  rw [release_counter s.data 0 counter deleted]
  exact ⟨rest.whole,rest.quiet,place,rfl,rfl,rest.done⟩

theorem clear_filled {d : ThreadData ρ κ π} {job : Job ρ κ π} (filled : Filled d job) : Empty (d.clear job) := by
  cases job with
  | runnable target => exact ⟨rfl,filled.2.1,filled.2.2⟩
  | callable target pData => exact ⟨filled.1,rfl,rfl⟩

theorem clear_kept (d : ThreadData ρ κ π) (job : Job ρ κ π) :
    (d.clear job).counter = d.counter ∧ (d.clear job).deleted = d.deleted ∧ (d.clear job).done = d.done := by
  cases job with
  | runnable target => exact ⟨rfl,rfl,rfl⟩
  | callable target pData => exact ⟨rfl,rfl,rfl⟩

theorem rest_use (rest : Rest s) {a : Action ρ κ π} (allowed : s.Allowed a) (used : s.use a = some s') :
    Rest s' ∨ ∃ t, Busy s' s.threads t := by
  have place := rest.place
  cases use_cases used with
  | @start job here =>
      rw [here] at place
      rw [(empty_idle place).2 job]
      exact Or.inl (rest_user rest (alive_here here nofun) rfl rfl rfl rfl place)
  | runnable here =>
      rw [here] at place
      exact Or.inl (rest_user rest (alive_here here nofun) rfl rfl rfl rfl ⟨rfl,place.2.1,place.2.2⟩)
  | callable here =>
      rw [here] at place
      exact Or.inl (rest_user rest (alive_here here nofun) rfl rfl rfl rfl ⟨place.1,rfl,place.2.2⟩)
  | pointer here =>
      rw [here] at place
      exact Or.inl (rest_user rest (alive_here here nofun) rfl rfl rfl rfl ⟨place.1,place.2.1,rfl⟩)
  | created here => exact Or.inr ⟨_,rest_create rest here⟩
  | @failed job here =>
      rw [here] at place
      obtain ⟨counter,deleted,done⟩ := clear_kept s.data job
      exact Or.inl (rest_user rest (alive_here here nofun) rfl counter deleted done (clear_filled place))
  | join here =>
      obtain ⟨t,member,loose⟩ := allowed
      rw [(rest.quiet t member).joined] at loose
      cases loose
  | look here | timeOut here | reap here reaped =>
      rw [here] at place
      exact place.elim
  | destroy here =>
      rw [here] at place
      rw [(empty_idle place).1]
      exact Or.inl (rest_user rest (alive_here here nofun) rfl rfl rfl rfl place)
  | release here => exact Or.inl (rest_release rest here)

end uses

-- Either of the two holds in all that is reached.
def Kept (s : State ρ κ π) : Prop := Rest s ∨ ∃ past t, Busy s past t

section runs

variable {s s' : State ρ κ π}

theorem unheld_pc {pc : Pc} (unheld : holds pc = false) : pc = .born ∨ pc = .exited := by
  cases pc with
  | born => exact Or.inl rfl
  | exited => exact Or.inr rfl
  | _ => cases unheld

-- Who is in a join joins a thread.
theorem kept_busy (kept : Kept s) {user : User ρ κ π} (here : s.user = user) (joins : ∀ d, ¬Prepared d user) : ∃ past t, Busy s past t := by
  rcases kept with rest | busy
  · have place := rest.place
    rw [here] at place
    exact absurd place (joins _)
  · exact busy

theorem kept_undeleted (kept : Kept s) (alive : s.alive = true) : s.data.deleted = false := by
  rcases kept with rest | ⟨past,t,busy⟩
  · rw [rest.deleted,alive]
    rfl
  · rw [busy.deleted,busy.counter,alive,Bool.toNat_true]
    exact decide_eq_false (by omega)

def stepsLeft (s : State ρ κ π) : Nat := (s.threads.map fun t => left t.pc).sum

theorem kept_move (kept : Kept s) {pid : Nat} (moved : s.step (.move pid) = some s') : Kept s' ∧ stepsLeft s' < stepsLeft s := by
  obtain ⟨t,there,entered⟩ := Option.bind_eq_some_iff.mp moved
  rcases kept with rest | ⟨past,u,busy⟩
  · unfold State.entry at entered
    rw [(rest.quiet t (List.mem_of_getElem? there)).pc] at entered
    cases entered
  · rw [busy.threads] at there
    rcases Nat.lt_or_ge pid past.length with before | last
    · rw [List.getElem?_append_left before] at there
      unfold State.entry at entered
      rw [(busy.quiet t (List.mem_of_getElem? there)).pc] at entered
      cases entered
    · rw [List.getElem?_append_right last] at there
      have only : pid = past.length := by
        have inside := (List.getElem?_eq_some_iff.mp there).1
        rw [List.length_singleton] at inside
        omega
      subst only
      rw [Nat.sub_self] at there
      cases there
      obtain ⟨t',moved,fewer⟩ := busy_move busy entered
      refine ⟨Or.inr ⟨past,t',moved⟩,?_⟩
      unfold stepsLeft
      rw [moved.threads,busy.threads,List.map_append,List.map_append,List.sum_append,List.sum_append]
      exact Nat.add_lt_add_left fewer _

-- A step of the user finds the data there.
theorem use_of_step (kept : Kept s) {a : Action ρ κ π} (other : ∀ pid, a ≠ .move pid) (stepped : s.step a = some s') : s.use a = some s' := by
  have usual : (if s.alive then if s.data.deleted then some s.crash else s.use a else none) = some s' := by
    cases a with
    | move pid => exact absurd rfl (other pid)
    | _ => exact stepped
  cases alive : s.alive with
  | false =>
      rw [alive] at usual
      cases usual
  | true =>
      rw [alive,kept_undeleted kept alive] at usual
      exact usual

theorem kept_step (kept : Kept s) {a : Action ρ κ π} (allowed : s.Allowed a) (stepped : s.step a = some s') : Kept s' := by
  have usual (used : s.use a = some s') : Kept s' := by
    rcases kept with rest | ⟨past,t,busy⟩
    · exact (rest_use rest allowed used).imp_right fun ⟨t,busy⟩ => ⟨s.threads,t,busy⟩
    · rcases busy_use busy allowed used with rest | busy | busy
      · exact Or.inl rest
      · exact Or.inr ⟨past,t,busy⟩
      · exact Or.inr ⟨past,_,busy⟩
  cases a with
  | move pid => exact (kept_move kept stepped).1
  | _ => exact usual (use_of_step kept nofun stepped)

theorem reached_kept (reached : State.Reached s) : Kept s := by
  induction reached with
  | init => exact Or.inl ⟨rfl,fun _ member => absurd member List.not_mem_nil,⟨rfl,rfl,rfl⟩,rfl,rfl,rfl⟩
  | step a _ allowed stepped ih => exact kept_step ih allowed stepped

end runs

structure Run (ρ κ π : Type _) where
  state : State ρ κ π
  reached : State.Reached state

def Run.step (run : Run ρ κ π) (a : Action ρ κ π) {s' : State ρ κ π} (allowed : run.state.Allowed a) (stepped : run.state.step a = some s') :
    Run ρ κ π := ⟨s',.step a run.reached allowed stepped⟩

-- A thread with a target of its own, joined while it runs.
def joining : Run Nat Nat Nat :=
  let started := (((⟨{},.init⟩ : Run Nat Nat Nat).step (.start (.runnable 7)) (fun _ none => nomatch none) rfl).step .write trivial rfl).step
    (.create true) trivial rfl
  (((started.step (.move 0) trivial rfl).step (.move 0) trivial rfl).step (.join false) ⟨_,List.mem_cons_self,rfl⟩ rfl).step .look trivial rfl

-- It comes to its end, is joined, and the ThreadImpl goes.
def departed : Run Nat Nat Nat :=
  let told := ((joining.step (.move 0) trivial rfl).step (.move 0) trivial rfl).step (.move 0) trivial rfl
  let joined := ((told.step .look trivial rfl).step (.move 0) trivial rfl).step .reap trivial rfl
  (joined.step .destroy (fun t member => by rw [List.mem_singleton.mp member]; decide) rfl).step .release trivial rfl

variable (run : Run ρ κ π)

-- Nothing that is gone is touched; the data go with the last of the ThreadImpl and the threads;
-- and each thread calls what it was started for, once, before it can be joined.
theorem threads_kept : run.state.crashed = false ∧
    (run.state.data.deleted = true ↔ run.state.alive = false ∧ ∀ t ∈ run.state.threads, t.pc = .born ∨ t.pc = .exited) ∧
    ∀ t ∈ run.state.threads, (t.calls = if begun t.pc then [t.job] else []) ∧ (t.joined = true → t.pc = .exited) := by
  rcases reached_kept run.reached with rest | ⟨past,u,busy⟩
  · refine ⟨rest.whole,⟨fun deleted => ⟨?_,fun t member => Or.inr (rest.quiet t member).pc⟩,fun gone => ?_⟩,fun t member => ⟨?_,?_⟩⟩
    · rw [rest.deleted] at deleted
      cases alive : run.state.alive with
      | false => rfl
      | true =>
          rw [alive] at deleted
          cases deleted
    · rw [rest.deleted,gone.1]
      rfl
    · rw [(rest.quiet t member).pc]
      exact (rest.quiet t member).calls
    · exact fun _ => (rest.quiet t member).pc
  · have member : u ∈ run.state.threads := busy.threads ▸ List.mem_append_right _ List.mem_cons_self
    have each : ∀ t ∈ run.state.threads, t ∈ past ∨ t = u := fun t there => by
      rw [busy.threads] at there
      exact (List.mem_append.mp there).imp_right List.mem_singleton.mp
    refine ⟨busy.whole,?_,fun t there => ?_⟩
    · rw [busy.deleted,busy.counter,decide_eq_true_iff]
      constructor
      · intro nobody
        have unheld := Nat.eq_zero_of_add_eq_zero_left nobody
        refine ⟨?_,fun t there => ?_⟩
        · cases alive : run.state.alive with
          | false => rfl
          | true =>
              rw [alive] at nobody
              exact absurd nobody (by rw [Bool.toNat_true]; omega)
        · rcases each t there with old | rfl
          · exact Or.inr (busy.quiet t old).pc
          · exact unheld_pc (Bool.toNat_eq_zero.mp unheld)
      · rintro ⟨gone,ended⟩
        rw [gone]
        rcases ended u member with born | exited
        · rw [born]
          rfl
        · rw [exited]
          rfl
    · rcases each t there with old | rfl
      · rw [(busy.quiet t old).pc]
        exact ⟨(busy.quiet t old).calls,fun _ => rfl⟩
      · refine ⟨busy.calls,fun joined => ?_⟩
        rw [busy.loose] at joined
        cases joined

theorem threads_kept_departed : departed.state.crashed = false ∧ departed.state.data.deleted = true ∧
    ∀ t ∈ departed.state.threads, t.calls = [.runnable 7] := by
  obtain ⟨whole,deleted,each⟩ := threads_kept departed
  refine ⟨whole,deleted.mpr ⟨rfl,fun t member => ?_⟩,fun t member => ?_⟩
  · rw [List.mem_singleton.mp member]
    exact .inr rfl
  · have calls := (each t member).1
    rw [List.mem_singleton.mp member] at calls ⊢
    exact calls

-- A thread that is not joined has a step, or has ended.
theorem busy_moves {s : State ρ κ π} {past : List (Pthread ρ κ π)} {t : Pthread ρ κ π} (busy : Busy s past t) (going : t.pc ≠ .exited) :
    ∃ s', s.step (.move past.length) = some s' := by
  have there : s.threads[past.length]? = some t := busy.threads ▸ get_last past t
  unfold State.step
  dsimp only
  rw [there,Option.bind_some]
  unfold State.entry
  cases pc : t.pc with
  | exited => exact absurd pc going
  | born | running => exact ⟨_,rfl⟩
  | _ =>
      dsimp only
      split
      · exact ⟨_,rfl⟩
      · exact ⟨_,rfl⟩

theorem busy_reaps {s : State ρ κ π} {past : List (Pthread ρ κ π)} {t : Pthread ρ κ π} (busy : Busy s past t)
    (here : s.user = .reaping) (exited : t.pc = .exited) : ∃ s', s.step .reap = some s' := by
  have there : s.threads[past.length]? = some t := busy.threads ▸ get_last past t
  have attached := busy_attached busy here nofun nofun
  have alive : s.alive = true := alive_here here nofun
  unfold State.step
  dsimp only
  rw [alive,kept_undeleted (Or.inr ⟨past,t,busy⟩) alive,if_pos rfl,if_neg Bool.false_ne_true]
  dsimp only [State.use]
  rw [here]
  dsimp only [State.reap]
  rw [busy.thread]
  dsimp only
  rw [there]
  dsimp only
  rw [if_neg (by rw [busy.loose,attached]; decide),if_pos exited]
  exact ⟨_,rfl⟩

-- Who joins waits for nothing but the steps of the thread, of which there are seven at most, and
-- then gets through; the wait for another thread than the first has no end of its own; and a
-- ThreadImpl that is joined starts again.
theorem threads_joined :
    (∀ timed slept, run.state.user = .waiting timed slept →
      run.state.data.done = true ∨ ∃ pid s', run.state.step (.move pid) = some s') ∧
    (run.state.user = .reaping → (∃ s', run.state.step .reap = some s') ∨ ∃ pid s', run.state.step (.move pid) = some s') ∧
    (∀ pid s', run.state.step (.move pid) = some s' → stepsLeft s' < stepsLeft run.state) ∧
    (∀ s', run.state.step .timeOut = some s' → ∀ t ∈ run.state.threads, t.joined = false) ∧
    (∀ job, run.state.user = .outside → run.state.Allowed (.start job) →
      run.state.step (.start job) = some {run.state with user := .checked job}) := by
  have kept := reached_kept run.reached
  refine ⟨?_,?_,fun pid s' moved => (kept_move kept moved).2,?_,?_⟩
  · intro timed slept user
    obtain ⟨past,t,busy⟩ := kept_busy kept user fun _ => id
    by_cases exited : t.pc = .exited
    · refine Or.inl ?_
      rw [busy.done,exited]
      exact Bool.or_true _
    · exact Or.inr ⟨_,busy_moves busy exited⟩
  · intro user
    obtain ⟨past,t,busy⟩ := kept_busy kept user fun _ => id
    by_cases exited : t.pc = .exited
    · exact Or.inl (busy_reaps busy user exited)
    · exact Or.inr ⟨_,busy_moves busy exited⟩
  · intro s' out t member
    have user : run.state.user = .waiting true true := by
      cases use_cases (use_of_step (a := .timeOut) kept nofun out) with
      | timeOut here => exact here
    obtain ⟨past,u,busy⟩ := kept_busy kept user fun _ => id
    have place := busy.place
    rw [user] at place
    rw [busy.threads,place rfl,List.nil_append] at member
    rw [List.mem_singleton.mp member]
    exact busy.loose
  · intro job user allowed
    rcases kept with rest | ⟨past,u,busy⟩
    · have place := rest.place
      have alive := alive_here user nofun
      rw [user] at place
      unfold State.step
      dsimp only
      rw [alive,kept_undeleted (Or.inl rest) alive]
      dsimp only [State.use]
      rw [user,(empty_idle place).2 job]
      rfl
    · have joined := allowed u (busy.threads ▸ List.mem_append_right _ List.mem_cons_self)
      rw [busy.loose] at joined
      cases joined

-- While it is waited for, the thread has five steps left at most, and can take one.
theorem threads_joined_joining : (joining.state.data.done = true ∨ ∃ pid s', joining.state.step (.move pid) = some s') ∧
    stepsLeft joining.state = 5 ∧ ∀ pid s', joining.state.step (.move pid) = some s' → stepsLeft s' < 5 := by
  obtain ⟨waits,_,fewer,_⟩ := threads_joined joining
  exact ⟨waits false true rfl,rfl,fewer⟩

end GameServer.Common.ThreadRuns
