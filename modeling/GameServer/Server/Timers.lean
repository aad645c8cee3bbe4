import GameServer.Library.History
import GameServer.Server.WorkerRunner

namespace GameServer.Server.Runner.Timers
open OrderedMap WorkerRunner

-- The events in use and their TimerEvents, each the other's, and nothing else is alive.
structure Paired (pairs : List (Nat × Nat)) (evs : Objects Event) (timers : Objects TimerEvent) : Prop where
  once : pairs.Nodup
  event : Objects.Linked (fun ev te => (ev,te) ∈ pairs) evs Event.te
  timer : Objects.Linked (fun te ev => (ev,te) ∈ pairs) timers TimerEvent.ev

section pairs
variable {pairs : List (Nat × Nat)} {evs evs' : Objects Event} {timers timers' : Objects TimerEvent} {ev te : Nat}

theorem paired_perm (paired : Paired pairs evs timers) (same : pairs'.Perm pairs) : Paired pairs' evs timers where
  once := same.nodup_iff.mpr paired.once
  event := Objects.linked_iff paired.event fun _ _ => same.mem_iff
  timer := Objects.linked_iff paired.timer fun _ _ => same.mem_iff

-- Only what the two heaps hold matters.
theorem paired_same (paired : Paired pairs evs timers) (events : ∀ n, evs'.get n = evs.get n) (same : ∀ n, timers'.get n = timers.get n) :
    Paired pairs evs' timers' where
  once := paired.once
  event := Objects.linked_get paired.event events
  timer := Objects.linked_get paired.timer same

-- An event may be armed, deleted and assigned anew.
theorem paired_set (paired : Paired pairs evs timers) (live : evs.get ev = some old) (new : Event) (same : new.te = old.te) :
    Paired pairs (evs.set ev new) timers where
  once := paired.once
  event := Objects.linked_set paired.event live same
  timer := paired.timer

theorem paired_add (paired : Paired pairs evs timers) (event : Event) (timer : TimerEvent) (one : event.te = timers.next)
    (other : timer.ev = evs.next) : Paired ((evs.next,timers.next) :: pairs) (evs.alloc event) (timers.alloc timer) where
  once := by
    refine List.nodup_cons.mpr ⟨fun member => ?_,paired.once⟩
    obtain ⟨_,live,_⟩ := (paired.event _ _).mp member
    rw [Objects.get_next] at live
    cases live
  event := by
    refine Objects.linked_iff (Objects.linked_alloc paired.event event) fun n m => ?_
    rw [List.mem_cons,Prod.mk.injEq,one,eq_comm (a:=m)]
  timer := by
    refine Objects.linked_iff (Objects.linked_alloc paired.timer timer) fun n m => ?_
    rw [List.mem_cons,Prod.mk.injEq,other,eq_comm (a:=m),and_comm]

theorem paired_free (paired : Paired ((ev,te) :: pairs) evs timers) : Paired pairs (evs.free ev) (timers.free te) := by
  obtain ⟨new,once⟩ := List.nodup_cons.mp paired.once
  have first : (ev,te) ∈ (ev,te) :: pairs := List.mem_cons_self ..
  refine ⟨once,Objects.linked_iff (Objects.linked_free paired.event ev) fun n m => ?_,
    Objects.linked_iff (Objects.linked_free paired.timer te) fun n m => ?_⟩
  · constructor
    · intro member
      have later : (n,m) ∈ (ev,te) :: pairs := List.mem_cons_of_mem _ member
      refine ⟨?_,later⟩
      rintro rfl
      exact new (Objects.linked_only paired.event first later ▸ member)
    · rintro ⟨other,member⟩
      exact (List.mem_cons.mp member).resolve_left fun same => other (Prod.mk.inj same).1
  · constructor
    · intro member
      have later : (m,n) ∈ (ev,te) :: pairs := List.mem_cons_of_mem _ member
      refine ⟨?_,later⟩
      rintro rfl
      exact new (Objects.linked_only paired.timer first later ▸ member)
    · rintro ⟨other,member⟩
      exact (List.mem_cons.mp member).resolve_left fun same => other (Prod.mk.inj same).2

end pairs

-- The events AddTimer has made and not yet put into _events.
def inFlight (stack : List Frame) : List (Nat × Nat) :=
  stack.filterMap fun
    | .adding ev te => some (ev,te)
    | _ => none

def held (w : WorkerRunner) : List (Nat × Nat) := w.events ++ inFlight w.stack

-- A first-time callback began with its event in _events, so it never comes to be
-- in flight again.
structure Owned (w : WorkerRunner) : Prop where
  paired : Paired (held w) w.evs w.timers
  ordered : w.events.Pairwise fun a b => a.1 < b.1
  begun : ∀ te, .firsttime te ∈ w.stack → te < w.timers.next ∧ ∀ ev, (ev,te) ∉ inFlight w.stack

-- A callback runs only with a base: without one no event can be added and the loop is not
-- entered, and a base that is there is never given up.
structure Based (w : WorkerRunner) : Prop where
  fresh : w.stage = .fresh → w.base = false
  running : w.stage = .running → w.base = true
  stack : w.stack ≠ [] → w.base = true

-- What every state that is reached within the guard is.
structure Sound (w : WorkerRunner) : Prop where
  owned : Owned w
  based : Based w

-- What is freed is never alive again.
structure Keeps (w w' : WorkerRunner) : Prop where
  evs : w.evs.Keeps w'.evs
  timers : w.timers.Keeps w'.timers

-- What is asked of a call: what lives are the events of _events and their
-- TimerEvents, and those in flight; the event that RemoveTimer finds and its
-- TimerEvent are freed, for good; a callback that runs is one of an event of
-- _events, and its TimerEvent has not been freed; and Destroy leaves nothing.
structure Good (w : WorkerRunner) (call : Call) (answer : Answer) (w' : WorkerRunner) : Prop where
  paired : Paired (held w') w'.evs w'.timers
  keeps : Keeps w w'
  removed : ∀ ev te, call = .removeTimer ev → (ev,te) ∈ w.events → w'.evs.Freed ev ∧ w'.timers.Freed te
  ran : ∀ te, answer = .ran te → (∃ ev, (ev,te) ∈ w.events) ∧ ¬w.timers.Freed te
  ended : answer = .destroyed → w'.base = false ∧ w'.handler = false ∧ (∀ n, w'.evs.get n = none) ∧ ∀ n, w'.timers.get n = none

-- The first-time callback that comes back has not removed its timer. A base that
-- is there is not freed, also where a callback is running, and without one a trace
-- line goes through m_Log.
def Guard (w : WorkerRunner) : Call → Prop
  | .back _ => ∀ te stack, w.stack = .firsttime te :: stack → ∃ ev, (ev,te) ∈ w.events
  | .destroy => w.base = false ∧ w.log = true
  | _ => True

section calls
variable {w : WorkerRunner} {ev te : Nat}

theorem release_live (one : w.evs.get ev = some event) (other : w.timers.get te = some timer) :
    w.release ev te = some {w with evs := w.evs.free ev,timers := w.timers.free te} := by
  unfold release eventFree deleteTimer
  rw [one]
  dsimp only [Option.map_some,Option.bind_eq_bind,Option.bind_some]
  rw [other]
  rfl

theorem eventAdd_live (live : w.evs.get ev = some event) (tv : UInt32 × UInt32) (add : Bool) :
    w.eventAdd ev tv add = some (if add && w.base then (true,{w with evs := w.evs.set ev {event with pending := some tv}})
      else (false,w)) := by
  unfold eventAdd
  rw [live]
  rfl

theorem owned_live (owned : Owned w) (member : (ev,te) ∈ held w) :
    (∃ event, w.evs.get ev = some event ∧ event.te = te) ∧ ∃ timer, w.timers.get te = some timer ∧ timer.ev = ev :=
  ⟨(owned.paired.event ev te).mp member,(owned.paired.timer te ev).mp member⟩

-- A new event goes into _events beside the others.
theorem enter_perm (new : ∀ te', (ev,te') ∉ w.events) (te : Nat) : (held (w.enter ev te)).Perm ((ev,te) :: held w) :=
  (upsert_perm ev (fun _ => te) new).append_right _

-- What AddTimer does with a timer it gets in full.
def added (w : WorkerRunner) (interval : UInt32) (persist : Bool) (tv : UInt32 × UInt32) : WorkerRunner :=
  {w with
    evs := (w.evs.alloc {te := w.timers.next,persist}).set w.evs.next {te := w.timers.next,persist,pending := some tv}
    timers := (w.timers.alloc {interval}).set w.timers.next {ev := w.evs.next,interval}}

-- No timer and nothing left behind, or one in flight, or one in _events.
inductive Adds (w : WorkerRunner) : Answer → WorkerRunner → Prop where
  | failed {evs timers} : (∀ n, evs.get n = w.evs.get n) → (∀ n, timers.get n = w.timers.get n) → w.evs.next ≤ evs.next →
      w.timers.next ≤ timers.next → Adds w (.timer none) {w with evs,timers}
  | calls (interval : UInt32) (persist : Bool) (tv : UInt32 × UInt32) : w.base = true →
      Adds w .none {added w interval persist tv with stack := .adding w.evs.next w.timers.next :: w.stack}
  | entered (interval : UInt32) (persist : Bool) (tv : UInt32 × UInt32) :
      Adds w (.timer (some w.evs.next)) ((added w interval persist tv).enter w.evs.next w.timers.next)

theorem addTimer_adds (w : WorkerRunner) (interval fisrtInterval : UInt32) (luck : Luck) :
    ∃ answer w', w.addTimer interval fisrtInterval luck = some (answer,w') ∧ Adds w answer w' := by
  obtain ⟨timer,event,add⟩ := luck
  unfold addTimer
  cases timer with
  | false => exact ⟨_,_,rfl,.failed (fun _ => rfl) (fun _ => rfl) (Nat.le_refl _) (Nat.le_refl _)⟩
  | true =>
      dsimp only
      rw [if_neg (by decide)]
      cases event with
      | false =>
          rw [if_pos rfl]
          unfold deleteTimer
          dsimp only
          rw [Objects.get_alloc,if_pos rfl]
          refine ⟨_,_,rfl,.failed (fun _ => rfl) (Objects.get_alloc_free w.timers _) (Nat.le_refl _) ?_⟩
          rw [Objects.next_free,Objects.next_alloc]
          exact Nat.le_succ _
      | true =>
          rw [if_neg (by decide)]
          generalize timeval (if fisrtInterval = 0 ∨ fisrtInterval = 0xFFFFFFFF then interval else fisrtInterval) = tv
          generalize decide (fisrtInterval = 0 ∨ fisrtInterval = 0xFFFFFFFF) = persist
          have live : (w.evs.alloc {te := w.timers.next,persist}).get w.evs.next = some {te := w.timers.next,persist} := by
            rw [Objects.get_alloc,if_pos rfl]
          have live' : ((w.timers.alloc {interval}).set w.timers.next {ev := w.evs.next,interval}).get w.timers.next =
              some {ev := w.evs.next,interval} := by
            rw [Objects.get_alloc_set,Objects.get_alloc,if_pos rfl]
          rw [eventAdd_live live]
          dsimp only [Option.bind_eq_bind,Option.bind_some]
          cases added : add && w.base with
          | false =>
              rw [if_neg Bool.false_ne_true]
              dsimp only
              rw [if_pos rfl,release_live live live']
              refine ⟨_,_,rfl,.failed (Objects.get_alloc_free w.evs _) (fun n => ?_) ?_ ?_⟩
              · rw [Objects.get_free,Objects.get_alloc_set,←Objects.get_free]
                exact Objects.get_alloc_free w.timers _ n
              · rw [Objects.next_free,Objects.next_alloc]
                exact Nat.le_succ _
              · rw [Objects.next_free,Objects.next_set,Objects.next_alloc]
                exact Nat.le_succ _
          | true =>
              rw [if_pos (rfl : true = true)]
              dsimp only
              rw [if_neg Bool.false_ne_true.symm]
              have base : w.base = true := by
                cases add
                · cases added
                · exact added
              split
              · exact ⟨_,_,rfl,.calls interval persist tv base⟩
              · exact ⟨_,_,rfl,.entered interval persist tv⟩

theorem added_paired (owned : Owned w) (interval : UInt32) (persist : Bool) (tv : UInt32 × UInt32) :
    Paired ((w.evs.next,w.timers.next) :: held w) (added w interval persist tv).evs (added w interval persist tv).timers := by
  have pair := paired_add owned.paired {te := w.timers.next,persist} {ev := w.evs.next,interval} rfl rfl
  have live : (w.evs.alloc {te := w.timers.next,persist}).get w.evs.next = some {te := w.timers.next,persist} := by
    rw [Objects.get_alloc,if_pos rfl]
  have armed := paired_set pair live {te := w.timers.next,persist,pending := some tv} rfl
  exact paired_same armed (fun _ => rfl) (Objects.get_alloc_set w.timers _ _)

theorem adds_owned (owned : Owned w) (adds : Adds w answer w') : Owned w' := by
  have fresh : ∀ te', (w.evs.next,te') ∉ w.events := by
    intro te' member
    obtain ⟨⟨_,live,_⟩,_⟩ := owned_live owned (List.mem_append_left _ member)
    rw [Objects.get_next] at live
    cases live
  have later : ∀ interval persist tv te, te < w.timers.next → te < (added w interval persist tv).timers.next := by
    intro interval persist tv te old
    unfold added
    rw [Objects.next_set,Objects.next_alloc]
    exact Nat.lt_succ_of_lt old
  cases adds with
  | failed events timers _ more =>
      exact ⟨paired_same owned.paired events timers,owned.ordered,fun te inside =>
        ⟨Nat.lt_of_lt_of_le (owned.begun te inside).1 more,(owned.begun te inside).2⟩⟩
  | calls interval persist tv _ =>
      refine ⟨paired_perm (added_paired owned interval persist tv) List.perm_middle,owned.ordered,fun te inside => ?_⟩
      obtain ⟨old,grounded⟩ := owned.begun te ((List.mem_cons.mp inside).resolve_left nofun)
      refine ⟨later interval persist tv te old,fun ev flying => ?_⟩
      rcases List.mem_cons.mp flying with new | flying
      · exact Nat.lt_irrefl _ ((Prod.mk.inj new).2 ▸ old)
      · exact grounded ev flying
  | entered interval persist tv =>
      refine ⟨paired_perm (added_paired owned interval persist tv) (enter_perm (w:=added w interval persist tv) fresh _),?_,
        fun te inside => ?_⟩
      · exact upsert_ordered _ _ owned.ordered
      · exact ⟨later interval persist tv te (owned.begun te inside).1,(owned.begun te inside).2⟩

theorem keeps_same (evs : w'.evs = w.evs) (timers : w'.timers = w.timers) : Keeps w w' :=
  ⟨evs ▸ Objects.keeps_refl _,timers ▸ Objects.keeps_refl _⟩

theorem added_keeps (w : WorkerRunner) (interval : UInt32) (persist : Bool) (tv : UInt32 × UInt32) : Keeps w (added w interval persist tv) where
  evs := Objects.keeps_trans (Objects.keeps_alloc _ _) (Objects.keeps_set (by rw [Objects.get_alloc,if_pos rfl]) _)
  timers := Objects.keeps_trans (Objects.keeps_alloc _ _) (Objects.keeps_set (by rw [Objects.get_alloc,if_pos rfl]) _)

theorem adds_keeps (adds : Adds w answer w') : Keeps w w' := by
  cases adds with
  | failed events timers more more' => exact ⟨Objects.keeps_get more events,Objects.keeps_get more' timers⟩
  | calls interval persist tv _ =>
      have kept := added_keeps w interval persist tv
      exact ⟨kept.evs,kept.timers⟩
  | entered interval persist tv =>
      have kept := added_keeps w interval persist tv
      exact ⟨kept.evs,kept.timers⟩

theorem erase_held (owned : Owned w) (member : (ev,te) ∈ w.events) : (held w).Perm ((ev,te) :: held (w.erase ev)) :=
  (erase_perm owned.ordered member).append_right _

-- An event of _events goes with its TimerEvent.
theorem dropped_owned (owned : Owned w) (member : (ev,te) ∈ w.events) :
    Owned {w.erase ev with evs := w.evs.free ev,timers := w.timers.free te} := by
  refine ⟨paired_free (paired_perm owned.paired (erase_held owned member).symm),owned.ordered.filter _,fun te' inside => ?_⟩
  rw [Objects.next_free]
  exact owned.begun te' inside

theorem dropped_keeps (w : WorkerRunner) (ev te : Nat) : Keeps w {w.erase ev with evs := w.evs.free ev,timers := w.timers.free te} :=
  ⟨Objects.keeps_free _ _,Objects.keeps_free _ _⟩

theorem removeTimer_owned (owned : Owned w) (timer : Nat) :
    ∃ found w', w.removeTimer timer = some (.removed found,w') ∧ Owned w' ∧ Keeps w w' ∧
      ∀ te, (timer,te) ∈ w.events → w'.evs.Freed timer ∧ w'.timers.Freed te := by
  unfold removeTimer
  cases found : find timer w.events with
  | none =>
      refine ⟨_,_,rfl,owned,keeps_same rfl rfl,fun te member => ?_⟩
      rw [(mem_iff_find owned.ordered timer te).mp member] at found
      cases found
  | some te =>
      have member := (mem_iff_find owned.ordered timer te).mpr found
      obtain ⟨⟨_,one,_⟩,_,other,_⟩ := owned_live owned (List.mem_append_left _ member)
      dsimp only
      rw [release_live one other]
      refine ⟨_,_,rfl,dropped_owned owned member,dropped_keeps w timer te,fun te' member' => ?_⟩
      cases found.symm.trans ((mem_iff_find owned.ordered timer te').mp member')
      exact ⟨Objects.freed_free one,Objects.freed_free other⟩

-- The callback of a pending event finds its TimerEvent.
theorem expire_owned (owned : Owned w) (ev : Nat) : ∃ answer w', w.expire ev = some (answer,w') ∧ Owned w' ∧ Keeps w w' ∧
    answer ≠ .destroyed ∧ ∀ te, answer = .ran te → (∃ ev, (ev,te) ∈ w.events) ∧ ¬w.timers.Freed te := by
  unfold expire
  have idle : ∃ answer w', some (Answer.none,w) = some (answer,w') ∧ Owned w' ∧ Keeps w w' ∧
      answer ≠ .destroyed ∧ ∀ te, answer = .ran te → (∃ ev, (ev,te) ∈ w.events) ∧ ¬w.timers.Freed te :=
    ⟨_,w,rfl,owned,keeps_same rfl rfl,nofun,nofun⟩
  split
  · exact idle
  · rename_i running
    obtain ⟨_,bare⟩ := not_or.mp running
    have bare := Classical.not_not.mp bare
    have all : held w = w.events ++ [] := by
      unfold held
      rw [bare]
      rfl
    cases live : w.evs.get ev with
    | none => exact idle
    | some event =>
        dsimp only
        split
        · exact idle
        · have member : (ev,event.te) ∈ held w := (owned.paired.event ev event.te).mpr ⟨event,live,rfl⟩
          obtain ⟨_,timer,live',_⟩ := owned_live owned member
          rw [all,List.append_nil] at member
          have old := Objects.get_lt live'
          have ran : ∀ te, Answer.ran event.te = .ran te → (∃ ev, (ev,te) ∈ w.events) ∧ ¬w.timers.Freed te := by
            intro te same
            cases same
            refine ⟨⟨ev,member⟩,fun freed => ?_⟩
            rw [freed.2] at live'
            cases live'
          have paired := owned.paired
          rw [all] at paired
          rw [live']
          dsimp only [Option.bind_eq_bind,Option.bind_some]
          split
          · refine ⟨_,_,rfl,⟨?_,owned.ordered,nofun⟩,keeps_same rfl rfl,nofun,ran⟩
            exact paired
          · refine ⟨_,_,rfl,⟨?_,owned.ordered,fun te inside => ?_⟩,⟨Objects.keeps_set live _,Objects.keeps_refl _⟩,nofun,ran⟩
            · exact paired_set paired live {event with pending := none} rfl
            · cases List.mem_singleton.mp inside
              exact ⟨old,nofun⟩

theorem back_owned (owned : Owned w) (add : Bool) (guard : Guard w (.back add)) :
    ∃ answer w', w.back add = some (answer,w') ∧ Owned w' ∧ Keeps w w' ∧ answer ≠ .destroyed ∧ ∀ te, answer ≠ .ran te := by
  unfold back
  cases frames : w.stack with
  | nil => exact ⟨_,_,rfl,owned,keeps_same rfl rfl,nofun,nofun⟩
  | cons frame stack =>
      have paired := owned.paired
      have begun := owned.begun
      unfold held at paired
      rw [frames] at paired begun
      have later : ∀ te, .firsttime te ∈ stack → te < w.timers.next ∧ ∀ ev, (ev,te) ∉ inFlight stack := by
        intro te inside
        obtain ⟨old,grounded⟩ := begun te (List.mem_cons_of_mem _ inside)
        refine ⟨old,fun ev flying => grounded ev ?_⟩
        cases frame with
        | adding _ _ => exact List.mem_cons_of_mem _ flying
        | process _ => exact flying
        | firsttime _ => exact flying
      cases frame with
      | adding ev te =>
          have apart : ∀ te', (ev,te') ∉ w.events := by
            intro te' member
            obtain rfl := Objects.linked_only paired.event (List.mem_append_left _ member) (List.mem_append_right _ (List.mem_cons_self ..))
            exact (List.nodup_append.mp paired.once).2.2 _ member _ (List.mem_cons_self ..) rfl
          refine ⟨_,_,rfl,⟨?_,upsert_ordered _ _ owned.ordered,later⟩,keeps_same rfl rfl,nofun,nofun⟩
          exact paired_perm paired ((enter_perm (w:={w with stack}) apart te).trans List.perm_middle.symm)
      | process te => exact ⟨_,_,rfl,⟨paired,owned.ordered,later⟩,keeps_same rfl rfl,nofun,nofun⟩
      | firsttime te =>
          obtain ⟨ev,member⟩ := guard te stack frames
          obtain ⟨⟨event,live,here⟩,timer,live',rfl⟩ := owned_live owned (List.mem_append_left _ member)
          have armed : Owned {w with stack,evs := w.evs.set timer.ev {event with te,persist := true,pending := none}} :=
            ⟨paired_set paired live _ here.symm,owned.ordered,later⟩
          have again : (w.evs.set timer.ev {event with te,persist := true,pending := none}).get timer.ev =
              some {event with te,persist := true,pending := none} := by
            rw [Objects.get_set live,if_pos rfl]
          have kept := Objects.keeps_set live {event with te,persist := true,pending := none}
          dsimp only
          rw [live']
          dsimp only [Option.bind_eq_bind,Option.bind_some]
          rw [live]
          dsimp only [Option.bind_some]
          rw [eventAdd_live again]
          dsimp only [Option.bind_some]
          generalize w.evs.set timer.ev {event with te,persist := true,pending := none} = evs at armed again kept ⊢
          cases added : add && w.base with
          | true => exact ⟨_,_,rfl,⟨paired_set armed.paired again _ rfl,owned.ordered,later⟩,
              ⟨Objects.keeps_trans kept (Objects.keeps_set again _),Objects.keeps_refl _⟩,nofun,nofun⟩
          | false =>
              rw [if_neg Bool.false_ne_true]
              dsimp only
              rw [if_neg Bool.false_ne_true,release_live (w:=WorkerRunner.erase {w with stack,evs} timer.ev) again live']
              exact ⟨_,_,rfl,dropped_owned armed member,⟨Objects.keeps_trans kept (Objects.keeps_free _ _),Objects.keeps_free _ _⟩,nofun,nofun⟩

-- Without its event in _events a first-time callback comes back to freed memory.
theorem back_removed {stack : List Frame} (owned : Owned w) (frames : w.stack = .firsttime te :: stack) (came : w.back add = some result) :
    ∃ ev, (ev,te) ∈ w.events := by
  obtain ⟨_,grounded⟩ := owned.begun te (by rw [frames]; exact List.mem_cons_self ..)
  unfold back at came
  rw [frames] at came
  dsimp only at came
  cases live : w.timers.get te with
  | none => rw [live] at came; cases came
  | some timer =>
      have member : (timer.ev,te) ∈ held w := (owned.paired.timer te timer.ev).mpr ⟨timer,live,rfl⟩
      exact ⟨timer.ev,(List.mem_append.mp member).resolve_right (grounded timer.ev)⟩

theorem freeAll_rest (freed : freeAll w pairs = some w') : ∃ evs timers, w' = {w with evs,timers} := by
  induction pairs generalizing w with
  | nil => cases freed; exact ⟨_,_,rfl⟩
  | cons pair rest ih =>
      unfold freeAll trace release eventFree deleteTimer at freed
      simp only [Option.bind_eq_bind,Option.bind_eq_some_iff,Option.map_eq_some_iff] at freed
      obtain ⟨_,_,w₁,⟨w₂,⟨_,_,rfl⟩,_,_,rfl⟩,later⟩ := freed
      obtain ⟨evs,timers,rfl⟩ := ih later
      exact ⟨evs,timers,rfl⟩

theorem freeAll_paired (log : w.log = true) (paired : Paired pairs w.evs w.timers) :
    ∃ evs timers, freeAll w pairs = some {w with evs,timers} ∧ Paired [] evs timers ∧ w.evs.Keeps evs ∧ w.timers.Keeps timers := by
  induction pairs generalizing w with
  | nil => exact ⟨_,_,rfl,paired,Objects.keeps_refl _,Objects.keeps_refl _⟩
  | cons pair rest ih =>
      obtain ⟨ev,te⟩ := pair
      obtain ⟨event,one,_⟩ := (paired.event ev te).mp (List.mem_cons_self ..)
      obtain ⟨timer,other,_⟩ := (paired.timer te ev).mp (List.mem_cons_self ..)
      obtain ⟨evs,timers,freed,bare,kept,kept'⟩ := ih (w:={w with evs := w.evs.free ev,timers := w.timers.free te}) log (paired_free paired)
      refine ⟨evs,timers,?_,bare,Objects.keeps_trans (Objects.keeps_free _ _) kept,Objects.keeps_trans (Objects.keeps_free _ _) kept'⟩
      unfold freeAll trace
      rw [if_pos log,release_live one other]
      exact freed

theorem paired_bare {evs : Objects Event} {timers : Objects TimerEvent} (paired : Paired [] evs timers) : (∀ n, evs.get n = none) ∧ ∀ n, timers.get n = none := by
  constructor
  · intro n
    cases live : evs.get n with
    | none => rfl
    | some event => exact absurd ((paired.event n event.te).mpr ⟨event,live,rfl⟩) List.not_mem_nil
  · intro n
    cases live : timers.get n with
    | none => rfl
    | some timer => exact absurd ((paired.timer n timer.ev).mpr ⟨timer,live,rfl⟩) List.not_mem_nil

theorem destroy_owned (owned : Owned w) (based : Based w) (guard : Guard w .destroy) :
    ∃ answer w', w.destroy = some (answer,w') ∧ Owned w' ∧ Keeps w w' ∧ (∀ te, answer ≠ .ran te) ∧
      (answer = .destroyed → w'.base = false ∧ w'.handler = false ∧ (∀ n, w'.evs.get n = none) ∧ ∀ n, w'.timers.get n = none) := by
  obtain ⟨base,log⟩ := guard
  have bare : w.stack = [] := by
    by_contra running
    rw [based.stack running] at base
    cases base
  have paired := owned.paired
  unfold held at paired
  rw [bare] at paired
  replace paired : Paired w.events w.evs w.timers := paired_perm paired (by rw [inFlight,List.filterMap_nil,List.append_nil])
  obtain ⟨evs,timers,freed,nothing,kept⟩ := freeAll_paired log paired
  have dead := paired_bare nothing
  unfold destroy
  rw [freed]
  dsimp only [Option.bind_eq_bind,Option.bind_some,trace]
  rw [if_pos base,if_pos log]
  refine ⟨.destroyed,{w with events := [],evs,timers,handler := false,log := false,stage := .ended},?_,⟨?_,.nil,?_⟩,⟨kept.1,kept.2⟩,nofun,
    fun _ => ⟨base,rfl,dead⟩⟩
  · split <;> rfl
  · unfold held
    rw [bare]
    exact nothing
  · intro te inside
    rw [bare] at inside
    cases inside

-- A Destroy that comes back keeps the base and the callbacks that run, and traced if
-- there was no base.
theorem destroy_back (done : w.destroy = some (answer,w')) :
    answer = .destroyed ∧ w'.stage = .ended ∧ w'.stack = w.stack ∧ w'.base = w.base ∧ (w.base = false → w.log = true) := by
  unfold destroy at done
  simp only [Option.bind_eq_bind,Option.bind_eq_some_iff] at done
  obtain ⟨_,freed,done⟩ := done
  obtain ⟨evs,timers,rfl⟩ := freeAll_rest freed
  dsimp only [trace] at done
  cases log : w.log with
  | true =>
      rw [log,if_pos rfl] at done
      split at done <;> split at done <;> cases done <;> exact ⟨rfl,rfl,rfl,rfl,fun _ => rfl⟩
  | false =>
      rw [log,if_neg Bool.false_ne_true] at done
      split at done
      · cases done
      · rename_i base
        split at done
        · cases done
        · cases done
          exact ⟨rfl,rfl,rfl,rfl,fun missing => absurd missing base⟩

-- A Destroy that is good had no base and a Log.
theorem destroy_guard (done : w.destroy = some (answer,w')) (good : Good w .destroy answer w') : Guard w .destroy := by
  obtain ⟨ended,_,_,kept,traced⟩ := destroy_back done
  have base : w.base = false := kept.symm.trans (good.ended ended).1
  exact ⟨base,traced base⟩

theorem release_stack (released : w.release ev te = some w') : w'.stack = w.stack := by
  obtain ⟨_,freed,deleted⟩ := Option.bind_eq_some_iff.mp released
  obtain ⟨_,_,rfl⟩ := Option.map_eq_some_iff.mp freed
  obtain ⟨_,_,rfl⟩ := Option.map_eq_some_iff.mp deleted
  rfl

theorem back_stack {add : Bool} (done : w.back add = some (answer,w')) (runs : w'.stack ≠ []) : w.stack ≠ [] := by
  unfold back at done
  split at done
  · cases done
    exact runs
  all_goals
    rename_i frames
    rw [frames]
    exact List.cons_ne_nil _ _

theorem expire_stack (done : w.expire ev = some (answer,w')) (runs : w'.stack ≠ []) : w.stack ≠ [] ∨ w.stage = .running := by
  unfold expire at done
  split at done
  · cases done
    exact .inl runs
  · rename_i running
    exact .inr (Classical.not_not.mp (not_or.mp running).1)

-- The calls about timers, where a callback that runs then ran before or there is a base.
theorem based_steady (based : Based w) (steady : Steady w w') (runs : w'.stack ≠ [] → w.base = true) : Based w' where
  fresh := by
    rw [steady.stage,steady.base]
    exact based.fresh
  running := by
    rw [steady.stage,steady.base]
    exact based.running
  stack := by
    rw [steady.base]
    exact runs

theorem step_based {call : Call} (based : Based w) (moved : w.step call = some (answer,w')) : Based w' := by
  cases call with
  | runnerProc log base =>
      cases moved
      split
      · rename_i fresh
        refine ⟨fun same => ?_,fun same => ?_,fun runs => ?_⟩
        · cases same
        · cases same
        · have missing := based.stack runs
          rw [based.fresh fresh] at missing
          cases missing
      · exact based
  | handler =>
      cases moved
      split
      · rename_i ready
        refine ⟨fun same => ?_,fun _ => ready.2,fun _ => ready.2⟩
        cases same
      · exact based
  | addTimer interval fisrtInterval luck =>
      refine based_steady based (addTimer_steady moved) ?_
      obtain ⟨_,_,done,adds⟩ := addTimer_adds w interval fisrtInterval luck
      cases done.symm.trans moved
      intro runs
      cases adds with
      | failed _ _ _ _ => exact based.stack runs
      | calls _ _ _ base => exact base
      | entered _ _ _ => exact based.stack runs
  | removeTimer timer =>
      refine based_steady based (removeTimer_steady moved) fun runs => based.stack ?_
      change w.removeTimer timer = _ at moved
      unfold removeTimer at moved
      split at moved
      · cases moved
        exact runs
      · obtain ⟨_,released,done⟩ := Option.map_eq_some_iff.mp moved
        cases done
        exact release_stack released ▸ runs
  | expire ev =>
      refine based_steady based (expire_steady moved) fun runs => ?_
      rcases expire_stack moved runs with before | running
      · exact based.stack before
      · exact based.running running
  | back add => exact based_steady based (back_steady moved) fun runs => based.stack (back_stack moved runs)
  | destroy =>
      obtain ⟨_,ended,stack,base,_⟩ := destroy_back moved
      refine ⟨?_,?_,?_⟩
      · intro same
        cases ended.symm.trans same
      · intro same
        cases ended.symm.trans same
      · rw [stack,base]
        exact based.stack

end calls

theorem step_good {w : WorkerRunner} {call : Call} (owned : Owned w) (based : Based w) (guard : Guard w call) :
    ∃ answer w', w.step call = some (answer,w') ∧ Good w call answer w' ∧ Owned w' := by
  cases call with
  | runnerProc log base =>
      refine ⟨_,_,rfl,?_⟩
      split
      · exact ⟨⟨owned.paired,keeps_same rfl rfl,nofun,nofun,nofun⟩,owned.paired,owned.ordered,owned.begun⟩
      · exact ⟨⟨owned.paired,keeps_same rfl rfl,nofun,nofun,nofun⟩,owned⟩
  | handler =>
      refine ⟨_,_,rfl,?_⟩
      split
      · exact ⟨⟨owned.paired,keeps_same rfl rfl,nofun,nofun,nofun⟩,owned.paired,owned.ordered,owned.begun⟩
      · exact ⟨⟨owned.paired,keeps_same rfl rfl,nofun,nofun,nofun⟩,owned⟩
  | addTimer interval fisrtInterval luck =>
      obtain ⟨answer,w',done,adds⟩ := addTimer_adds w interval fisrtInterval luck
      have owned' := adds_owned owned adds
      have still : ∀ te, answer ≠ .ran te := by
        intro te same
        cases adds <;> cases same
      have stays : answer ≠ .destroyed := by
        intro same
        cases adds <;> cases same
      exact ⟨answer,w',done,⟨owned'.paired,adds_keeps adds,nofun,fun te same => absurd same (still te),fun same => absurd same stays⟩,owned'⟩
  | removeTimer timer =>
      obtain ⟨found,w',done,owned',kept,gone⟩ := removeTimer_owned owned timer
      refine ⟨_,w',done,⟨owned'.paired,kept,?_,nofun,nofun⟩,owned'⟩
      intro ev te same member
      cases same
      exact gone te member
  | expire ev =>
      obtain ⟨answer,w',done,owned',kept,stays,ran⟩ := expire_owned owned ev
      exact ⟨answer,w',done,⟨owned'.paired,kept,nofun,ran,fun same => absurd same stays⟩,owned'⟩
  | back add =>
      obtain ⟨answer,w',done,owned',kept,stays,still⟩ := back_owned owned add guard
      exact ⟨answer,w',done,⟨owned'.paired,kept,nofun,fun te same => absurd same (still te),fun same => absurd same stays⟩,owned'⟩
  | destroy =>
      obtain ⟨answer,w',done,owned',kept,still,ended⟩ := destroy_owned owned based guard
      exact ⟨answer,w',done,⟨owned'.paired,kept,nofun,fun te same => absurd same (still te),ended⟩,owned'⟩

theorem step_guard {w : WorkerRunner} {call : Call} (owned : Owned w) (moved : w.step call = some (answer,w')) (good : Good w call answer w') :
    Guard w call := by
  cases call with
  | back add => exact fun te stack frames => back_removed owned frames moved
  | destroy => exact destroy_guard moved good
  | _ => trivial

theorem owned_fresh : Owned {} where
  paired := ⟨List.nodup_nil,Objects.linked_empty fun _ _ => List.not_mem_nil,Objects.linked_empty fun _ _ => List.not_mem_nil⟩
  ordered := .nil
  begun := nofun

theorem based_fresh : Based {} := ⟨fun _ => rfl,nofun,nofun⟩

-- From a runner that has just been made.
theorem timers_kept_iff (history : List Call) :
    History.Along step Good {} history ↔ History.Guarded step Guard {} history := by
  have start : Sound {} := ⟨owned_fresh,based_fresh⟩
  refine History.along_iff_guarded start ?_ fun _ _ _ _ sound moved good => step_guard sound.owned moved good
  intro w call sound guard
  obtain ⟨answer,w',moved,good,owned⟩ := step_good sound.owned sound.based guard
  exact ⟨answer,w',moved,good,owned,step_based sound.based moved⟩

-- A timer that its own first-time callback removes is used again; a Destroy after
-- the loop leaves the base, and so does one from inside a callback, which frees the
-- timer whose callback is running; and the Destroy of a runner that never ran goes
-- through a NULL m_Log.
theorem timers_lost :
    ¬History.Along step Good {} [.runnerProc true true,.handler,.addTimer 1000 5000 {},.expire 0,.removeTimer 0,.back true] ∧
    ¬History.Along step Good {} [.runnerProc true true,.handler,.destroy] ∧
    ¬History.Along step Good {} [.runnerProc true true,.handler,.addTimer 1000 5000 {},.expire 0,.destroy] ∧
    ¬History.Along step Good {} [.destroy] := by
  refine ⟨?_,?_,?_,?_⟩
  · rintro ⟨_,_,⟨⟩,_,_,_,⟨⟩,_,_,_,⟨⟩,_,_,_,⟨⟩,_,_,_,⟨⟩,_,_,_,⟨⟩,_⟩
  · rintro ⟨_,_,⟨⟩,_,_,_,⟨⟩,_,_,_,⟨⟩,good,_⟩
    cases (good.ended rfl).1
  · rintro ⟨_,_,⟨⟩,_,_,_,⟨⟩,_,_,_,⟨⟩,_,_,_,⟨⟩,_,_,_,⟨⟩,good,_⟩
    cases (good.ended rfl).1
  · rintro ⟨_,_,⟨⟩,_⟩

end GameServer.Server.Runner.Timers
