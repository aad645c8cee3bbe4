import GameServer.Library.Monitor

namespace GameServer.Common.Event
open Monitor

-- Core/Common/Event_POSIX.h and Event_POSIX.cpp: the state under its mutex, the
-- condition that is broadcast.

-- _state = true; pthread_cond_broadcast
def setImpl : Operation Bool where
  ready _ := true
  act _ := true
  signals := true
  timed := false

-- _state = false
def resetImpl : Operation Bool where
  ready _ := true
  act _ := false
  signals := false
  timed := false

-- while (!_state) pthread_cond_wait; if (_auto) _state = false
def waitImpl (auto : Bool) : Operation Bool where
  ready state := state
  act state := if auto then false else state
  signals := false
  timed := false

-- The same with pthread_cond_timedwait, which leaves the loop when the time is over:
-- if (rc == 0 && _auto) _state = false; return rc == 0
def waitImplFor (auto : Bool) : Operation Bool := {waitImpl auto with timed := true}

-- What the threads do with an event.
inductive EventImpl (auto : Bool) : Operation Bool → Prop where
  | set : EventImpl auto setImpl
  | reset : EventImpl auto resetImpl
  | wait : EventImpl auto (waitImpl auto)
  | waitFor : EventImpl auto (waitImplFor auto)

-- What some threads have come to with an event that was made unset.
structure Run (τ : Type _) [DecidableEq τ] (auto : Bool) where
  state : State τ Bool
  reached : Reached (EventImpl auto) false state

variable {τ : Type _} [DecidableEq τ] {auto : Bool}

def Run.step (run : Run τ auto) {t : τ} {a : Action} {s' : State τ Bool} (stepped : Step (EventImpl auto) run.state t a s') : Run τ auto :=
  ⟨s',.step run.reached stepped⟩

-- A timed wait that sleeps, and the set of another thread that comes upon it.
def waiting : Run Bool true :=
  (((⟨initial false,.start⟩ : Run Bool true).step (t:=false) (.call (waitImplFor true) .waitFor rfl)).step (t:=false)
    (.enter (waitImplFor true) rfl rfl)).step (t:=false) (.sleep (waitImplFor true) rfl rfl)

def setting : Run Bool true :=
  (((waiting.step (t:=true) (.call setImpl .set rfl)).step (t:=true) (.enter setImpl rfl rfl)).step (t:=true)
    (.pass setImpl rfl rfl)).step (t:=true) (.act setImpl rfl)

-- The time of the wait is over before the signal: it returns false when the event is set.
def late : Run Bool true :=
  (((((setting.step (t:=false) (.timeout (waitImplFor true) rfl rfl)).step (t:=true) (.signal rfl)).step (t:=true)
    (.unlock true rfl)).step (t:=false) (.giveUp (waitImplFor true) rfl rfl)).step (t:=false)
    (.skip (waitImplFor true) rfl)).step (t:=false) (.unlock false rfl)

section service

-- The marks at which the event is set, and those at which a wait for it gets through.
def sets : Mark τ Bool → Bool
  | .effect _ op => op.signals
  | _ => false

def passes : Mark τ Bool → Bool
  | .effect _ op => !op.ready false
  | _ => false

omit [DecidableEq τ] in
theorem replays_serves {trace : List (Mark τ Bool)} {state : Bool} (replays : Replays (EventImpl true) false trace state) :
    trace.countP passes + state.toNat ≤ trace.countP sets := by
  induction replays with
  | nil => exact Nat.le_refl 0
  | called before t op ih | returned before t answer ih | looked before t op may unready ih =>
      rw [List.countP_append,List.countP_append]
      exact ih
  | effect before t op may ready ih =>
      rw [List.countP_append,List.countP_append]
      cases may with
      | set =>
          change _ + 0 + 1 ≤ _ + 1
          omega
      | reset =>
          change _ + 0 + 0 ≤ _ + 0
          omega
      | wait | waitFor =>
          change _ = true at ready
          subst ready
          change _ + 1 + 0 ≤ _ + 0
          change _ + 1 ≤ _ at ih
          omega

-- Set, reset and the waits take effect one at a time, each between its call and its
-- return, a wait that gives up when the event was unset; where the event resets itself,
-- a set lets at most one wait through.
theorem event_atomic (run : Run τ auto) : Replays (EventImpl auto) false run.state.trace run.state.data ∧
    (∀ t, ∃ phase, Follows t run.state.trace phase ∧ At (run.state.place t) phase) ∧
    (auto = true → run.state.trace.countP passes + run.state.data.toNat ≤ run.state.trace.countP sets) := by
  have atomic := reached_atomic run.reached
  refine ⟨atomic.replays,atomic.follows,?_⟩
  intro resets
  subst resets
  exact replays_serves atomic.replays

theorem event_atomic_late : late.state.data = true ∧
    late.state.trace = [.called false (waitImplFor true),.looked false (waitImplFor true),.called true setImpl,.effect true setImpl,
      .returned true true,.returned false false] ∧
    Replays (EventImpl true) false late.state.trace true ∧ ∃ phase, Follows false late.state.trace phase := by
  obtain ⟨replays,follows,_⟩ := event_atomic late
  obtain ⟨phase,calls,_⟩ := follows false
  exact ⟨rfl,rfl,replays,phase,calls⟩

end service

section sleepers

theorem event_ready {op : Operation Bool} (may : EventImpl auto op) {state : Bool} (unready : op.ready state = false) :
    state = false := by
  cases may with
  | set | reset => cases unready
  | wait | waitFor => exact unready

theorem event_wakes : Wakes (EventImpl auto) := by
  intro op other may may' signals d ready unready
  have unset := event_ready may' unready
  subst unset
  cases may with
  | set => cases signals
  | reset => exact unready
  | wait | waitFor => cases ready

-- No thread sleeps through a set event; where nobody in the middle of a call can go on, the
-- event is unset and all others wait for it; and a thread the event stays set for is out of
-- its call in six steps of its own.
theorem event_lets_go (run : Run τ auto) :
    (run.state.data = true → ∀ t op, run.state.place t = .asleep op → ∃ u, run.state.place u = .signalling) ∧
    ((∀ t a s', Step (EventImpl auto) run.state t a s' → a.own = false) →
      ∀ t, run.state.place t = .outside ∨ (∃ op, run.state.place t = .asleep op) ∧ run.state.data = false) ∧
    ∀ t n s', Goes (EventImpl auto) t run.state n s' → n ≤ 6 ∧ (n = 6 → s'.place t = .outside) := by
  refine ⟨?_,?_,?_⟩
  · intro set t op sleeps
    rcases reached_awake event_wakes run.reached t op sleeps with unready | signals
    · have may := reached_permitted run.reached t op (by rw [sleeps]; rfl)
      rw [event_ready may unready] at set
      cases set
    · exact signals
  · intro stuck t
    rcases settled event_wakes run.reached stuck t with outside | ⟨op,sleeps,unready⟩
    · exact Or.inl outside
    · exact Or.inr ⟨⟨op,sleeps⟩,event_ready (reached_permitted run.reached t op (by rw [sleeps]; rfl)) unready⟩
  · intro t n s' goes
    have bound := goes_rank goes
    have most := rank_le (run.state.place t)
    refine ⟨by omega,?_⟩
    intro all
    exact rank_zero (by omega)

-- The sleeper is woken and goes its way in four steps.
theorem event_lets_go_setting : (∃ u, setting.state.place u = .signalling) ∧
    ∃ s', Goes (EventImpl true) false setting.state 4 s' ∧ (4 ≤ 6 ∧ (4 = 6 → s'.place false = .outside)) := by
  obtain ⟨awake,_,going⟩ := event_lets_go setting
  have ready : ∀ p : Place Bool, p.operation = some (waitImplFor true) → ∀ op, p.operation = some op → op.ready true = true := by
    intro p here op on
    obtain rfl := Option.some.inj (here.symm.trans on)
    rfl
  have signalled : Goes (EventImpl true) false setting.state 0 _ := .other .refl (u:=true) (by decide) (.signal rfl)
  have woken : Goes (EventImpl true) false setting.state 0 _ := .other signalled (u:=true) (by decide) (.unlock true rfl)
  have tested : Goes (EventImpl true) false setting.state 1 _ := .own woken (.again (waitImplFor true) rfl rfl) nofun (ready _ rfl)
  have passed : Goes (EventImpl true) false setting.state 2 _ := .own tested (.pass (waitImplFor true) rfl rfl) nofun (ready _ rfl)
  have acted : Goes (EventImpl true) false setting.state 3 _ := .own passed (.act (waitImplFor true) rfl) nofun (ready _ rfl)
  have goes : Goes (EventImpl true) false setting.state 4 _ := .own acted (.unlock true rfl) nofun (fun op on => nomatch on)
  exact ⟨awake rfl false (waitImplFor true) rfl,_,goes,going false 4 _ goes⟩

end sleepers

end GameServer.Common.Event
