import Mathlib.Data.List.Basic
import Mathlib.Logic.Function.Basic

namespace GameServer.Monitor

-- What is done under a mutex: wait on a condition until the data are ready, change them,
-- wake all who wait. A timed operation can give up waiting and changes nothing then.
structure Operation (δ : Type _) where
  ready : δ → Bool
  act : δ → δ
  signals : Bool
  timed : Bool

-- Where a thread is in an operation.
inductive Place (δ : Type _) where
  | outside
  | entering (op : Operation δ)
  | testing (op : Operation δ)
  | asleep (op : Operation δ)
  | woken (op : Operation δ) (timedOut : Bool)
  | acting (op : Operation δ) (timedOut : Bool)
  | signalling
  | leaving (answer : Bool)

-- What an observer sees: a call, the moments it finds the data not ready, the moment it
-- changes them and what it returns.
inductive Mark (τ δ : Type _) where
  | called (thread : τ) (op : Operation δ)
  | looked (thread : τ) (op : Operation δ)
  | effect (thread : τ) (op : Operation δ)
  | returned (thread : τ) (answer : Bool)

structure State (τ δ : Type _) where
  data : δ
  owner : Option τ
  place : τ → Place δ
  trace : List (Mark τ δ)

inductive Action where
  | call
  | lock
  | test
  | wake
  | timeout
  | act
  | signal
  | unlock

variable {τ δ : Type _} [DecidableEq τ]

def initial (start : δ) : State τ δ := ⟨start,none,fun _ => .outside,[]⟩

def Place.wakes : Place δ → Place δ
  | .asleep op => .woken op false
  | p => p

def put (s : State τ δ) (t : τ) (p : Place δ) : τ → Place δ := Function.update s.place t p

-- One step of one thread. A wait lets go of the mutex, may end of itself and takes the
-- mutex again before it returns.
inductive Step (allowed : Operation δ → Prop) (s : State τ δ) (t : τ) : Action → State τ δ → Prop where
  | call (op : Operation δ) (may : allowed op) (here : s.place t = .outside) :
      Step allowed s t .call {s with place := put s t (.entering op), trace := s.trace ++ [.called t op]}
  | enter (op : Operation δ) (here : s.place t = .entering op) (free : s.owner = none) :
      Step allowed s t .lock {s with owner := some t, place := put s t (.testing op)}
  | again (op : Operation δ) (here : s.place t = .woken op false) (free : s.owner = none) :
      Step allowed s t .lock {s with owner := some t, place := put s t (.testing op)}
  | giveUp (op : Operation δ) (here : s.place t = .woken op true) (free : s.owner = none) :
      Step allowed s t .lock {s with owner := some t, place := put s t (.acting op true)}
  | pass (op : Operation δ) (here : s.place t = .testing op) (ready : op.ready s.data = true) :
      Step allowed s t .test {s with place := put s t (.acting op false)}
  | sleep (op : Operation δ) (here : s.place t = .testing op) (unready : op.ready s.data = false) :
      Step allowed s t .test {s with owner := none, place := put s t (.asleep op), trace := s.trace ++ [.looked t op]}
  | wake (op : Operation δ) (here : s.place t = .asleep op) :
      Step allowed s t .wake {s with place := put s t (.woken op false)}
  | timeout (op : Operation δ) (here : s.place t = .asleep op) (timed : op.timed = true) :
      Step allowed s t .timeout {s with place := put s t (.woken op true)}
  | act (op : Operation δ) (here : s.place t = .acting op false) :
      Step allowed s t .act {s with data := op.act s.data, place := put s t (if op.signals then .signalling else .leaving true),
                                    trace := s.trace ++ [.effect t op]}
  | skip (op : Operation δ) (here : s.place t = .acting op true) :
      Step allowed s t .act {s with place := put s t (.leaving false)}
  | signal (here : s.place t = .signalling) :
      Step allowed s t .signal {s with place := Function.update (fun u => (s.place u).wakes) t (.leaving true)}
  | unlock (answer : Bool) (here : s.place t = .leaving answer) :
      Step allowed s t .unlock {s with owner := none, place := put s t .outside, trace := s.trace ++ [.returned t answer]}

inductive Reached (allowed : Operation δ → Prop) (start : δ) : State τ δ → Prop where
  | start : Reached allowed start (initial start)
  | step {s s' : State τ δ} {t : τ} {a : Action} (before : Reached allowed start s) (stepped : Step allowed s t a s') :
      Reached allowed start s'

variable {allowed : Operation δ → Prop} {start : δ} {s s' : State τ δ} {t u : τ} {a : Action}

theorem reached_inv {inv : State τ δ → Prop} (reached : Reached allowed start s) (init : inv (initial start))
    (keeps : ∀ s s' (t : τ) a, inv s → Step allowed s t a s' → inv s') : inv s := by
  induction reached with
  | start => exact init
  | step _ stepped ih => exact keeps _ _ _ _ ih stepped

section permission

def Place.operation : Place δ → Option (Operation δ)
  | .entering op | .testing op | .asleep op | .woken op _ | .acting op _ => some op
  | _ => none

-- The operations under way are such as may be called.
def Permitted (allowed : Operation δ → Prop) (s : State τ δ) : Prop := ∀ t op, (s.place t).operation = some op → allowed op

theorem put_self (p : Place δ) : put s t p t = p := Function.update_self ..

theorem put_other {p : Place δ} (other : u ≠ t) : put s t p u = s.place u := Function.update_of_ne other ..

theorem wakes_operation (p : Place δ) : p.wakes.operation = p.operation := by cases p <;> rfl

theorem permitted_put {p : Place δ} (permitted : Permitted allowed s) (may : ∀ op, p.operation = some op → allowed op) (v : τ)
    (op : Operation δ) (on : (put s t p v).operation = some op) : allowed op := by
  by_cases here : v = t
  · rw [here,put_self] at on
    exact may op on
  · rw [put_other here] at on
    exact permitted v op on

theorem permitted_step (permitted : Permitted allowed s) (stepped : Step allowed s t a s') : Permitted allowed s' := by
  have may := permitted t
  cases stepped with
  | call op allows here =>
      apply permitted_put permitted
      intro other same
      cases same
      exact allows
  | enter op here free | again op here free | giveUp op here free | pass op here ready | wake op here
  | timeout op here timed | sleep op here unready =>
      apply permitted_put permitted
      intro other same
      cases same
      exact may op (by rw [here]; rfl)
  | act op here =>
      apply permitted_put permitted
      intro other same
      cases signals : op.signals with
      | true =>
          rw [signals] at same
          cases same
      | false =>
          rw [signals] at same
          cases same
  | skip op here | unlock answer here =>
      apply permitted_put permitted
      intro other same
      cases same
  | signal here =>
      intro v op on
      dsimp only at on
      by_cases same : v = t
      · rw [same,Function.update_self] at on
        cases on
      · rw [Function.update_of_ne same,wakes_operation] at on
        exact permitted v op on

theorem reached_permitted (reached : Reached allowed start s) : Permitted allowed s := by
  refine reached_inv reached ?_ (fun _ _ _ _ => permitted_step)
  intro t op on
  cases on

end permission

section exclusion

-- The places of a thread that has the mutex.
def Place.inside : Place δ → Bool
  | .testing _ | .acting _ _ | .signalling | .leaving _ => true
  | _ => false

-- What a thread at some place relies on.
def Place.Sound (data : δ) : Place δ → Prop
  | .woken op true | .acting op true => op.timed = true
  | .acting op false => op.ready data = true
  | _ => True

structure Excluded (s : State τ δ) : Prop where
  owner : ∀ t, s.owner = some t ↔ (s.place t).inside = true
  sound : ∀ t, (s.place t).Sound s.data

omit [DecidableEq τ] in
theorem only_inside (excluded : Excluded s) (one : (s.place t).inside = true) (other : (s.place u).inside = true) : t = u := by
  have first := (excluded.owner t).mpr one
  rw [(excluded.owner u).mpr other] at first
  exact (Option.some.inj first).symm

theorem wakes_inside (p : Place δ) : p.wakes.inside = p.inside := by cases p <;> rfl

theorem owner_stays {p : Place δ} (excluded : Excluded s) (same : p.inside = (s.place t).inside) (v : τ) :
    s.owner = some v ↔ (put s t p v).inside = true := by
  rw [excluded.owner v]
  by_cases here : v = t
  · rw [here,put_self,same]
  · rw [put_other here]

theorem owner_takes {p : Place δ} (excluded : Excluded s) (free : s.owner = none) (inside : p.inside = true) (v : τ) :
    some t = some v ↔ (put s t p v).inside = true := by
  by_cases here : v = t
  · rw [here,put_self]
    exact ⟨fun _ => inside,fun _ => rfl⟩
  · rw [put_other here,←excluded.owner v,free]
    constructor
    · intro same
      exact absurd (Option.some.inj same).symm here
    · intro none
      cases none

theorem owner_leaves {p : Place δ} (excluded : Excluded s) (inside : (s.place t).inside = true) (outside : p.inside = false) (v : τ) :
    none = some v ↔ (put s t p v).inside = true := by
  by_cases here : v = t
  · rw [here,put_self,outside]
    constructor
    · intro none
      cases none
    · intro wrong
      cases wrong
  · rw [put_other here]
    constructor
    · intro none
      cases none
    · intro other
      exact absurd (only_inside excluded other inside) here

theorem sound_put {p : Place δ} (excluded : Excluded s) (sound : p.Sound s.data) (v : τ) : (put s t p v).Sound s.data := by
  by_cases here : v = t
  · rw [here,put_self]
    exact sound
  · rw [put_other here]
    exact excluded.sound v

-- A place outside of the mutex does not rely on the data.
theorem sound_outside {p : Place δ} {d d' : δ} (outside : p.inside = false) (sound : p.Sound d) : p.Sound d' := by
  cases p with
  | woken op timedOut =>
      cases timedOut with
      | true => exact sound
      | false => trivial
  | acting op timedOut => cases outside
  | _ => trivial

theorem wakes_sound {p : Place δ} {d : δ} (sound : p.Sound d) : p.wakes.Sound d := by
  cases p with
  | asleep op => trivial
  | _ => exact sound

theorem excluded_step (excluded : Excluded s) (stepped : Step allowed s t a s') : Excluded s' := by
  cases stepped with
  | call op may here =>
      exact ⟨owner_stays excluded (by rw [here]; rfl),sound_put excluded trivial⟩
  | enter op here free | again op here free =>
      exact ⟨owner_takes excluded free rfl,sound_put excluded trivial⟩
  | giveUp op here free =>
      have timed := excluded.sound t
      rw [here] at timed
      exact ⟨owner_takes excluded free rfl,sound_put excluded timed⟩
  | pass op here ready =>
      exact ⟨owner_stays excluded (by rw [here]; rfl),sound_put excluded ready⟩
  | sleep op here unready =>
      exact ⟨owner_leaves excluded (by rw [here]; rfl) rfl,sound_put excluded trivial⟩
  | wake op here =>
      exact ⟨owner_stays excluded (by rw [here]; rfl),sound_put excluded trivial⟩
  | timeout op here timed =>
      exact ⟨owner_stays excluded (by rw [here]; rfl),sound_put excluded timed⟩
  | act op here =>
      refine ⟨owner_stays excluded ?_,?_⟩
      · rw [here]
        cases op.signals with
        | true => rfl
        | false => rfl
      · intro v
        dsimp only
        by_cases same : v = t
        · rw [same,put_self]
          cases op.signals with
          | true => trivial
          | false => trivial
        · rw [put_other same]
          refine sound_outside ?_ (excluded.sound v)
          cases inside : (s.place v).inside with
          | false => rfl
          | true => exact absurd (only_inside excluded inside (by rw [here]; rfl)) same
  | skip op here =>
      exact ⟨owner_stays excluded (by rw [here]; rfl),sound_put excluded trivial⟩
  | signal here =>
      refine ⟨?_,?_⟩
      · intro v
        rw [excluded.owner v]
        dsimp only
        by_cases same : v = t
        · rw [same,Function.update_self,here]
          exact Iff.rfl
        · rw [Function.update_of_ne same,wakes_inside]
      · intro v
        dsimp only
        by_cases same : v = t
        · rw [same,Function.update_self]
          trivial
        · rw [Function.update_of_ne same]
          exact wakes_sound (excluded.sound v)
  | unlock answer here =>
      exact ⟨owner_leaves excluded (by rw [here]; rfl) rfl,sound_put excluded trivial⟩

theorem reached_excluded (reached : Reached allowed start s) : Excluded s := by
  refine reached_inv reached ⟨fun t => ?_,fun t => trivial⟩ (fun _ _ _ _ => excluded_step)
  constructor
  · intro none
    cases none
  · intro wrong
    cases wrong

end exclusion

section atomic

-- A trace on the data, one mark after the other: an operation that may be called changes
-- data that are ready for it, and finds others not ready.
inductive Replays (allowed : Operation δ → Prop) (start : δ) : List (Mark τ δ) → δ → Prop where
  | nil : Replays allowed start [] start
  | called {trace : List (Mark τ δ)} {d : δ} (before : Replays allowed start trace d) (t : τ) (op : Operation δ) :
      Replays allowed start (trace ++ [.called t op]) d
  | looked {trace : List (Mark τ δ)} {d : δ} (before : Replays allowed start trace d) (t : τ) (op : Operation δ)
      (may : allowed op) (unready : op.ready d = false) : Replays allowed start (trace ++ [.looked t op]) d
  | effect {trace : List (Mark τ δ)} {d : δ} (before : Replays allowed start trace d) (t : τ) (op : Operation δ)
      (may : allowed op) (ready : op.ready d = true) : Replays allowed start (trace ++ [.effect t op]) (op.act d)
  | returned {trace : List (Mark τ δ)} {d : δ} (before : Replays allowed start trace d) (t : τ) (answer : Bool) :
      Replays allowed start (trace ++ [.returned t answer]) d

-- How far a thread is with its calls.
inductive Phase (δ : Type _) where
  | outside
  | pending (op : Operation δ)
  | looked (op : Operation δ)
  | effected

def Phase.operation : Phase δ → Option (Operation δ)
  | .pending op | .looked op => some op
  | _ => none

def Mark.thread : Mark τ δ → τ
  | .called t _ | .looked t _ | .effect t _ | .returned t _ => t

-- The calls of one thread. A call that returns true changes the data once before, on data
-- that are ready. A timed one that returns false takes effect at its last look, when the
-- data were not: it changes nothing, so it could as well have come and gone then.
inductive Follows (t : τ) : List (Mark τ δ) → Phase δ → Prop where
  | nil : Follows t [] .outside
  | other {trace : List (Mark τ δ)} {phase : Phase δ} (before : Follows t trace phase) (m : Mark τ δ) (apart : m.thread ≠ t) :
      Follows t (trace ++ [m]) phase
  | called {trace : List (Mark τ δ)} (before : Follows t trace .outside) (op : Operation δ) :
      Follows t (trace ++ [.called t op]) (.pending op)
  | looked {trace : List (Mark τ δ)} {phase : Phase δ} {op : Operation δ} (before : Follows t trace phase)
      (during : phase.operation = some op) : Follows t (trace ++ [.looked t op]) (.looked op)
  | effect {trace : List (Mark τ δ)} {phase : Phase δ} {op : Operation δ} (before : Follows t trace phase)
      (during : phase.operation = some op) : Follows t (trace ++ [.effect t op]) .effected
  | returned {trace : List (Mark τ δ)} (before : Follows t trace .effected) :
      Follows t (trace ++ [.returned t true]) .outside
  | gaveUp {trace : List (Mark τ δ)} {op : Operation δ} (before : Follows t trace (.looked op)) (timed : op.timed = true) :
      Follows t (trace ++ [.returned t false]) .outside

-- The phases a thread can be in at its place. Who has slept has looked.
inductive At : Place δ → Phase δ → Prop where
  | outside : At .outside .outside
  | entering (op : Operation δ) : At (.entering op) (.pending op)
  | testing {phase : Phase δ} {op : Operation δ} (during : phase.operation = some op) : At (.testing op) phase
  | asleep (op : Operation δ) : At (.asleep op) (.looked op)
  | woken (op : Operation δ) (timedOut : Bool) : At (.woken op timedOut) (.looked op)
  | acting {phase : Phase δ} {op : Operation δ} (during : phase.operation = some op) : At (.acting op false) phase
  | givingUp (op : Operation δ) : At (.acting op true) (.looked op)
  | signalling : At .signalling .effected
  | leaving : At (.leaving true) .effected
  | gaveUp {op : Operation δ} (timed : op.timed = true) : At (.leaving false) (.looked op)

structure Atomic (allowed : Operation δ → Prop) (start : δ) (s : State τ δ) : Prop where
  replays : Replays allowed start s.trace s.data
  follows : ∀ t, ∃ phase, Follows t s.trace phase ∧ At (s.place t) phase

theorem wakes_at {p : Place δ} {phase : Phase δ} (stands : At p phase) : At p.wakes phase := by
  cases stands with
  | asleep op => exact .woken op false
  | outside => exact .outside
  | entering op => exact .entering op
  | testing during => exact .testing during
  | woken op timedOut => exact .woken op timedOut
  | acting during => exact .acting during
  | givingUp op => exact .givingUp op
  | signalling => exact .signalling
  | leaving => exact .leaving
  | gaveUp timed => exact .gaveUp timed

-- A step that leaves no mark leaves the phases as they are.
theorem follows_stays {p : Place δ} (atomic : Atomic allowed start s) (same : ∀ phase, At (s.place t) phase → At p phase) (v : τ) :
    ∃ phase, Follows v s.trace phase ∧ At (put s t p v) phase := by
  obtain ⟨phase,follows,stands⟩ := atomic.follows v
  refine ⟨phase,follows,?_⟩
  by_cases here : v = t
  · rw [here] at stands
    rw [here,put_self]
    exact same phase stands
  · rw [put_other here]
    exact stands

theorem follows_marks {p : Place δ} {m : Mark τ δ} {phase : Phase δ} (atomic : Atomic allowed start s) (of : m.thread = t)
    (marks : Follows t (s.trace ++ [m]) phase) (stands : At p phase) (v : τ) :
    ∃ phase, Follows v (s.trace ++ [m]) phase ∧ At (put s t p v) phase := by
  by_cases here : v = t
  · rw [here,put_self]
    exact ⟨phase,marks,stands⟩
  · obtain ⟨old,follows,stays⟩ := atomic.follows v
    rw [put_other here]
    refine ⟨old,.other follows m ?_,stays⟩
    rw [of]
    exact fun same => here same.symm

theorem atomic_step (permitted : Permitted allowed s) (excluded : Excluded s) (atomic : Atomic allowed start s)
    (stepped : Step allowed s t a s') : Atomic allowed start s' := by
  obtain ⟨phase,follows,stands⟩ := atomic.follows t
  have may := permitted t
  have sound := excluded.sound t
  cases stepped with
  | call op allows here =>
      rw [here] at stands
      cases stands
      exact ⟨.called atomic.replays t op,follows_marks atomic rfl (.called follows op) (.entering op)⟩
  | enter op here free | again op here free =>
      refine ⟨atomic.replays,follows_stays atomic fun phase stands => ?_⟩
      rw [here] at stands
      cases stands
      exact .testing rfl
  | giveUp op here free =>
      refine ⟨atomic.replays,follows_stays atomic fun phase stands => ?_⟩
      rw [here] at stands
      cases stands
      exact .givingUp op
  | pass op here ready =>
      refine ⟨atomic.replays,follows_stays atomic fun phase stands => ?_⟩
      rw [here] at stands
      cases stands with
      | testing during => exact .acting during
  | sleep op here unready =>
      rw [here] at stands
      cases stands with
      | testing during =>
          exact ⟨.looked atomic.replays t op (may op (by rw [here]; rfl)) unready,
            follows_marks atomic rfl (.looked follows during) (.asleep op)⟩
  | wake op here =>
      refine ⟨atomic.replays,follows_stays atomic fun phase stands => ?_⟩
      rw [here] at stands
      cases stands
      exact .woken op false
  | timeout op here timed =>
      refine ⟨atomic.replays,follows_stays atomic fun phase stands => ?_⟩
      rw [here] at stands
      cases stands
      exact .woken op true
  | act op here =>
      rw [here] at stands sound
      cases stands with
      | acting during =>
          refine ⟨.effect atomic.replays t op (may op (by rw [here]; rfl)) sound,
            follows_marks atomic rfl (.effect follows during) ?_⟩
          cases op.signals with
          | true => exact .signalling
          | false => exact .leaving
  | skip op here =>
      rw [here] at sound
      refine ⟨atomic.replays,follows_stays atomic fun phase stands => ?_⟩
      rw [here] at stands
      cases stands
      exact .gaveUp sound
  | signal here =>
      refine ⟨atomic.replays,?_⟩
      intro v
      dsimp only
      by_cases same : v = t
      · rw [here] at stands
        cases stands
        rw [same,Function.update_self]
        exact ⟨_,follows,.leaving⟩
      · obtain ⟨old,before,stays⟩ := atomic.follows v
        rw [Function.update_of_ne same]
        exact ⟨old,before,wakes_at stays⟩
  | unlock answer here =>
      rw [here] at stands
      cases stands with
      | leaving => exact ⟨.returned atomic.replays t true,follows_marks atomic rfl (.returned follows) .outside⟩
      | gaveUp timed => exact ⟨.returned atomic.replays t false,follows_marks atomic rfl (.gaveUp follows timed) .outside⟩

-- However the threads are interleaved, each call takes effect at one moment, as if no
-- other were on its way.
theorem reached_atomic (reached : Reached allowed start s) : Atomic allowed start s := by
  induction reached with
  | start => exact ⟨.nil,fun t => ⟨.outside,.nil,.outside⟩⟩
  | step before stepped ih => exact atomic_step (reached_permitted before) (reached_excluded before) ih stepped

end atomic

section waking

-- Whoever makes data ready wakes those who wait.
def Wakes (allowed : Operation δ → Prop) : Prop :=
  ∀ op other, allowed op → allowed other → op.signals = false → ∀ d, op.ready d = true → other.ready d = false →
    other.ready (op.act d) = false

-- Who sleeps is not ready, or is about to be woken.
def Awake (s : State τ δ) : Prop := ∀ t op, s.place t = .asleep op → op.ready s.data = false ∨ ∃ u, s.place u = .signalling

theorem awake_put {p : Place δ} (awake : Awake s) (quiet : s.place t ≠ .signalling)
    (falls : ∀ op, p = .asleep op → op.ready s.data = false) (v : τ) (op : Operation δ) (on : put s t p v = .asleep op) :
    op.ready s.data = false ∨ ∃ u, put s t p u = .signalling := by
  by_cases here : v = t
  · rw [here,put_self] at on
    exact Or.inl (falls op on)
  · rw [put_other here] at on
    rcases awake v op on with unready | ⟨u,signals⟩
    · exact Or.inl unready
    · have apart : u ≠ t := by
        intro same
        rw [same] at signals
        exact quiet signals
      refine Or.inr ⟨u,?_⟩
      rw [put_other apart]
      exact signals

theorem awake_step (wakes : Wakes allowed) (permitted : Permitted allowed s) (excluded : Excluded s) (awake : Awake s)
    (stepped : Step allowed s t a s') : Awake s' := by
  cases stepped with
  | call op may here | enter op here free | again op here free | giveUp op here free | pass op here ready | wake op here
  | timeout op here timed | skip op here | unlock answer here =>
      exact awake_put awake (by simp only [here,ne_eq,reduceCtorEq,not_false_eq_true])
        (by simp only [reduceCtorEq,false_implies,implies_true])
  | sleep op here unready =>
      refine awake_put awake (by simp only [here,ne_eq,reduceCtorEq,not_false_eq_true]) ?_
      intro other same
      cases same
      exact unready
  | act op here =>
      have sound := excluded.sound t
      rw [here] at sound
      intro v other on
      dsimp only at on ⊢
      cases signals : op.signals with
      | true => exact Or.inr ⟨t,put_self _⟩
      | false =>
          rw [signals] at on
          have apart : v ≠ t := by
            intro same
            rw [same,put_self] at on
            cases on
          rw [put_other apart] at on
          refine Or.inl (wakes op other (permitted t op (by rw [here]; rfl)) (permitted v other (by rw [on]; rfl)) signals _
            sound ?_)
          rcases awake v other on with unready | ⟨u,signalling⟩
          · exact unready
          · have same := only_inside (t := t) (u := u) excluded (by rw [here]; rfl) (by rw [signalling]; rfl)
            rw [←same,here] at signalling
            cases signalling
  | signal here =>
      intro v op on
      dsimp only at on
      by_cases same : v = t
      · rw [same,Function.update_self] at on
        cases on
      · rw [Function.update_of_ne same] at on
        cases before : s.place v with
        | _ =>
            rw [before] at on
            cases on

theorem reached_awake (wakes : Wakes allowed) (reached : Reached allowed start s) : Awake s := by
  induction reached with
  | start =>
      intro t op on
      cases on
  | step before stepped ih => exact awake_step wakes (reached_permitted before) (reached_excluded before) ih stepped

-- The steps of a thread in the middle of its work, which nothing can hold up.
def Action.own : Action → Bool
  | .lock | .test | .act | .signal | .unlock => true
  | .call | .wake | .timeout => false

variable (allowed) in
theorem inside_moves (inside : (s.place t).inside = true) : ∃ a s', Step allowed s t a s' ∧ a.own = true := by
  cases here : s.place t with
  | testing op =>
      cases ready : op.ready s.data with
      | true => exact ⟨_,_,.pass op here ready,rfl⟩
      | false => exact ⟨_,_,.sleep op here ready,rfl⟩
  | acting op timedOut =>
      cases timedOut with
      | true => exact ⟨_,_,.skip op here,rfl⟩
      | false => exact ⟨_,_,.act op here,rfl⟩
  | signalling => exact ⟨_,_,.signal here,rfl⟩
  | leaving answer => exact ⟨_,_,.unlock answer here,rfl⟩
  | outside | entering op | asleep op | woken op timedOut =>
      rw [here] at inside
      cases inside

-- Where no thread in the middle of its work can go on, all are outside or asleep for data
-- that are not ready.
theorem settled (wakes : Wakes allowed) (reached : Reached allowed start s)
    (stuck : ∀ t a s', Step allowed s t a s' → a.own = false) (t : τ) :
    s.place t = .outside ∨ ∃ op, s.place t = .asleep op ∧ op.ready s.data = false := by
  have excluded := reached_excluded reached
  have nobody : ∀ u, (s.place u).inside = false := by
    intro u
    cases inside : (s.place u).inside with
    | false => rfl
    | true =>
        obtain ⟨a,s',stepped,own⟩ := inside_moves allowed inside
        rw [stuck u a s' stepped] at own
        cases own
  have free : s.owner = none := by
    cases owner : s.owner with
    | none => rfl
    | some u =>
        have inside := (excluded.owner u).mp owner
        rw [nobody u] at inside
        cases inside
  have halts : ∀ a s', Step allowed s t a s' → a.own = true → False := by
    intro a s' stepped own
    rw [stuck t a s' stepped] at own
    cases own
  have outside := nobody t
  cases here : s.place t with
  | outside => exact Or.inl rfl
  | entering op => exact (halts _ _ (.enter op here free) rfl).elim
  | woken op timedOut =>
      cases timedOut with
      | true => exact (halts _ _ (.giveUp op here free) rfl).elim
      | false => exact (halts _ _ (.again op here free) rfl).elim
  | asleep op =>
      refine Or.inr ⟨op,rfl,?_⟩
      rcases reached_awake wakes reached t op here with unready | ⟨u,signals⟩
      · exact unready
      · have inside := nobody u
        rw [signals] at inside
        cases inside
  | testing op | acting op timedOut | signalling | leaving answer =>
      rw [here] at outside
      cases outside

end waking

section rank

-- How many steps a thread still has to take, if it does not fall asleep.
def Place.rank : Place δ → Nat
  | .outside => 0
  | .leaving _ => 1
  | .signalling => 2
  | .acting _ _ => 3
  | .testing _ => 4
  | .entering _ | .woken _ _ => 5
  | .asleep _ => 6

-- A run with so many steps of one thread, the data being ready for it all along.
inductive Goes (allowed : Operation δ → Prop) (t : τ) (s : State τ δ) : Nat → State τ δ → Prop where
  | refl : Goes allowed t s 0 s
  | other {n : Nat} {s' s'' : State τ δ} {u : τ} {a : Action} (before : Goes allowed t s n s') (apart : t ≠ u)
      (stepped : Step allowed s' u a s'') : Goes allowed t s n s''
  | own {n : Nat} {s' s'' : State τ δ} {a : Action} (before : Goes allowed t s n s') (stepped : Step allowed s' t a s'')
      (finishes : a ≠ .call) (ready : ∀ op, (s'.place t).operation = some op → op.ready s'.data = true) :
      Goes allowed t s (n+1) s''

theorem wakes_rank (p : Place δ) : p.wakes.rank ≤ p.rank := by
  cases p with
  | asleep op => exact Nat.le_succ 5
  | _ => exact Nat.le_refl _

theorem other_rank (apart : t ≠ u) (stepped : Step allowed s u a s') : (s'.place t).rank ≤ (s.place t).rank := by
  cases stepped with
  | signal here =>
      dsimp only
      rw [Function.update_of_ne apart]
      exact wakes_rank _
  | _ => exact Nat.le_of_eq (congrArg Place.rank (put_other apart))

theorem own_rank (stepped : Step allowed s t a s') (finishes : a ≠ .call)
    (ready : ∀ op, (s.place t).operation = some op → op.ready s.data = true) : (s'.place t).rank < (s.place t).rank := by
  cases stepped with
  | call op may here => exact absurd rfl finishes
  | sleep op here unready =>
      rw [ready op (by rw [here]; rfl)] at unready
      cases unready
  | signal here =>
      dsimp only
      rw [here,Function.update_self]
      exact Nat.lt_succ_self 1
  | act op here =>
      dsimp only
      rw [here,put_self]
      cases op.signals with
      | true => exact Nat.lt_succ_self 2
      | false => exact Nat.lt_add_of_pos_right (show 0 < 2 by decide)
  | enter op here free | again op here free | giveUp op here free | pass op here ready | wake op here
  | timeout op here timed | skip op here | unlock answer here =>
      dsimp only
      rw [here,put_self]
      simp only [Place.rank]
      omega

theorem goes_rank {n : Nat} (goes : Goes allowed t s n s') : n + (s'.place t).rank ≤ (s.place t).rank := by
  induction goes with
  | refl => exact Nat.le_of_eq (Nat.zero_add _)
  | other before apart stepped ih =>
      have lower := other_rank apart stepped
      omega
  | own before stepped finishes ready ih =>
      have lower := own_rank stepped finishes ready
      omega

theorem rank_zero {p : Place δ} (zero : p.rank = 0) : p = .outside := by
  cases p with
  | outside => rfl
  | _ => cases zero

theorem rank_le (p : Place δ) : p.rank ≤ 6 := by
  cases p <;> simp only [Place.rank] <;> omega

end rank

end GameServer.Monitor
