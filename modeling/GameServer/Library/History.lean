namespace GameServer.History

variable {σ ι ω : Type _} {step : σ → ι → Option (ω × σ)}
  {good : σ → ι → ω → σ → Prop} {guard : σ → ι → Prop} {inv : σ → Prop}

-- A machine takes a command, answers and moves on; `none` is a command that
-- never comes back. `Along` asks every command of a history to come back and
-- the step it took to be good.
def Along (step : σ → ι → Option (ω × σ)) (good : σ → ι → ω → σ → Prop) : σ → List ι → Prop
  | _,[] => True
  | s,command :: rest => ∃ answer next, step s command = some (answer,next) ∧
      good s command answer next ∧ Along step good next rest

-- Every command of the history meets the guard in the state it is given to.
def Guarded (step : σ → ι → Option (ω × σ)) (guard : σ → ι → Prop) : σ → List ι → Prop
  | _,[] => True
  | s,command :: rest => guard s command ∧
      ∀ answer next, step s command = some (answer,next) → Guarded step guard next rest

theorem guarded_cons {s : σ} {command : ι} {rest : List ι} (moved : step s command = some (answer,next)) :
    Guarded step guard s (command :: rest) ↔ guard s command ∧ Guarded step guard next rest := by
  constructor
  · intro ⟨allowed,later⟩
    exact ⟨allowed,later answer next moved⟩
  · intro ⟨allowed,later⟩
    refine ⟨allowed,?_⟩
    intro answer' next' moved'
    cases Option.some.inj (moved.symm.trans moved')
    exact later

-- The states a history reaches, its start included.
inductive Reached (step : σ → ι → Option (ω × σ)) (start : σ) : σ → Prop where
  | start : Reached step start start
  | step : Reached step start s → step s command = some (answer,next) → Reached step start next

theorem reached_trans {s t u : σ} (one : Reached step s t) (other : Reached step t u) : Reached step s u := by
  induction other with
  | start => exact one
  | step _ moved ih => exact .step ih moved

theorem reached_inv (path : Reached step start s) (init : inv start)
    (keeps : ∀ s command answer next, inv s → step s command = some (answer,next) → inv next) :
    inv s := by
  induction path with
  | start => exact init
  | step _ moved ih => exact keeps _ _ _ _ ih moved

-- Enough: a guard under which every command comes back, is good and keeps the
-- invariant makes the whole guarded history good.
theorem along_of_guarded {s : σ} {history : List ι} (init : inv s)
    (sound : ∀ s command, inv s → guard s command →
      ∃ answer next, step s command = some (answer,next) ∧ good s command answer next ∧ inv next)
    (guarded : Guarded step guard s history) : Along step good s history := by
  induction history generalizing s with
  | nil => trivial
  | cons command rest ih =>
      obtain ⟨answer,next,moved,fine,kept⟩ := sound s command init guarded.1
      exact ⟨answer,next,moved,fine,ih kept (guarded.2 answer next moved)⟩

-- Exact: when in addition no good step escapes the guard, the good histories
-- are the guarded ones.
theorem along_iff_guarded {s : σ} {history : List ι} (init : inv s)
    (sound : ∀ s command, inv s → guard s command →
      ∃ answer next, step s command = some (answer,next) ∧ good s command answer next ∧ inv next)
    (exact : ∀ s command answer next, inv s → step s command = some (answer,next) →
      good s command answer next → guard s command) :
    Along step good s history ↔ Guarded step guard s history := by
  refine ⟨?_,along_of_guarded init sound⟩
  intro along
  induction history generalizing s with
  | nil => trivial
  | cons command rest ih =>
      obtain ⟨answer,next,moved,fine,later⟩ := along
      have allowed := exact s command answer next init moved fine
      refine ⟨allowed,?_⟩
      intro answer' next' moved'
      obtain ⟨_,_,moved'',_,kept⟩ := sound s command init allowed
      cases Option.some.inj (moved.symm.trans moved')
      cases Option.some.inj (moved.symm.trans moved'')
      exact ih kept later

-- The state a history leads to, if all its commands come back.
def after (step : σ → ι → Option (ω × σ)) : σ → List ι → Option σ
  | s,[] => some s
  | s,command :: rest => (step s command).bind fun (_,next) => after step next rest

-- An invariant of the commands so far and the state: every history that keeps
-- it comes back, in a state that it holds of.
theorem after_inv {inv : List ι → σ → Prop} {s : σ} (init : inv [] s)
    (keeps : ∀ made s command, inv made s → ∃ answer next, step s command = some (answer,next) ∧ inv (made ++ [command]) next)
    (history : List ι) : ∃ t, after step s history = some t ∧ inv history t := by
  suffices onward : ∀ made s, inv made s → ∃ t, after step s history = some t ∧ inv (made ++ history) t from onward [] s init
  induction history with
  | nil =>
      intro made s held
      exact ⟨s,rfl,by rwa [List.append_nil]⟩
  | cons command rest ih =>
      intro made s held
      obtain ⟨answer,next,moved,kept⟩ := keeps made s command held
      obtain ⟨t,arrived,whole⟩ := ih _ next kept
      refine ⟨t,?_,?_⟩
      · rw [after,moved]
        exact arrived
      · rwa [List.append_assoc] at whole

-- A guarded history is guarded from every state on its way.
theorem guarded_after {s t : σ} {earlier later : List ι} (arrived : after step s earlier = some t)
    (guarded : Guarded step guard s (earlier ++ later)) : Guarded step guard t later := by
  induction earlier generalizing s with
  | nil => cases arrived; exact guarded
  | cons command rest ih =>
      rw [after,Option.bind_eq_some_iff] at arrived
      obtain ⟨⟨answer,next⟩,moved,arrived⟩ := arrived
      exact ih arrived (guarded.2 answer next moved)

theorem guarded_of_inv {usable : ι → Prop} {s : σ} {history : List ι} (init : inv s)
    (sound : ∀ s command, inv s → usable command → guard s command)
    (keeps : ∀ s command answer next, inv s → usable command → step s command = some (answer,next) → inv next)
    (used : ∀ command ∈ history, usable command) : Guarded step guard s history := by
  induction history generalizing s with
  | nil => trivial
  | cons command rest ih =>
      obtain ⟨first,later⟩ := List.forall_mem_cons.mp used
      refine ⟨sound s command init first,?_⟩
      intro answer next moved
      exact ih (keeps s command answer next init first moved) later

-- Two guards that agree wherever the invariant holds guard the same histories.
theorem guarded_congr {fine : σ → ι → Prop} {usable : ι → Prop} {s : σ} {history : List ι} (init : inv s)
    (same : ∀ s command, inv s → usable command → (fine s command ↔ guard s command))
    (keeps : ∀ s command answer next, inv s → usable command → guard s command → step s command = some (answer,next) → inv next)
    (used : ∀ command ∈ history, usable command) : Guarded step fine s history ↔ Guarded step guard s history := by
  induction history generalizing s with
  | nil => exact Iff.rfl
  | cons command rest ih =>
      obtain ⟨first,later⟩ := List.forall_mem_cons.mp used
      have agree := same s command init first
      constructor
      · intro ⟨allowed,path⟩
        refine ⟨agree.mp allowed,?_⟩
        intro answer next moved
        exact (ih (keeps s command answer next init first (agree.mp allowed) moved) later).mp (path answer next moved)
      · intro ⟨allowed,path⟩
        refine ⟨agree.mpr allowed,?_⟩
        intro answer next moved
        exact (ih (keeps s command answer next init first allowed moved) later).mpr (path answer next moved)

section refinement
variable {τ : Type _} {spec : τ → ι → ω × τ} {rel : σ → τ → Prop} {usable : ι → Prop}

-- The machine follows the specification through a history: every command comes
-- back with the specified answer and in a state related to the specified one.
def Simulates (step : σ → ι → Option (ω × σ)) (spec : τ → ι → ω × τ) (rel : σ → τ → Prop) :
    σ → τ → List ι → Prop
  | _,_,[] => True
  | s,m,command :: rest => ∃ next, step s command = some ((spec m command).1,next) ∧
      rel next (spec m command).2 ∧ Simulates step spec rel next (spec m command).2 rest

-- The answers of a history, on the machine and on the specification.
def answers (step : σ → ι → Option (ω × σ)) : σ → List ι → Option (List ω)
  | _,[] => some []
  | s,command :: rest => (step s command).bind fun (answer,next) => (answers step next rest).map (answer :: ·)

def specified (spec : τ → ι → ω × τ) : τ → List ι → List ω
  | _,[] => []
  | m,command :: rest => (spec m command).1 :: specified spec (spec m command).2 rest

theorem simulates_answers {s : σ} {m : τ} {history : List ι} (simulates : Simulates step spec rel s m history) :
    answers step s history = some (specified spec m history) := by
  induction history generalizing s m with
  | nil => rfl
  | cons command rest ih =>
      obtain ⟨next,moved,_,later⟩ := simulates
      rw [answers,moved,Option.bind_some]
      dsimp only
      rw [ih later]; rfl

theorem simulates_iff_guarded {s : σ} {m : τ} {history : List ι} (init : inv s) (related : rel s m)
    (sound : ∀ s m command, inv s → rel s m → usable command → guard s command →
      ∃ next, step s command = some ((spec m command).1,next) ∧ rel next (spec m command).2 ∧ inv next)
    (exact : ∀ s m command next, inv s → rel s m → usable command →
      step s command = some ((spec m command).1,next) → rel next (spec m command).2 → guard s command)
    (used : ∀ command ∈ history, usable command) :
    Simulates step spec rel s m history ↔ Guarded step guard s history := by
  induction history generalizing s m with
  | nil => exact Iff.rfl
  | cons command rest ih =>
      have first := used command (List.mem_cons_self ..)
      have later : ∀ c ∈ rest, usable c := fun c member => used c (List.mem_cons_of_mem _ member)
      constructor
      · intro ⟨next,moved,kept,path⟩
        have allowed := exact s m command next init related first moved kept
        obtain ⟨next',moved',_,valid⟩ := sound s m command init related first allowed
        cases Option.some.inj (moved.symm.trans moved')
        refine ⟨allowed,?_⟩
        intro answer other again
        cases Option.some.inj (moved.symm.trans again)
        exact (ih valid kept later).mp path
      · intro ⟨allowed,path⟩
        obtain ⟨next,moved,kept,valid⟩ := sound s m command init related first allowed
        exact ⟨next,moved,kept,(ih valid kept later).mpr (path _ _ moved)⟩

end refinement

end GameServer.History
