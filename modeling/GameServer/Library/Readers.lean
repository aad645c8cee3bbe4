import Mathlib.Data.List.Basic

namespace GameServer.Readers

-- A reader takes something off a state, or fails.
abbrev Reader (σ α : Type _) := StateT σ Option α

-- What a relation reads: a value, what there was before it and what is left.
abbrev Reads (α τ : Type _) := α → τ → τ → Prop

variable {σ τ α β γ : Type _} {view : σ → τ}

-- A reader is exact when, seen through a view of its state, it reads just what
-- the relation does, and fails where the relation reads nothing.
structure Exact (view : σ → τ) (f : Reader σ α) (reads : Reads α τ) : Prop where
  sound : ∀ s x s', f s = some (x,s') → reads x (view s) (view s')
  complete : ∀ s x rest, reads x (view s) rest → ∃ s', f s = some (x,s') ∧ view s' = rest

-- One reading behind another.
def andThen (P : Reads α τ) (Q : α → Reads γ τ) : Reads γ τ := fun y input rest =>
  ∃ x between, P x input between ∧ Q x y between rest

-- A reading of phrases: the phrases of a value are what its reader takes.
def phrases (P : α → List β → Prop) : Reads α (List β) := fun x input rest => ∃ w, P x w ∧ input = w ++ rest

section readers

theorem exact_congr {f : Reader σ α} {P Q : Reads α τ} (exact : Exact view f P)
    (same : ∀ x input rest, P x input rest ↔ Q x input rest) : Exact view f Q where
  sound s x s' ran := (same _ _ _).mp (exact.sound s x s' ran)
  complete s x rest reads := exact.complete s x rest ((same _ _ _).mpr reads)

theorem exact_pure (x : α) : Exact view (pure x : Reader σ α) (fun y input rest => y = x ∧ rest = input) where
  sound s y s' ran := by
    cases ran
    exact ⟨rfl,rfl⟩
  complete s y rest reads := by
    obtain ⟨rfl,rfl⟩ := reads
    exact ⟨s,rfl,rfl⟩

theorem exact_bind {f : Reader σ α} {g : α → Reader σ γ} {P : Reads α τ} {Q : α → Reads γ τ} (first : Exact view f P)
    (second : ∀ x, (∃ input between, P x input between) → Exact view (g x) (Q x)) :
    Exact view (f >>= g) (andThen P Q) where
  sound s y s' ran := by
    obtain ⟨⟨x,between⟩,head,tail⟩ := Option.bind_eq_some_iff.mp ran
    have read := first.sound s x between head
    exact ⟨x,view between,read,(second x ⟨_,_,read⟩).sound between y s' tail⟩
  complete s y rest reads := by
    obtain ⟨x,between,head,tail⟩ := reads
    obtain ⟨m,ran,rfl⟩ := first.complete s x between head
    obtain ⟨s',later,left⟩ := (second x ⟨_,_,head⟩).complete m y rest tail
    exact ⟨s',Option.bind_eq_some_iff.mpr ⟨(x,m),ran,later⟩,left⟩

-- A choice made on what is known already.
theorem exact_ite {c : Prop} [Decidable c] {f g : Reader σ α} {P Q : Reads α τ} (one : c → Exact view f P)
    (two : ¬c → Exact view g Q) :
    Exact view (if c then f else g) (fun x input rest => if c then P x input rest else Q x input rest) := by
  split
  · exact one ‹_›
  · exact two ‹_›

-- A value that may be missing.
theorem exact_lift (value : Option α) :
    Exact view (StateT.lift value : Reader σ α) (fun x input rest => value = some x ∧ rest = input) where
  sound s x s' ran := by
    obtain ⟨y,there,same⟩ := Option.bind_eq_some_iff.mp ran
    cases same
    exact ⟨there,rfl⟩
  complete s x rest reads := by
    obtain ⟨there,rfl⟩ := reads
    exact ⟨s,Option.bind_eq_some_iff.mpr ⟨x,there,rfl⟩,rfl⟩

theorem lift_bind (x : α) (g : α → Reader σ γ) : (StateT.lift (some x) : Reader σ α) >>= g = g x := rfl

theorem exact_fail : Exact view (fun _ => none : Reader σ α) (fun _ _ _ => False) where
  sound _ _ _ ran := by cases ran
  complete _ _ _ reads := reads.elim

end readers

section loops

-- A loop of at most so many rounds: a round goes on with what it leaves or returns.
def loop (step : α → Reader σ (α ⊕ γ)) : Nat → α → Reader σ γ
  | 0,_ => fun _ => none
  | rounds+1,x => step x >>= fun out =>
    match out with
    | .inl y => loop step rounds y
    | .inr z => pure z

-- What so many rounds and the one that returns read.
inductive Rounds (P : α → Reads (α ⊕ γ) τ) : Nat → α → γ → τ → τ → Prop where
  | stop {x : α} {z : γ} {input rest : τ} : P x (.inr z) input rest → Rounds P 0 x z input rest
  | more {x y : α} {z : γ} {input between rest : τ} : P x (.inl y) input between → Rounds P n y z between rest →
      Rounds P (n+1) x z input rest

theorem loop_exact {step : α → Reader σ (α ⊕ γ)} {P : α → Reads (α ⊕ γ) τ} (exact : ∀ x, Exact view (step x) (P x))
    (rounds : Nat) (x : α) : Exact view (loop step rounds x) (fun z input rest => ∃ n < rounds, Rounds P n x z input rest) := by
  induction rounds generalizing x with
  | zero =>
      refine exact_congr exact_fail fun z input rest => ?_
      constructor
      · exact False.elim
      · rintro ⟨n,few,_⟩
        exact Nat.not_lt_zero n few
  | succ rounds ih =>
      have round : ∀ out : α ⊕ γ, Exact view (match out with | .inl y => loop step rounds y | .inr z => pure z)
          (fun z input rest => match out with
            | .inl y => ∃ n < rounds, Rounds P n y z input rest
            | .inr z' => z = z' ∧ rest = input) := by
        intro out
        cases out with
        | inl y => exact ih y
        | inr z => exact exact_pure z
      refine exact_congr (exact_bind (exact x) fun out _ => round out) fun z input rest => ?_
      constructor
      · rintro ⟨out,between,read,later⟩
        cases out with
        | inl y =>
            obtain ⟨n,few,rounds⟩ := later
            exact ⟨n+1,Nat.succ_lt_succ few,.more read rounds⟩
        | inr z' =>
            obtain ⟨rfl,rfl⟩ := later
            exact ⟨0,Nat.succ_pos _,.stop read⟩
      · rintro ⟨n,few,rounds⟩
        cases rounds with
        | stop read => exact ⟨.inr z,rest,read,rfl,rfl⟩
        | more read later => exact ⟨.inl _,_,read,_,Nat.lt_of_succ_lt_succ few,later⟩

-- What every round keeps holds behind the loop.
theorem loop_keeps {step : α → Reader σ (α ⊕ γ)} (I : σ → Prop)
    (keeps : ∀ x s out s', step x s = some (out,s') → I s → I s') {rounds : Nat} {x : α} {s s' : σ} {z : γ}
    (ran : loop step rounds x s = some (z,s')) (before : I s) : I s' := by
  induction rounds generalizing x s with
  | zero => cases ran
  | succ rounds ih =>
      obtain ⟨⟨out,between⟩,round,later⟩ := Option.bind_eq_some_iff.mp ran
      have kept := keeps x s out between round before
      cases out with
      | inl y => exact ih later kept
      | inr z =>
          cases later
          exact kept

end loops

end GameServer.Readers
