import Mathlib.Control.Basic
import Mathlib.Data.List.Forall2

-- Scripts that run over a state and may fail halfway, and the chains of tests
-- they are made of.
namespace GameServer.Scripting

-- A failure stops the script and leaves the state as it is then.
abbrev Script (σ : Type) := OptionT (StateM σ)

def ends (script : Script σ α) (s : σ) : Option α × σ := StateT.run (OptionT.run script) s

section rules
variable {σ α β : Type}

@[simp] theorem ends_pure (a : α) (s : σ) : ends (pure a) s = (some a,s) := rfl

@[simp] theorem ends_get (s : σ) : ends get s = (some s,s) := rfl

@[simp] theorem ends_modify (f : σ → σ) (s : σ) : ends (modify f) s = (some (),f s) := rfl

@[simp] theorem ends_failure (s : σ) : ends (failure : Script σ α) s = (none,s) := rfl

theorem ends_bind_some {script : Script σ α} {s s' : σ} {a : α} (first : ends script s = (some a,s')) (next : α → Script σ β) :
    ends (script >>= next) s = ends (next a) s' := by
  unfold ends at first ⊢
  rw [OptionT.run_bind,Option.elimM,StateT.run_bind,first]
  rfl

theorem ends_bind_none {script : Script σ α} {s s' : σ} (first : ends script s = (none,s')) (next : α → Script σ β) :
    ends (script >>= next) s = (none,s') := by
  unfold ends at first ⊢
  rw [OptionT.run_bind,Option.elimM,StateT.run_bind,first]
  rfl

theorem ends_bind (script : Script σ α) (next : α → Script σ β) (s : σ) :
    ends (script >>= next) s = match ends script s with
      | (some a,s') => ends (next a) s'
      | (none,s') => (none,s') := by
  rcases first : ends script s with ⟨_ | a,s'⟩
  · exact ends_bind_none first next
  · exact ends_bind_some first next

end rules

section chains
variable {σ π : Type} {looked : σ → σ → Prop}

-- The operands of an `and`, from the left as far as they hold.
def both (first second : Script σ Bool) : Script σ Bool := do
  if ← first then second else pure false

-- One `if` or `elseif` of a chain.
structure Branch (σ π : Type) where
  test : Script σ Bool
  body : Script σ π

def chain (rest : Script σ π) : List (Branch σ π) → Script σ π
  | [] => rest
  | branch :: others => do
      if ← branch.test then branch.body else chain rest others

-- What tests may do to a state besides reading it.
structure Looking (looked : σ → σ → Prop) : Prop where
  none : ∀ s, looked s s
  more : ∀ s s' s'', looked s s' → looked s' s'' → looked s s''

-- A test answers a condition, which looking around does not change.
structure Tests (looked : σ → σ → Prop) (test : Script σ Bool) (cond : σ → Prop) : Prop where
  answers : ∀ s, ∃ hit s', ends test s = (some hit,s') ∧ looked s s' ∧ (hit = true ↔ cond s)
  still : ∀ s s', looked s s' → (cond s' ↔ cond s)

theorem tests_both (looking : Looking looked) {a b : Script σ Bool} {p q : σ → Prop} (first : Tests looked a p) (second : Tests looked b q) :
    Tests looked (both a b) (fun s => p s ∧ q s) := by
  constructor
  · intro s
    obtain ⟨hit,s',ran,seen,answer⟩ := first.answers s
    unfold both
    rw [ends_bind_some ran]
    cases hit with
    | false =>
        refine ⟨false,s',rfl,seen,?_⟩
        constructor
        · intro impossible; cases impossible
        · intro ⟨holds,_⟩; exact answer.mpr holds
    | true =>
        obtain ⟨hit,s'',ran,more,second'⟩ := second.answers s'
        refine ⟨hit,s'',ran,looking.more _ _ _ seen more,?_⟩
        rw [second',second.still _ _ seen]
        exact ⟨fun holds => ⟨answer.mp rfl,holds⟩,And.right⟩
  · intro s s' seen
    exact and_congr (first.still _ _ seen) (second.still _ _ seen)

section taken
variable {kind : Branch σ π → (σ → Prop) → Prop} {branches : List (Branch σ π)} {conds : List (σ → Prop)}

-- Each branch of a chain beside the condition it tests.
def Tested (looked : σ → σ → Prop) (kind : Branch σ π → (σ → Prop) → Prop) : List (Branch σ π) → List (σ → Prop) → Prop :=
  List.Forall₂ fun branch cond => Tests looked branch.test cond ∧ kind branch cond

theorem tested_any (tested : Tested looked kind branches conds) {s s' : σ} (seen : looked s s') :
    (∃ cond ∈ conds, cond s') ↔ ∃ cond ∈ conds, cond s := by
  induction tested with
  | nil => simp
  | cons first _ ih =>
      simp only [List.mem_cons,exists_eq_or_imp]
      exact or_congr (first.1.still _ _ seen) ih

-- The branch taken is the first whose condition holds, if there is one.
theorem chain_from (looking : Looking looked) (tested : Tested looked kind branches conds) (rest : Script σ π) {s now : σ} (seen : looked s now) :
    (∃ branch cond s', kind branch cond ∧ cond s' ∧ (∃ cond ∈ conds, cond s) ∧ looked s s' ∧ ends (chain rest branches) now = ends branch.body s') ∨
      ∃ s', (¬ ∃ cond ∈ conds, cond s) ∧ looked s s' ∧ ends (chain rest branches) now = ends rest s' := by
  induction tested generalizing now with
  | nil => exact Or.inr ⟨now,by simp,seen,rfl⟩
  | @cons branch cond _ _ first _ ih =>
      obtain ⟨tests,fits⟩ := first
      obtain ⟨hit,s',ran,more,answer⟩ := tests.answers now
      rw [tests.still _ _ seen] at answer
      have later := looking.more _ _ _ seen more
      unfold chain
      rw [ends_bind_some ran]
      cases hit with
      | true =>
          have holds := answer.mp rfl
          exact Or.inl ⟨branch,cond,s',fits,(tests.still _ _ later).mpr holds,⟨cond,List.mem_cons_self ..,holds⟩,later,rfl⟩
      | false =>
          rcases ih later with ⟨branch',cond',s'',fits',holds,⟨one,member,taken⟩,seen',same⟩ | ⟨s'',fails,seen',same⟩
          · exact Or.inl ⟨branch',cond',s'',fits',holds,⟨one,List.mem_cons_of_mem _ member,taken⟩,seen',same⟩
          · refine Or.inr ⟨s'',?_,seen',same⟩
            simp only [List.mem_cons,exists_eq_or_imp]
            intro taken
            rcases taken with holds | other
            · exact Bool.noConfusion (answer.mpr holds)
            · exact fails other

theorem chain_takes (looking : Looking looked) (tested : Tested looked kind branches conds) (rest : Script σ π) {s : σ} (taken : ∃ cond ∈ conds, cond s) :
    ∃ branch cond s', kind branch cond ∧ cond s' ∧ looked s s' ∧ ends (chain rest branches) s = ends branch.body s' := by
  rcases chain_from looking tested rest (looking.none s) with ⟨branch,cond,s',fits,holds,_,seen,same⟩ | ⟨_,fails,_⟩
  · exact ⟨branch,cond,s',fits,holds,seen,same⟩
  · exact absurd taken fails

theorem chain_passes (looking : Looking looked) (tested : Tested looked kind branches conds) (rest : Script σ π) {s : σ} (fails : ¬ ∃ cond ∈ conds, cond s) :
    ∃ s', looked s s' ∧ ends (chain rest branches) s = ends rest s' := by
  rcases chain_from looking tested rest (looking.none s) with ⟨_,_,_,_,_,taken,_⟩ | ⟨s',_,seen,same⟩
  · exact absurd taken fails
  · exact ⟨s',seen,same⟩

end taken

end chains

end GameServer.Scripting
