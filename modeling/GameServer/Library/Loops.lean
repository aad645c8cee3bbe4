import Mathlib.Data.Prod.Lex
import Mathlib.Order.WellFounded

namespace GameServer.Loops

variable {σ ω : Type _} {turn : σ → ω ⊕ σ}

-- A loop takes turns until one of them ends it.
def loop (turn : σ → ω ⊕ σ) : Nat → σ → Option ω
  | 0,_ => none
  | fuel+1,s =>
    match turn s with
    | .inl answer => some answer
    | .inr next => loop turn fuel next

def Returns (turn : σ → ω ⊕ σ) (s : σ) : Prop := ∃ fuel answer, loop turn fuel s = some answer

theorem returns_end (ends : turn s = .inl answer) : Returns turn s := ⟨1,answer,by simp [loop,ends]⟩

theorem returns_turn (moved : turn s = .inr next) : Returns turn s ↔ Returns turn next := by
  constructor
  · intro ⟨fuel,answer,looped⟩
    cases fuel with
    | zero => cases looped
    | succ fuel =>
        rw [loop,moved] at looped
        exact ⟨fuel,answer,looped⟩
  · intro ⟨fuel,answer,looped⟩
    exact ⟨fuel+1,answer,by simp [loop,moved,looped]⟩

-- Every turn ends the loop or goes down in a well-founded order.
theorem returns_of_descent (inv : σ → Prop) {less : σ → σ → Prop} (founded : WellFounded less)
    (turns : ∀ s, inv s → (∃ answer, turn s = .inl answer) ∨ ∃ next, turn s = .inr next ∧ inv next ∧ less next s)
    (valid : inv s) : Returns turn s := by
  induction s using founded.induction with
  | _ s ih =>
      rcases turns s valid with ⟨answer,ends⟩ | ⟨next,moved,kept,down⟩
      · exact returns_end ends
      · exact (returns_turn moved).mpr (ih next down kept)

-- No turn of a loop that keeps to its invariant ends it.
theorem spins (inv : σ → Prop) (turns : ∀ s, inv s → ∃ next, turn s = .inr next ∧ inv next) (valid : inv s) : ¬ Returns turn s := by
  intro ⟨fuel,answer,looped⟩
  induction fuel generalizing s with
  | zero => cases looped
  | succ fuel ih =>
      obtain ⟨next,moved,kept⟩ := turns s valid
      rw [loop,moved] at looped
      exact ih kept looped

-- Two measures, the first before the second.
def Below (first second : σ → Nat) (a b : σ) : Prop := first a < first b ∨ first a = first b ∧ second a < second b

theorem below_founded (first second : σ → Nat) : WellFounded (Below first second) := by
  have lex : WellFounded (Prod.Lex (· < ·) (· < ·) : Nat × Nat → Nat × Nat → Prop) :=
    WellFounded.prod_lex wellFounded_lt wellFounded_lt
  refine Subrelation.wf ?_ (InvImage.wf (fun s => (first s,second s)) lex)
  intro a b down
  rcases down with less | ⟨same,less⟩
  · exact Prod.Lex.left _ _ less
  · exact Prod.lex_def.mpr (Or.inr ⟨same,less⟩)

end GameServer.Loops
