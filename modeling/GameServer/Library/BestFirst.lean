import Mathlib.Algebra.Order.Group.Nat
import Mathlib.Algebra.GroupWithZero.Divisibility

namespace GameServer.BestFirst

variable {α : Type _} {step : α → α → Prop} {weight : α → Nat} {start : α} {h : α → Nat}

-- A walk pays for every vertex it enters.
inductive Walk (step : α → α → Prop) (weight : α → Nat) (start : α) : α → Nat → Prop where
  | start : Walk step weight start start 0
  | step : Walk step weight start c n → step c d → Walk step weight start d (n + weight d)

theorem walk_multiple (every : ∀ c d, step c d → unit ∣ weight d) (walk : Walk step weight start d n) : unit ∣ n := by
  induction walk with
  | start => exact Nat.dvd_zero unit
  | step _ moved ih => exact Nat.dvd_add ih (every _ _ moved)

-- The labels of a best-first search between two rounds: what is closed has its
-- least cost, and every step out of it has been offered to the open labels.
structure Frontier (step : α → α → Prop) (weight : α → Nat) (start : α) (closed opened : α → Nat → Prop) : Prop where
  seed : (∃ g, closed start g) ∨ opened start 0
  relaxed : ∀ c g d, closed c g → step c d → (∃ g', closed d g') ∨ ∃ g', opened d g' ∧ g' ≤ g + weight d
  least : ∀ c g n, closed c g → Walk step weight start c n → g ≤ n

-- h never overestimates by more than one step pays.
def Consistent (step : α → α → Prop) (weight h : α → Nat) : Prop :=
  ∀ c d, step c d → h c ≤ weight d + h d

variable {closed opened : α → Nat → Prop}

-- A walk out of the closed vertices crosses an open label that bounds it.
theorem crossing (frontier : Frontier step weight start closed opened) (consistent : Consistent step weight h)
    (walk : Walk step weight start v n) (outside : ∀ g, ¬closed v g) :
    ∃ d g, opened d g ∧ g + h d ≤ n + h v := by
  induction walk with
  | start =>
      rcases frontier.seed with ⟨g,shut⟩ | seed
      · exact absurd shut (outside g)
      · exact ⟨start,0,seed,Nat.le_refl _⟩
  | @step c n v path moved ih =>
      by_cases shut : ∃ g, closed c g
      · obtain ⟨g,shut⟩ := shut
        rcases frontier.relaxed c g v shut moved with ⟨g',gone⟩ | ⟨g',here,bound⟩
        · exact absurd gone (outside g')
        · have least := frontier.least c g n shut path
          exact ⟨v,g',here,by omega⟩
      · obtain ⟨d,g,here,bound⟩ := ih fun g gone => shut ⟨g,gone⟩
        have drop := consistent c v moved
        exact ⟨d,g,here,by omega⟩

-- The label a round takes out: none of the open ones promises less.
def Best (h : α → Nat) (opened : α → Nat → Prop) (p : α) (g : Nat) : Prop :=
  opened p g ∧ ∀ d g', opened d g' → g + h p ≤ g' + h d

theorem popped_least (frontier : Frontier step weight start closed opened) (consistent : Consistent step weight h)
    (best : Best h opened p g) (outside : ∀ g, ¬closed p g) (walk : Walk step weight start p n) : g ≤ n := by
  obtain ⟨d,g',here,bound⟩ := crossing frontier consistent walk outside
  have least := best.2 d g' here
  omega

-- A target may be settled when it is pushed, one round before its own label is
-- the best: every weight is a multiple of a unit, and seen from h no other
-- predecessor of the target is a whole unit behind the popped one.
theorem pushed_least (frontier : Frontier step weight start closed opened) (consistent : Consistent step weight h)
    (best : Best h opened p g) (multiple : unit ∣ g) (every : ∀ c d, step c d → unit ∣ weight d)
    (apart : t ≠ start) (before : ∀ q, step q t → (∀ g, ¬closed q g) ∧ h q < h p + unit)
    (walk : Walk step weight start t n) : g + weight t ≤ n := by
  cases walk with
  | start => exact absurd rfl apart
  | @step q m _ path moved =>
      obtain ⟨outside,near⟩ := before q moved
      obtain ⟨d,g',here,bound⟩ := crossing frontier consistent path outside
      have least := best.2 d g' here
      obtain ⟨a,rfl⟩ := multiple
      obtain ⟨b,rfl⟩ := walk_multiple every path
      have fewer : unit * a < unit * (b+1) := by rw [Nat.mul_succ]; omega
      have order : a ≤ b := Nat.lt_succ_iff.mp (Nat.lt_of_mul_lt_mul_left fewer)
      exact Nat.add_le_add_right (Nat.mul_le_mul_left unit order) _

end GameServer.BestFirst
