import GameServer.Library.Potential

namespace GameServer.HexGrid

-- A grid of hexagons in rows, every odd row shifted by half a cell: in doubled
-- columns a cell has neighbours two columns off in its row and one column off
-- in the rows beside it.
def column (p : Int × Int) : Int := 2*p.1 + p.2 % 2

def Beside (p q : Int × Int) : Prop :=
  ((q.2 - p.2).natAbs = 0 ∧ (column q - column p).natAbs = 2) ∨
    ((q.2 - p.2).natAbs = 1 ∧ (column q - column p).natAbs = 1)

theorem beside_symm (beside : Beside p q) : Beside q p := by
  unfold Beside at beside ⊢
  omega

theorem beside_irrefl (p : Int × Int) : ¬ Beside p p := by
  unfold Beside
  omega

def grid : SimpleGraph (Int × Int) where
  Adj := Beside
  symm := ⟨fun _ _ => beside_symm⟩
  loopless := ⟨beside_irrefl⟩

-- The steps from one cell to another: a row each, and the columns the rows leave
-- over two at a time.
def steps (p q : Int × Int) : Nat := max (q.2 - p.2).natAbs (((column q - column p).natAbs + (q.2 - p.2).natAbs)/2)

-- Columns and rows go over to the other parity together.
theorem parity (p q : Int × Int) : (column q - column p).natAbs % 2 = (q.2 - p.2).natAbs % 2 := by
  unfold column
  omega

theorem steps_le (p q : Int × Int) (n : Nat) :
    steps p q ≤ n ↔ (q.2 - p.2).natAbs ≤ n ∧ (column q - column p).natAbs + (q.2 - p.2).natAbs ≤ 2*n := by
  have both := parity p q
  unfold steps
  rw [Nat.max_le]
  generalize (q.2 - p.2).natAbs = rows at both ⊢
  generalize (column q - column p).natAbs = columns at both ⊢
  omega

theorem cell_at (c r : Int) (same : c % 2 = r % 2) : ∃ v : Int × Int, column v = c ∧ v.2 = r := by
  refine ⟨((c - r % 2)/2,r),?_,rfl⟩
  unfold column
  dsimp only
  omega

theorem cell_ext {p q : Int × Int} (columns : column p = column q) (rows : p.2 = q.2) : p = q := by
  unfold column at columns
  refine Prod.ext ?_ rows
  omega

theorem steps_zero (p q : Int × Int) : steps p q = 0 ↔ p = q := by
  constructor
  · intro none_left
    have bound := (steps_le p q 0).mp (Nat.le_of_eq none_left)
    exact cell_ext (by omega) (by omega)
  · rintro rfl
    simp [steps]

theorem far_le (a b c : Int) : (c - a).natAbs ≤ (b - a).natAbs + (c - b).natAbs := by omega

theorem steps_slow {p q t : Int × Int} (beside : Beside p q) : steps p t ≤ steps q t + 1 := by
  rw [steps_le]
  have bound := (steps_le q t (steps q t)).mp (Nat.le_refl _)
  have rows := far_le p.2 q.2 t.2
  have columns := far_le (column p) (column q) (column t)
  rcases beside with ⟨row,two⟩ | ⟨row,one⟩
  · rw [row] at rows
    rw [two] at columns
    omega
  · rw [row] at rows
    rw [one] at columns
    omega

-- A row less, and a column less or the first one off the goal's; or two columns
-- less in the goal's row.
theorem drop {rows columns rows' columns' : Nat} (both : columns % 2 = rows % 2)
    (moved : (rows' + 1 = rows ∧ (columns' + 1 = columns ∨ (columns = 0 ∧ columns' = 1))) ∨
      (rows = 0 ∧ rows' = 0 ∧ columns' + 2 = columns)) :
    max rows' ((columns' + rows')/2) + 1 = max rows ((columns + rows)/2) := by
  omega

-- One step along a line, towards a point or away from it.
theorem toward (a t : Int) (apart : a ≠ t) : ∃ a', (a' - a).natAbs = 1 ∧ (t - a').natAbs + 1 = (t - a).natAbs := by
  by_cases below : a < t
  · exact ⟨a+1,by omega,by omega⟩
  · exact ⟨a-1,by omega,by omega⟩

-- Next to each other on a line, one is even.
theorem turned {a a' : Int} (one : (a' - a).natAbs = 1) : a' % 2 = 1 - a % 2 := by omega

theorem steps_closer {p t : Int × Int} (far : steps p t ≠ 0) : ∃ q, Beside p q ∧ steps q t + 1 = steps p t := by
  have both := parity p t
  have mine : column p % 2 = p.2 % 2 := by
    unfold column
    omega
  by_cases row : p.2 = t.2
  · -- The goal's row: two columns towards the goal.
    have apart : column p ≠ column t := fun columns => far ((steps_zero p t).mpr (cell_ext columns row))
    obtain ⟨c,one,nearer⟩ := toward (column p) (column t) apart
    obtain ⟨c',one',nearer'⟩ := toward c (column t) (by omega)
    obtain ⟨q,rfl,rows⟩ := cell_at c' p.2 (by rw [turned one',turned one,mine,Int.sub_sub_self])
    refine ⟨q,Or.inl ⟨by omega,by omega⟩,drop both (Or.inr ⟨by omega,by omega,by omega⟩)⟩
  · obtain ⟨r,one,nearer⟩ := toward p.2 t.2 row
    by_cases columns : column p = column t
    · have next : (column p + 1 - column p).natAbs = 1 := by rw [Int.add_comm,Int.add_sub_cancel]; rfl
      obtain ⟨q,here,rfl⟩ := cell_at (column p + 1) r (by rw [turned next,turned one,mine])
      exact ⟨q,Or.inr ⟨one,by omega⟩,drop both (Or.inl ⟨nearer,Or.inr ⟨by omega,by omega⟩⟩)⟩
    · obtain ⟨c,one',nearer'⟩ := toward (column p) (column t) columns
      obtain ⟨q,rfl,rfl⟩ := cell_at c r (by rw [turned one',turned one,mine])
      exact ⟨q,Or.inr ⟨one,one'⟩,drop both (Or.inl ⟨nearer,Or.inl nearer'⟩)⟩

theorem potential (t : Int × Int) : Potential grid t (steps · t) where
  zero p := steps_zero p t
  slow _ _ := steps_slow
  closer _ := steps_closer

theorem dist_eq (p q : Int × Int) : grid.dist p q = steps p q := (potential q).dist_eq p

end GameServer.HexGrid
