import GameServer.Battle.Aim

namespace GameServer.Battle.Nearby
open Ground Aim

theorem ofNat_inj (small : n < 256) (small' : m < 256) (same : UInt8.ofNat n = UInt8.ofNat m) : n = m := by
  have numbers := congrArg UInt8.toNat same
  rwa [UInt8.toNat_ofNat',UInt8.toNat_ofNat',Nat.mod_eq_of_lt small,Nat.mod_eq_of_lt small'] at numbers

-- A scan of rows and columns visits no cell twice.
theorem scan_nodup {rows columns : List Nat} (once : rows.Nodup) (once' : columns.Nodup) (low : ∀ j ∈ rows, j < 256)
    (low' : ∀ i ∈ columns, i < 256) :
    (rows.flatMap fun j => columns.map fun i => (⟨UInt8.ofNat i,UInt8.ofNat j⟩ : Ascoord)).Nodup := by
  refine List.nodup_flatMap.mpr ⟨?_,?_⟩
  · intro j _
    refine List.Nodup.map_on ?_ once'
    intro i member i' member' same
    exact ofNat_inj (low' i member) (low' i' member') (Ascoord.mk.inj same).1
  · refine once.pairwise_of_forall_ne ?_
    intro j member j' member' apart p one two
    obtain ⟨i,_,rfl⟩ := List.mem_map.mp one
    obtain ⟨i',_,same⟩ := List.mem_map.mp two
    exact apart (ofNat_inj (low j member) (low j' member') (Ascoord.mk.inj same).2.symm)

-- Attack range and move power together; GetNearEnemy adds them in eight bits.
def range (b : Ground) : Nat := b.current.attackRange.toNat + b.current.movePower.toNat

-- The cells the two loops look at: the columns of the window, and every row of
-- the map from the window's first one on.
def Scanned (b : Ground) (x y : UInt8) (p : Ascoord) : Prop :=
  y < b.sizeY ∧ y.toNat ≤ p.y.toNat + range b % 256 ∧ distance p.x x ≤ range b % 256

theorem first_nat (a r : UInt8) : (if a > r then a - r else 0).toNat = a.toNat - r.toNat := by
  split
  · rename_i above
    exact UInt8.toNat_sub_of_le a r (UInt8.le_of_lt above)
  · rename_i below
    rw [Nat.sub_eq_zero_of_le (UInt8.le_iff_toNat_le.mp (UInt8.not_lt.mp below))]
    rfl

-- The mover is on its own side, so the last test of the loop never drops a cell.
theorem enemy_other {b : Ground} {p : Ascoord} (enemy : b.hasEnemy p = true) : b.isCurrent p = false := by
  obtain ⟨_,bo,here,side,_⟩ := enemy_parts enemy
  unfold isCurrent
  rw [here]
  refine beq_eq_false_iff_ne.mpr fun same => ?_
  cases same
  exact side rfl

theorem row_iff {y sizeY r : UInt8} {j : Nat} :
    (j ∈ if y < sizeY then (List.range sizeY.toNat).filter fun j => (if y > r then y - r else 0).toNat ≤ j else []) ↔
      y < sizeY ∧ j < sizeY.toNat ∧ y.toNat ≤ j + r.toNat := by
  rw [first_nat]
  split
  · rename_i onMap
    rw [List.mem_filter,List.mem_range,decide_eq_true_iff,Nat.sub_le_iff_le_add]
    exact ⟨fun row => ⟨onMap,row⟩,fun row => row.2⟩
  · rename_i off
    exact ⟨fun row => absurd row List.not_mem_nil,fun row => absurd row.1 off⟩

theorem column_iff {x sizeX r : UInt8} {i : Nat} :
    (i ∈ (List.range sizeX.toNat).filter fun i => (if x > r then x - r else 0).toNat ≤ i && i ≤ x.toNat + r.toNat) ↔
      i < sizeX.toNat ∧ x.toNat ≤ i + r.toNat ∧ i ≤ x.toNat + r.toNat := by
  rw [first_nat,List.mem_filter,List.mem_range,Bool.and_eq_true,decide_eq_true_iff,decide_eq_true_iff,Nat.sub_le_iff_le_add]

theorem distance_le {a c : UInt8} {r : Nat} : distance a c ≤ r ↔ c.toNat ≤ a.toNat + r ∧ a.toNat ≤ c.toNat + r := by
  unfold distance
  omega

theorem mem_near (b : Ground) (x y : UInt8) (p : Ascoord) :
    p ∈ b.getNearEnemy x y ↔ b.isInMap p = true ∧ b.hasEnemy p = true ∧ Scanned b x y p := by
  have wrapped : (b.current.attackRange + b.current.movePower).toNat = range b % 256 := UInt8.toNat_add _ _
  unfold getNearEnemy Scanned
  dsimp only
  rw [List.mem_filter,List.mem_flatMap,distance_le,←wrapped]
  constructor
  · rintro ⟨⟨j,row,cells⟩,enemy⟩
    obtain ⟨i,column,rfl⟩ := List.mem_map.mp cells
    obtain ⟨onMap,below,first⟩ := row_iff.mp row
    obtain ⟨right,window⟩ := column_iff.mp column
    have i_nat : (UInt8.ofNat i).toNat = i := Nat.mod_eq_of_lt (right.trans b.sizeX.toNat_lt)
    have j_nat : (UInt8.ofNat j).toNat = j := Nat.mod_eq_of_lt (below.trans b.sizeY.toNat_lt)
    rw [Bool.and_eq_true] at enemy
    refine ⟨?_,enemy.1,onMap,?_,?_⟩
    · simp only [isInMap,Bool.and_eq_true,decide_eq_true_eq,UInt8.lt_iff_toNat_lt,i_nat,j_nat]
      exact ⟨right,below⟩
    · rw [j_nat]
      exact first
    · rw [i_nat]
      exact window
  · rintro ⟨inside,enemy,onMap,first,window⟩
    simp only [isInMap,Bool.and_eq_true,decide_eq_true_eq,UInt8.lt_iff_toNat_lt] at inside
    refine ⟨⟨p.y.toNat,row_iff.mpr ⟨onMap,inside.2,first⟩,List.mem_map.mpr ⟨p.x.toNat,?_,?_⟩⟩,?_⟩
    · exact column_iff.mpr ⟨inside.1,window⟩
    · rw [UInt8.ofNat_toNat,UInt8.ofNat_toNat]
    · rw [enemy,enemy_other enemy]
      rfl

theorem near_nodup (b : Ground) (x y : UInt8) : (b.getNearEnemy x y).Nodup := by
  unfold getNearEnemy
  dsimp only
  refine List.Nodup.filter _ (scan_nodup ?_ (List.nodup_range.filter _) ?_ ?_)
  · split
    · exact List.nodup_range.filter _
    · exact List.nodup_nil
  · intro j row
    exact (row_iff.mp row).2.1.trans b.sizeY.toNat_lt
  · intro i column
    exact (column_iff.mp column).1.trans b.sizeX.toNat_lt

-- What the window is for: a living enemy on passable ground, at most the range away
-- in each direction.
def Near (b : Ground) (x y : UInt8) (p : Ascoord) : Prop :=
  b.isInMap p = true ∧ b.hasEnemy p = true ∧ distance p.x x ≤ range b ∧ distance p.y y ≤ range b

def Exact (b : Ground) (x y : UInt8) : Prop :=
  (b.getNearEnemy x y).Nodup ∧ ∀ p, p ∈ b.getNearEnemy x y ↔ Near b x y p

-- A cell below the window, in its columns.
def Below (b : Ground) (x y : UInt8) (p : Ascoord) : Prop :=
  y < b.sizeY ∧ distance p.x x ≤ range b ∧ y.toNat + range b < p.y.toNat

-- A cell in range that the scan does not come to: it starts below the map, or
-- the range does not fit eight bits and the cell is out of what is left of it.
def Missed (b : Ground) (x y : UInt8) (p : Ascoord) : Prop :=
  distance p.x x ≤ range b ∧ distance p.y y ≤ range b ∧
    (b.sizeY ≤ y ∨ 256 ≤ range b ∧ (range b - 256 < distance p.x x ∨ p.y.toNat + (range b - 256) < y.toNat))

theorem scanned_near (b : Ground) (x y : UInt8) (p : Ascoord) :
    (Scanned b x y p ↔ distance p.x x ≤ range b ∧ distance p.y y ≤ range b) ↔ ¬Below b x y p ∧ ¬Missed b x y p := by
  have range_lt : range b < 511 := by
    have := b.current.attackRange.toNat_lt
    have := b.current.movePower.toNat_lt
    unfold range
    omega
  have row_lt := p.y.toNat_lt
  have row_lt' := y.toNat_lt
  unfold Scanned Below Missed
  rw [distance_le (a:=p.y),UInt8.lt_iff_toNat_lt,UInt8.le_iff_toNat_le]
  generalize distance p.x x = column
  have wrapped : range b % 256 = if 256 ≤ range b then range b - 256 else range b := by
    split <;> omega
  rw [wrapped]
  split <;> omega

theorem near_exact_iff (b : Ground) (x y : UInt8) : Exact b x y ↔
    ∀ p, b.isInMap p = true → b.hasEnemy p = true → ¬Below b x y p ∧ ¬Missed b x y p := by
  constructor
  · intro exact p inside enemy
    refine (scanned_near b x y p).mp ?_
    have same := (mem_near b x y p).symm.trans (exact.2 p)
    exact ⟨fun seen => (same.mp ⟨inside,enemy,seen⟩).2.2,fun near => (same.mpr ⟨inside,enemy,near⟩).2.2⟩
  · intro clear
    refine ⟨near_nodup b x y,fun p => (mem_near b x y p).trans ?_⟩
    refine and_congr_right fun inside => and_congr_right fun enemy => ?_
    exact (scanned_near b x y p).mpr (clear p inside enemy)

-- One column; an enemy two rows below a swordsman of range one.
def shaft : Ground where
  sizeX := 1
  sizeY := 3
  mapGround _ := 1
  mapFighters i := if i = 0 then some 0 else if i = 2 then some 1 else none
  fighter i := { side := UInt8.ofNat i, hp := 1, attackRange := 1 }

theorem shaft_seen : ¬Exact shaft 0 0 := by
  intro exact
  have seen : (⟨0,2⟩ : Ascoord) ∈ shaft.getNearEnemy 0 0 := by decide
  exact absurd ((exact.2 _).mp seen).2.2.2 (by decide)

end GameServer.Battle.Nearby
