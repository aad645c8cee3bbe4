import GameServer.Battle.Aim
import GameServer.Library.HexGrid
import Mathlib.Data.Nat.Find

namespace GameServer.Battle.Range
open Ground Hex Aim

-- GetAround on a grid that has no borders and no cell twice.
def around (p : Int × Int) : List (Int × Int) :=
  if p.2 % 2 = 0 then
    [(p.1-1,p.2),(p.1+1,p.2),(p.1-1,p.2+1),(p.1,p.2+1),(p.1-1,p.2-1),(p.1,p.2-1)]
  else
    [(p.1,p.2-1),(p.1+1,p.2),(p.1+1,p.2-1),(p.1-1,p.2),(p.1,p.2+1),(p.1+1,p.2+1)]

def cell (p : Ascoord) : Int × Int := (p.x.toNat,p.y.toNat)

-- Away from the ends of the eight bits it is the list of GetAround.
theorem around_cell {p : Ascoord} (left : 0 < p.x.toNat) (right : p.x.toNat < 255) (top : 0 < p.y.toNat) (bottom : p.y.toNat < 255) :
    around (cell p) = (getAround p).map cell := by
  have low : ∀ a : UInt8, 0 < a.toNat → ((a-1).toNat : Int) = (a.toNat : Int) - 1 := fun a some => by
    rw [UInt8.toNat_sub_of_le a 1 (UInt8.le_iff_toNat_le.mpr some)]
    exact Int.ofNat_sub some
  have high : ∀ a : UInt8, a.toNat < 255 → ((a+1).toNat : Int) = (a.toNat : Int) + 1 := fun a some => by
    rw [UInt8.toNat_add,Nat.mod_eq_of_lt (by show a.toNat + 1 < 256; omega)]
    rfl
  have down := low p.x left
  have up := high p.x right
  have above := low p.y top
  have below := high p.y bottom
  unfold around getAround cell
  rcases row_parity p.y with ⟨even,rest⟩ | ⟨odd,rest⟩
  · rw [if_pos even,if_pos (by show (p.y.toNat : Int) % 2 = 0; omega)]
    simp only [List.map_cons,List.map_nil,down,up,above,below]
  · rw [if_neg (by show ¬ (p.y.toNat : Int) % 2 = 0; omega),if_neg (by rw [odd]; decide)]
    simp only [List.map_cons,List.map_nil,down,up,above,below]

theorem mem_around {p q : Int × Int} : q ∈ around p ↔ HexGrid.Beside p q := by
  obtain ⟨x,y⟩ := p
  obtain ⟨x',y'⟩ := q
  unfold around HexGrid.Beside HexGrid.column
  dsimp only
  -- In the row itself, in the rows beside it, or nowhere near.
  by_cases same : y' = y
  · subst same
    split <;> simp only [List.mem_cons,List.not_mem_nil,or_false,Prod.mk.injEq,and_true] <;> omega
  · by_cases up : y' = y - 1
    · subst up
      split <;> simp only [List.mem_cons,List.not_mem_nil,or_false,Prod.mk.injEq,and_true] <;> omega
    · by_cases down : y' = y + 1
      · subst down
        split <;> simp only [List.mem_cons,List.not_mem_nil,or_false,Prod.mk.injEq,and_true] <;> omega
      · have rows : (y' - y).natAbs ≠ 0 ∧ (y' - y).natAbs ≠ 1 := by omega
        refine iff_of_false ?_ fun near => near.elim (fun here => rows.1 here.1) fun here => rows.2 here.1
        split <;> simp [same,up,down]

-- The hex grid: a step goes to a neighbour.
def grid : SimpleGraph (Int × Int) where
  Adj p q := q ∈ around p
  symm := ⟨fun _ _ near => mem_around.mpr (HexGrid.beside_symm (mem_around.mp near))⟩
  loopless := ⟨fun p near => HexGrid.beside_irrefl p (mem_around.mp near)⟩

theorem grid_eq : grid = HexGrid.grid := SimpleGraph.ext (funext fun _ => funext fun _ => propext mem_around)

theorem grid_potential (t : Int × Int) : Potential grid t (HexGrid.steps · t) := grid_eq ▸ HexGrid.potential t

theorem grid_dist (p q : Int × Int) : grid.dist p q = HexGrid.steps p q := by
  rw [grid_eq]
  exact HexGrid.dist_eq p q

-- Both coordinates below 127.
def Low (p : Ascoord) : Prop := p.x < 127 ∧ p.y < 127

theorem column_cell (p : Ascoord) : HexGrid.column (cell p) = column p := by
  unfold HexGrid.column cell column
  rw [Int.natCast_add,Int.natCast_mul,Int.natCast_emod]
  rfl

theorem converted_y (p : Ascoord) : (convertConverstion p).y = p.y := by
  unfold convertConverstion
  split <;> rfl

theorem zone_iff (b : Ground) (s t : Ascoord) : b.isInAttackZone s t = true ↔
    distance t.y s.y ≤ b.current.attackRange.toNat ∧
      distance (convertConverstion t).x (convertConverstion s).x + distance t.y s.y ≤ 2*b.current.attackRange.toNat := by
  unfold isInAttackZone
  dsimp only
  rw [converted_y,converted_y]
  split
  · rename_i far
    exact iff_of_false (by simp) fun both => absurd both.1 (Nat.not_le.mpr far)
  · rename_i near
    rw [decide_eq_true_iff]
    exact ⟨fun close => ⟨Nat.not_lt.mp near,close⟩,fun both => both.2⟩

-- The attack zone is the ball of the range in the hex grid.
theorem zone_steps (b : Ground) (narrow : s.x.toNat < 127) (narrow' : t.x.toNat < 127) :
    b.isInAttackZone s t = true ↔ HexGrid.steps (cell s) (cell t) ≤ b.current.attackRange.toNat := by
  rw [zone_iff,HexGrid.steps_le,column_cell,column_cell]
  unfold distance
  rw [converted_narrow narrow,converted_narrow narrow']
  rfl

theorem attack_zone_iff (b : Ground) (s t : Ascoord) (low : Low s) (low' : Low t) :
    b.isInAttackZone s t = true ↔ ∃ walk : grid.Walk (cell s) (cell t), walk.length ≤ b.current.attackRange.toNat := by
  rw [zone_steps b (UInt8.lt_iff_toNat_lt.mp low.1) (UInt8.lt_iff_toNat_lt.mp low'.1)]
  exact (grid_potential (cell t)).within_iff.symm

-- An archer and a cell three steps away from it, two rows up.
def archer : Ground := { fighter := fun _ => { attackRange := 3 } }

theorem attack_zone_archer : ∃ walk : grid.Walk (cell ⟨3,5⟩) (cell ⟨5,3⟩), walk.length ≤ 3 :=
  (attack_zone_iff archer ⟨3,5⟩ ⟨5,3⟩ ⟨by decide,by decide⟩ ⟨by decide,by decide⟩).mp (by decide)

-- The rows between two cells.
def rows (p q : Ascoord) : Nat := distance p.y q.y

-- What GetDistance computes, in numbers: the doubled columns of the two cells and
-- the rows between them, all modulo 256.
def measured (x y j : Nat) : Nat :=
  if (256 - j + x) % 256 ≤ y ∧ y ≤ (x + j) % 256 then (256 - 1 + j) % 256
  else if y < (256 - j + x) % 256 then (256 - 1 + (j + ((256 - j + x) % 256 - y)/2) % 256) % 256
  else (256 - 1 + (j + (y - (x + j) % 256)/2) % 256) % 256

theorem measured_nat (x y j : UInt8) :
    (if y ≥ x - j ∧ y ≤ x + j then j - 1 else if y < x - j then j + (x - j - y)/2 - 1 else j + (y - (x + j))/2 - 1).toNat =
      measured x.toNat y.toNat j.toNat := by
  have down : (x - j).toNat = (256 - j.toNat + x.toNat) % 256 := UInt8.toNat_sub x j
  have up : (x + j).toNat = (x.toNat + j.toNat) % 256 := UInt8.toNat_add x j
  have less : ∀ a : UInt8, (a - 1).toNat = (256 - 1 + a.toNat) % 256 := fun a => UInt8.toNat_sub a 1
  have more : ∀ a : UInt8, (j + a - 1).toNat = (256 - 1 + (j.toNat + a.toNat) % 256) % 256 := fun a => by
    rw [less,UInt8.toNat_add]
  have gap : ∀ a b : UInt8, b.toNat ≤ a.toNat → ((a - b)/2).toNat = (a.toNat - b.toNat)/2 := fun a b below => by
    rw [UInt8.toNat_div,UInt8.toNat_sub_of_le a b (UInt8.le_iff_toNat_le.mpr below)]
    rfl
  unfold measured
  rw [←down,←up]
  simp only [ge_iff_le,UInt8.le_iff_toNat_le,UInt8.lt_iff_toNat_lt]
  by_cases between : (x - j).toNat ≤ y.toNat ∧ y.toNat ≤ (x + j).toNat
  · rw [if_pos between,if_pos between]
    exact less j
  · rw [if_neg between,if_neg between]
    by_cases below : y.toNat < (x - j).toNat
    · rw [if_pos below,if_pos below,more,gap _ _ (Nat.le_of_lt below)]
    · have above : (x + j).toNat ≤ y.toNat := by omega
      rw [if_neg below,if_neg below,more,gap _ _ above]

theorem getDistance_nat (narrow : p.x.toNat < 127) (narrow' : q.x.toNat < 127) :
    (getDistance p q).toNat = measured (column p) (column q) (rows p q) := by
  have small : rows p q < 256 := by
    have := p.y.toNat_lt
    have := q.y.toNat_lt
    unfold rows distance
    omega
  have j : (UInt8.ofNat (rows p q)).toNat = rows p q := Nat.mod_eq_of_lt small
  unfold getDistance
  dsimp only
  rw [converted_y,converted_y]
  refine (measured_nat _ _ (UInt8.ofNat (rows p q))).trans ?_
  rw [converted_narrow narrow,converted_narrow narrow',j]

-- No bound of GetDistance wraps; or the one that does sends the other cell down the
-- branch it belongs to, or one column pair of it hits the same value by chance.
def Unwrapped (x y j : Nat) : Prop :=
  (j ≤ x ∧ x + j ≤ 255) ∨ (x < j ∧ (256 + x ≤ y + j ∨ y = x + 128)) ∨ (255 < x + j ∧ y + j < x)

section wraps
variable {x y j n : Nat}

-- The steps by the region the other cell lies in.
def Region (x y j n : Nat) : Prop :=
  (x ≤ y + j ∧ y ≤ x + j ∧ n = j) ∨ (y + j < x ∧ 2*n + y = x + j) ∨ (x + j < y ∧ 2*n + x = y + j)

theorem regions (parity : (x + y + j) % 2 = 0) (steps : n = max j (((x - y) + (y - x) + j)/2)) : Region x y j n := by
  unfold Region
  omega

theorem less_one {a : Nat} (positive : 0 < a) (small : a ≤ 256) : (256 - 1 + a) % 256 = a - 1 := by omega

theorem halved_less {d : Nat} (positive : 0 < j + d/2) (small : j + d/2 < 256) :
    (256 - 1 + (j + d/2) % 256) % 256 = j + d/2 - 1 := by
  rw [Nat.mod_eq_of_lt small]
  exact less_one positive (Nat.le_of_lt small)

-- The lower bound wraps, past the upper one: no cell is in the cone.
theorem measured_left (xs : x ≤ 253) (ys : y ≤ 253) (js : j ≤ 126) (left : x < j) (parity : (x + y + j) % 2 = 0)
    (region : Region x y j n) :
    measured x y j + 1 = n ↔ 256 + x ≤ y + j ∨ y = x + 128 := by
  unfold measured
  rw [show (256 - j + x) % 256 = 256 - j + x by omega,show (x + j) % 256 = x + j by omega]
  rw [if_neg (by omega)]
  by_cases below : y < 256 - j + x
  · rw [if_pos below]
    rw [halved_less (by omega) (by omega)]
    rcases region with ⟨_,_,same⟩ | ⟨far,_⟩ | ⟨_,same⟩
    · omega
    · omega
    · omega
  · rw [if_neg below]
    rw [halved_less (by omega) (by omega)]
    rcases region with ⟨_,_,same⟩ | ⟨far,_⟩ | ⟨_,same⟩
    · omega
    · omega
    · omega

-- The upper bound wraps, below the lower one.
theorem measured_right (xs : x ≤ 253) (ys : y ≤ 253) (js : j ≤ 126) (left : j ≤ x) (right : 255 < x + j)
    (region : Region x y j n) :
    measured x y j + 1 = n ↔ y + j < x := by
  unfold Region at region
  unfold measured
  rw [show (256 - j + x) % 256 = x - j by omega,show (x + j) % 256 = x + j - 256 by omega]
  rw [if_neg (by omega)]
  by_cases below : y < x - j
  · rw [if_pos below]
    rw [halved_less (by omega) (by omega)]
    omega
  · rw [if_neg below]
    rw [halved_less (by omega) (by omega)]
    omega

theorem measured_plain (ys : y ≤ 253) (apart : ¬ (x = y ∧ j = 0)) (left : j ≤ x) (right : x + j ≤ 255)
    (region : Region x y j n) :
    measured x y j + 1 = n := by
  unfold Region at region
  unfold measured
  rw [show (256 - j + x) % 256 = x - j by omega,show (x + j) % 256 = x + j by omega]
  by_cases inside : x - j ≤ y ∧ y ≤ x + j
  · rw [if_pos inside,less_one (by omega) (by omega)]
    omega
  · rw [if_neg inside]
    by_cases below : y < x - j
    · rw [if_pos below]
      rw [halved_less (by omega) (by omega)]
      omega
    · rw [if_neg below]
      rw [halved_less (by omega) (by omega)]
      omega

theorem measured_exact (xs : x ≤ 253) (ys : y ≤ 253) (js : j ≤ 126) (apart : ¬ (x = y ∧ j = 0))
    (parity : (x + y + j) % 2 = 0) (steps : n = max j (((x - y) + (y - x) + j)/2)) :
    measured x y j + 1 = n ↔ Unwrapped x y j := by
  have region := regions parity steps
  unfold Unwrapped
  by_cases left : x < j
  · rw [measured_left xs ys js left parity region]
    clear region steps parity
    omega
  · by_cases right : 255 < x + j
    · rw [measured_right xs ys js (Nat.not_lt.mp left) right region]
      clear region steps parity
      omega
    · exact iff_of_true (measured_plain ys apart (Nat.not_lt.mp left) (Nat.not_lt.mp right) region)
        (.inl ⟨Nat.not_lt.mp left,Nat.not_lt.mp right⟩)

end wraps

-- GetDistance tells the steps between two cells but one, from either of them, and
-- tells them as the attack zones do.
structure Exact (p q : Ascoord) : Prop where
  steps : (getDistance p q).toNat + 1 = grid.dist (cell p) (cell q)
  symm : getDistance p q = getDistance q p
  zone : ∀ b : Ground, (getDistance p q).toNat + 1 ≤ b.current.attackRange.toNat ↔ b.isInAttackZone p q = true

def Clear (p q : Ascoord) : Prop := Unwrapped (column p) (column q) (rows p q)

theorem distance_iff {p q : Ascoord} (low : Low p) (low' : Low q) (apart : p ≠ q) :
    (getDistance p q).toNat + 1 = grid.dist (cell p) (cell q) ↔ Clear p q := by
  obtain ⟨narrow,short⟩ := low
  obtain ⟨narrow',short'⟩ := low'
  rw [UInt8.lt_iff_toNat_lt] at narrow short narrow' short'
  change p.x.toNat < 127 at narrow
  change q.x.toNat < 127 at narrow'
  change p.y.toNat < 127 at short
  change q.y.toNat < 127 at short'
  have other : ¬ (p.x.toNat = q.x.toNat ∧ p.y.toNat = q.y.toNat) := fun same => apart (coord_eq.mpr same)
  rw [getDistance_nat narrow narrow',grid_dist]
  refine measured_exact ?_ ?_ ?_ ?_ ?_ ?_
  · unfold column
    omega
  · unfold column
    omega
  · unfold rows distance
    omega
  · unfold column rows distance
    omega
  · unfold column rows distance
    omega
  · unfold HexGrid.steps
    rw [column_cell,column_cell]
    unfold Range.cell rows distance
    dsimp only
    omega

theorem distance_exact_iff (p q : Ascoord) (low : Low p) (low' : Low q) (apart : p ≠ q) :
    Exact p q ↔ Clear p q ∧ Clear q p := by
  have here := distance_iff low low' apart
  have there := distance_iff low' low apart.symm
  have back : grid.dist (cell q) (cell p) = grid.dist (cell p) (cell q) := SimpleGraph.dist_comm
  constructor
  · intro exact_
    refine ⟨here.mp exact_.steps,there.mp ?_⟩
    rw [←exact_.symm,back]
    exact exact_.steps
  · intro ⟨clear,clear'⟩
    have steps := here.mpr clear
    have steps' := there.mpr clear'
    refine ⟨steps,UInt8.toNat_inj.mp (by omega),fun b => ?_⟩
    rw [steps,grid_dist]
    exact (zone_steps b (UInt8.lt_iff_toNat_lt.mp low.1) (UInt8.lt_iff_toNat_lt.mp low'.1)).symm

theorem distance_exact_beside : Exact ⟨3,3⟩ ⟨4,3⟩ ↔ Clear ⟨3,3⟩ ⟨4,3⟩ ∧ Clear ⟨4,3⟩ ⟨3,3⟩ :=
  distance_exact_iff ⟨3,3⟩ ⟨4,3⟩ ⟨by decide,by decide⟩ ⟨by decide,by decide⟩ (by decide)

-- Two cells side by side on the left border, one below the other: 127 for 0.
theorem border_distance : ¬ ∀ p q : Ascoord, Low p → Low q → p ≠ q → Exact p q := by
  intro every
  have exact_ := every ⟨0,0⟩ ⟨0,1⟩ ⟨by decide,by decide⟩ ⟨by decide,by decide⟩ (by decide)
  have steps := exact_.steps
  rw [grid_dist] at steps
  revert steps
  decide

-- The square of the offset between two cells, in the rows and columns of the map.
def squared (p q : Ascoord) : Nat := distance p.x q.x * distance p.x q.x + distance p.y q.y * distance p.y q.y

theorem square_mod (s t : UInt8) : ((s - t)*(s - t)).toNat = distance s t * distance s t % 256 := by
  have either : ∀ s t : UInt8, t.toNat ≤ s.toNat → ((s - t)*(s - t)).toNat = distance s t * distance s t % 256 := by
    intro s t below
    have gap : (s - t).toNat = distance s t := by
      rw [UInt8.toNat_sub_of_le s t (UInt8.le_iff_toNat_le.mpr below)]
      unfold distance
      omega
    rw [UInt8.toNat_mul,gap]
  rcases Nat.le_total t.toNat s.toNat with below | above
  · exact either s t below
  · have swapped : (s - t)*(s - t) = (t - s)*(t - s) := by grind
    have comm : distance s t = distance t s := by
      unfold distance
      omega
    rw [swapped,comm]
    exact either t s above

theorem enemyCanAttack_iff {b : Ground} (here : b.mapFighters (b.index stand) = some bo) (goal : Ascoord) :
    b.enemyCanAttack stand goal = true ↔
      squared stand goal % 256 ≤ (b.fighter bo).attackRange.toNat*(b.fighter bo).attackRange.toNat := by
  unfold enemyCanAttack fighterAt
  rw [here]
  dsimp only [Option.map_some]
  rw [decide_eq_true_iff,UInt8.toNat_add,square_mod,square_mod,←Nat.add_mod]
  rfl

-- The zone of the fighter bo, by the rule of the acting one.
def inZone (b : Ground) (bo : Nat) (stand target : Ascoord) : Bool := {b with currentBf := bo}.isInAttackZone stand target

-- EnemyCanAttack tells the zone of a fighter, and no cell it is taken to leave for
-- is in the zone.
structure Tells (b : Ground) (bo : Nat) (stand target : Ascoord) : Prop where
  same : b.enemyCanAttack stand target = true ↔ inZone b bo stand target = true
  retreat : ∀ call enemies, ⟨target,stand⟩ ∈ b.getBackPosition call enemies → inZone b bo stand target = false

-- The columns between two cells on the doubled grid, of which eight bits are kept.
def gap (p q : Ascoord) : Nat :=
  (column p % 256 - column q % 256) + (column q % 256 - column p % 256)

-- The steps between two cells: the rows, or half of the rows and the doubled columns.
def hexSteps (p q : Ascoord) : Nat := max (rows p q) ((gap p q + rows p q + 1)/2)

theorem squares_reach (n : Nat) : ∃ k, n ≤ k*k := ⟨n,Nat.le_mul_self n⟩

-- The least number with a square that is not below n.
def root (n : Nat) : Nat := Nat.find (squares_reach n)

theorem root_le (n r : Nat) : root n ≤ r ↔ n ≤ r*r := by
  unfold root
  rw [Nat.find_le_iff]
  constructor
  · rintro ⟨k,le,square⟩
    exact Nat.le_trans square (Nat.mul_le_mul le le)
  · exact fun square => ⟨r,Nat.le_refl r,square⟩

-- The ranges from which on a fighter's zone holds the cell: by the rule of the acting
-- one, and by the eight bits of the square.
theorem zone_from (b : Ground) (bo : Nat) (stand target : Ascoord) :
    inZone b bo stand target = true ↔ hexSteps stand target ≤ (b.fighter bo).attackRange.toNat := by
  have columns : distance (convertConverstion target).x (convertConverstion stand).x = gap stand target := by
    unfold distance gap
    rw [converted_x,converted_x]
    omega
  have lines : distance target.y stand.y = rows stand target := by
    unfold distance rows distance
    omega
  have zone := zone_iff {b with currentBf := bo} stand target
  rw [columns,lines] at zone
  refine zone.trans ?_
  unfold hexSteps
  rw [show ({b with currentBf := bo} : Ground).current.attackRange = (b.fighter bo).attackRange from rfl]
  omega

theorem attack_from {b : Ground} (here : b.mapFighters (b.index stand) = some bo) (goal : Ascoord) :
    b.enemyCanAttack stand goal = true ↔ root (squared stand goal % 256) ≤ (b.fighter bo).attackRange.toNat := by
  rw [enemyCanAttack_iff here,root_le]

-- The two rules agree on a cell for the ranges below both numbers and from both on, and
-- for no range between them.
theorem enemy_zone_iff (b : Ground) (stand target : Ascoord) (bo : Nat) (here : b.mapFighters (b.index stand) = some bo) :
    Tells b bo stand target ↔
      (b.fighter bo).attackRange.toNat < min (hexSteps stand target) (root (squared stand target % 256)) ∨
      max (hexSteps stand target) (root (squared stand target % 256)) ≤ (b.fighter bo).attackRange.toNat := by
  have attacks := attack_from here target
  have zone := zone_from b bo stand target
  constructor
  · intro tells
    have same := tells.same
    rw [attacks,zone] at same
    omega
  · intro apart
    have same : b.enemyCanAttack stand target = true ↔ inZone b bo stand target = true := by
      rw [attacks,zone]
      omega
    refine ⟨same,?_⟩
    intro call enemies member
    have spared : b.enemyCanAttack stand target = false := (back_parts.mp member).2.2.2
    rw [←Bool.not_eq_true]
    intro inside
    rw [same.mpr inside] at spared
    cases spared

theorem gap_even (narrow : p.x.toNat < 127) (narrow' : q.x.toNat < 127) (even : rows p q % 2 = 0) :
    gap p q = 2*distance p.x q.x := by
  have same : p.y.toNat % 2 = q.y.toNat % 2 := by
    unfold rows distance at even
    omega
  unfold gap column distance
  rw [same]
  omega

-- The cell in the odd row is half a column further right.
theorem gap_odd (narrow : p.x.toNat < 127) (narrow' : q.x.toNat < 127) (odd : p.y.toNat % 2 = 1) (even : q.y.toNat % 2 = 0) :
    if q.x.toNat ≤ p.x.toNat then gap p q = 2*distance p.x q.x + 1 else gap p q + 1 = 2*distance p.x q.x := by
  unfold gap column distance
  rw [odd,even]
  split <;> omega

-- Below column 127 the steps go by the parity of the rows: with an even number of rows
-- between the cells two of them make up a column, with an odd number a half of one is
-- gained or lost, by whether the cell in the odd row is further left.
theorem hexSteps_even (narrow : p.x.toNat < 127) (narrow' : q.x.toNat < 127) (even : rows p q % 2 = 0) :
    hexSteps p q = max (rows p q) (distance p.x q.x + rows p q / 2) := by
  unfold hexSteps
  rw [gap_even narrow narrow' even]
  exact congrArg _ (by omega)

theorem hexSteps_odd (narrow : p.x.toNat < 127) (narrow' : q.x.toNat < 127) (odd : p.y.toNat % 2 = 1) (even : q.y.toNat % 2 = 0) :
    hexSteps p q = max (rows p q) (distance p.x q.x + if q.x.toNat ≤ p.x.toNat then (rows p q + 1)/2 else (rows p q - 1)/2) := by
  have between : rows p q % 2 = 1 := by
    unfold rows distance
    omega
  have columns := gap_odd narrow narrow' odd even
  unfold hexSteps
  refine congrArg _ ?_
  split at columns
  · rename_i right
    rw [columns,if_pos right]
    omega
  · rename_i left
    rw [if_neg left]
    omega

theorem hexSteps_comm (p q : Ascoord) : hexSteps p q = hexSteps q p := by
  have lines : rows p q = rows q p := by
    unfold rows distance
    omega
  unfold hexSteps
  rw [lines,show gap p q = gap q p from Nat.add_comm _ _]

-- They agree for every range where the square of the offset lies between those of the
-- steps and of one step less.
theorem told_throughout (p q : Ascoord) : hexSteps p q = root (squared p q % 256) ↔
    squared p q % 256 ≤ hexSteps p q * hexSteps p q ∧
      ∀ n < hexSteps p q, n*n < squared p q % 256 := by
  rw [←root_le]
  constructor
  · intro same
    refine ⟨Nat.le_of_eq same.symm,fun n less => ?_⟩
    rw [same] at less
    exact Nat.not_le.mp fun square => Nat.not_le.mpr less ((root_le _ n).mpr square)
  · intro ⟨most,fewer⟩
    refine Nat.le_antisymm (Nat.not_lt.mp fun less => ?_) most
    exact absurd ((root_le _ _).mp (Nat.le_refl _)) (Nat.not_le.mpr (fewer _ less))

-- An enemy with range 1 on an even row and a cell diagonally above it.
def corner : Ground := {
  sizeX := 3,sizeY := 3
  mapGround := fun _ => 1
  mapFighters := fun i => if i = 7 then some 1 else none
  fighter := fun bo => {side := UInt8.ofNat bo,hp := 10,attackRange := 1}}

-- The cell straight above it is one step away by both.
theorem corner_told : Tells corner 1 ⟨1,2⟩ ⟨1,1⟩ :=
  (enemy_zone_iff corner ⟨1,2⟩ ⟨1,1⟩ 1 (by decide)).mpr (.inr (Nat.max_le.mpr ⟨by decide,(root_le _ _).mpr (by decide)⟩))

theorem diagonal_missed : ¬ ∀ (b : Ground) (stand target : Ascoord) (bo : Nat), b.isInMap stand = true → b.isInMap target = true →
    b.mapFighters (b.index stand) = some bo → Tells b bo stand target := by
  intro every
  have tells := every corner ⟨1,2⟩ ⟨0,1⟩ 1 (by decide) (by decide) (by decide)
  have hit := tells.same.mpr (by decide)
  revert hit
  decide

end GameServer.Battle.Range
