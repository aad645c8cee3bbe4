import GameServer.Battle.Numbering
import Mathlib.Data.List.Nodup

namespace GameServer.Battle.Scan
open Camps OrderedMap Battle.Numbering

-- The directions 1 to 4 of GetCampAttackOrder.
inductive Direction where
  | left | right | up | down
  deriving DecidableEq, Repr

def search (c : Camps) (camp : UInt8) (m : Queues) : Direction → Option Queues
  | .left => c.searchFromLeftToRight camp m
  | .right => c.searchFromRightToLeft camp m
  | .up => c.searchFromUpToDown camp m
  | .down => c.searchFromDownToUp camp m

-- The cell a right attack looks at when it has come to p.
def look (c : Camps) (p : Ascoord) : Ascoord := if p.y % 2 = 1 ∧ c.campAt p = 0 then ⟨p.x-1,p.y⟩ else p

-- The cells whose camp a search reads. A right attack reads an odd row twice:
-- for the shift, and for the camp.
def reads (c : Camps) : Direction → Option (List Ascoord)
  | .left => c.leftToRight
  | .right => do
    let columns ← downFrom c.sizeX
    let rows ← below c.sizeY
    return columns.flatMap fun i => rows.flatMap fun j =>
      if j % 2 = 1 then [⟨i,j⟩,look c ⟨i,j⟩] else [look c ⟨i,j⟩]
  | .up => c.upToDown
  | .down => c.downToUp

-- _mapCamp is new UInt8[_x*_y].
def InArray (c : Camps) (p : Ascoord) : Prop := p.x.toNat + p.y.toNat * c.sizeX.toNat < c.sizeX.toNat * c.sizeY.toNat

def before : Direction → Ascoord → Ascoord → Prop
  | .left,p,q => p.x < q.x ∨ p.x = q.x ∧ p.y < q.y
  | .right,p,q => q.x < p.x ∨ p.x = q.x ∧ p.y < q.y
  | .up,p,q => p.y < q.y ∨ p.y = q.y ∧ p.x < q.x
  | .down,p,q => q.y < p.y ∨ p.y = q.y ∧ p.x < q.x

-- Every cell of the camp, once, in the order of the search.
structure Complete (c : Camps) (camp : UInt8) (dir : Direction) (queue : List Ascoord) : Prop where
  cells : ∀ p, p ∈ queue ↔ c.isInMap p = true ∧ c.campAt p = camp
  once : queue.Nodup
  ordered : queue.Pairwise (before dir)

-- The search ends, stays inside _mapCamp and leaves a complete queue.
def Scans (c : Camps) (camp : UInt8) (m : Queues) (dir : Direction) : Prop :=
  ∃ found cells, search c camp m dir = some found ∧ reads c dir = some cells ∧ (∀ p ∈ cells, InArray c p) ∧
    Complete c camp dir ((find camp found).getD [])

-- A right attack ends below width 255, and no free cell of an odd row shifts its
-- look out of the array or onto a cell of the camp; a down attack ends below
-- height 255; an up attack has nothing to find.
def Straight (c : Camps) (camp : UInt8) : Direction → Prop
  | .left => True
  | .right => c.sizeX ≠ 255 ∧ ∀ p, c.isInMap p = true → p.y % 2 = 1 → c.campAt p = 0 →
      camp ≠ 0 ∧ InArray c ⟨p.x-1,p.y⟩ ∧ c.campAt ⟨p.x-1,p.y⟩ ≠ camp
  | .up => ∀ p, c.isInMap p = true → c.campAt p ≠ camp
  | .down => c.sizeY ≠ 255

theorem inArray_of_inMap {c : Camps} {p : Ascoord} (inside : c.isInMap p = true) : InArray c p := by
  obtain ⟨wide,high⟩ := isInMap_iff.mp inside
  rw [UInt8.lt_iff_toNat_lt] at wide high
  have rows : (p.y.toNat+1) * c.sizeX.toNat ≤ c.sizeY.toNat * c.sizeX.toNat := Nat.mul_le_mul_right _ high
  rw [Nat.succ_mul] at rows
  unfold InArray
  rw [Nat.mul_comm c.sizeX.toNat]
  omega

theorem before_irrefl (dir : Direction) (p : Ascoord) : ¬before dir p p := by
  cases dir <;> simp [before]

theorem nodup_of_ordered {queue : List Ascoord} (ordered : queue.Pairwise (before dir)) : queue.Nodup := by
  refine ordered.imp ?_
  rintro p _ earlier rfl
  exact before_irrefl dir p earlier

theorem counts_rise (test : UInt8 → Bool) (stop : Nat) (bound : stop ≤ 255) (tested : ∀ i, test i = true ↔ i.toNat < stop)
    (fuel : Nat) (i : UInt8) (enough : stop - i.toNat < fuel) (counted : counts test (·+1) fuel i = some values) :
    values.Pairwise (· < ·) := by
  induction fuel generalizing i values with
  | zero => cases counted
  | succ fuel ih =>
      unfold counts at counted
      by_cases inside : i.toNat < stop
      · have next : (i+1).toNat = i.toNat+1 := by rw [UInt8.toNat_add]; exact Nat.mod_eq_of_lt (by show i.toNat+1 < 256; omega)
        obtain ⟨rest,later,members⟩ := counts_up test stop bound tested fuel (i+1) (by omega)
        rw [if_pos ((tested i).mpr inside),later] at counted
        cases counted
        refine List.pairwise_cons.mpr ⟨?_,ih (i+1) (by omega) later⟩
        intro k member
        have low := ((members k).mp member).1
        rw [UInt8.le_iff_toNat_le,next] at low
        exact UInt8.lt_iff_toNat_lt.mpr low
      · rw [if_neg (by rw [tested]; exact inside)] at counted
        cases counted
        exact .nil

theorem below_rises (counted : below n = some values) : values.Pairwise (· < ·) :=
  counts_rise (fun i => decide (i < n)) n.toNat (Nat.lt_succ_iff.mp n.toNat_lt) (fun i => by simp [UInt8.lt_iff_toNat_lt]) 257 0
    (by have := n.toNat_lt; omega) counted

theorem counts_fall {n : UInt8} (small : n ≠ 255) (fuel : Nat) (i : UInt8) (inside : i ≤ n) (enough : i.toNat+1 < fuel)
    (counted : counts (fun i => !(i > n)) (·-1) fuel i = some values) : values.Pairwise (· > ·) := by
  induction fuel generalizing i values with
  | zero => cases counted
  | succ fuel ih =>
      have bound : i.toNat ≤ n.toNat := UInt8.le_iff_toNat_le.mp inside
      unfold counts at counted
      rw [if_pos (by simpa [UInt8.le_iff_toNat_le] using bound)] at counted
      by_cases last : i = 0
      · subst last
        cases fuel with
        | zero => simp at enough
        | succ fuel =>
            have stop : (0 : UInt8) - 1 > n := by
              have short : n.toNat ≠ 255 := fun same => small (UInt8.toNat_inj.mp same)
              have := n.toNat_lt
              show n < 255
              rw [UInt8.lt_iff_toNat_lt]; show n.toNat < 255; omega
            unfold counts at counted
            rw [if_neg (by simpa using stop)] at counted
            cases counted
            exact List.pairwise_singleton _ _
      · have positive : 0 < i.toNat := Nat.pos_of_ne_zero fun zero => last (UInt8.toNat_inj.mp zero)
        have next : (i-1).toNat = i.toNat-1 := by
          rw [UInt8.toNat_sub_of_le _ _ (by rw [UInt8.le_iff_toNat_le]; exact positive)]; rfl
        have down : i-1 ≤ n := by rw [UInt8.le_iff_toNat_le,next]; omega
        obtain ⟨rest,later,members⟩ := counts_down small fuel (i-1) down (by omega)
        rw [later] at counted
        cases counted
        refine List.pairwise_cons.mpr ⟨?_,ih (i-1) down (by omega) later⟩
        intro k member
        have low := (members k).mp member
        rw [UInt8.le_iff_toNat_le,next] at low
        exact UInt8.lt_iff_toNat_lt.mpr (by omega)

theorem downFrom_falls {n : UInt8} (small : n ≠ 255) (counted : downFrom n = some values) : values.Pairwise (· > ·) := by
  by_cases empty : n = 0
  · subst empty
    have none : downFrom 0 = some [] := by decide +kernel
    rw [none] at counted
    cases counted
    exact .nil
  have positive : 0 < n.toNat := Nat.pos_of_ne_zero fun zero => empty (UInt8.toNat_inj.mp zero)
  have first : (n-1).toNat = n.toNat-1 := by
    rw [UInt8.toNat_sub_of_le _ _ (by rw [UInt8.le_iff_toNat_le]; exact positive)]; rfl
  have bound := n.toNat_lt
  exact counts_fall small 257 (n-1) (by rw [UInt8.le_iff_toNat_le,first]; omega) (by omega) counted

theorem lines_ordered {g : UInt8 → UInt8 → Ascoord} {r : UInt8 → UInt8 → Prop} {R : Ascoord → Ascoord → Prop} {lines places : List UInt8}
    (between : ∀ a b x y, r a b → R (g a x) (g b y)) (along : ∀ a x y, x < y → R (g a x) (g a y))
    (outer : lines.Pairwise r) (inner : places.Pairwise (· < ·)) :
    (lines.flatMap fun a => places.map (g a)).Pairwise R := by
  refine List.pairwise_flatMap.mpr ⟨?_,?_⟩
  · intro a _
    exact List.pairwise_map.mpr (inner.imp fun less => along a _ _ less)
  · refine outer.imp ?_
    intro a b apart p here q there
    obtain ⟨x,_,rfl⟩ := List.mem_map.mp here
    obtain ⟨y,_,rfl⟩ := List.mem_map.mp there
    exact between a b x y apart

theorem gather_queue {c : Camps} {camp : UInt8} {f : List Ascoord → Ascoord → List Ascoord} {cells : List Ascoord} {m : Queues}
    (ordered : m.Pairwise fun a b => a.1 < b.1) :
    (find camp (c.gather camp (fun m p => upsert camp (fun old => f (old.getD []) p) m) m cells)).getD [] =
      (cells.filter fun p => c.campAt p = camp).foldl f ((find camp m).getD []) := by
  induction cells generalizing m with
  | nil => rfl
  | cons p cells ih =>
      have later : ∀ m, c.gather camp (fun m p => upsert camp (fun old => f (old.getD []) p) m) m (p :: cells) =
          c.gather camp (fun m p => upsert camp (fun old => f (old.getD []) p) m)
            (if c.campAt p = camp then upsert camp (fun old => f (old.getD []) p) m else m) cells := fun _ => rfl
      rw [later]
      by_cases here : c.campAt p = camp
      · rw [if_pos here,ih (upsert_ordered _ _ ordered),find_upsert_self _ _ ordered,List.filter_cons_of_pos (by simpa using here)]
        rfl
      · rw [if_neg here,ih ordered,List.filter_cons_of_neg (by simpa using here)]

theorem foldl_push (cells queue : List Ascoord) : cells.foldl (fun queue p => queue ++ [p]) queue = queue ++ cells := by
  induction cells generalizing queue with
  | nil => simp
  | cons p cells ih => rw [List.foldl_cons,ih,List.append_assoc]; rfl

-- The queue with the first cell is never stored, so no cell ever is.
theorem foldl_lost (cells : List Ascoord) :
    cells.foldl (fun queue p => if queue.isEmpty then [] else queue ++ [p]) [] = [] := by
  induction cells with
  | nil => rfl
  | cons p cells ih => exact ih

section queues
variable {c : Camps} {camp : UInt8} {m : Queues}

def mine (c : Camps) (camp : UInt8) (cells : List Ascoord) : List Ascoord := cells.filter fun p => c.campAt p = camp

theorem pushed (ordered : m.Pairwise fun a b => a.1 < b.1) (empty : (find camp m).getD [] = []) (cells : List Ascoord) :
    (find camp (c.gather camp (pushBack camp) m cells)).getD [] = mine c camp cells := by
  refine (gather_queue (f := fun queue p => queue ++ [p]) ordered).trans ?_
  rw [empty,foldl_push]
  rfl

theorem lost (ordered : m.Pairwise fun a b => a.1 < b.1) (empty : (find camp m).getD [] = []) (cells : List Ascoord) :
    (find camp (c.gather camp (fun m p =>
      upsert camp (fun old => if (old.getD []).isEmpty then [] else old.getD [] ++ [p]) m) m cells)).getD [] = [] := by
  refine (gather_queue (f := fun queue p => if queue.isEmpty then [] else queue ++ [p]) ordered).trans ?_
  rw [empty,foldl_lost]

-- Looking at every cell of the map once, in order, makes a complete queue.
theorem complete_mine {cells : List Ascoord} (whole : ∀ p, p ∈ cells ↔ c.isInMap p = true) (ordered : cells.Pairwise (before dir)) :
    Complete c camp dir (mine c camp cells) := by
  have kept : (mine c camp cells).Pairwise (before dir) := ordered.filter _
  refine ⟨?_,nodup_of_ordered kept,kept⟩
  intro p
  rw [mine,List.mem_filter,whole]
  simp

theorem leftToRight_ordered (found : c.leftToRight = some cells) : cells.Pairwise (before .left) := by
  obtain ⟨columns,widths,_⟩ := below_exact c.sizeX
  obtain ⟨rows,heights,_⟩ := below_exact c.sizeY
  rw [leftToRight,widths,heights] at found
  cases found
  exact lines_ordered (fun _ _ _ _ less => .inl less) (fun _ _ _ less => .inr ⟨rfl,less⟩) (below_rises widths) (below_rises heights)

theorem downToUp_ordered (small : c.sizeY ≠ 255) (found : c.downToUp = some cells) : cells.Pairwise (before .down) := by
  obtain ⟨columns,widths,_⟩ := below_exact c.sizeX
  obtain ⟨rows,heights,_⟩ := downFrom_exact small
  rw [downToUp,widths,heights] at found
  cases found
  exact lines_ordered (g := fun j i => ⟨i,j⟩) (fun _ _ _ _ more => .inl more) (fun _ _ _ less => .inr ⟨rfl,less⟩)
    (downFrom_falls small heights) (below_rises widths)

-- The cells of a right attack are those of the map, column by column from the
-- right, each as it is looked at.
theorem rightToLeft_looks (small : c.sizeX ≠ 255) : ∃ grid : List Ascoord, c.rightToLeft = some (grid.map (look c)) ∧
    (∀ p, p ∈ grid ↔ c.isInMap p = true) ∧ grid.Pairwise (before .right) := by
  obtain ⟨columns,widths,inside⟩ := downFrom_exact small
  obtain ⟨rows,heights,tall⟩ := below_exact c.sizeY
  refine ⟨columns.flatMap fun i => rows.map fun j => ⟨i,j⟩,?_,?_,?_⟩
  · rw [rightToLeft,widths,heights,List.map_flatMap]
    simp only [List.map_map]
    rfl
  · rintro ⟨x,y⟩
    simp [isInMap_iff,inside,tall]
  · exact lines_ordered (fun _ _ _ _ more => .inl more) (fun _ _ _ less => .inr ⟨rfl,less⟩)
      (downFrom_falls small widths) (below_rises heights)

theorem look_shifted {p : Ascoord} (odd : p.y % 2 = 1) (free : c.campAt p = 0) : look c p = ⟨p.x-1,p.y⟩ := by
  rw [look,if_pos ⟨odd,free⟩]

theorem look_same {p : Ascoord} (kept : ¬(p.y % 2 = 1 ∧ c.campAt p = 0)) : look c p = p := by
  rw [look,if_neg kept]

theorem reads_right (small : c.sizeX ≠ 255) : ∃ cells, reads c .right = some cells ∧
    ∀ p, p ∈ cells ↔ ∃ q, c.isInMap q = true ∧ (p = look c q ∨ q.y % 2 = 1 ∧ p = q) := by
  obtain ⟨columns,widths,inside⟩ := downFrom_exact small
  obtain ⟨rows,heights,tall⟩ := below_exact c.sizeY
  refine ⟨_,by rw [reads,widths,heights]; rfl,?_⟩
  intro p
  simp only [List.mem_flatMap,inside,tall,isInMap_iff]
  constructor
  · intro ⟨x,wide,y,high,member⟩
    refine ⟨⟨x,y⟩,⟨wide,high⟩,?_⟩
    split at member
    · rename_i odd
      simp only [List.mem_cons,List.not_mem_nil,or_false] at member
      exact member.symm.imp_right fun same => ⟨odd,same⟩
    · exact .inl (List.mem_singleton.mp member)
  · intro ⟨⟨x,y⟩,⟨wide,high⟩,seen⟩
    refine ⟨x,wide,y,high,?_⟩
    split
    · simp only [List.mem_cons,List.not_mem_nil,or_false]
      exact seen.symm.imp_left And.right
    · rename_i even
      exact List.mem_singleton.mpr (seen.resolve_right fun odd => even odd.1)

-- Where no free cell leads to the camp, the shifted looks find what straight
-- ones would.
theorem mine_looks {grid : List Ascoord} (harmless : ∀ p ∈ grid, p.y % 2 = 1 → c.campAt p = 0 →
    camp ≠ 0 ∧ c.campAt ⟨p.x-1,p.y⟩ ≠ camp) : mine c camp (grid.map (look c)) = mine c camp grid := by
  induction grid with
  | nil => rfl
  | cons p grid ih =>
      obtain ⟨first,later⟩ := List.forall_mem_cons.mp harmless
      have rest := ih later
      unfold mine at rest ⊢
      rw [List.map_cons,List.filter_cons,List.filter_cons,rest]
      by_cases shifted : p.y % 2 = 1 ∧ c.campAt p = 0
      · obtain ⟨named,apart⟩ := first shifted.1 shifted.2
        have absent : c.campAt p ≠ camp := fun same => named (same.symm.trans shifted.2)
        rw [look_shifted shifted.1 shifted.2]
        simp [apart,absent]
      · rw [look_same shifted]

-- Two cells of the map that are looked at in one place would be queued twice.
theorem looks_apart {grid : List Ascoord} (once : (mine c camp (grid.map (look c))).Nodup) (one : p ∈ grid) (two : q ∈ grid)
    (found : c.campAt (look c p) = camp) (same : look c p = look c q) : p = q := by
  unfold mine at once
  rw [List.filter_map] at once
  refine List.inj_on_of_nodup_map once (List.mem_filter.mpr ⟨one,?_⟩) (List.mem_filter.mpr ⟨two,?_⟩) same
  · simpa using found
  · simpa [← same] using found

-- The last free cell of an odd row is looked at from no cell.
theorem free_missed {p : Ascoord} (inside : c.isInMap p = true) (odd : p.y % 2 = 1) (free : c.campAt p = 0) :
    ∃ q, c.isInMap q = true ∧ c.campAt q = 0 ∧ ∀ r, c.isInMap r = true → look c r ≠ q := by
  obtain ⟨n,enough⟩ : ∃ n, c.sizeX.toNat - p.x.toNat ≤ n := ⟨_,Nat.le_refl _⟩
  induction n generalizing p with
  | zero =>
      obtain ⟨wide,_⟩ := isInMap_iff.mp inside
      rw [UInt8.lt_iff_toNat_lt] at wide
      omega
  | succ n ih =>
      by_cases behind : ∃ r, c.isInMap r = true ∧ look c r = p
      · obtain ⟨r,within,leads⟩ := behind
        by_cases shifted : r.y % 2 = 1 ∧ c.campAt r = 0
        · rw [look_shifted shifted.1 shifted.2] at leads
          obtain ⟨wide,_⟩ := isInMap_iff.mp inside
          obtain ⟨broad,_⟩ := isInMap_iff.mp within
          rw [UInt8.lt_iff_toNat_lt] at wide broad
          have column : (r.x-1).toNat = p.x.toNat := by rw [← leads]
          have positive : 0 < r.x.toNat := by
            refine Nat.pos_of_ne_zero fun zero => ?_
            have first : r.x = 0 := UInt8.toNat_inj.mp zero
            rw [first] at column
            have wrapped : p.x.toNat = 255 := column.symm
            have := c.sizeX.toNat_lt
            omega
          have next : (r.x-1).toNat = r.x.toNat-1 := by
            rw [UInt8.toNat_sub_of_le _ _ (by rw [UInt8.le_iff_toNat_le]; exact positive)]; rfl
          exact ih within shifted.1 shifted.2 (by omega)
        · rw [look_same shifted] at leads
          exact absurd ⟨leads ▸ odd,leads ▸ free⟩ shifted
      · exact ⟨p,inside,free,fun r within leads => behind ⟨r,within,leads⟩⟩

theorem scans_right_iff (ordered : m.Pairwise fun a b => a.1 < b.1) (empty : (find camp m).getD [] = []) :
    Scans c camp m .right ↔ Straight c camp .right := by
  by_cases small : c.sizeX = 255
  · constructor
    · rintro ⟨_,_,found,_⟩
      rw [search,searchFromRightToLeft,rightToLeft,small,downFrom_never] at found
      cases found
    · exact fun straight => absurd small straight.1
  obtain ⟨grid,looked,whole,sorted⟩ := rightToLeft_looks small
  obtain ⟨cells,read,seen⟩ := reads_right small
  have found : search c camp m .right = some (c.gather camp (pushBack camp) m (grid.map (look c))) := by
    rw [search,searchFromRightToLeft,looked]; rfl
  have queue := pushed (c := c) ordered empty (grid.map (look c))
  constructor
  · rintro ⟨left,cells',found',read',inside,complete⟩
    cases Option.some.inj (found.symm.trans found')
    cases Option.some.inj (read.symm.trans read')
    rw [queue] at complete
    have queued : ∀ p ∈ grid, c.campAt (look c p) = camp → look c p ∈ mine c camp (grid.map (look c)) := by
      intro p member here
      exact List.mem_filter.mpr ⟨List.mem_map_of_mem member,by simpa using here⟩
    refine ⟨small,?_⟩
    intro p within odd free
    have member := (whole p).mpr within
    have shifted := look_shifted odd free
    have named : camp ≠ 0 := by
      rintro rfl
      obtain ⟨q,inMap,empty,missed⟩ := free_missed within odd free
      obtain ⟨seat,_⟩ := List.mem_filter.mp ((complete.cells q).mpr ⟨inMap,empty⟩)
      obtain ⟨r,there,leads⟩ := List.mem_map.mp seat
      exact missed r ((whole r).mp there) leads
    refine ⟨named,?_,?_⟩
    · exact inside _ ((seen _).mpr ⟨p,within,.inl shifted.symm⟩)
    · intro here
      rw [← shifted] at here
      obtain ⟨aside,_⟩ := (complete.cells _).mp (queued p member here)
      -- the cell to the left is of the camp, so it is looked at from its own place too
      have own : look c (look c p) = look c p := by
        refine look_same fun again => named ?_
        exact here.symm.trans again.2
      have same := looks_apart complete.once member ((whole _).mpr aside) here own.symm
      rw [same] at free
      exact named (here.symm.trans free)
  · rintro ⟨_,harmless⟩
    refine ⟨_,cells,found,read,?_,?_⟩
    · intro p member
      obtain ⟨q,within,leads⟩ := (seen p).mp member
      rcases leads with rfl | ⟨_,rfl⟩
      · by_cases shifted : q.y % 2 = 1 ∧ c.campAt q = 0
        · rw [look_shifted shifted.1 shifted.2]
          exact (harmless q within shifted.1 shifted.2).2.1
        · rw [look_same shifted]
          exact inArray_of_inMap within
      · exact inArray_of_inMap within
    · rw [queue,mine_looks]
      · exact complete_mine whole sorted
      · intro p member odd free
        obtain ⟨named,_,apart⟩ := harmless p ((whole p).mp member) odd free
        exact ⟨named,apart⟩

theorem scans_up_iff (ordered : m.Pairwise fun a b => a.1 < b.1) (empty : (find camp m).getD [] = []) :
    Scans c camp m .up ↔ Straight c camp .up := by
  obtain ⟨cells,looked,whole⟩ := upToDown_exact c
  have queue := lost (c := c) ordered empty cells
  have found : search c camp m .up = (c.upToDown).map (c.gather camp (fun m p =>
      upsert camp (fun old => if (old.getD []).isEmpty then [] else old.getD [] ++ [p]) m) m) := rfl
  rw [looked] at found
  constructor
  · rintro ⟨left,_,found',_,_,complete⟩ p inside here
    cases Option.some.inj (found.symm.trans found')
    rw [queue] at complete
    exact absurd ((complete.cells p).mpr ⟨inside,here⟩) List.not_mem_nil
  · intro none
    refine ⟨_,cells,found,looked,fun p member => inArray_of_inMap ((whole p).mp member),?_⟩
    rw [queue]
    refine ⟨fun p => ⟨fun member => absurd member List.not_mem_nil,fun ⟨inside,here⟩ => absurd here (none p inside)⟩,.nil,.nil⟩

end queues

-- Each search is right exactly on the maps its condition names.
theorem scans_iff (c : Camps) (camp : UInt8) (dir : Direction) (m : Queues) (ordered : m.Pairwise fun a b => a.1 < b.1)
    (empty : (find camp m).getD [] = []) : Scans c camp m dir ↔ Straight c camp dir := by
  cases dir with
  | left =>
      obtain ⟨cells,looked,whole⟩ := leftToRight_exact c
      refine ⟨fun _ => trivial,fun _ => ?_⟩
      refine ⟨_,cells,by rw [search,searchFromLeftToRight,looked]; rfl,looked,fun p member => inArray_of_inMap ((whole p).mp member),?_⟩
      rw [pushed ordered empty]
      exact complete_mine whole (leftToRight_ordered looked)
  | right => exact scans_right_iff ordered empty
  | up => exact scans_up_iff ordered empty
  | down =>
      by_cases small : c.sizeY = 255
      · constructor
        · intro ⟨_,_,found,_⟩
          rw [search,searchFromDownToUp,downToUp,small,downFrom_never] at found
          cases found
        · exact fun straight => absurd small straight
      · obtain ⟨cells,looked,whole⟩ := downToUp_exact small
        refine ⟨fun _ => small,fun _ => ?_⟩
        refine ⟨_,cells,by rw [search,searchFromDownToUp,looked]; rfl,looked,fun p member => inArray_of_inMap ((whole p).mp member),?_⟩
        rw [pushed ordered empty]
        exact complete_mine whole (downToUp_ordered small looked)

-- One cell of camp 1 left of a free one, in the odd row of a map of two by two.
def corner : Camps := {sizeX := 2,sizeY := 2,mapCamp := fun i => if i = 2 then 1 else 0}

theorem scans_corner : Scans corner 1 [] .left := (scans_iff corner 1 .left [] .nil rfl).mpr trivial

-- An up attack loses the cell, a right attack queues it twice.
theorem corner_lost : ¬Scans corner 1 [] .up ∧ ¬Scans corner 1 [] .right := by
  constructor
  · intro scans
    exact (scans_up_iff .nil rfl).mp scans ⟨0,1⟩ (by decide) (by decide)
  · intro scans
    exact ((scans_right_iff .nil rfl).mp scans).2 ⟨1,1⟩ (by decide) (by decide) (by decide) |>.2.2 (by decide)

end GameServer.Battle.Scan
