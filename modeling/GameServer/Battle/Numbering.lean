import GameServer.Battle.Number
import GameServer.Library.RoundRobin

namespace GameServer.Battle.Numbering
open Camps OrderedMap

def Acting (c : Camps) (p : Ascoord) : Prop :=
  c.isInMap p = true ∧ c.campAt p ≠ 0 ∧ c.campAt p ∈ c.actCamp

def direction (c : Camps) (camp : UInt8) : UInt8 :=
  if c.forceNum = 5 ∧ camp = 5 then c.getSpecialDirection else c.attackDirect camp

def visits (c : Camps) (dir : UInt8) : Option (List Ascoord) :=
  if dir = 0 ∨ dir = 1 then c.leftToRight
  else if dir = 2 then c.rightToLeft
  else if dir = 3 then c.upToDown
  else if dir = 4 then c.downToUp
  else some []

-- How many cells of its camp the search meets before this one.
def rank (c : Camps) (p : Ascoord) : Nat :=
  ((((visits c (direction c (c.campAt p))).getD []).filter (fun q => c.campAt q = c.campAt p)).eraseDups).idxOf p

-- Every cell of an acting camp has one number and shares it with no other, a
-- camp's cells are numbered in the order of its search, and the camps take
-- turns: first the first cell of each camp, then the second of each.
structure Numbered (c : Camps) (nums : List (UInt8 × Ascoord)) : Prop where
  once : ∀ p, Acting c p → ∃! n, (n,p) ∈ nums
  distinct : ∀ p q n, Acting c p → Acting c q → (n,p) ∈ nums → (n,q) ∈ nums → p = q
  searched : ∀ p q n m, Acting c p → Acting c q → (n,p) ∈ nums → (m,q) ∈ nums →
    c.campAt p = c.campAt q → rank c p < rank c q → n < m
  turns : ∀ p q n m, Acting c p → Acting c q → (n,p) ∈ nums → (m,q) ∈ nums →
    c.campAt p ≠ c.campAt q →
    (n < m ↔ rank c p < rank c q ∨ rank c p = rank c q ∧ c.campAt p < c.campAt q)

def Ordered (c : Camps) (camp dir : UInt8) : Prop :=
  2 ≤ c.forceNum ∧ if c.forceNum = 5 then camp = 5 ∧ dir = c.getSpecialDirection
    else 1 ≤ camp ∧ camp ≤ c.forceNum ∧ dir = c.attackDirect camp

-- The search of a camp ends and meets no cell of it: the map has none, a right
-- or down attack does not start at column or row 255, and no odd row that
-- starts with camp 0 reads the camp where column 255 would be.
structure Quiet (c : Camps) (camp dir : UInt8) : Prop where
  none : ∀ p, c.isInMap p = true → c.campAt p ≠ camp
  right : dir = 2 → c.sizeX ≠ 255 ∧ ∀ j, j < c.sizeY → j % 2 = 1 → 0 < c.sizeX →
    c.campAt ⟨0,j⟩ = 0 → c.campAt ⟨255,j⟩ ≠ camp
  down : dir = 4 → c.sizeY ≠ 255

structure Bare (c : Camps) : Prop where
  idle : ∀ p, ¬Acting c p
  counted : c.forceNum ≠ 255
  quiet : ∀ camp dir, Ordered c camp dir → dir ≤ 4 → Quiet c camp dir

-- A counter that goes up through the values below a bound of at most 255.
theorem counts_up (test : UInt8 → Bool) (stop : Nat) (bound : stop ≤ 255)
    (tested : ∀ i, test i = true ↔ i.toNat < stop) (fuel : Nat) (i : UInt8) (enough : stop - i.toNat < fuel) :
    ∃ values, counts test (·+1) fuel i = some values ∧ ∀ k, k ∈ values ↔ i ≤ k ∧ k.toNat < stop := by
  induction fuel generalizing i with
  | zero => omega
  | succ fuel ih =>
      unfold counts
      by_cases inside : i.toNat < stop
      · have next : (i+1).toNat = i.toNat+1 := by rw [UInt8.toNat_add]; exact Nat.mod_eq_of_lt (by show i.toNat+1 < 256; omega)
        obtain ⟨values,counted,members⟩ := ih (i+1) (by omega)
        rw [if_pos ((tested i).mpr inside),counted]
        refine ⟨_,rfl,?_⟩
        intro k
        rw [List.mem_cons,members,UInt8.le_iff_toNat_le,UInt8.le_iff_toNat_le,next,← UInt8.toNat_inj]
        omega
      · rw [if_neg (by rw [tested]; exact inside)]
        refine ⟨_,rfl,?_⟩
        intro k
        rw [UInt8.le_iff_toNat_le]
        simp only [List.not_mem_nil,false_iff]
        omega

-- A test no value of the counter fails never ends the loop.
theorem counts_never {test : UInt8 → Bool} {next : UInt8 → UInt8} (always : ∀ i, test i = true) (fuel : Nat) (i : UInt8) :
    counts test next fuel i = none := by
  induction fuel generalizing i with
  | zero => rfl
  | succ fuel ih => unfold counts; rw [if_pos (always i),ih]; rfl

theorem below_exact (n : UInt8) : ∃ values, below n = some values ∧ ∀ k, k ∈ values ↔ k < n := by
  have bound := n.toNat_lt
  obtain ⟨values,counted,members⟩ := counts_up (fun i => decide (i < n)) n.toNat (by omega)
    (fun i => by simp [UInt8.lt_iff_toNat_lt]) 257 0 (by omega)
  refine ⟨values,counted,?_⟩
  intro k
  rw [members,UInt8.lt_iff_toNat_lt]
  simp

theorem oneTo_exact {n : UInt8} (small : n ≠ 255) : ∃ values, oneTo n = some values ∧ ∀ k, k ∈ values ↔ 1 ≤ k ∧ k ≤ n := by
  have bound := n.toNat_lt
  have short : n.toNat ≠ 255 := fun same => small (UInt8.toNat_inj.mp same)
  obtain ⟨values,counted,members⟩ := counts_up (fun i => decide (i ≤ n)) (n.toNat+1) (by omega)
    (fun i => by rw [decide_eq_true_iff,UInt8.le_iff_toNat_le,Nat.lt_succ_iff]) 257 1 (by omega)
  refine ⟨values,counted,?_⟩
  intro k
  rw [members,UInt8.le_iff_toNat_le (a := k),Nat.lt_succ_iff]

theorem oneTo_never : oneTo 255 = none :=
  counts_never (fun i => by have := i.toNat_lt; simp [UInt8.le_iff_toNat_le]; omega) _ _

-- Going down from a value not above the bound, through 0 to 255.
theorem counts_down {n : UInt8} (small : n ≠ 255) (fuel : Nat) (i : UInt8) (inside : i ≤ n) (enough : i.toNat+1 < fuel) :
    ∃ values, counts (fun i => !(i > n)) (·-1) fuel i = some values ∧ ∀ k, k ∈ values ↔ k ≤ i := by
  induction fuel generalizing i with
  | zero => omega
  | succ fuel ih =>
      have bound := n.toNat_lt
      have short : n.toNat ≠ 255 := fun same => small (UInt8.toNat_inj.mp same)
      rw [UInt8.le_iff_toNat_le] at inside
      unfold counts
      rw [if_pos (by simpa [UInt8.le_iff_toNat_le] using inside)]
      by_cases last : i = 0
      · subst last
        obtain ⟨fuel,rfl⟩ : ∃ m, fuel = m+1 := ⟨fuel-1,by simp at enough; omega⟩
        have stop : (0 : UInt8) - 1 > n := by
          show n < 255
          rw [UInt8.lt_iff_toNat_lt]; show n.toNat < 255; omega
        unfold counts
        rw [if_neg (by simpa using stop)]
        refine ⟨_,rfl,?_⟩
        intro k
        simp [UInt8.le_iff_toNat_le,← UInt8.toNat_inj]
      · have positive : 0 < i.toNat := Nat.pos_of_ne_zero fun zero => last (UInt8.toNat_inj.mp zero)
        have next : (i-1).toNat = i.toNat-1 := by
          rw [UInt8.toNat_sub_of_le _ _ (by rw [UInt8.le_iff_toNat_le]; exact positive)]; rfl
        obtain ⟨values,counted,members⟩ := ih (i-1) (by rw [UInt8.le_iff_toNat_le]; omega) (by omega)
        rw [counted]
        refine ⟨_,rfl,?_⟩
        intro k
        rw [List.mem_cons,members,UInt8.le_iff_toNat_le,UInt8.le_iff_toNat_le,next,← UInt8.toNat_inj]
        omega

theorem downFrom_exact {n : UInt8} (small : n ≠ 255) : ∃ values, downFrom n = some values ∧ ∀ k, k ∈ values ↔ k < n := by
  by_cases empty : n = 0
  · subst empty
    refine ⟨[],by decide +kernel,?_⟩
    intro k
    simp [UInt8.lt_iff_toNat_lt]
  have bound := n.toNat_lt
  have positive : 0 < n.toNat := Nat.pos_of_ne_zero fun zero => empty (UInt8.toNat_inj.mp zero)
  have first : (n-1).toNat = n.toNat-1 := by
    rw [UInt8.toNat_sub_of_le _ _ (by rw [UInt8.le_iff_toNat_le]; exact positive)]; rfl
  obtain ⟨values,counted,members⟩ := counts_down small 257 (n-1) (by rw [UInt8.le_iff_toNat_le]; omega) (by omega)
  refine ⟨values,counted,?_⟩
  intro k
  rw [members,UInt8.le_iff_toNat_le,UInt8.lt_iff_toNat_lt]
  omega

theorem downFrom_never : downFrom 255 = none :=
  counts_never (fun i => by have := i.toNat_lt; simp [UInt8.lt_iff_toNat_lt]; omega) _ _

-- A search that stores something at every cell of the camp leaves nothing only
-- where it found nothing.
theorem gather_nil {store : Queues → Ascoord → Queues} (stores : ∀ m p, store m p ≠ []) {cells : List Ascoord} {m : Queues} :
    gather c camp store m cells = [] ↔ m = [] ∧ ∀ p ∈ cells, c.campAt p ≠ camp := by
  induction cells generalizing m with
  | nil => simp [gather]
  | cons p cells ih =>
      have later : gather c camp store m (p :: cells) =
          gather c camp store (if c.campAt p = camp then store m p else m) cells := rfl
      rw [later,ih,List.forall_mem_cons]
      by_cases here : c.campAt p = camp
      · rw [if_pos here]
        exact ⟨fun ⟨empty,_⟩ => absurd empty (stores m p),fun ⟨_,clear,_⟩ => absurd here clear⟩
      · rw [if_neg here]
        tauto

theorem order_nil {m : Queues} : c.getCampAttackOrder camp dir m = some [] ↔
    m = [] ∧ ∃ cells, visits c dir = some cells ∧ ∀ p ∈ cells, c.campAt p ≠ camp := by
  have stores : ∀ make : Ascoord → Option (List Ascoord) → List Ascoord,
      ∀ (m : Queues) p, upsert camp (make p) m ≠ [] := fun make m p => upsert_ne_nil _ _ _
  have mapped : ∀ (found : Option (List Ascoord)) (store : Queues → Ascoord → Queues), (∀ m p, store m p ≠ []) →
      (found.map (gather c camp store m) = some [] ↔ m = [] ∧ ∃ cells, found = some cells ∧ ∀ p ∈ cells, c.campAt p ≠ camp) := by
    intro found store stores
    cases found with
    | none => simp
    | some cells => simp [gather_nil stores]
  unfold getCampAttackOrder visits
  split
  · exact mapped _ _ (stores fun p old => old.getD [] ++ [p])
  split
  · exact mapped _ _ (stores fun p old => old.getD [] ++ [p])
  split
  · exact mapped _ _ (stores fun p old => if (old.getD []).isEmpty then [] else old.getD [] ++ [p])
  split
  · exact mapped _ _ (stores fun p old => old.getD [] ++ [p])
  · simp

theorem isInMap_iff {c : Camps} {p : Ascoord} : c.isInMap p = true ↔ p.x < c.sizeX ∧ p.y < c.sizeY := by
  simp [isInMap]

theorem leftToRight_exact (c : Camps) : ∃ cells, c.leftToRight = some cells ∧ ∀ p, p ∈ cells ↔ c.isInMap p = true := by
  obtain ⟨columns,widths,inside⟩ := below_exact c.sizeX
  obtain ⟨rows,heights,tall⟩ := below_exact c.sizeY
  refine ⟨_,by rw [leftToRight,widths,heights]; rfl,?_⟩
  intro ⟨x,y⟩
  simp [isInMap_iff,inside,tall]

theorem upToDown_exact (c : Camps) : ∃ cells, c.upToDown = some cells ∧ ∀ p, p ∈ cells ↔ c.isInMap p = true := by
  obtain ⟨columns,widths,inside⟩ := below_exact c.sizeX
  obtain ⟨rows,heights,tall⟩ := below_exact c.sizeY
  refine ⟨_,by rw [upToDown,widths,heights]; rfl,?_⟩
  intro ⟨x,y⟩
  simp [isInMap_iff,inside,tall,and_comm]

theorem downToUp_exact {c : Camps} (small : c.sizeY ≠ 255) :
    ∃ cells, c.downToUp = some cells ∧ ∀ p, p ∈ cells ↔ c.isInMap p = true := by
  obtain ⟨columns,widths,inside⟩ := below_exact c.sizeX
  obtain ⟨rows,heights,tall⟩ := downFrom_exact small
  refine ⟨_,by rw [downToUp,widths,heights]; rfl,?_⟩
  intro ⟨x,y⟩
  simp [isInMap_iff,inside,tall,and_comm]

theorem rightToLeft_exact {c : Camps} (small : c.sizeX ≠ 255) :
    ∃ cells, c.rightToLeft = some cells ∧ ∀ p, p ∈ cells ↔ ∃ q, c.isInMap q = true ∧
      p = if q.y % 2 = 1 ∧ c.campAt q = 0 then ⟨q.x-1,q.y⟩ else q := by
  obtain ⟨columns,widths,inside⟩ := downFrom_exact small
  obtain ⟨rows,heights,tall⟩ := below_exact c.sizeY
  refine ⟨_,by rw [rightToLeft,widths,heights]; rfl,?_⟩
  intro p
  simp only [List.mem_flatMap,List.mem_map,inside,tall,isInMap_iff]
  constructor
  · intro ⟨x,wide,y,high,same⟩
    exact ⟨⟨x,y⟩,⟨wide,high⟩,same.symm⟩
  · intro ⟨⟨x,y⟩,⟨wide,high⟩,same⟩
    exact ⟨x,wide,y,high,same.symm⟩

-- The shifted look of a right attack leaves the map only from column 0.
theorem right_quiet {c : Camps} (named : camp ≠ 0) :
    (∀ q, c.isInMap q = true → c.campAt (if q.y % 2 = 1 ∧ c.campAt q = 0 then ⟨q.x-1,q.y⟩ else q) ≠ camp) ↔
    (∀ p, c.isInMap p = true → c.campAt p ≠ camp) ∧ ∀ j, j < c.sizeY → j % 2 = 1 → 0 < c.sizeX →
      c.campAt ⟨0,j⟩ = 0 → c.campAt ⟨255,j⟩ ≠ camp := by
  constructor
  · intro clear
    refine ⟨?_,?_⟩
    · intro p inside here
      refine clear p inside ?_
      rw [if_neg (by intro ⟨_,free⟩; exact named (here ▸ free))]
      exact here
    · intro j high odd wide free
      have := clear ⟨0,j⟩ (isInMap_iff.mpr ⟨wide,high⟩)
      rwa [if_pos ⟨odd,free⟩] at this
  · rintro ⟨none,edge⟩ ⟨x,y⟩ inside
    obtain ⟨wide,high⟩ := isInMap_iff.mp inside
    split
    · next shifted =>
        by_cases first : x = 0
        · subst first
          exact edge y high shifted.1 wide shifted.2
        · refine none _ (isInMap_iff.mpr ⟨?_,high⟩)
          have positive : 0 < x.toNat := Nat.pos_of_ne_zero fun zero => first (UInt8.toNat_inj.mp zero)
          have next : (x-1).toNat = x.toNat-1 := by
            rw [UInt8.toNat_sub_of_le _ _ (by rw [UInt8.le_iff_toNat_le]; exact positive)]; rfl
          rw [UInt8.lt_iff_toNat_lt] at wide ⊢
          dsimp only at wide ⊢
          omega
    · exact none _ inside

theorem visits_quiet {c : Camps} (known : dir ≤ 4) (named : camp ≠ 0) :
    (∃ cells, visits c dir = some cells ∧ ∀ p ∈ cells, c.campAt p ≠ camp) ↔ Quiet c camp dir := by
  have whole : ∀ found : Option (List Ascoord), (∃ cells, found = some cells ∧ ∀ p, p ∈ cells ↔ c.isInMap p = true) →
      ((∃ cells, found = some cells ∧ ∀ p ∈ cells, c.campAt p ≠ camp) ↔ ∀ p, c.isInMap p = true → c.campAt p ≠ camp) := by
    rintro _ ⟨cells,rfl,members⟩
    simp [members]
  unfold visits
  split
  · next left =>
      rw [whole _ (leftToRight_exact c)]
      exact ⟨fun none => ⟨none,by rintro rfl; exact absurd left (by decide),by rintro rfl; exact absurd left (by decide)⟩,Quiet.none⟩
  split
  · next right =>
      subst right
      by_cases small : c.sizeX = 255
      · constructor
        · intro ⟨cells,looked,_⟩
          rw [rightToLeft,small,downFrom_never] at looked
          cases looked
        · exact fun quiet => absurd small (quiet.right rfl).1
      · obtain ⟨cells,looked,members⟩ := rightToLeft_exact small
        have seen : (∃ cells, c.rightToLeft = some cells ∧ ∀ p ∈ cells, c.campAt p ≠ camp) ↔
            ∀ q, c.isInMap q = true → c.campAt (if q.y % 2 = 1 ∧ c.campAt q = 0 then ⟨q.x-1,q.y⟩ else q) ≠ camp := by
          rw [looked]
          constructor
          · intro ⟨_,same,clear⟩ q inside
            cases same
            exact clear _ ((members _).mpr ⟨q,inside,rfl⟩)
          · intro clear
            refine ⟨_,rfl,?_⟩
            intro p member
            obtain ⟨q,inside,rfl⟩ := (members p).mp member
            exact clear q inside
        rw [seen,right_quiet named]
        constructor
        · rintro ⟨none,edge⟩
          exact ⟨none,fun _ => ⟨small,edge⟩,fun wrong => absurd wrong (by decide)⟩
        · exact fun quiet => ⟨quiet.none,(quiet.right rfl).2⟩
  split
  · next up =>
      subst up
      rw [whole _ (upToDown_exact c)]
      exact ⟨fun none => ⟨none,fun wrong => absurd wrong (by decide),fun wrong => absurd wrong (by decide)⟩,Quiet.none⟩
  split
  · next down =>
      subst down
      by_cases small : c.sizeY = 255
      · constructor
        · intro ⟨cells,looked,_⟩
          rw [downToUp,small,downFrom_never] at looked
          cases looked
        · exact fun quiet => absurd small (quiet.down rfl)
      · rw [whole _ (downToUp_exact small)]
        exact ⟨fun none => ⟨none,fun wrong => absurd wrong (by decide),fun _ => small⟩,Quiet.none⟩
  · next left right up down =>
      exfalso
      rw [UInt8.le_iff_toNat_le] at known
      simp only [← UInt8.toNat_inj] at left right up down
      simp at known left right up down
      omega

theorem order_quiet {c : Camps} {m : Queues} (named : camp ≠ 0) :
    c.getCampAttackOrder camp dir m = some [] ↔ m = [] ∧ (dir ≤ 4 → Quiet c camp dir) := by
  rw [order_nil]
  refine and_congr_right fun _ => ?_
  by_cases known : dir ≤ 4
  · rw [visits_quiet known named]
    exact ⟨fun quiet _ => quiet,fun quiet => quiet known⟩
  · have far : 4 < dir.toNat := by
      rw [UInt8.le_iff_toNat_le] at known
      simpa using known
    have beyond : visits c dir = some [] := by
      have apart : ∀ n : UInt8, n.toNat ≤ 4 → dir ≠ n := by
        rintro _ low rfl
        omega
      unfold visits
      rw [if_neg (not_or.mpr ⟨apart 0 (by decide),apart 1 (by decide)⟩),if_neg (apart 2 (by decide)),
        if_neg (apart 3 (by decide)),if_neg (apart 4 (by decide))]
    rw [beyond]
    exact ⟨fun _ known' => absurd known' known,fun _ => ⟨[],rfl,by simp⟩⟩

theorem orders_quiet {c : Camps} {camps : List UInt8} (named : ∀ camp ∈ camps, camp ≠ 0) {m : Queues} :
    camps.foldlM (fun m camp => c.getCampAttackOrder camp (c.attackDirect camp) m) m = some [] ↔
      m = [] ∧ ∀ camp ∈ camps, c.attackDirect camp ≤ 4 → Quiet c camp (c.attackDirect camp) := by
  induction camps generalizing m with
  | nil => simp
  | cons camp camps ih =>
      have first : c.getCampAttackOrder camp (c.attackDirect camp) m = some [] ↔ _ := order_quiet (named camp (List.mem_cons_self ..))
      rw [List.foldlM_cons,List.forall_mem_cons]
      have later := fun m => @ih (fun camp member => named camp (List.mem_cons_of_mem _ member)) m
      constructor
      · intro folded
        obtain ⟨middle,ordered,rest⟩ := Option.bind_eq_some_iff.mp folded
        obtain ⟨rfl,quiet⟩ := (later middle).mp rest
        exact ⟨(first.mp ordered).1,(first.mp ordered).2,quiet⟩
      · intro ⟨empty,quiet,rest⟩
        exact Option.bind_eq_some_iff.mpr ⟨[],first.mpr ⟨empty,quiet⟩,(later []).mpr ⟨rfl,rest⟩⟩

-- The searches leave no queue, not even an empty one.
theorem setCampActId_nil {c : Camps} : c.setCampActId = some [] ↔
    c.forceNum ≠ 255 ∧ ∀ camp dir, Ordered c camp dir → dir ≤ 4 → Quiet c camp dir := by
  unfold setCampActId
  split
  · next few =>
      refine ⟨fun _ => ⟨?_,?_⟩,fun _ => rfl⟩
      · intro all
        rw [all] at few
        exact absurd few (by decide)
      · intro camp dir ordered
        exact absurd few (UInt8.not_lt.mpr ordered.1)
  next few =>
  have enough := UInt8.not_lt.mp few
  split
  · next five =>
      refine (order_quiet (by decide)).trans ?_
      have only : ∀ camp dir, Ordered c camp dir ↔ camp = 5 ∧ dir = c.getSpecialDirection := by
        intro camp dir
        rw [Ordered,if_pos five]
        exact and_iff_right enough
      simp only [only]
      constructor
      · intro ⟨_,quiet⟩
        refine ⟨by rw [five]; decide,?_⟩
        rintro _ _ ⟨rfl,rfl⟩
        exact quiet
      · intro ⟨_,quiet⟩
        exact ⟨trivial,quiet 5 _ ⟨rfl,rfl⟩⟩
  · next other =>
      have each : ∀ camp dir, Ordered c camp dir ↔ 1 ≤ camp ∧ camp ≤ c.forceNum ∧ dir = c.attackDirect camp := by
        intro camp dir
        rw [Ordered,if_neg other]
        exact and_iff_right enough
      by_cases all : c.forceNum = 255
      · rw [all,oneTo_never]
        exact ⟨nofun,fun ⟨counted,_⟩ => absurd rfl counted⟩
      obtain ⟨camps,counted,members⟩ := oneTo_exact all
      have named : ∀ camp ∈ camps, camp ≠ 0 := by
        rintro _ member rfl
        exact absurd ((members 0).mp member).1 (by decide)
      rw [counted]
      refine (orders_quiet named).trans ?_
      simp only [each,members]
      constructor
      · intro ⟨_,quiet⟩
        refine ⟨all,?_⟩
        rintro camp _ ⟨low,high,rfl⟩
        exact quiet camp ⟨low,high⟩
      · intro ⟨_,quiet⟩
        exact ⟨trivial,fun camp inside => quiet camp _ ⟨inside.1,inside.2,rfl⟩⟩

theorem pass_eq (seen rest : Queues) (n : Numbers) :
    Camps.pass seen n rest =
      match (RoundRobin.pass rest).2 with
      | none => .error .erasedIterator
      | some left => .ok (seen ++ left,(RoundRobin.pass rest).1.foldl (fun n entry => n.add entry.2) n) := by
  induction rest generalizing seen n with
  | nil => simp [Camps.pass,RoundRobin.pass]
  | cons entry rest ih =>
      obtain ⟨camp,queue⟩ := entry
      cases queue with
      | nil => rfl
      | cons point queue =>
          rw [Camps.pass,ih]
          cases passed : (RoundRobin.pass rest).2 <;> simp [RoundRobin.pass,passed]

-- The last queue to run dry is erased under the iterator: with any entry at all
-- the loop ends there.
theorem number_faults {rounds : Nat} {m : Queues} {n : Numbers} (some : m ≠ []) (enough : RoundRobin.size m < rounds) :
    number rounds m n = .error .erasedIterator := by
  induction rounds generalizing m n with
  | zero => omega
  | succ rounds ih =>
      cases m with
      | nil => exact absurd rfl some
      | cons entry rest =>
          rw [number,pass_eq]
          cases passed : (RoundRobin.pass (entry :: rest)).2 with
          | none => rfl
          | some left =>
              obtain ⟨_,rfl,smaller⟩ := RoundRobin.pass_whole passed
              rw [List.length_cons] at smaller
              exact ih (by simp [RoundRobin.tails]) (by rw [List.nil_append]; omega)

theorem setEachPosNumber_ok {m : Queues} : setEachPosNumber m {} = .ok n ↔ m = [] ∧ n = {} := by
  unfold setEachPosNumber
  constructor
  · intro done
    by_cases empty : m = []
    · subst empty
      cases done
      exact ⟨rfl,rfl⟩
    · cases done.symm.trans (number_faults empty (Nat.lt_succ_self _))
  · rintro ⟨rfl,rfl⟩
    rfl

theorem initMapFight_ok {c : Camps} : c.initMapFight = .ok n ↔ c.setCampActId = some [] ∧ n = {} := by
  unfold initMapFight
  cases searched : c.setCampActId with
  | none => simp
  | some m => dsimp only; rw [setEachPosNumber_ok,Option.some_inj]

-- InitMapFight comes back with every acting cell numbered exactly when there is
-- nothing to number.
theorem numbers_exact_iff (c : Camps) : (∃ n, c.initMapFight = .ok n ∧ Numbered c n.num2pos) ↔ Bare c := by
  constructor
  · intro ⟨n,done,numbered⟩
    obtain ⟨searched,rfl⟩ := initMapFight_ok.mp done
    obtain ⟨counted,quiet⟩ := setCampActId_nil.mp searched
    refine ⟨?_,counted,quiet⟩
    intro p acting
    obtain ⟨_,member,_⟩ := numbered.once p acting
    cases member
  · intro ⟨idle,counted,quiet⟩
    refine ⟨{},initMapFight_ok.mpr ⟨setCampActId_nil.mpr ⟨counted,quiet⟩,rfl⟩,?_⟩
    constructor
    · exact fun p acting => absurd acting (idle p)
    · exact fun p _ _ acting => absurd acting (idle p)
    · exact fun p _ _ _ acting => absurd acting (idle p)
    · exact fun p _ _ _ acting => absurd acting (idle p)

-- Two cells of two camps: the second pass erases camp 1 and advances its
-- iterator.
def pair : Camps := {sizeX := 2,sizeY := 1,mapCamp := fun i => if i = 0 then 1 else if i = 1 then 2 else 0,actCamp := [1,2],attackDirect := fun _ => 1}

theorem pair_erased : (∀ camp, pair.attackDirect camp ≤ 4) ∧ pair.initMapFight = .error .erasedIterator ∧
    ¬∃ n, pair.initMapFight = .ok n ∧ Numbered pair n.num2pos := by
  have fault : pair.initMapFight = .error .erasedIterator := by decide +kernel
  refine ⟨fun _ => (by decide : (1 : UInt8) ≤ 4),fault,?_⟩
  intro ⟨n,done,_⟩
  rw [fault] at done
  cases done

end GameServer.Battle.Numbering
