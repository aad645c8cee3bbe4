import Mathlib.Algebra.Group.Nat.Even
import Mathlib.Algebra.GroupWithZero.Nat
import GameServer.Library.BestFirst
import GameServer.Battle.Hex
import GameServer.Battle.Reach

namespace GameServer.Battle.Shortest
open Ground Hex SearchLists Reach BestFirst

-- Every cost the search asks for is a read inside the RideSub table.
def Tabled (b : Ground) : Prop :=
  (1 ≤ b.current.typeId ∧ b.current.typeId ≤ 3) ∧ ∀ p, Passable b p → 1 ≤ b.ground p ∧ b.ground p ≤ 4

def weight (b : Ground) (p : Ascoord) : Nat := (b.getGValue p).toNat

def total (b : Ground) (path : List Ascoord) : Nat := (path.dropLast.map (weight b)).sum

def Step (b : Ground) (c d : Ascoord) : Prop :=
  b.isInMap c = true ∧ d ∈ getAround c ∧ Passable b d ∧ d ≠ b.start

def guess (b : Ground) (p : Ascoord) : Nat := (b.getHValue p).toNat

theorem small_cases (low : 1 ≤ t) (high : t ≤ (4 : UInt8)) : t = 1 ∨ t = 2 ∨ t = 3 ∨ t = 4 := by
  rw [UInt8.le_iff_toNat_le] at low high
  simp only [←UInt8.toNat_inj]
  simp only [UInt8.toNat_ofNat] at low high ⊢
  omega

-- The table's costs are 1, 2 and 3, and GetGValue doubles them.
theorem weight_parts (tabled : Tabled b) (free : Passable b p) : 2 ∣ weight b p ∧ 2 ≤ weight b p := by
  obtain ⟨⟨low,high⟩,form⟩ := tabled
  obtain ⟨low',high'⟩ := form p free
  have inTable : weight b p = ((rideSub.getD (b.current.typeId-1).toNat []).getD (b.ground p-1).toNat 0 * 2).toNat := by
    unfold weight getGValue getRideSub
    rw [if_pos ⟨low,high,low',high'⟩]
  have type := small_cases low (UInt8.le_trans high (by decide))
  rw [inTable]
  rcases small_cases low' high' with ground | ground | ground | ground <;>
    rcases type with type | type | type | type <;> rw [ground,type] <;> first | decide | (rw [type] at high; exact absurd high (by decide))

theorem narrow_x {b : Ground} {p : Ascoord} (narrow : b.sizeX ≤ 127) (inside : b.isInMap p = true) : p.x.toNat < 127 := by
  simp only [isInMap,Bool.and_eq_true,decide_eq_true_eq,UInt8.lt_iff_toNat_lt] at inside
  rw [UInt8.le_iff_toNat_le] at narrow
  have : (127 : UInt8).toNat = 127 := rfl
  omega

theorem guess_eq (narrow : p.x.toNat < 127) (narrowEnd : b.target.x.toNat < 127) :
    guess b p = ((column p : Int) - column b.target).natAbs := by
  have small : column p < 256 ∧ column b.target < 256 := by unfold column; omega
  unfold guess getHValue
  dsimp only
  rw [converted_narrow narrow,converted_narrow narrowEnd,Int.sub_self,Int.natAbs_zero,Nat.add_zero,UInt8.toNat_ofNat']
  omega

-- A step pays two at least, and changes the guess by two at most.
theorem consistent (narrow : b.sizeX ≤ 127) (tabled : Tabled b) (inEnd : b.isInMap b.target = true) :
    Consistent (Step b) (weight b) (guess b) := by
  intro c d ⟨inside,near,free,_⟩
  have pays := (weight_parts tabled free).2
  rw [guess_eq (narrow_x narrow inside) (narrow_x narrow inEnd),guess_eq (narrow_x narrow free.1) (narrow_x narrow inEnd)]
  have := around_columns near (narrow_x narrow inside) (narrow_x narrow free.1)
  omega

theorem guess_beside (narrow : b.sizeX ≤ 127) (inside : b.isInMap p = true) (inEnd : b.isInMap b.target = true)
    (near : b.target ∈ getAround p) : 1 ≤ guess b p ∧ guess b p ≤ 2 := by
  rw [guess_eq (narrow_x narrow inside) (narrow_x narrow inEnd)]
  have := around_columns near (narrow_x narrow inside) (narrow_x narrow inEnd)
  omega

theorem step_even (tabled : Tabled b) (c d : Ascoord) (step : Step b c d) : 2 ∣ weight b d :=
  (weight_parts tabled step.2.2.1).1

theorem total_cons (b : Ground) (c : Ascoord) (path : List Ascoord) (some : path ≠ []) : total b (c :: path) = weight b c + total b path := by
  obtain ⟨first,rest,rfl⟩ := List.exists_cons_of_ne_nil some
  rfl

-- A route is a walk that costs no more: coming back to the start is left out.
theorem route_walk {c : Ascoord} (inStart : b.isInMap b.start = true) (path : List Ascoord) (head : path.head? = some c)
    (starts : path.getLast? = some b.start) (joined : path.IsChain fun cell parent => cell ∈ getAround parent)
    (clear : ∀ c ∈ path, c ≠ b.start → Passable b c) :
    ∃ n, n ≤ total b path ∧ Walk (Step b) (weight b) b.start c n := by
  induction path generalizing c with
  | nil => cases head
  | cons first rest ih =>
      obtain rfl := Option.some.inj head
      by_cases start : first = b.start
      · exact ⟨0,Nat.zero_le _,start ▸ .start⟩
      cases rest with
      | nil => exact absurd (Option.some.inj starts) start
      | cons second rest =>
          obtain ⟨near,later⟩ := List.isChain_cons_cons.mp joined
          obtain ⟨n,bound,walk⟩ := ih rfl starts later fun d member => clear d (List.mem_cons_of_mem _ member)
          have inside : b.isInMap second = true := by
            by_cases same : second = b.start
            · rw [same]; exact inStart
            · exact (clear second (by simp) same).1
          refine ⟨n + weight b first,?_,.step walk ⟨inside,near,clear first (List.mem_cons_self ..) start,start⟩⟩
          rw [total_cons _ _ _ (List.cons_ne_nil _ _)]
          omega

theorem traced_even (tabled : Tabled b) (traced : Traced b closeList n path) : 2 ∣ total b path := by
  induction traced with
  | start _ _ => exact Nat.dvd_zero 2
  | step _ _ _ _ free _ tail ih =>
      rw [total_cons _ _ _ (by rintro rfl; cases tail)]
      exact Nat.dvd_add (weight_parts tabled free).1 ih

def Unwrapped (b : Ground) (openList closeList : List Node) : Prop :=
  ∀ n ∈ closeList ++ openList, n.node ≠ b.start → ∀ p ∈ closeList, n.parent = p.node →
    p.g.toNat + (b.getGValue n.node).toNat < 256

theorem traced_exact (unwrapped : Unwrapped b openList closeList) (member : n ∈ closeList ++ openList)
    (traced : Traced b closeList n path) : n.g.toNat = total b path := by
  induction traced with
  | start _ free => rw [free]; rfl
  | @step n p path apart closed parent _ _ cost tail ih =>
      have some : path ≠ [] := by rintro rfl; cases tail
      have fits := unwrapped n member apart p closed parent
      rw [total_cons _ _ _ some,cost,UInt8.toNat_add,←ih (List.mem_append_left _ closed)]
      have : (b.getGValue n.node).toNat = weight b n.node := rfl
      omega

def Labelled (list : List Node) (c : Ascoord) (g : Nat) : Prop := ∃ n ∈ list, n.node = c ∧ n.g.toNat = g

theorem labelled_node (labelled : Labelled list c g) : c ∈ nodes list := by
  obtain ⟨n,member,rfl,_⟩ := labelled
  exact List.mem_map_of_mem member

theorem labelled_of_node (member : c ∈ nodes list) : ∃ g, Labelled list c g := by
  obtain ⟨n,inside,rfl⟩ := List.mem_map.mp member
  exact ⟨_,n,inside,rfl,rfl⟩

def Least (b : Ground) (closeList : List Node) : Prop :=
  ∀ n ∈ closeList, ∀ m, Walk (Step b) (weight b) b.start n.node m → n.g.toNat ≤ m

-- Between two rounds the two lists are a frontier of the search.
theorem frontier (valid : Between b openList closeList) (least : Least b closeList) :
    Frontier (Step b) (weight b) b.start (Labelled closeList) (Labelled openList) := by
  refine ⟨?_,?_,?_⟩
  · have begun := valid.begun
    rw [nodes_append] at begun
    rcases List.mem_append.mp begun with closed | opened
    · exact .inl (labelled_of_node closed)
    · obtain ⟨n,member,start⟩ := List.mem_map.mp opened
      rcases (valid.labels.rooted n member).2 with ⟨_,free⟩ | ⟨apart,_⟩
      · exact .inr ⟨n,member,start,by rw [free]; rfl⟩
      · exact absurd start apart
  · rintro c g d ⟨n,member,rfl,rfl⟩ ⟨_,near,free,_⟩
    rcases valid.offered n member d (by simpa [checkUp] using ⟨near,free.1⟩) free.2 with closed | ⟨m,inside,same,bound⟩
    · exact .inl (labelled_of_node closed)
    · refine .inr ⟨_,⟨m,inside,same,rfl⟩,?_⟩
      have sum := UInt8.le_iff_toNat_le.mp bound
      rw [UInt8.toNat_add] at sum
      have : (b.getGValue d).toNat = weight b d := rfl
      have := Nat.mod_le (n.g.toNat + weight b d) (2^8)
      omega
  · rintro c g m ⟨n,member,rfl,rfl⟩ walk
    exact least n member m walk

theorem popped_best (labels : Labels b openList closeList) (popped : Popped openList node rest) :
    Best (guess b) (Labelled openList) node.node node.g.toNat := by
  have inside : node ∈ openList := popped.perm.mem_iff.mpr (List.mem_cons_self ..)
  refine ⟨⟨node,inside,rfl,rfl⟩,?_⟩
  rintro d g ⟨n,member,rfl,rfl⟩
  have order := popped.least n member
  unfold promise at order
  rw [(labels.rooted n member).1,(labels.rooted node inside).1] at order
  exact order

theorem popped_open (labels : Labels b openList closeList) (popped : Popped openList node rest) :
    node.node ∉ nodes closeList := by
  have distinct := labels.distinct
  rw [nodes_append] at distinct
  intro closed
  have inside : node.node ∈ nodes openList := List.mem_map_of_mem (popped.perm.mem_iff.mpr (List.mem_cons_self ..))
  exact (List.nodup_append.mp distinct).2.2 _ closed _ inside rfl

-- The closed nodes have least costs, whatever wrapped on the way.
theorem searching_least (apart : b.start ≠ b.target) (steady : Consistent (Step b) (weight b) (guess b))
    (searching : Searching b openList closeList) : Least b closeList := by
  induction searching with
  | start => exact nofun
  | round before moved ih =>
      have valid := searching_between apart before
      obtain ⟨node,rest,parts⟩ := round_parts valid.labels moved
      rw [parts.closes]
      intro n member m walk
      rcases List.mem_append.mp member with old | new
      · exact ih n old m walk
      · rw [List.mem_singleton.mp new] at walk ⊢
        exact popped_least (frontier valid ih) steady (popped_best valid.labels parts.popped)
          (fun g closed => popped_open valid.labels parts.popped (labelled_node closed)) walk

-- The end is not seen before it is pushed, so no neighbour of it was closed.
theorem before_end (valid : Between b openList closeList) (free : Passable b b.target) (near : b.target ∈ getAround q) :
    q ∉ nodes closeList := by
  intro closed
  obtain ⟨n,member,rfl⟩ := List.mem_map.mp closed
  have unseen := valid.unseen
  rw [nodes_append] at unseen
  rcases valid.offered n member b.target (by simpa [checkUp] using ⟨near,free.1⟩) free.2 with old | offered
  · exact unseen (List.mem_append_left _ old)
  · exact unseen (List.mem_append_right _ (offered_nodes offered))

-- On a map of at most 127 columns GetRoute lists a cheapest route, although the
-- search stops when the end is pushed: all costs are even, and the neighbours
-- of the end guess 1 or 2.
theorem route_shortest (b : Ground) (s : Search) (narrow : b.sizeX ≤ 127) (tabled : Tabled b)
    (inStart : b.isInMap b.start = true) (apart : b.start ≠ b.target) (computed : b.computeRoute = some s)
    (found : s.found = true) (unwrapped : Unwrapped b s.openList s.closeList) :
    ∃ path, b.getRoute s = some (true,path) ∧ Route b path ∧ ∀ other, Route b other → total b path ≤ total b other := by
  have ended := search_parts .start computed
  cases ended with
  | dry => cases found
  | @hit openList closeList openList' closeList' searching moved =>
      have valid := searching_between apart searching
      obtain ⟨n,path,member,here,traced,listed⟩ := hit_route valid moved
      obtain ⟨ends,starts,joined,clear⟩ := traced_parts traced
      refine ⟨path,listed,⟨by rw [ends,here],starts,joined,fun c inside other => clear c (mem_dropLast starts inside other)⟩,?_⟩
      intro other route
      obtain ⟨m,bound,walk⟩ := route_walk inStart other route.ends route.starts route.joined route.clear
      refine Nat.le_trans ?_ bound
      obtain ⟨node,rest,parts⟩ := round_parts valid.labels moved
      rw [←traced_exact unwrapped (List.mem_append_right _ member) traced]
      cases traced with
      | start start _ => exact absurd (start.symm.trans here) apart
      | @step _ p tail _ closed parent near free cost chain =>
          have inPath := traced_exact unwrapped (List.mem_append_left _ closed) chain
          rw [here] at near free
          -- the parent is the node this round closed
          have own : p = node := by
            rw [parts.closes] at closed
            rcases List.mem_append.mp closed with old | new
            · exact absurd (List.mem_map_of_mem old) (before_end valid free near)
            · exact List.mem_singleton.mp new
          subst own
          have steady := consistent narrow tabled free.1
          have inside : b.isInMap p.node = true :=
            rooted_inside inStart (valid.labels.rooted p (parts.popped.perm.mem_iff.mpr (List.mem_cons_self ..)))
          have pushed := pushed_least (frontier valid (searching_least apart steady searching)) steady
            (popped_best valid.labels parts.popped) (by rw [inPath]; exact traced_even tabled chain) (step_even tabled)
            (Ne.symm apart) (fun q step => ?_) walk
          · have fits := unwrapped n (List.mem_append_right _ member) (here ▸ Ne.symm apart) p closed parent
            have : (b.getGValue n.node).toNat = weight b b.target := by rw [here]; rfl
            rw [cost,UInt8.toNat_add]
            omega
          · have near' := guess_beside narrow step.1 free.1 step.2.1
            have own' := guess_beside narrow inside free.1 near
            exact ⟨fun g gone => before_end valid free step.2.1 (labelled_node gone),by omega⟩

-- A hill between start and end, with a way round it.
def field : Ground := {sizeX := 3,sizeY := 2,mapGround := fun i => if i = 1 then 4 else 1,target := ⟨2,0⟩}

def fieldSearch : Search := {
  found := true
  openList := [⟨⟨1,0⟩,⟨0,0⟩,6,2⟩,⟨⟨2,1⟩,⟨1,1⟩,6,1⟩,⟨⟨2,0⟩,⟨1,1⟩,6,0⟩]
  closeList := [⟨⟨0,0⟩,⟨0,0⟩,0,4⟩,⟨⟨0,1⟩,⟨0,0⟩,2,3⟩,⟨⟨1,1⟩,⟨0,1⟩,4,1⟩]}

theorem tabled_field : Tabled field := by
  refine ⟨by decide,fun p _ => ?_⟩
  unfold ground field
  dsimp only
  split <;> decide

theorem unwrapped_field : Unwrapped field fieldSearch.openList fieldSearch.closeList := by
  unfold Unwrapped
  decide +kernel

theorem route_shortest_field : ∃ path, field.getRoute fieldSearch = some (true,path) ∧ Route field path ∧
    ∀ other, Route field other → total field path ≤ total field other :=
  route_shortest field fieldSearch (by decide) tabled_field (by decide) (by decide) (by decide +kernel) rfl unwrapped_field

end GameServer.Battle.Shortest
