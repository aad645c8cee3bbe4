import Mathlib.Data.List.Chain
import GameServer.Battle.SearchLists

namespace GameServer.Battle.Reach
open Ground SearchLists

-- The parent chain of a node, itself first, down to the start.
inductive Traced (b : Ground) (closeList : List Node) : Node → List Ascoord → Prop where
  | start : n.node = b.start → n.g = 0 → Traced b closeList n [n.node]
  | step {n p path} : n.node ≠ b.start → p ∈ closeList → n.parent = p.node → n.node ∈ getAround p.node → Passable b n.node →
      n.g = p.g + b.getGValue n.node → Traced b closeList p path → Traced b closeList n (n.node :: path)

-- A chain only goes to nodes closed earlier, so it is shorter than their number.
theorem traced_closed (closed : Closed b before) (within : before ⊆ closeList) (member : n ∈ before) :
    ∃ path, Traced b closeList n path ∧ path.length ≤ before.length := by
  induction closed generalizing n with
  | nil => cases member
  | @snoc before last path rooted ih =>
      have inner : before ⊆ closeList := fun m old => within (List.mem_append_left _ old)
      rcases List.mem_append.mp member with old | new
      · obtain ⟨path,traced,short⟩ := ih inner old
        exact ⟨path,traced,by rw [List.length_append]; omega⟩
      · obtain rfl := List.mem_singleton.mp new
        rcases rooted.2 with ⟨start,free⟩ | ⟨apart,p,earlier,parent,near,passable,cost⟩
        · exact ⟨_,.start start free,by simp⟩
        · obtain ⟨path,traced,short⟩ := ih inner earlier
          refine ⟨_,.step apart (inner earlier) parent near passable cost traced,?_⟩
          simp only [List.length_cons,List.length_append,List.length_nil]
          omega

theorem traced_rooted (closed : Closed b closeList) (rooted : Rooted b closeList n) :
    ∃ path, Traced b closeList n path ∧ path.length ≤ closeList.length + 1 := by
  rcases rooted.2 with ⟨start,free⟩ | ⟨apart,p,earlier,parent,near,passable,cost⟩
  · exact ⟨_,.start start free,by simp⟩
  · obtain ⟨path,traced,short⟩ := traced_closed closed (fun _ h => h) earlier
    exact ⟨_,.step apart earlier parent near passable cost traced,Nat.succ_le_succ short⟩

theorem find_member (distinct : (nodes closeList).Nodup) (member : n ∈ closeList) :
    findFromList closeList n.node = some n := by
  cases found : findFromList closeList n.node with
  | none => exact absurd (List.mem_map_of_mem member) (found_none.mp found)
  | some m =>
      obtain ⟨inside,same⟩ := found_parts found
      rw [only_node distinct inside member same]

theorem walkBack_traced (distinct : (nodes closeList).Nodup) (traced : Traced b closeList n path)
    (enough : path.length ≤ rounds) : b.walkBack closeList rounds (some n) = some path := by
  induction traced generalizing rounds with
  | start same _ =>
      cases rounds with
      | zero => simp at enough
      | succ rounds => rw [walkBack,if_neg (not_not.mpr same)]
  | step apart member parent _ _ _ _ ih =>
      cases rounds with
      | zero => simp at enough
      | succ rounds =>
          rw [walkBack,if_pos apart,parent,find_member distinct member,ih (Nat.le_of_succ_le_succ enough)]
          rfl

-- A way from the end back to the start, as GetRoute lists it.
structure Route (b : Ground) (path : List Ascoord) : Prop where
  ends : path.head? = some b.target
  starts : path.getLast? = some b.start
  joined : path.IsChain fun cell parent => cell ∈ getAround parent
  clear : ∀ c ∈ path, c ≠ b.start → Passable b c

theorem traced_parts (traced : Traced b closeList n path) : path.head? = some n.node ∧ path.getLast? = some b.start ∧
    path.IsChain (fun cell parent => cell ∈ getAround parent) ∧ ∀ c ∈ path.dropLast, Passable b c := by
  induction traced with
  | start same _ => exact ⟨rfl,by rw [same]; rfl,List.isChain_singleton _,by simp⟩
  | @step n p path _ _ _ near free _ tail ih =>
      obtain ⟨ends,starts,joined,clear⟩ := ih
      cases path with
      | nil => cases ends
      | cons first rest =>
          cases ends
          refine ⟨rfl,by rw [←starts]; rfl,List.isChain_cons_cons.mpr ⟨near,joined⟩,fun c member => ?_⟩
          rcases List.mem_cons.mp member with rfl | later
          · exact free
          · exact clear c later

theorem mem_dropLast {path : List Ascoord} (last : path.getLast? = some s) (member : c ∈ path) (other : c ≠ s) :
    c ∈ path.dropLast := by
  obtain ⟨front,rfl⟩ := List.getLast?_eq_some_iff.mp last
  rw [List.dropLast_concat]
  rcases List.mem_append.mp member with inside | same
  · exact inside
  · exact absurd (List.mem_singleton.mp same) other

-- Cells that hold the start and every passable neighbour of theirs hold every route.
theorem route_inside {inside : Ascoord → Prop} (seed : inside b.start)
    (closure : ∀ c d, inside c → d ∈ getAround c → Passable b d → inside d) (path : List Ascoord)
    (starts : path.getLast? = some b.start) (joined : path.IsChain fun cell parent => cell ∈ getAround parent)
    (clear : ∀ c ∈ path, c ≠ b.start → Passable b c) : ∀ c ∈ path, inside c := by
  induction path with
  | nil => cases starts
  | cons first rest ih =>
      cases rest with
      | nil =>
          intro c member
          cases Option.some.inj starts
          rw [List.mem_singleton.mp member]; exact seed
      | cons second rest =>
          obtain ⟨near,later⟩ := List.isChain_cons_cons.mp joined
          have tail := ih starts later fun c member => clear c (List.mem_cons_of_mem _ member)
          intro c member
          rcases List.mem_cons.mp member with rfl | old
          · by_cases start : c = b.start
            · rw [start]; exact seed
            · exact closure second c (tail second (List.mem_cons_self ..)) near (clear c (List.mem_cons_self ..) start)
          · exact tail c old

-- A search that runs dry has closed everything a route could use.
theorem dry_no_route (valid : Between b [] closeList) : ¬∃ path, Route b path := by
  intro ⟨path,route⟩
  have begun := valid.begun
  have unseen := valid.unseen
  rw [List.append_nil] at begun unseen
  refine unseen (route_inside begun (fun c d closed near free => ?_) path route.starts
    route.joined route.clear b.target (List.mem_of_mem_head? route.ends))
  obtain ⟨n,member,rfl⟩ := List.mem_map.mp closed
  rcases valid.offered n member d (by simpa [checkUp] using ⟨near,free.1⟩) free.2 with closed | ⟨_,none_left,_⟩
  · exact closed
  · cases none_left

-- A search that pushes the end has a node whose chain GetRoute walks.
theorem hit_route (valid : Between b openList closeList)
    (moved : b.round openList closeList = some (true,openList',closeList')) :
    ∃ n path, n ∈ openList' ∧ n.node = b.target ∧ Traced b closeList' n path ∧
      b.getRoute ⟨true,openList',closeList'⟩ = some (true,path) := by
  obtain ⟨node,rest,parts⟩ := round_parts valid.labels moved
  have labels := parts.expanded.labels
  obtain ⟨n,member,same⟩ := List.mem_map.mp (parts.expanded.arrived rfl)
  cases found : findFromList openList' b.target with
  | none => exact absurd (same ▸ List.mem_map_of_mem member) (found_none.mp found)
  | some m =>
      obtain ⟨inside,here⟩ := found_parts found
      obtain ⟨path,traced,short⟩ := traced_rooted labels.closed (labels.rooted m inside)
      have apart : m.node ≠ b.start := fun start => valid.unseen (by rw [←here,start]; exact valid.begun)
      have distinct := (labels_distinct labels).1
      refine ⟨m,path,inside,here,traced,?_⟩
      unfold getRoute
      simp only [found]
      cases traced with
      | start start _ => exact absurd start apart
      | step _ closed parent _ _ _ chain =>
          rw [parent,find_member distinct closed,walkBack_traced distinct chain (Nat.le_of_succ_le short)]
          rfl

theorem hit_listed (valid : Between b openList closeList)
    (moved : b.round openList closeList = some (true,openList',closeList')) :
    ∃ path, b.getRoute ⟨true,openList',closeList'⟩ = some (true,path) ∧ Route b path ∧ ∀ c ∈ path.dropLast, Passable b c := by
  obtain ⟨n,path,_,here,traced,listed⟩ := hit_route valid moved
  obtain ⟨ends,starts,joined,clear⟩ := traced_parts traced
  exact ⟨path,listed,⟨by rw [ends,here],starts,joined,fun c member other => clear c (mem_dropLast starts member other)⟩,clear⟩

-- ComputeRoute finds a route exactly when there is one, and GetRoute lists it.
theorem route_exact (b : Ground) (apart : b.start ≠ b.target) :
    ∃ s, b.computeRoute = some s ∧ (s.found = true ↔ ∃ path, Route b path) ∧
      (s.found = true → ∃ path, b.getRoute s = some (true,path) ∧ Route b path ∧ ∀ c ∈ path.dropLast, Passable b c) ∧
      (s.found = false → b.getRoute s = some (false,[])) := by
  obtain ⟨s,computed,ended⟩ := compute_total b
  refine ⟨s,computed,?_⟩
  cases ended with
  | dry searching dry =>
      obtain rfl := dry_bare dry
      have no_route := dry_no_route (searching_between apart searching)
      exact ⟨⟨nofun,fun route => absurd route no_route⟩,nofun,fun _ => rfl⟩
  | hit searching moved =>
      obtain ⟨path,listed,route,clear⟩ := hit_listed (searching_between apart searching) moved
      exact ⟨⟨fun _ => ⟨path,route⟩,fun _ => rfl⟩,fun _ => ⟨path,listed,route,clear⟩,nofun⟩

-- Two grass cells side by side.
def lane : Ground := {sizeX := 2,sizeY := 1,mapGround := fun _ => 1,target := ⟨1,0⟩}

theorem route_exact_lane : ∃ s, lane.computeRoute = some s ∧ (s.found = true ↔ ∃ path, Route lane path) ∧
    (s.found = true → ∃ path, lane.getRoute s = some (true,path) ∧ Route lane path ∧
      ∀ c ∈ path.dropLast, Passable lane c) ∧
    (s.found = false → lane.getRoute s = some (false,[])) :=
  route_exact lane (by decide)

end GameServer.Battle.Reach
