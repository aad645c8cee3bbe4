import GameServer.Battle.Counters

namespace GameServer.Battle.RouteSafety
open Ground SearchLists Reach Aim Counters

-- No two nodes of one cell, and no parent chain that leaves the closed nodes; the
-- costs do not occur.
structure Chained (b : Ground) (openList closeList : List Node) : Prop where
  single : (nodes (closeList ++ openList)).Nodup
  parents : ∀ n ∈ closeList ++ openList, n.node ≠ b.start → n.parent ∈ nodes closeList

theorem rooted_parent (rooted : Rooted b closeList n) (apart : n.node ≠ b.start) : n.parent ∈ nodes closeList := by
  rcases rooted.2 with ⟨start,_⟩ | ⟨_,p,closed,parent,_⟩
  · exact absurd start apart
  · rw [parent]
    exact List.mem_map_of_mem closed

theorem labels_chained (labels : Labels b openList closeList) : Chained b openList closeList := by
  refine ⟨labels.distinct,fun n member apart => ?_⟩
  rcases List.mem_append.mp member with inClose | inOpen
  · exact rooted_parent (closed_rooted labels.closed inClose) apart
  · exact rooted_parent (labels.rooted n inOpen) apart

theorem moment_chained (moment : Moment b openList closeList phase) : Chained b openList closeList :=
  labels_chained (moment_sound moment).labels

-- The walk over the parents of a search that found the end comes to the start.
theorem ended_listed (ended : Ended b s) (found : s.found = true) : ∃ path, b.getRoute s = some (true,path) := by
  cases ended with
  | dry _ _ => cases found
  | hit searching moved =>
      obtain ⟨_,path,_,_,_,listed⟩ := hit_route (searching_between (hit_apart searching moved) searching) moved
      exact ⟨path,listed⟩

-- ComputeRoute comes to an end on every ground, its lists are chained at every
-- moment on the way and in the end, and GetRoute lists what it found.
theorem search_safe (b : Ground) :
    (∀ openList closeList phase, Moment b openList closeList phase → Chained b openList closeList) ∧
      ∃ s, b.computeRoute = some s ∧ (∃ phase, Moment b s.openList s.closeList phase) ∧
        Chained b s.openList s.closeList ∧ (s.found = true → ∃ path, b.getRoute s = some (true,path)) := by
  refine ⟨fun _ _ _ => moment_chained,?_⟩
  obtain ⟨s,computed,ended⟩ := compute_total b
  obtain ⟨phase,moment⟩ := search_moment (.start (b:=b)) computed
  exact ⟨s,computed,⟨phase,moment⟩,moment_chained moment,ended_listed ended⟩

theorem traced_unique (distinct : (nodes closeList).Nodup) (one : Traced b closeList n path) (two : Traced b closeList n path') :
    path = path' := by
  induction one generalizing path' with
  | start same _ =>
      cases two with
      | start _ _ => rfl
      | step apart _ _ _ _ _ _ => exact absurd same apart
  | step apart closed parent _ _ _ _ ih =>
      cases two with
      | start same _ => exact absurd same apart
      | step _ closed' parent' _ _ _ tail =>
          obtain rfl := only_node distinct closed closed' (parent.symm.trans parent')
          rw [ih tail]

-- The chain of a closed node goes through nodes closed before it, so it does not
-- come back to a cell.
theorem traced_once (closed : Closed b before) (within : before ⊆ closeList) (distinct : (nodes before).Nodup) (member : n ∈ before) :
    ∃ path, Traced b closeList n path ∧ path.Nodup ∧ ∀ c ∈ path, c ∈ nodes before := by
  induction closed generalizing n with
  | nil => cases member
  | @snoc before last _ rooted ih =>
      have inner : before ⊆ closeList := fun m old => within (List.mem_append_left _ old)
      rw [nodes_append] at distinct ⊢
      obtain ⟨first,_,other⟩ := List.nodup_append.mp distinct
      rcases List.mem_append.mp member with old | new
      · obtain ⟨path,traced,once,cells⟩ := ih inner first old
        exact ⟨path,traced,once,fun c inside => List.mem_append_left _ (cells c inside)⟩
      · obtain rfl := List.mem_singleton.mp new
        have here : n.node ∈ nodes before ++ nodes [n] := List.mem_append_right _ (List.mem_singleton_self _)
        rcases rooted.2 with ⟨start,free⟩ | ⟨apart,p,earlier,parent,near,passable,cost⟩
        · exact ⟨_,.start start free,List.nodup_singleton _,fun c inside => List.mem_singleton.mp inside ▸ here⟩
        · obtain ⟨path,traced,once,cells⟩ := ih inner first earlier
          have unseen : n.node ∉ path := fun inside =>
            other n.node (cells n.node inside) n.node (List.mem_singleton_self _) rfl
          refine ⟨_,.step apart (inner earlier) parent near passable cost traced,List.nodup_cons.mpr ⟨unseen,once⟩,?_⟩
          exact List.forall_mem_cons.mpr ⟨here,fun c inside => List.mem_append_left _ (cells c inside)⟩

theorem listed_once (ended : Ended b s) (listed : b.getRoute s = some (found,path)) : path.Nodup := by
  cases ended with
  | dry _ dry =>
      rw [dry_bare dry] at listed
      cases listed
      exact List.nodup_nil
  | hit searching moved =>
      obtain ⟨n,path',inside,_,traced,listed'⟩ := hit_route (searching_between (hit_apart searching moved) searching) moved
      obtain ⟨_,_,parts⟩ := round_parts (searching_labels searching) moved
      have labels := parts.expanded.labels
      have distinct := labels.distinct
      rw [nodes_append] at distinct
      obtain ⟨distinct,_,other⟩ := List.nodup_append.mp distinct
      rw [listed'] at listed
      cases listed
      cases traced with
      | start _ _ => exact List.nodup_singleton _
      | step _ closed _ _ _ _ tail =>
          obtain ⟨path,traced,once,cells⟩ := traced_once labels.closed (fun _ h => h) distinct closed
          obtain rfl := traced_unique distinct traced tail
          refine List.nodup_cons.mpr ⟨fun seen => ?_,once⟩
          exact other _ (cells _ seen) _ (List.mem_map_of_mem inside) rfl

theorem found_once {b : Ground} {start goal : Ascoord} {path : List Ascoord} (found : b.findRoute start goal = some path) : path.Nodup := by
  obtain ⟨s,computed,ended⟩ := compute_total (between b start goal)
  unfold findRoute at found
  replace found : ((between b start goal).computeRoute.bind fun s => ((between b start goal).getRoute s).bind fun r => some r.2) =
    some path := found
  rw [computed,Option.bind_some] at found
  obtain ⟨⟨hit,list⟩,listed,same⟩ := Option.bind_eq_some_iff.mp found
  cases same
  exact listed_once ended listed

end GameServer.Battle.RouteSafety
