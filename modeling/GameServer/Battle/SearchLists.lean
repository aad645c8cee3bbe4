import Mathlib.Data.List.Nodup
import Mathlib.Data.List.Perm.Subperm
import GameServer.Battle.Route

namespace GameServer.Battle.SearchLists
open Ground

def Passable (b : Ground) (p : Ascoord) : Prop := b.isInMap p = true ∧ b.isObstract p = false

def nodes (list : List Node) : List Ascoord := list.map (·.node)

theorem in_list (list : List Node) (p : Ascoord) : isInList list p = true ↔ p ∈ nodes list := by
  simp [isInList,nodes,List.any_eq_true]

theorem found_parts (found : findFromList list p = some n) : n ∈ list ∧ n.node = p :=
  ⟨List.mem_of_find?_eq_some found,by simpa using List.find?_some found⟩

theorem found_none : findFromList list p = none ↔ p ∉ nodes list := by
  simp [findFromList,nodes]

theorem nodes_reparent (list : List Node) (cur parent : Ascoord) (g : UInt8) :
    nodes (reparent list cur parent g) = nodes list := by
  induction list with
  | nil => rfl
  | cons node rest ih =>
      rw [reparent]
      split
      · rfl
      · exact congrArg (node.node :: ·) ih

-- Writing through the pointer found changes one node, which keeps its cell and h.
theorem reparent_parts (member : n ∈ reparent list cur parent g) :
    n ∈ list ∨ ∃ old ∈ list, old.node = cur ∧ n = {old with g,parent} := by
  induction list with
  | nil => cases member
  | cons node rest ih =>
      rw [reparent] at member
      split at member
      · rename_i here
        rcases List.mem_cons.mp member with rfl | later
        · exact .inr ⟨node,List.mem_cons_self ..,here,rfl⟩
        · exact .inl (List.mem_cons_of_mem _ later)
      · rcases List.mem_cons.mp member with rfl | later
        · exact .inl (List.mem_cons_self ..)
        · rcases ih later with old | ⟨old,inside,rest⟩
          · exact .inl (List.mem_cons_of_mem _ old)
          · exact .inr ⟨old,List.mem_cons_of_mem _ inside,rest⟩

theorem only_node (distinct : (nodes list).Nodup) (one : a ∈ list) (two : c ∈ list) (same : a.node = c.node) : a = c :=
  List.inj_on_of_nodup_map distinct one two same

-- A node of the cell at most that dear.
def Offered (list : List Node) (c : Ascoord) (g : UInt8) : Prop := ∃ m ∈ list, m.node = c ∧ m.g ≤ g

theorem offered_self {list : List Node} (member : n ∈ list) : Offered list n.node n.g :=
  ⟨n,member,rfl,UInt8.le_refl _⟩

theorem offered_cheaper (offered : Offered list c g) (cheaper : ∀ m ∈ list, Offered after m.node m.g) : Offered after c g := by
  obtain ⟨m,member,rfl,bound⟩ := offered
  obtain ⟨m',member',same,bound'⟩ := cheaper m member
  exact ⟨m',member',same,UInt8.le_trans bound' bound⟩

theorem offered_nodes (offered : Offered list c g) : c ∈ nodes list := by
  obtain ⟨m,member,rfl,_⟩ := offered
  exact List.mem_map_of_mem member

theorem reparent_offers (below : ∀ m ∈ list, m.node = cur → g ≤ m.g) (member : m ∈ list) :
    Offered (reparent list cur parent g) m.node m.g := by
  induction list with
  | nil => cases member
  | cons node rest ih =>
      rw [reparent]
      split
      · rename_i here
        rcases List.mem_cons.mp member with rfl | later
        · exact ⟨_,List.mem_cons_self ..,rfl,below m (List.mem_cons_self ..) here⟩
        · exact offered_self (List.mem_cons_of_mem _ later)
      · rcases List.mem_cons.mp member with rfl | later
        · exact offered_self (List.mem_cons_self ..)
        · obtain ⟨m',inside,same⟩ := ih (fun n old => below n (List.mem_cons_of_mem _ old)) later
          exact ⟨m',List.mem_cons_of_mem _ inside,same⟩

theorem reparent_node (member : cur ∈ nodes list) :
    ∃ n ∈ reparent list cur parent g, n.node = cur ∧ n.parent = parent ∧ n.g = g := by
  induction list with
  | nil => cases member
  | cons node rest ih =>
      rw [reparent]
      split
      · rename_i here
        exact ⟨_,List.mem_cons_self ..,here,rfl,rfl⟩
      · rename_i other
        rcases List.mem_cons.mp member with same | later
        · exact absurd same.symm other
        · obtain ⟨n,inside,facts⟩ := ih later
          exact ⟨n,List.mem_cons_of_mem _ inside,facts⟩

def promise (n : Node) : Nat := n.g.toNat + n.h.toNat

theorem best_fold (rest : List Node) (first : Node) :
    let best := rest.foldl (fun node it => if node.g.toNat+node.h.toNat > it.g.toNat+it.h.toNat then it else node) first
    best ∈ first :: rest ∧ ∀ n ∈ first :: rest, promise best ≤ promise n := by
  induction rest generalizing first with
  | nil => simp
  | cons it rest ih =>
      dsimp only at ih ⊢
      rw [List.foldl_cons]
      split
      · rename_i worse
        obtain ⟨member,least⟩ := ih it
        refine ⟨List.mem_cons_of_mem _ member,fun n inside => ?_⟩
        rcases List.mem_cons.mp inside with rfl | later
        · exact Nat.le_trans (least it (List.mem_cons_self ..)) (Nat.le_of_lt worse)
        · exact least n later
      · rename_i better
        obtain ⟨member,least⟩ := ih first
        refine ⟨?_,fun n inside => ?_⟩
        · rcases List.mem_cons.mp member with same | later
          · rw [same]; exact List.mem_cons_self ..
          · exact List.mem_cons_of_mem _ (List.mem_cons_of_mem _ later)
        · rcases List.mem_cons.mp inside with rfl | later
          · exact least n (List.mem_cons_self ..)
          · rcases List.mem_cons.mp later with rfl | last
            · exact Nat.le_trans (least first (List.mem_cons_self ..)) (Nat.not_lt.mp better)
            · exact least n (List.mem_cons_of_mem _ last)

-- What PopBestStep takes out of a list that holds no cell twice.
structure Popped (list : List Node) (best : Node) (rest : List Node) : Prop where
  least : ∀ n ∈ list, promise best ≤ promise n
  perm : list.Perm (best :: rest)

theorem popped_parts (distinct : (nodes list).Nodup) (popped : popBestStep list = some (best,rest)) :
    Popped list best rest := by
  cases list with
  | nil => cases popped
  | cons first tail =>
      obtain ⟨member,least⟩ := best_fold tail first
      cases popped
      refine ⟨least,?_⟩
      obtain ⟨a,left,right,_,same,split,erased⟩ := List.exists_of_eraseP (p:=(·.node == (tail.foldl (fun node it =>
        if node.g.toNat+node.h.toNat > it.g.toNat+it.h.toNat then it else node) first).node)) member (by simp)
      have inside : a ∈ first :: tail := by rw [split]; simp
      have equal := only_node distinct inside member (by simpa using same)
      rw [erased,split,equal]
      exact List.perm_middle

theorem popped_none (popped : popBestStep list = none) : list = [] := by
  cases list with
  | nil => rfl
  | cons => cases popped

-- A node whose parent is closed: pushed, or lowered, while the parent was expanded.
def Entered (b : Ground) (closeList : List Node) (n : Node) : Prop :=
  ∃ p ∈ closeList, n.parent = p.node ∧ n.node ∈ getAround p.node ∧ Passable b n.node ∧ n.g = p.g + b.getGValue n.node

def Rooted (b : Ground) (closeList : List Node) (n : Node) : Prop :=
  n.h = b.getHValue n.node ∧ ((n.node = b.start ∧ n.g = 0) ∨ (n.node ≠ b.start ∧ Entered b closeList n))

-- Every closed node was rooted in the nodes closed before it.
inductive Closed (b : Ground) : List Node → Prop where
  | nil : Closed b []
  | snoc : Closed b closeList → Rooted b closeList n → Closed b (closeList ++ [n])

structure Labels (b : Ground) (openList closeList : List Node) : Prop where
  distinct : (nodes (closeList ++ openList)).Nodup
  rooted : ∀ n ∈ openList, Rooted b closeList n
  closed : Closed b closeList

theorem entered_more (entered : Entered b closeList n) (more : List Node) : Entered b (closeList ++ more) n := by
  obtain ⟨p,member,facts⟩ := entered
  exact ⟨p,List.mem_append_left _ member,facts⟩

theorem rooted_more (rooted : Rooted b closeList n) (more : List Node) : Rooted b (closeList ++ more) n :=
  ⟨rooted.1,rooted.2.imp_right fun entered => ⟨entered.1,entered_more entered.2 more⟩⟩

theorem closed_rooted (closed : Closed b closeList) (member : n ∈ closeList) : Rooted b closeList n := by
  induction closed with
  | nil => cases member
  | snoc _ last ih =>
      rcases List.mem_append.mp member with old | new
      · exact rooted_more (ih old) _
      · rw [List.mem_singleton.mp new]; exact rooted_more last _

-- The start is the first to close.
theorem closed_start (closed : Closed b closeList) (member : n ∈ closeList) : b.start ∈ nodes closeList := by
  induction closed generalizing n with
  | nil => cases member
  | @snoc before last path rooted ih =>
      cases before with
      | nil =>
          rcases rooted.2 with ⟨start,_⟩ | ⟨_,p,inside,_⟩
          · rw [←start]; exact List.mem_map_of_mem (by simp)
          · cases inside
      | cons first rest =>
          have start := ih (List.mem_cons_self ..)
          simp only [nodes,List.map_append] at start ⊢
          exact List.mem_append_left _ start

-- What JudgeSurround does with one cell: nothing, a push, a shorter way, or the
-- old node kept because the new way is not shorter.
inductive Judged (b : Ground) (closeList openList : List Node) (cur parent : Ascoord) (g : UInt8) :
    Bool → List Node → Prop where
  | skip : cur ∈ nodes closeList ∨ b.isObstract cur = true → Judged b closeList openList cur parent g false openList
  | push : cur ∉ nodes closeList → b.isObstract cur = false → cur ∉ nodes openList →
      Judged b closeList openList cur parent g (cur == b.target) (openList ++ [⟨cur,parent,g,b.getHValue cur⟩])
  | lower : cur ∉ nodes closeList → b.isObstract cur = false → n ∈ openList → n.node = cur → g < n.g →
      Judged b closeList openList cur parent g false (reparent openList cur parent g)
  | keep : cur ∉ nodes closeList → b.isObstract cur = false → n ∈ openList → n.node = cur → n.g ≤ g →
      Judged b closeList openList cur parent g false openList

theorem judge_parts (judged : b.judgeSurround closeList openList cur parent g = (hit,after)) :
    Judged b closeList openList cur parent g hit after := by
  unfold judgeSurround at judged
  by_cases closed : isInList closeList cur = true
  · rw [closed] at judged
    cases judged
    exact .skip (.inl ((in_list _ _).mp closed))
  have fresh : cur ∉ nodes closeList := fun member => closed ((in_list _ _).mpr member)
  cases free : b.isObstract cur with
  | true =>
      simp [closed,free] at judged
      obtain ⟨rfl,rfl⟩ := judged
      exact .skip (.inr free)
  | false =>
      simp only [closed,free,Bool.not_false,Bool.and_self,if_true] at judged
      cases found : findFromList openList cur with
      | none =>
          rw [found] at judged
          cases judged
          exact .push fresh free (found_none.mp found)
      | some node =>
          rw [found] at judged
          obtain ⟨member,same⟩ := found_parts found
          dsimp only at judged
          by_cases below : node.g > g
          · rw [if_pos below] at judged
            cases judged
            exact .lower fresh free member same below
          · rw [if_neg below] at judged
            cases judged
            exact .keep fresh free member same (UInt8.not_lt.mp below)

theorem nodes_append (left right : List Node) : nodes (left ++ right) = nodes left ++ nodes right :=
  List.map_append

-- The cells of the open list stay, or get the judged cell behind them.
theorem judge_nodes (judged : Judged b closeList openList cur parent g hit after) :
    (hit = false ∧ nodes after = nodes openList) ∨
      (cur ∉ nodes closeList ∧ cur ∉ nodes openList ∧ hit = (cur == b.target) ∧
        nodes after = nodes openList ++ [cur]) := by
  cases judged with
  | skip _ => exact .inl ⟨rfl,rfl⟩
  | push fresh _ new => exact .inr ⟨fresh,new,rfl,nodes_append _ _⟩
  | lower _ _ _ _ _ => exact .inl ⟨rfl,nodes_reparent ..⟩
  | keep _ _ _ _ _ => exact .inl ⟨rfl,rfl⟩

theorem judge_labels (labels : Labels b openList closeList) (member : p ∈ closeList) (near : cur ∈ getAround p.node)
    (inside : b.isInMap cur = true) (judged : Judged b closeList openList cur p.node (p.g + b.getGValue cur) hit after) :
    Labels b after closeList := by
  have entered : ∀ n : Node, n.node = cur → n.parent = p.node → n.g = p.g + b.getGValue cur →
      cur ∉ nodes closeList → b.isObstract cur = false → n.node ≠ b.start ∧ Entered b closeList n := by
    rintro n rfl parent cost fresh free
    refine ⟨fun start => fresh ?_,p,member,parent,near,⟨inside,free⟩,cost⟩
    rw [start]
    exact closed_start labels.closed member
  refine ⟨?_,?_,labels.closed⟩
  · have distinct := labels.distinct
    rw [nodes_append] at distinct ⊢
    rcases judge_nodes judged with ⟨_,same⟩ | ⟨fresh,new,_,grown⟩
    · rw [same]; exact distinct
    · rw [grown,←List.append_assoc]
      refine List.nodup_append.mpr ⟨distinct,List.nodup_singleton cur,fun a one c two => ?_⟩
      rw [List.mem_singleton.mp two]
      rintro rfl
      exact (List.mem_append.mp one).elim fresh new
  · intro n inOpen
    cases judged with
    | skip _ => exact labels.rooted n inOpen
    | push fresh free new =>
        rcases List.mem_append.mp inOpen with old | last
        · exact labels.rooted n old
        · rw [List.mem_singleton.mp last]
          exact ⟨rfl,.inr (entered _ rfl rfl rfl fresh free)⟩
    | lower fresh free old same below =>
        rcases reparent_parts inOpen with kept | ⟨first,inside',cell,rfl⟩
        · exact labels.rooted n kept
        · exact ⟨(labels.rooted first inside').1,.inr (entered _ cell rfl rfl fresh free)⟩
    | keep _ _ _ _ _ => exact labels.rooted n inOpen

-- The judged cell, unless closed or blocked, is in the open list for its new
-- cost or less, and no cell there got dearer.
theorem judge_offers (distinct : (nodes openList).Nodup) (judged : Judged b closeList openList cur parent g hit after) :
    (∀ m ∈ openList, Offered after m.node m.g) ∧
      (b.isObstract cur = false → cur ∈ nodes closeList ∨ Offered after cur g) := by
  cases judged with
  | skip reason =>
      refine ⟨fun m old => offered_self old,fun free => ?_⟩
      rcases reason with closed | blocked
      · exact .inl closed
      · rw [free] at blocked; cases blocked
  | push _ _ _ =>
      exact ⟨fun m old => offered_self (List.mem_append_left _ old),
        fun _ => .inr ⟨_,List.mem_append_right _ (List.mem_singleton_self _),rfl,UInt8.le_refl _⟩⟩
  | @lower n _ _ member same below =>
      refine ⟨fun m old => reparent_offers (fun k inside cell => ?_) old,fun _ => .inr ?_⟩
      · rw [only_node distinct inside member (cell.trans same.symm)]
        exact UInt8.le_of_lt below
      · have here : cur ∈ nodes openList := by
          rw [←same]; exact List.mem_map_of_mem member
        obtain ⟨k,inside,cell,_,cost⟩ := reparent_node here
        exact ⟨k,inside,cell,by rw [cost]; exact UInt8.le_refl _⟩
  | @keep n _ _ member same bound => exact ⟨fun m old => offered_self old,fun _ => .inr ⟨n,member,same,bound⟩⟩

-- What an expansion of p has done with the cells it went through.
structure Expanded (b : Ground) (closeList openList : List Node) (p : Node) (cells : List Ascoord) (hit : Bool)
    (after : List Node) : Prop where
  labels : Labels b after closeList
  cheaper : ∀ m ∈ openList, Offered after m.node m.g
  offered : hit = false → ∀ c ∈ cells, b.isObstract c = false →
    c ∈ nodes closeList ∨ Offered after c (p.g + b.getGValue c)
  arrived : hit = true → b.target ∈ nodes after
  missed : hit = false → b.target ∈ nodes after → b.target ∈ nodes openList

theorem labels_distinct (labels : Labels b openList closeList) : (nodes closeList).Nodup ∧ (nodes openList).Nodup := by
  have distinct := labels.distinct
  rw [nodes_append] at distinct
  exact ⟨(List.nodup_append.mp distinct).1,(List.nodup_append.mp distinct).2.1⟩

theorem expand_parts (labels : Labels b openList closeList) (member : p ∈ closeList)
    (near : ∀ c ∈ cells, c ∈ getAround p.node ∧ b.isInMap c = true)
    (expanded : b.expand closeList p cells openList = (hit,after)) :
    Expanded b closeList openList p cells hit after := by
  induction cells generalizing openList with
  | nil =>
      cases expanded
      exact ⟨labels,fun _ old => offered_self old,fun _ _ none_left => (List.not_mem_nil none_left).elim,nofun,fun _ old => old⟩
  | cons it rest ih =>
      obtain ⟨around,inside⟩ := near it (List.mem_cons_self ..)
      unfold expand at expanded
      cases judged : b.judgeSurround closeList openList it p.node (p.g + b.getGValue it) with
      | mk first middle =>
          have step := judge_parts judged
          have kept := judge_labels labels member around inside step
          obtain ⟨cheaper,own⟩ := judge_offers (labels_distinct labels).2 step
          rw [judged] at expanded
          cases first with
          | true =>
              cases expanded
              refine ⟨kept,cheaper,nofun,fun _ => ?_,nofun⟩
              rcases judge_nodes step with ⟨miss,_⟩ | ⟨_,_,hit,more⟩
              · cases miss
              · rw [more,eq_of_beq hit.symm]
                exact List.mem_append_right _ (List.mem_singleton_self _)
          | false =>
              have later := ih kept (fun c tail => near c (List.mem_cons_of_mem _ tail)) expanded
              refine ⟨later.labels,fun m old => offered_cheaper (cheaper m old) later.cheaper,
                fun miss c cell free => ?_,later.arrived,?_⟩
              · rcases List.mem_cons.mp cell with rfl | tail
                · exact (own free).imp_right fun offered => offered_cheaper offered later.cheaper
                · exact later.offered miss c tail free
              · intro miss there
                have before := later.missed miss there
                rcases judge_nodes step with ⟨_,same⟩ | ⟨_,_,hit,more⟩
                · rwa [same] at before
                · rw [more] at before
                  rcases List.mem_append.mp before with old | last
                  · exact old
                  · rw [List.mem_singleton.mp last] at hit
                    simp at hit

-- The heads of the while loop a search comes through.
inductive Searching (b : Ground) : List Node → List Node → Prop where
  | start : Searching b [b.startNode] []
  | round : Searching b openList closeList → b.round openList closeList = some (false,openList',closeList') →
      Searching b openList' closeList'

structure Between (b : Ground) (openList closeList : List Node) : Prop where
  labels : Labels b openList closeList
  begun : b.start ∈ nodes (closeList ++ openList)
  unseen : b.target ∉ nodes (closeList ++ openList)
  offered : ∀ c ∈ closeList, ∀ d ∈ b.checkUp (getAround c.node), b.isObstract d = false →
    d ∈ nodes closeList ∨ Offered openList d (c.g + b.getGValue d)

theorem labels_start (b : Ground) : Labels b [b.startNode] [] := by
  refine ⟨List.nodup_singleton _,fun n member => ?_,.nil⟩
  rw [List.mem_singleton.mp member]
  exact ⟨rfl,.inl ⟨rfl,rfl⟩⟩

theorem between_start (apart : b.start ≠ b.target) : Between b [b.startNode] [] :=
  ⟨labels_start b,List.mem_singleton_self _,fun member => apart (List.mem_singleton.mp member).symm,nofun⟩

-- One round: the popped node closes, its neighbours are offered.
structure Rounded (b : Ground) (openList closeList : List Node) (hit : Bool) (openList' closeList' : List Node)
    (node : Node) (rest : List Node) : Prop where
  popped : Popped openList node rest
  closes : closeList' = closeList ++ [node]
  ready : Labels b rest closeList'
  expanded : Expanded b closeList' rest node (b.checkUp (getAround node.node)) hit openList'

theorem pop_order (popped : Popped openList node rest) (closeList : List Node) :
    (closeList ++ openList).Perm (closeList ++ [node] ++ rest) := by
  rw [List.append_assoc]
  exact popped.perm.append_left closeList

theorem pop_labels (labels : Labels b openList closeList) (popped : Popped openList node rest) :
    Labels b rest (closeList ++ [node]) := by
  refine ⟨?_,fun n member => ?_,.snoc labels.closed (labels.rooted node (popped.perm.mem_iff.mpr (List.mem_cons_self ..)))⟩
  · exact (((pop_order popped closeList).map Node.node).nodup_iff).mp labels.distinct
  · exact rooted_more (labels.rooted n (popped.perm.mem_iff.mpr (List.mem_cons_of_mem _ member))) _

theorem round_parts (labels : Labels b openList closeList)
    (moved : b.round openList closeList = some (hit,openList',closeList')) :
    ∃ node rest, Rounded b openList closeList hit openList' closeList' node rest := by
  unfold Ground.round at moved
  cases popped : popBestStep openList with
  | none => rw [popped] at moved; cases moved
  | some pair =>
      obtain ⟨node,rest⟩ := pair
      rw [popped] at moved
      cases moved
      have parts := popped_parts (labels_distinct labels).2 popped
      have ready := pop_labels labels parts
      refine ⟨node,rest,parts,rfl,ready,expand_parts ready (by simp) (fun c member => ?_) rfl⟩
      simpa [checkUp] using member

theorem mem_popped (popped : Popped openList node rest) (closeList : List Node) (c : Ascoord) :
    c ∈ nodes (closeList ++ [node] ++ rest) ↔ c ∈ nodes (closeList ++ openList) :=
  (((pop_order popped closeList).map Node.node).mem_iff).symm

theorem round_between (valid : Between b openList closeList)
    (moved : b.round openList closeList = some (false,openList',closeList')) : Between b openList' closeList' := by
  obtain ⟨node,rest,parts⟩ := round_parts valid.labels moved
  obtain rfl := parts.closes
  have grown : ∀ c ∈ nodes rest, c ∈ nodes openList' := fun c old => by
    obtain ⟨m,member,rfl⟩ := List.mem_map.mp old
    exact offered_nodes (parts.expanded.cheaper m member)
  have begun := (mem_popped parts.popped closeList b.start).mpr valid.begun
  refine ⟨parts.expanded.labels,?_,fun there => valid.unseen ?_,fun c member d around free => ?_⟩
  · rw [nodes_append] at begun ⊢
    exact List.mem_append.mpr ((List.mem_append.mp begun).imp_right (grown b.start))
  · rw [←mem_popped parts.popped,nodes_append]
    rw [nodes_append] at there
    exact List.mem_append.mpr ((List.mem_append.mp there).imp_right (parts.expanded.missed rfl))
  · rcases List.mem_append.mp member with old | new
    · rcases valid.offered c old d around free with closed | ⟨m,inOpen,same,bound⟩
      · rw [nodes_append]; exact .inl (List.mem_append_left _ closed)
      · rcases List.mem_cons.mp (parts.popped.perm.mem_iff.mp inOpen) with rfl | left
        · refine .inl ?_
          rw [←same,nodes_append]
          exact List.mem_append_right _ (List.mem_singleton_self _)
        · exact .inr (offered_cheaper ⟨m,left,same,bound⟩ parts.expanded.cheaper)
    · obtain rfl := List.mem_singleton.mp new
      exact parts.expanded.offered rfl d around free

theorem searching_between (apart : b.start ≠ b.target) (searching : Searching b openList closeList) :
    Between b openList closeList := by
  induction searching with
  | start => exact between_start apart
  | round _ moved ih => exact round_between ih moved

-- How a search ends: the list runs dry, or a round pushes the end.
inductive Ended (b : Ground) : Search → Prop where
  | dry : Searching b openList closeList → b.round openList closeList = none → Ended b ⟨false,openList,closeList⟩
  | hit : Searching b openList closeList → b.round openList closeList = some (true,openList',closeList') →
      Ended b ⟨true,openList',closeList'⟩

theorem search_parts (searching : Searching b openList closeList)
    (ended : b.searchLoop rounds openList closeList = some s) : Ended b s := by
  induction rounds generalizing openList closeList with
  | zero => cases ended
  | succ rounds ih =>
      rw [searchLoop] at ended
      cases moved : b.round openList closeList with
      | none =>
          rw [moved] at ended
          cases ended
          exact .dry searching moved
      | some triple =>
          obtain ⟨hit,openList',closeList'⟩ := triple
          rw [moved] at ended
          cases hit with
          | true => cases ended; exact .hit searching moved
          | false => exact ih (.round searching moved) ended

theorem rooted_inside (inStart : b.isInMap b.start = true) (rooted : Rooted b closeList n) : b.isInMap n.node = true := by
  rcases rooted.2 with ⟨start,_⟩ | ⟨_,_,_,_,_,free,_⟩
  · rw [start]; exact inStart
  · exact free.1

theorem searching_labels (searching : Searching b openList closeList) : Labels b openList closeList := by
  induction searching with
  | start => exact labels_start b
  | round _ moved ih =>
      obtain ⟨node,rest,parts⟩ := round_parts ih moved
      exact parts.expanded.labels

-- The closed nodes are the start and different cells of the map.
theorem closed_length (labels : Labels b openList closeList) :
    closeList.length ≤ b.sizeX.toNat*b.sizeY.toNat + 1 := by
  have inside : ∀ c ∈ nodes closeList, c ≠ b.start → b.isInMap c = true := fun c member other => by
    obtain ⟨n,closed,rfl⟩ := List.mem_map.mp member
    rcases (closed_rooted labels.closed closed).2 with ⟨start,_⟩ | ⟨_,_,_,_,_,free,_⟩
    · exact absurd start other
    · exact free.1
  have distinct := (labels_distinct labels).1
  have cells : (((nodes closeList).erase b.start).map b.index).Nodup := by
    refine List.Nodup.map_on (fun p one q two same => ?_) (distinct.erase b.start)
    have one' := (distinct.mem_erase_iff).mp one
    have two' := (distinct.mem_erase_iff).mp two
    exact index_inj (inside p one'.2 one'.1) (inside q two'.2 two'.1) same
  have bounded : ((nodes closeList).erase b.start).map b.index ⊆ List.range (b.sizeX.toNat*b.sizeY.toNat) := by
    intro i member
    obtain ⟨p,one,rfl⟩ := List.mem_map.mp member
    have one' := (distinct.mem_erase_iff).mp one
    exact List.mem_range.mpr (index_lt (inside p one'.2 one'.1))
  have fewer := (List.subperm_of_subset cells bounded).length_le
  have erased := List.le_length_erase (l:=nodes closeList) (a:=b.start)
  rw [List.length_map,List.length_range] at fewer
  rw [nodes,List.length_map] at erased
  rw [nodes] at fewer
  omega

theorem search_total (rounds : Nat) (searching : Searching b openList closeList)
    (enough : b.sizeX.toNat*b.sizeY.toNat + 1 < rounds + closeList.length) :
    ∃ s, b.searchLoop rounds openList closeList = some s := by
  induction rounds generalizing openList closeList with
  | zero =>
      have := closed_length (searching_labels searching)
      omega
  | succ rounds ih =>
      rw [searchLoop]
      cases moved : b.round openList closeList with
      | none => exact ⟨_,rfl⟩
      | some triple =>
          obtain ⟨hit,openList',closeList'⟩ := triple
          obtain ⟨node,rest,parts⟩ := round_parts (searching_labels searching) moved
          cases hit with
          | true => exact ⟨_,rfl⟩
          | false =>
              refine ih (.round searching moved) ?_
              rw [parts.closes,List.length_append,List.length_singleton]
              omega

theorem compute_total (b : Ground) : ∃ s, b.computeRoute = some s ∧ Ended b s := by
  obtain ⟨s,ended⟩ := search_total (b:=b) (b.sizeX.toNat*b.sizeY.toNat+2) .start (by simp)
  exact ⟨s,ended,search_parts .start ended⟩

theorem dry_bare {b : Ground} (dry : b.round openList closeList = none) : openList = [] := by
  unfold Ground.round at dry
  cases popped : popBestStep openList with
  | none => exact popped_none popped
  | some pair => rw [popped] at dry; cases dry

end GameServer.Battle.SearchLists
