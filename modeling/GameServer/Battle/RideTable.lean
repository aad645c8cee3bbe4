import GameServer.Battle.Reads
import GameServer.Battle.Walk

namespace GameServer.Battle.RideTable
open Ground Hex SearchLists Reach Aim Reads

-- The loop over the cells around a popped node: each is costed, then judged.
def expandRead (b : Ground) (closeList : List Node) (node : Node) : List Ascoord → List Node → List Read × Bool × List Node
  | [],openList => ([],false,openList)
  | it :: rest,openList =>
    match b.judgeSurround closeList openList it node.node (node.g + b.getGValue it) with
    | (true,openList) => ([.ride it],true,openList)
    | (false,openList) =>
      let (reads,found,openList) := expandRead b closeList node rest openList
      (.ride it :: reads,found,openList)

def roundRead (b : Ground) (openList closeList : List Node) : Option (List Read × Bool × List Node × List Node) :=
  match popBestStep openList with
  | none => none
  | some (node,openList) =>
    let closeList := closeList ++ [node]
    let (reads,found,openList) := expandRead b closeList node (b.checkUp (getAround node.node)) openList
    some (reads,found,openList,closeList)

def searchRead (b : Ground) : Nat → List Node → List Node → List Read × Option Search
  | 0,_,_ => ([],none)
  | rounds+1,openList,closeList =>
    match roundRead b openList closeList with
    | none => ([],some ⟨false,openList,closeList⟩)
    | some (reads,true,openList,closeList) => (reads,some ⟨true,openList,closeList⟩)
    | some (reads,false,openList,closeList) =>
      let (more,s) := searchRead b rounds openList closeList
      (reads ++ more,s)

-- ComputeRoute with its calls of GetGValue.
def computeRead (b : Ground) : List Read × Option Search :=
  searchRead b (b.sizeX.toNat*b.sizeY.toNat+2) [b.startNode] []

def moveFlagRead (b : Ground) (begin : Ascoord) : List Ascoord → Ascoord → UInt8 → List Read × Ascoord
  | [],flag,_ => ([],flag)
  | p :: rest,flag,cost =>
    if cost ≥ b.current.movePower then ([],flag)
    else
      let (ride,cost) := if p = begin then ([],cost) else ([.ride p],cost + b.getRideSub p)
      let (reads,flag) := moveFlagRead b begin rest p (if b.isNearbyHaveEnemy p then cost + 1 else cost)
      (ride ++ reads,flag)

-- MoveAnalyse with its calls of GetRideSub.
def moveRead (b : Ground) (list : List Ascoord) (target move : Ascoord) : List Read × Ascoord :=
  let path := list.reverse
  match path with
  | [] | [_] => ([],move)
  | [_,_] =>
    let move := if b.mapGround (target.x.toNat + target.y.toNat + b.sizeX.toNat) = 0 then b.start else target
    ([],b.getMovePos (upTo {} path) move)
  | begin :: _ =>
    let (reads,flag) := moveFlagRead b begin path {} 0
    (reads,b.getMovePos (upTo flag path) move)

section results
variable (b : Ground)

theorem expand_result (closeList : List Node) (node : Node) (cells : List Ascoord) (openList : List Node) :
    (expandRead b closeList node cells openList).2 = b.expand closeList node cells openList := by
  induction cells generalizing openList with
  | nil => rfl
  | cons it rest ih =>
      unfold expandRead expand
      cases b.judgeSurround closeList openList it node.node (node.g + b.getGValue it) with
      | mk found after =>
          cases found with
          | true => rfl
          | false => exact ih after

theorem round_result (openList closeList : List Node) :
    (roundRead b openList closeList).map (·.2) = b.round openList closeList := by
  unfold roundRead Ground.round
  cases popBestStep openList with
  | none => rfl
  | some popped =>
      dsimp only
      rw [←expand_result]
      rfl

theorem search_result (rounds : Nat) (openList closeList : List Node) :
    (searchRead b rounds openList closeList).2 = b.searchLoop rounds openList closeList := by
  induction rounds generalizing openList closeList with
  | zero => rfl
  | succ rounds ih =>
      rw [searchRead,searchLoop,←round_result]
      rcases roundRead b openList closeList with _ | ⟨_,_ | _,openList,closeList⟩
      · rfl
      · exact ih openList closeList
      · rfl

-- Without the calls the search is ComputeRoute.
theorem compute_result : (computeRead b).2 = b.computeRoute := search_result b _ _ _

theorem moveFlag_result (begin : Ascoord) (cells : List Ascoord) (flag : Ascoord) (cost : UInt8) :
    (moveFlagRead b begin cells flag cost).2 = b.moveFlag begin cells flag cost := by
  induction cells generalizing flag cost with
  | nil => rfl
  | cons p rest ih =>
      rw [moveFlagRead,moveFlag]
      split
      · rfl
      · dsimp only
        rw [ih,apply_ite Prod.snd]

theorem move_result (list : List Ascoord) (target move : Ascoord) :
    (moveRead b list target move).2 = b.moveAnalyse list target move := by
  unfold moveRead moveAnalyse
  dsimp only
  match list.reverse with
  | [] | [_] | [_,_] => rfl
  | first :: p :: q :: rest =>
      dsimp only
      rw [moveFlag_result]

end results

-- stype-1 and form-1, in int, are indices of RideSub.
structure Indexed (b : Ground) (p : Ascoord) : Prop where
  row : 0 ≤ (b.current.typeId.toNat : Int) - 1 ∧ (b.current.typeId.toNat : Int) - 1 ≤ 2
  column : 0 ≤ ((b.ground p).toNat : Int) - 1 ∧ ((b.ground p).toNat : Int) - 1 ≤ 3

theorem indexed_iff (b : Ground) (p : Ascoord) : Indexed b p ↔
    1 ≤ b.current.typeId ∧ b.current.typeId ≤ 3 ∧ 1 ≤ b.ground p ∧ b.ground p ≤ 4 := by
  simp only [UInt8.le_iff_toNat_le,UInt8.toNat_ofNat]
  constructor
  · intro ⟨⟨_,_⟩,_,_⟩
    omega
  · intro ⟨_,_,_,_⟩
    exact ⟨⟨by omega,by omega⟩,by omega,by omega⟩

-- Exactly then the cost does not depend on what lies beyond the table.
theorem indexed_settled (b : Ground) (p : Ascoord) :
    Indexed b p ↔ ∀ beyond, {b with rideSubBeyond := beyond}.getRideSub p = b.getRideSub p := by
  rw [indexed_iff]
  constructor
  · intro inside beyond
    have inside' : 1 ≤ ({b with rideSubBeyond := beyond} : Ground).current.typeId ∧
        ({b with rideSubBeyond := beyond} : Ground).current.typeId ≤ 3 ∧
        1 ≤ ({b with rideSubBeyond := beyond} : Ground).ground p ∧
        ({b with rideSubBeyond := beyond} : Ground).ground p ≤ 4 := inside
    unfold getRideSub
    rw [if_pos inside,if_pos inside']
    rfl
  · intro settled
    by_contra outside
    have other : ({b with rideSubBeyond := fun _ _ => b.getRideSub p + 1} : Ground).getRideSub p = b.getRideSub p + 1 :=
      if_neg outside
    have same := congrArg UInt8.toNat (other.symm.trans (settled _))
    rw [UInt8.toNat_add,UInt8.toNat_one] at same
    omega

-- Ground bytes 0..4 in the map and a fighter of type 1..3 to move.
structure Terrain where
  battle : Ground
  bytes : ∀ p, battle.isInMap p = true → battle.ground p ≤ 4
  kind : 1 ≤ battle.current.typeId ∧ battle.current.typeId ≤ 3

theorem terrain_indexed (t : Terrain) (inside : t.battle.isInMap p = true) : Indexed t.battle p ↔ t.battle.ground p ≠ 0 := by
  have bytes := t.bytes p inside
  have kind := t.kind
  rw [indexed_iff]
  simp only [UInt8.le_iff_toNat_le,UInt8.toNat_ofNat,ne_eq,←UInt8.toNat_inj] at bytes kind ⊢
  omega

-- The calls of the three walks along a path; BowAnalyse takes it against any enemy.
structure Walks (b : Ground) (start target : Ascoord) (path : List Ascoord) : Prop where
  analyse : ∀ p, .ride p ∈ (analyseRead (between b start target) path target).1 → Indexed b p
  bow : ∀ aim p, .ride p ∈ (bowRead b path aim).1 → Indexed b p
  move : ∀ cell p, .ride p ∈ (moveRead (between b start target) path target cell).1 → Indexed b p

structure Tabled (b : Ground) (start target : Ascoord) (path : List Ascoord) : Prop extends Walks b start target path where
  compute : ∀ p, .ride p ∈ (computeRead (between b start target)).1 → Indexed b p

-- The calls of the four in one search.
def Safe (t : Terrain) (start target : Ascoord) : Prop :=
  ∃ path, t.battle.findRoute start target = some path ∧ Tabled t.battle start target path

-- The cells around a popped node up to the one at which the loop is left: an end
-- that can be pushed. A start that is the end is closed by then.
def costed (b : Ground) (p : Ascoord) : List Ascoord :=
  let cells := b.checkUp (getAround p)
  if b.start = b.target ∨ b.ground b.target = 0 then cells else upTo b.target cells

-- At every head of the loop there is no obstacle cell among them for the node that is next.
def Free (b : Ground) : Prop := ∀ openList closeList node rest, Searching b openList closeList →
  popBestStep openList = some (node,rest) → ∀ c ∈ costed b node.node, b.ground c ≠ 0

-- A start that is an obstacle cell is costed where Analyse attacks from it: the end is
-- next to it, or in its attack zone and no living fighter stands on it.
def Stands (b : Ground) : Prop := b.ground b.start = 0 → b.start ≠ b.target → (∃ path, Route b path) →
  b.target ∉ getAround b.start ∧ (b.isInAttackZone b.start b.target = true → b.living b.start = true)

inductive Reached (b : Ground) : Ascoord → Prop where
  | start : Reached b b.start
  | step : Reached b p → c ∈ getAround p → Passable b c → Reached b c

-- No cell the fighter can come to touches an obstacle cell.
def Untouched (b : Ground) : Prop := ∀ p c, Reached b p → c ∈ getAround p → b.isInMap c = true → b.ground c ≠ 0

def Clear (t : Terrain) : Prop :=
  (∀ p, t.battle.isInMap p = true → t.battle.ground p ≠ 0) ∨ t.battle.sizeX.toNat*t.battle.sizeY.toNat ≤ 1

section rounds
variable {b : Ground}

theorem judged_hit (judged : Judged b closeList openList cur parent g hit after) (found : hit = true) :
    cur = b.target ∧ cur ∉ nodes closeList ∧ b.isObstract cur = false := by
  cases judged with
  | skip _ => cases found
  | push fresh free _ => exact ⟨eq_of_beq found,fresh,free⟩
  | lower _ _ _ _ _ => cases found
  | keep _ _ _ _ _ => cases found

-- A free end that is in neither list is pushed, which leaves the loop.
theorem judged_end (judged : Judged b closeList openList b.target parent g hit after) (fresh : b.target ∉ nodes closeList)
    (free : b.isObstract b.target = false) (unseen : b.target ∉ nodes openList) : hit = true := by
  cases judged with
  | skip reason =>
      rcases reason with closed | blocked
      · exact absurd closed fresh
      · rw [free] at blocked; cases blocked
  | push _ _ _ => exact beq_self_eq_true _
  | lower _ _ member same _ => exact absurd (same ▸ List.mem_map_of_mem member) unseen
  | keep _ _ member same _ => exact absurd (same ▸ List.mem_map_of_mem member) unseen

-- A living fighter on the end itself does not block it.
theorem target_free (b : Ground) : b.isObstract b.target = (b.ground b.target == 0) := by
  have apart : b.isInAround b.target b.target = false := by
    rw [isInAround,List.contains_eq_mem,decide_eq_false_iff_not]
    exact fun member => not_around_self b.target (List.mem_filter.mp member).1
  unfold isObstract
  rw [apart,bne_self_eq_false]
  cases b.fighterAt b.target <;> simp

theorem expand_all (never : b.target ∈ nodes closeList ∨ b.isObstract b.target = true) (node : Node) (cells : List Ascoord)
    (openList : List Node) : (expandRead b closeList node cells openList).1 = cells.map .ride := by
  induction cells generalizing openList with
  | nil => rfl
  | cons it rest ih =>
      unfold expandRead
      cases judged : b.judgeSurround closeList openList it node.node (node.g + b.getGValue it) with
      | mk found after =>
          cases found with
          | true =>
              obtain ⟨rfl,fresh,free⟩ := judged_hit (judge_parts judged) rfl
              rcases never with closed | blocked
              · exact absurd closed fresh
              · rw [free] at blocked; cases blocked
          | false => exact congrArg (Read.ride it :: ·) (ih after)

theorem expand_upTo (fresh : b.target ∉ nodes closeList) (free : b.isObstract b.target = false) (node : Node)
    (cells : List Ascoord) (openList : List Node) (unseen : b.target ∉ nodes openList) :
    (expandRead b closeList node cells openList).1 = (upTo b.target cells).map .ride := by
  induction cells generalizing openList with
  | nil => rfl
  | cons it rest ih =>
      unfold expandRead
      rw [upTo]
      cases judged : b.judgeSurround closeList openList it node.node (node.g + b.getGValue it) with
      | mk found after =>
          have step := judge_parts judged
          by_cases last : it = b.target
          · subst last
            obtain rfl := judged_end step fresh free unseen
            rw [if_pos rfl]
            rfl
          · obtain rfl : found = false := Bool.eq_false_iff.mpr fun hit => last (judged_hit step hit).1
            have later : b.target ∉ nodes after := by
              rcases judge_nodes step with ⟨_,same⟩ | ⟨_,_,_,more⟩
              · rwa [same]
              · rw [more]
                exact fun member => (List.mem_append.mp member).elim unseen fun new => last (List.mem_singleton.mp new).symm
            rw [if_neg last]
            exact congrArg (Read.ride it :: ·) (ih after later)

-- What a round of a search costs.
theorem round_reads (searching : Searching b openList closeList) (popped : popBestStep openList = some (node,rest)) :
    ∃ after, roundRead b openList closeList = some ((costed b node.node).map .ride,after) := by
  have labels := searching_labels searching
  have parts := popped_parts (labels_distinct labels).2 popped
  have ready := pop_labels labels parts
  have reads : (expandRead b (closeList ++ [node]) node (b.checkUp (getAround node.node)) rest).1 =
      (costed b node.node).map .ride := by
    unfold costed
    by_cases never : b.start = b.target ∨ b.ground b.target = 0
    · rw [if_pos never]
      refine expand_all (never.imp (fun same => ?_) fun zero => ?_) _ _ _
      · rw [←same]
        exact closed_start ready.closed (List.mem_append_right _ (List.mem_singleton_self node))
      · rw [target_free,zero]; rfl
    · rw [if_neg never]
      obtain ⟨apart,ground⟩ := not_or.mp never
      have unseen := (searching_between apart searching).unseen
      rw [←mem_popped parts closeList,nodes_append] at unseen
      refine expand_upTo (fun closed => unseen (List.mem_append_left _ closed)) ?_ _ _ _
        fun left => unseen (List.mem_append_right _ left)
      rw [target_free]
      exact beq_false_of_ne ground
  unfold roundRead
  rw [popped,←reads]
  exact ⟨_,rfl⟩

theorem costed_parts (cell : c ∈ costed b p) : c ∈ getAround p ∧ b.isInMap c = true := by
  unfold costed at cell
  split at cell
  · exact List.mem_filter.mp cell
  · exact List.mem_filter.mp (upTo_mem cell)

theorem search_costed (rounds : Nat) (searching : Searching b openList closeList) :
    ∀ r ∈ (searchRead b rounds openList closeList).1, ∃ before closed node rest, Searching b before closed ∧
      popBestStep before = some (node,rest) ∧ ∃ c ∈ costed b node.node, r = .ride c := by
  induction rounds generalizing openList closeList with
  | zero => exact List.forall_mem_nil _
  | succ rounds ih =>
      rw [searchRead]
      cases popped : popBestStep openList with
      | none =>
          rw [show roundRead b openList closeList = none by rw [roundRead,popped]]
          exact List.forall_mem_nil _
      | some pair =>
          obtain ⟨node,rest⟩ := pair
          obtain ⟨⟨hit,openList',closeList'⟩,moved⟩ := round_reads searching popped
          have here : ∀ r ∈ (costed b node.node).map Read.ride, ∃ before closed node rest, Searching b before closed ∧
              popBestStep before = some (node,rest) ∧ ∃ c ∈ costed b node.node, r = .ride c := by
            intro r member
            obtain ⟨c,cell,rfl⟩ := List.mem_map.mp member
            exact ⟨openList,closeList,node,rest,searching,popped,c,cell,rfl⟩
          have result := round_result b openList closeList
          rw [moved] at result ⊢
          cases hit with
          | true => exact here
          | false => exact List.forall_mem_append.mpr ⟨here,ih (.round searching result.symm)⟩

-- Every head of the loop comes while there are rounds left, and the rest of the search
-- starts from it.
theorem searching_rest (searching : Searching b openList closeList) :
    ∃ rounds, rounds + closeList.length = b.sizeX.toNat*b.sizeY.toNat + 2 ∧
      (searchRead b rounds openList closeList).1 ⊆ (computeRead b).1 := by
  induction searching with
  | start => exact ⟨_,rfl,fun _ member => member⟩
  | @round openList closeList openList' closeList' searching moved ih =>
      obtain ⟨rounds,budget,within⟩ := ih
      have bound := closed_length (searching_labels searching)
      obtain ⟨rounds,rfl⟩ : ∃ left, rounds = left + 1 := ⟨rounds - 1,by omega⟩
      obtain ⟨node,rest,parts⟩ := round_parts (searching_labels searching) moved
      refine ⟨rounds,?_,fun r member => within ?_⟩
      · rw [parts.closes,List.length_append,List.length_singleton]
        omega
      · rw [←round_result] at moved
        obtain ⟨⟨reads,after⟩,read,rfl⟩ := Option.map_eq_some_iff.mp moved
        rw [searchRead,read]
        exact List.mem_append_right _ member

-- What ComputeRoute costs.
theorem compute_costed : .ride c ∈ (computeRead b).1 ↔ ∃ openList closeList node rest, Searching b openList closeList ∧
    popBestStep openList = some (node,rest) ∧ c ∈ costed b node.node := by
  constructor
  · intro member
    obtain ⟨openList,closeList,node,rest,searching,popped,c',cell,same⟩ := search_costed _ .start _ member
    cases same
    exact ⟨openList,closeList,node,rest,searching,popped,cell⟩
  · intro ⟨openList,closeList,node,rest,searching,popped,cell⟩
    obtain ⟨rounds,budget,within⟩ := searching_rest searching
    have bound := closed_length (searching_labels searching)
    obtain ⟨rounds,rfl⟩ : ∃ left, rounds = left + 1 := ⟨rounds - 1,by omega⟩
    have here : Read.ride c ∈ (costed b node.node).map Read.ride := List.mem_map_of_mem cell
    obtain ⟨⟨hit,openList',closeList'⟩,moved⟩ := round_reads searching popped
    refine within ?_
    rw [searchRead,moved]
    cases hit with
    | true => exact here
    | false => exact List.mem_append_left _ here

end rounds

section unreachable
variable {b : Ground}

theorem rooted_reached (earlier : ∀ m ∈ closeList, Reached b m.node) (rooted : Rooted b closeList n) : Reached b n.node := by
  rcases rooted.2 with ⟨start,_⟩ | ⟨_,p,member,_,near,free,_⟩
  · rw [start]; exact .start
  · exact .step (earlier p member) near free

theorem closed_reached (closed : Closed b closeList) : ∀ n ∈ closeList, Reached b n.node := by
  induction closed with
  | nil => exact List.forall_mem_nil _
  | snoc _ last ih => exact List.forall_mem_append.mpr ⟨ih,List.forall_mem_singleton.mpr (rooted_reached ih last)⟩

theorem untouched_free (untouched : Untouched b) : Free b := by
  intro openList closeList node rest searching popped c cell
  have labels := searching_labels searching
  have parts := popped_parts (labels_distinct labels).2 popped
  have rooted := labels.rooted node (parts.perm.mem_iff.mpr (List.mem_cons_self ..))
  obtain ⟨near,inside⟩ := costed_parts cell
  exact untouched node.node c (rooted_reached (closed_reached labels.closed) rooted) near inside

theorem closed_popped (searching : Searching b openList closeList) : ∀ n ∈ closeList,
    ∃ before closed rest, Searching b before closed ∧ popBestStep before = some (n,rest) := by
  induction searching with
  | start => exact List.forall_mem_nil _
  | @round openList closeList openList' closeList' searching moved ih =>
      unfold Ground.round at moved
      cases popped : popBestStep openList with
      | none => rw [popped] at moved; cases moved
      | some pair =>
          rw [popped] at moved
          obtain rfl : closeList ++ [pair.1] = closeList' := congrArg (·.2.2) (Option.some.inj moved)
          exact List.forall_mem_append.mpr ⟨ih,List.forall_mem_singleton.mpr ⟨openList,closeList,_,searching,popped⟩⟩

theorem upTo_all {cells : List Ascoord} (apart : flag ∉ cells) : upTo flag cells = cells := by
  induction cells with
  | nil => rfl
  | cons p rest ih =>
      obtain ⟨other,later⟩ := not_or.mp (fun either => apart (List.mem_cons.mpr either))
      rw [upTo,if_neg (Ne.symm other),ih later]

-- A search that runs dry has popped every cell it can come to.
theorem free_untouched (apart : b.start ≠ b.target) (no_route : ¬∃ path, Route b path) (free : Free b) : Untouched b := by
  obtain ⟨s,_,ended⟩ := compute_total b
  cases ended with
  | hit searching moved =>
      obtain ⟨path,_,route,_⟩ := hit_listed (searching_between apart searching) moved
      exact absurd ⟨path,route⟩ no_route
  | @dry openList closeList searching dry =>
      obtain rfl := dry_bare dry
      have valid := searching_between apart searching
      have begun := valid.begun
      have unseen := valid.unseen
      rw [List.append_nil] at begun unseen
      have closed : ∀ p, Reached b p → p ∈ nodes closeList := by
        intro p reached
        induction reached with
        | start => exact begun
        | @step p c _ near clear ih =>
            obtain ⟨n,member,rfl⟩ := List.mem_map.mp ih
            rcases valid.offered n member c (List.mem_filter.mpr ⟨near,clear.1⟩) clear.2 with there | ⟨_,none_left,_⟩
            · exact there
            · cases none_left
      intro p c reached near inside
      obtain ⟨n,member,rfl⟩ := List.mem_map.mp (closed p reached)
      obtain ⟨before,earlier,rest,searching',popped⟩ := closed_popped searching n member
      refine free before earlier n rest searching' popped c ?_
      have cell : c ∈ b.checkUp (getAround n.node) := List.mem_filter.mpr ⟨near,inside⟩
      unfold costed
      split
      · exact cell
      · rename_i pushed
        rw [upTo_all]
        · exact cell
        · intro seen
          obtain ⟨beside,inMap⟩ := List.mem_filter.mp seen
          have clear : b.isObstract b.target = false := by
            rw [target_free]
            exact beq_false_of_ne (not_or.mp pushed).2
          exact unseen (closed _ (.step reached beside ⟨inMap,clear⟩))

end unreachable

section walks
variable {b : Ground} {start target : Ascoord}


theorem moveFlag_costed (begin : Ascoord) (cells : List Ascoord) (flag : Ascoord) (cost : UInt8) :
    ∀ r ∈ (moveFlagRead b begin cells flag cost).1, ∃ p ∈ cells, p ≠ begin ∧ r = .ride p := by
  induction cells generalizing flag cost with
  | nil => exact List.forall_mem_nil _
  | cons p rest ih =>
      rw [moveFlagRead]
      split
      · exact List.forall_mem_nil _
      · refine List.forall_mem_append.mpr ⟨fun r member => ?_,fun r member => ?_⟩
        · by_cases first : p = begin
          · rw [if_pos first] at member
            exact absurd member List.not_mem_nil
          · rw [if_neg first] at member
            exact ⟨p,List.mem_cons_self ..,first,List.mem_singleton.mp member⟩
        · obtain ⟨q,later,facts⟩ := ih _ _ r member
          exact ⟨q,List.mem_cons_of_mem _ later,facts⟩

theorem move_costed (order : list.reverse = begin :: rest) (target move : Ascoord) :
    ∀ r ∈ (moveRead b list target move).1, ∃ p ∈ rest, r = .ride p := by
  unfold moveRead
  dsimp only
  rw [order]
  match rest with
  | [] | [_] => exact List.forall_mem_nil _
  | p :: q :: rest =>
      intro r member
      obtain ⟨c,cell,apart,same⟩ := moveFlag_costed begin _ _ _ r member
      exact ⟨c,(List.mem_cons.mp cell).resolve_left apart,same⟩

theorem walks_still (b : Ground) (start target : Ascoord) : Walks b start target [] :=
  ⟨fun _ member => absurd member List.not_mem_nil,fun _ _ member => absurd member List.not_mem_nil,
    fun _ _ member => absurd member List.not_mem_nil⟩

-- Analyse costs the cell it attacks from.
theorem offer_costs (b : Ground) (target attack : Ascoord) (cost : UInt8) :
    .ride attack ∈ (analyseOfferRead b target attack cost).1 := by
  unfold analyseOfferRead
  dsimp only
  split
  · split
    · exact List.mem_cons_self ..
    · split <;> exact List.mem_cons_self ..
  · exact List.mem_cons_self ..

theorem analyse_beside (b : Ground) (target : Ascoord) : .ride b.start ∈ (analyseRead b [target,b.start] target).1 :=
  offer_costs b target b.start 0

theorem analyse_zone (zone : b.isInAttackZone b.start target = true) (dead : b.living b.start = false)
    (order : list.reverse = b.start :: p :: q :: rest) : .ride b.start ∈ (analyseRead b list target).1 := by
  unfold analyseRead analysePathRead
  rw [order]
  dsimp only
  rw [analyseWalkRead,if_pos zone,dead]
  exact List.mem_append_right _ (offer_costs b target b.start 0)

-- An Analyse that does not attack from the start costs later cells only.
theorem analyse_later (held : b.isInAttackZone b.start target = true → b.living b.start = true)
    (order : list.reverse = b.start :: p :: q :: rest) :
    ∀ c, .ride c ∈ (analyseRead b list target).1 → c ∈ p :: q :: rest := by
  unfold analyseRead analysePathRead
  rw [order]
  dsimp only
  have walk := analyseWalk_within b target b.start (p :: q :: rest) 0
  have result := analyseWalk_result b target b.start (p :: q :: rest) 0
  cases walked : analyseWalkRead b target b.start (p :: q :: rest) 0 with
  | mk reads ended =>
      rw [walked] at walk result
      cases ended with
      | attack a cost =>
          have behind : a ∈ p :: q :: rest := by
            rw [analyseWalk_on] at result
            by_cases zone : b.isInAttackZone b.start target = true
            · rw [if_pos zone,if_pos (held zone)] at result
              cases result
            · rw [if_neg zone] at result
              exact analyseWalk_member result.symm
          intro c member
          rcases List.mem_append.mp member with on | offer
          · exact walk _ on
          · have within : Within b _ [target] (.ride c) := offer_within b target cost behind _ offer
            exact within
      | taken => exact fun c member => walk _ member
      | beyond cost => exact fun c member => walk _ member

-- On a route the other two walks cost cells that can be stood on.
theorem walks_listed (t : Terrain) (listed : Listed (between t.battle start target) path)
    (analyse : ∀ p, .ride p ∈ (analyseRead (between t.battle start target) path target).1 → Indexed t.battle p) :
    Walks t.battle start target path := by
  obtain ⟨rest,order,clear,_⟩ := mem_reverse_split listed
  have later : ∀ p ∈ rest, Indexed t.battle p := fun p member => by
    obtain ⟨inMap,ground⟩ := passable_parts (clear p member)
    exact (terrain_indexed t inMap).mpr ground
  refine ⟨analyse,fun aim p member => later p (bow_within aim order _ member),fun cell p member => ?_⟩
  obtain ⟨q,routed,same⟩ := move_costed order target cell _ member
  cases same
  exact later p routed

theorem listed_end (apart : start ≠ target) (listed : Listed (between b start target) path) : Passable (between b start target) target := by
  obtain ⟨rest,order,clear,_⟩ := mem_reverse_split listed
  exact clear target ((List.mem_cons.mp (goal_behind listed order)).resolve_left (Ne.symm apart))

-- The calls of the walks, exactly.
theorem walks_iff (t : Terrain) (inside : t.battle.isInMap start = true) (found : t.battle.findRoute start target = some path) :
    Walks t.battle start target path ↔ Stands (between t.battle start target) := by
  obtain ⟨path',found',empty⟩ := found_route t.battle start target
  obtain rfl := Option.some.inj (found.symm.trans found')
  rcases empty with rfl | ⟨apart,listed⟩
  · exact ⟨fun _ _ apart route => absurd route (missed_route apart found),fun _ => walks_still t.battle start target⟩
  obtain ⟨rest,order,clear,length⟩ := mem_reverse_split listed
  obtain ⟨_,short⟩ := listed_length apart listed
  have far : target ∉ getAround start → ∃ p q more, rest = p :: q :: more := by
    intro away
    match rest with
    | [] => simp at length; omega
    | [_] => exact absurd (short (by simp at length; omega)).2 away
    | p :: q :: more => exact ⟨p,q,more,rfl⟩
  constructor
  · intro walks zero _ _
    have costs : .ride start ∉ (analyseRead (between t.battle start target) path target).1 :=
      fun member => (terrain_indexed t inside).mp (walks.analyse start member) zero
    have away : target ∉ getAround start := by
      intro near
      obtain rfl := Option.some.inj (found.symm.trans (found_beside t.battle near (listed_end apart listed)))
      exact costs (analyse_beside (between t.battle start target) target)
    refine ⟨away,fun zone => ?_⟩
    obtain ⟨p,q,more,rfl⟩ := far away
    by_contra dead
    exact costs (analyse_zone (b:=between t.battle start target) zone (Bool.eq_false_iff.mpr dead) order)
  · intro stands
    refine walks_listed t listed fun c member => ?_
    by_cases zero : t.battle.ground start = 0
    · obtain ⟨away,held⟩ := stands zero apart ⟨path,listed.ends,listed.starts,listed.joined,fun c member other =>
        listed.clear c (mem_dropLast listed.starts member other)⟩
      obtain ⟨p,q,more,rfl⟩ := far away
      obtain ⟨inMap,ground⟩ := passable_parts (clear c (analyse_later (b:=between t.battle start target) held order c member))
      exact (terrain_indexed t inMap).mpr ground
    · rcases List.mem_cons.mp (analyse_within target order _ member) with rfl | behind
      · exact (terrain_indexed t inside).mpr zero
      · obtain ⟨inMap,ground⟩ := passable_parts (clear c behind)
        exact (terrain_indexed t inMap).mpr ground

theorem compute_iff (t : Terrain) (start target : Ascoord) :
    (∀ p, .ride p ∈ (computeRead (between t.battle start target)).1 → Indexed t.battle p) ↔ Free (between t.battle start target) := by
  constructor
  · intro indexed openList closeList node rest searching popped c cell
    exact (terrain_indexed t (costed_parts cell).2).mp
      (indexed c (compute_costed.mpr ⟨openList,closeList,node,rest,searching,popped,cell⟩))
  · intro free c member
    obtain ⟨openList,closeList,node,rest,searching,popped,cell⟩ := compute_costed.mp member
    exact (terrain_indexed t (costed_parts cell).2).mpr (free openList closeList node rest searching popped c cell)

theorem safe_iff (t : Terrain) (inside : t.battle.isInMap start = true) (target : Ascoord) :
    Safe t start target ↔ Free (between t.battle start target) ∧ Stands (between t.battle start target) := by
  constructor
  · intro ⟨path,found,tabled⟩
    exact ⟨(compute_iff t start target).mp tabled.compute,(walks_iff t inside found).mp tabled.toWalks⟩
  · intro ⟨free,stands⟩
    obtain ⟨path,found,_⟩ := found_route t.battle start target
    exact ⟨path,found,(walks_iff t inside found).mpr stands,(compute_iff t start target).mpr free⟩

end walks

-- Both cells are in the map, next to each other.
def Beside (b : Ground) (p c : Ascoord) : Prop := b.isInMap p = true ∧ b.isInMap c = true ∧ c ∈ getAround p

theorem lonely {b : Ground} (single : b.sizeX.toNat*b.sizeY.toNat ≤ 1) (one : b.isInMap p = true) (two : b.isInMap q = true) : p = q := by
  have first := index_lt one
  have second := index_lt two
  exact index_inj one two (by omega)

-- In a map of two cells or more every cell has a neighbour, in its row or, in a
-- map of one column, in its column.
theorem beside_exists {b : Ground} (wide : 1 < b.sizeX.toNat*b.sizeY.toNat) (inside : b.isInMap q = true) : ∃ p, Beside b p q := by
  have columns := b.sizeX.toNat_lt
  have rows := b.sizeY.toNat_lt
  have place : ∀ x y : Nat, x < b.sizeX.toNat → y < b.sizeY.toNat →
      ((y = q.y.toNat ∧ (x + 1 = q.x.toNat ∨ x = q.x.toNat + 1)) ∨ (x = q.x.toNat ∧ (y + 1 = q.y.toNat ∨ y = q.y.toNat + 1))) →
      ∃ p, Beside b p q := by
    intro x y inX inY near
    refine ⟨⟨UInt8.ofNat x,UInt8.ofNat y⟩,?_,inside,around_symm ((mem_around _ _).mpr ?_)⟩
    · simp only [isInMap,Bool.and_eq_true,decide_eq_true_eq,UInt8.lt_iff_toNat_lt,UInt8.toNat_ofNat']
      omega
    · simp only [UInt8.toNat_ofNat']
      omega
  simp only [isInMap,Bool.and_eq_true,decide_eq_true_eq,UInt8.lt_iff_toNat_lt] at inside
  obtain ⟨inX,inY⟩ := inside
  by_cases right : q.x.toNat + 1 < b.sizeX.toNat
  · exact place _ _ right inY (.inl ⟨rfl,.inr rfl⟩)
  · by_cases left : 0 < q.x.toNat
    · exact place (q.x.toNat - 1) _ (by omega) inY (.inl ⟨rfl,.inl (by omega)⟩)
    · have column : b.sizeX.toNat = 1 := by omega
      rw [column,Nat.one_mul] at wide
      by_cases below : q.y.toNat + 1 < b.sizeY.toNat
      · exact place _ _ inX below (.inr ⟨rfl,.inr rfl⟩)
      · exact place _ (q.y.toNat - 1) inX (by omega) (.inr ⟨rfl,.inl (by omega)⟩)


-- Over all searches the condition is one on the map alone.
theorem safe_all (t : Terrain) : (∀ start target, t.battle.isInMap start = true → t.battle.isInMap target = true → Safe t start target) ↔
    Clear t := by
  constructor
  · intro safe
    by_contra blocked
    obtain ⟨some_blocked,wide⟩ := not_or.mp blocked
    obtain ⟨q,inside,obstacle⟩ : ∃ q, t.battle.isInMap q = true ∧ t.battle.ground q = 0 := by
      by_contra none_blocked
      exact some_blocked fun p inMap zero => none_blocked ⟨p,inMap,zero⟩
    obtain ⟨p,inMap,_,near⟩ := beside_exists (Nat.not_le.mp wide) inside
    obtain ⟨free,_⟩ := (safe_iff t inMap q).mp (safe p q inMap inside)
    have cell : q ∈ costed (between t.battle p q) p := by
      unfold costed
      rw [if_pos (.inr obstacle)]
      exact List.mem_filter.mpr ⟨near,inside⟩
    have alone : popBestStep [(between t.battle p q).startNode] = some ((between t.battle p q).startNode,[]) := by
      simp [popBestStep]
    exact free _ _ _ _ .start alone q cell obstacle
  · intro clear start target inside inside'
    rw [safe_iff t inside]
    rcases clear with ground | single
    · exact ⟨fun _ _ _ _ _ _ c cell => ground c (costed_parts cell).2,fun zero => absurd zero (ground start inside)⟩
    · refine ⟨fun openList closeList node rest searching popped c cell => ?_,fun _ apart => absurd (lonely single inside inside') apart⟩
      obtain ⟨near,inMap⟩ := costed_parts cell
      have labels := searching_labels searching
      have parts := popped_parts (labels_distinct labels).2 popped
      have here := rooted_inside (b:=between t.battle start target) inside (labels.rooted node (parts.perm.mem_iff.mpr (List.mem_cons_self ..)))
      rw [lonely (b:=t.battle) single here inMap] at near
      exact absurd near (not_around_self c)

-- The calls of a search stay in the table exactly when no obstacle cell is costed before
-- the end is found and a start without ground is not attacked from; of a search
-- without a way to its end, when no cell it can come to touches an obstacle cell; of all
-- searches of the map, when it has no obstacle cell or is a single cell.
theorem table_iff (t : Terrain) :
    (∀ start target, t.battle.isInMap start = true →
      (Safe t start target ↔ Free (between t.battle start target) ∧ Stands (between t.battle start target)) ∧
      (start ≠ target → (¬∃ path, Route (between t.battle start target) path) →
        (Safe t start target ↔ Untouched (between t.battle start target)))) ∧
    ((∀ start target, t.battle.isInMap start = true → t.battle.isInMap target = true → Safe t start target) ↔ Clear t) := by
  refine ⟨fun start target inside => ⟨safe_iff t inside target,fun apart no_route => ?_⟩,safe_all t⟩
  rw [safe_iff t inside]
  constructor
  · intro ⟨free,_⟩
    exact free_untouched apart no_route free
  · intro untouched
    exact ⟨untouched_free untouched,fun _ _ route => absurd route no_route⟩

-- Two cells of land and the water behind them.
def shore : Terrain where
  battle := {Aim.arena 3 1 [{side := 1,hp := 10,attackRange := 1,movePower := 5}] with
    mapGround := fun i => if i = 2 then 0 else 1}
  bytes := by
    intro p _
    show (if _ = 2 then (0 : UInt8) else 1) ≤ 4
    split <;> decide
  kind := by decide

-- The way along the land costs no water, the search for the water does.
theorem table_iff_shore : Safe shore ⟨0,0⟩ ⟨1,0⟩ ∧ ¬Safe shore ⟨0,0⟩ ⟨2,0⟩ := by
  constructor
  · refine (((table_iff shore).1 ⟨0,0⟩ ⟨1,0⟩ rfl).1).mpr ⟨fun openList closeList node rest searching => ?_,fun zero => nomatch zero⟩
    have hit : ((between shore.battle ⟨0,0⟩ ⟨1,0⟩).round [(between shore.battle ⟨0,0⟩ ⟨1,0⟩).startNode] []).map (·.1) = some true := by
      decide +kernel
    have first : openList = [(between shore.battle ⟨0,0⟩ ⟨1,0⟩).startNode] ∧ closeList = [] := by
      induction searching with
      | start => exact ⟨rfl,rfl⟩
      | round _ moved ih =>
          obtain ⟨rfl,rfl⟩ := ih
          rw [moved] at hit
          cases hit
    obtain ⟨rfl,rfl⟩ := first
    intro popped
    cases popped
    decide +kernel
  · intro safe
    have untouched := (((table_iff shore).1 ⟨0,0⟩ ⟨2,0⟩ rfl).2 (by decide) (fun ⟨path,route⟩ =>
      (passable_parts (route.clear _ (List.mem_of_mem_head? route.ends) (by decide))).2 rfl)).mp safe
    exact untouched ⟨1,0⟩ ⟨2,0⟩ (.step .start (by decide) ⟨rfl,by decide⟩) (by decide) rfl rfl

-- A foot soldier and its enemy with an obstacle between them.
def ravine : Terrain where
  battle := {Aim.arena 3 1 [{side := 1,hp := 10,attackRange := 1,movePower := 5},Aim.foe 2 0] with
    mapGround := fun i => if i = 1 then 0 else 1}
  bytes := by
    intro p _
    show (if _ = 1 then (0 : UInt8) else 1) ≤ 4
    split <;> decide
  kind := by decide

theorem ravine_costed : ¬∀ t start target, t.battle.isInMap start = true → t.battle.isInMap target = true → Safe t start target := by
  intro every
  obtain ⟨path,_,tabled⟩ := every ravine ⟨0,0⟩ ⟨2,0⟩ rfl rfl
  have costed : Read.ride ⟨1,0⟩ ∈ (computeRead (between ravine.battle ⟨0,0⟩ ⟨2,0⟩)).1 := by decide +kernel
  have column := (tabled.compute _ costed).column.1
  revert column
  decide

end GameServer.Battle.RideTable
