import GameServer.Battle.Hex
import GameServer.Battle.Reach
import GameServer.Battle.Target

namespace GameServer.Battle.Aim
open Ground Hex SearchLists Reach

-- A list GetRoute hands out: from the end back to the start over free cells.
structure Listed (b : Ground) (path : List Ascoord) : Prop where
  ends : path.head? = some b.target
  starts : path.getLast? = some b.start
  joined : path.IsChain fun cell parent => cell ∈ getAround parent
  clear : ∀ c ∈ path.dropLast, Passable b c

def between (b : Ground) (start target : Ascoord) : Ground := {b with start,target}

-- The start is closed before anything is pushed, so it is never found.
theorem hit_apart (searching : Searching b openList closeList)
    (moved : b.round openList closeList = some (true,openList',closeList')) : b.start ≠ b.target := by
  intro same
  obtain ⟨node,rest,parts⟩ := round_parts (searching_labels searching) moved
  have labels := parts.expanded.labels
  have closed := closed_start labels.closed (n:=node) (by rw [parts.closes]; simp)
  have distinct := labels.distinct
  rw [nodes_append] at distinct
  exact (List.nodup_append.mp distinct).2.2 _ closed _ (same ▸ parts.expanded.arrived rfl) rfl

theorem same_dry (same : b.start = b.target) (ended : Ended b s) : b.getRoute s = some (false,[]) := by
  cases ended with
  | dry _ dry => rw [dry_bare dry]; rfl
  | hit searching moved => exact absurd same (hit_apart searching moved)

theorem find_route {b : Ground} {start target : Ascoord} (computed : (between b start target).computeRoute = some s)
    (listed : (between b start target).getRoute s = some (found,path)) : b.findRoute start target = some path := by
  unfold findRoute
  show ((between b start target).computeRoute.bind fun s => ((between b start target).getRoute s).bind fun r => some r.2) = some path
  rw [computed,Option.bind_some,listed]; rfl

theorem found_route (b : Ground) (start target : Ascoord) :
    ∃ path, b.findRoute start target = some path ∧ (path = [] ∨ (start ≠ target ∧ Listed (between b start target) path)) := by
  obtain ⟨s,computed,ended⟩ := compute_total (between b start target)
  by_cases same : start = target
  · exact ⟨[],find_route computed (same_dry same ended),.inl rfl⟩
  · cases ended with
    | dry searching dry => exact ⟨[],find_route computed (show getRoute _ _ = some (false,[]) by rw [dry_bare dry]; rfl),.inl rfl⟩
    | hit searching moved =>
        obtain ⟨path,listed,route,clear⟩ := hit_listed (searching_between same searching) moved
        exact ⟨path,find_route computed listed,.inr ⟨same,route.ends,route.starts,route.joined,clear⟩⟩

-- Where there is a way the route handed out is not empty.
theorem missed_route {b : Ground} {start target : Ascoord} (apart : start ≠ target)
    (missed : b.findRoute start target = some []) : ¬∃ path, Route (between b start target) path := by
  obtain ⟨s,computed,ended⟩ := compute_total (between b start target)
  cases ended with
  | dry searching dry =>
      obtain rfl := dry_bare dry
      exact dry_no_route (searching_between apart searching)
  | hit searching moved =>
      obtain ⟨path,listed,route,_⟩ := hit_listed (searching_between apart searching) moved
      obtain rfl := Option.some.inj (missed.symm.trans (find_route computed listed))
      cases route.ends

-- A neighbour is pushed while the start is expanded.
theorem found_beside (b : Ground) {start target : Ascoord} (near : target ∈ getAround start) (free : Passable (between b start target) target) :
    b.findRoute start target = some [target,start] := by
  have apart : start ≠ target := fun same => not_around_self target (same ▸ near)
  obtain ⟨hit,openList,closeList,moved⟩ : ∃ hit openList closeList,
      (between b start target).round [(between b start target).startNode] [] = some (hit,openList,closeList) := ⟨_,_,_,rfl⟩
  have valid := between_start (b:=between b start target) apart
  obtain ⟨node,rest,parts⟩ := round_parts valid.labels moved
  have perm := parts.popped.perm
  obtain ⟨rfl,rfl⟩ : (between b start target).startNode = node ∧ [] = rest := by
    have := List.singleton_perm.mp perm
    exact ⟨(List.cons.inj this).1,(List.cons.inj this).2⟩
  have closes := parts.closes
  rw [List.nil_append] at closes
  subst closes
  have reached : hit = true := by
    cases hit with
    | true => rfl
    | false =>
        rcases parts.expanded.offered rfl target (by simpa [checkUp,startNode] using ⟨near,free.1⟩) free.2 with closed | offered
        · exact absurd (List.mem_singleton.mp closed).symm apart
        · have none_left := parts.expanded.missed rfl (offered_nodes offered)
          cases none_left
  subst reached
  obtain ⟨n,path,_,here,traced,listed⟩ := hit_route valid moved
  have computed : (between b start target).computeRoute =
      some ⟨true,openList,[(between b start target).startNode]⟩ := by
    unfold computeRoute
    rw [searchLoop,moved]
  have whole : path = [target,start] := by
    cases traced with
    | start same _ => exact absurd (same.symm.trans here) apart
    | step other closed _ _ _ _ tail =>
        obtain rfl := List.mem_singleton.mp closed
        rw [here]
        cases tail with
        | start _ _ => rfl
        | step other _ _ _ _ _ _ => exact absurd rfl other
  rw [whole] at listed
  exact find_route computed listed

theorem listed_length {b : Ground} {start target : Ascoord} (apart : start ≠ target) (listed : Listed (between b start target) path) :
    2 ≤ path.length ∧ (path.length = 2 → path = [target,start] ∧ target ∈ getAround start) := by
  obtain ⟨ends,starts,joined,_⟩ := listed
  cases path with
  | nil => cases ends
  | cons first rest =>
      cases ends
      cases rest with
      | nil => exact absurd (Option.some.inj starts).symm apart
      | cons second rest =>
          refine ⟨by simp,fun short => ?_⟩
          cases rest with
          | nil =>
              have same : second = start := Option.some.inj starts
              subst same
              exact ⟨rfl,(List.isChain_cons_cons.mp joined).1⟩
          | cons _ _ => simp at short

theorem mem_reverse_split {b : Ground} {start target : Ascoord} (listed : Listed (between b start target) path) :
    ∃ rest, path.reverse = start :: rest ∧ (∀ c ∈ rest, Passable (between b start target) c) ∧
      rest.length + 1 = path.length := by
  obtain ⟨front,rfl⟩ := List.getLast?_eq_some_iff.mp listed.starts
  refine ⟨front.reverse,by simp; rfl,fun c member => ?_,by simp⟩
  refine listed.clear c ?_
  rw [List.dropLast_concat]
  exact List.mem_reverse.mp member

theorem goal_behind {b : Ground} {start target : Ascoord} (listed : Listed (between b start target) path)
    (order : path.reverse = start :: rest) : target ∈ start :: rest := by
  rw [←order]
  exact List.mem_reverse.mpr (List.mem_of_mem_head? listed.ends)

section enemies
variable {b : Ground} {p t : Ascoord}

theorem passable_parts (free : Passable b p) : b.isInMap p = true ∧ b.ground p ≠ 0 := by
  refine ⟨free.1,fun blocked => ?_⟩
  have open_ := free.2
  simp [isObstract,blocked] at open_

theorem enemy_parts (enemy : b.hasEnemy t = true) : b.ground t ≠ 0 ∧
    ∃ bo, b.mapFighters (b.index t) = some bo ∧ (b.fighter bo).side ≠ b.current.side ∧ 0 < (b.fighter bo).hp := by
  simp only [hasEnemy,fighterAt,Bool.and_eq_true,bne_iff_ne] at enemy
  refine ⟨enemy.1,?_⟩
  cases here : b.mapFighters (b.index t) with
  | none => simp [here] at enemy
  | some bo => exact ⟨bo,rfl,by simpa [here] using enemy.2⟩

-- The end of a route does not count as its own neighbour, nor as an enemy in the way.
theorem enemy_passable (start : Ascoord) (inside : b.isInMap t = true) (ground : b.ground t ≠ 0) :
    Passable (between b start t) t := by
  refine ⟨inside,?_⟩
  have alone : (between b start t).isInAround t (between b start t).target = false := by
    cases around : (between b start t).isInAround t (between b start t).target with
    | false => rfl
    | true => exact absurd ((isInAround_iff _ _ _).mp around).1 (not_around_self t)
  have clear : (between b start t).ground t ≠ 0 := ground
  have arrived : (t != (between b start t).target) = false := bne_self_eq_false t
  unfold isObstract
  rw [alone,arrived]
  simp only [Bool.and_false,Bool.false_and,Bool.or_false,beq_eq_false_iff_ne.mpr clear,Bool.false_or]
  cases (between b start t).fighterAt t <;> rfl

theorem near_parts (near : t ∈ b.getNearEnemy x y) : b.isInMap t = true ∧ b.hasEnemy t = true := by
  simp only [getNearEnemy,List.mem_filter,List.mem_flatMap,List.mem_map] at near
  obtain ⟨⟨j,row,i,column,rfl⟩,enemy⟩ := near
  refine ⟨?_,by simp only [Bool.and_eq_true] at enemy; exact enemy.1⟩
  have columns := column.1
  have rows : j ∈ List.range b.sizeY.toNat := by
    split at row
    · exact (List.mem_filter.mp row).1
    · cases row
  rw [List.mem_range] at columns rows
  have small := b.sizeX.toNat_lt
  have small' := b.sizeY.toNat_lt
  simp only [isInMap,Bool.and_eq_true,decide_eq_true_eq,UInt8.lt_iff_toNat_lt,UInt8.toNat_ofNat']
  omega

theorem zone_self (b : Ground) (t : Ascoord) : b.isInAttackZone t t = true := by
  simp [isInAttackZone,distance]

end enemies

-- A walk over a cell in the zone ends: on a taken cell, or free in the zone.
def Halts (b : Ground) (t : Ascoord) (cells : List Ascoord) (w : Walked) : Prop :=
  w = .taken ∨ ∃ p cost, w = .attack p cost ∧ p ∈ cells ∧ b.isInAttackZone p t = true ∧ b.living p = false

theorem halts_here (reach : b.isInAttackZone p t = true) (cells : List Ascoord) (cost : UInt8) :
    Halts b t (p :: cells) (if b.living p then .taken else .attack p cost) := by
  cases alive : b.living p with
  | true => exact .inl rfl
  | false => exact .inr ⟨p,cost,rfl,List.mem_cons_self ..,reach,alive⟩

theorem halts_later (halts : Halts b t cells w) (p : Ascoord) : Halts b t (p :: cells) w :=
  halts.imp_right fun ⟨q,cost,same,member,facts⟩ => ⟨q,cost,same,List.mem_cons_of_mem _ member,facts⟩

theorem analyseWalk_halts (last : a ∈ it :: rest) (reach : b.isInAttackZone a t = true) (cost : UInt8) :
    Halts b t (it :: rest) (b.analyseWalk t it rest cost) := by
  induction rest generalizing it cost with
  | nil =>
      obtain rfl := List.mem_singleton.mp last
      rw [analyseWalk_last,if_pos reach]
      exact halts_here reach _ _
  | cons p rest ih =>
      rw [analyseWalk_on]
      split
      · rename_i here
        exact halts_here here _ _
      · rename_i far
        rcases List.mem_cons.mp last with rfl | later
        · exact absurd reach far
        · exact halts_later (ih later _) it

theorem bowWalk_halts (last : a ∈ path) (reach : b.isInAttackZone a t = true) (cost : UInt8) :
    Halts b t path (b.bowWalk t path cost) := by
  induction path generalizing cost with
  | nil => cases last
  | cons p rest ih =>
      rw [bowWalk]
      split
      · rename_i here
        exact halts_here here _ _
      · rename_i far
        rcases List.mem_cons.mp last with rfl | later
        · exact absurd reach far
        · exact halts_later (ih later _) p

def cellOf (b : Ground) (bo : Nat) : Ascoord := ⟨(b.fighter bo).groundX,(b.fighter bo).groundY⟩

-- The fighters on the grid know their cells.
def Placed (b : Ground) : Prop :=
  ∀ p, b.isInMap p = true → ∀ bo, b.mapFighters (b.index p) = some bo → cellOf b bo = p

-- What a target promises: a living enemy, a cell to attack from that is the
-- fighter's own or free, and the enemy in the zone of that cell.
structure GoodTarget (b : Ground) (info : TargetInfo) : Prop where
  enemy : (b.fighter info.bo).side ≠ b.current.side ∧ 0 < (b.fighter info.bo).hp
  stands : info.attack = b.own ∨ (b.isInMap info.attack = true ∧ b.ground info.attack ≠ 0 ∧ b.living info.attack = false)
  reaches : b.isInAttackZone info.attack (cellOf b info.bo) = true

-- An analysis of one enemy: it comes back, and its targets are good exactly when
-- the condition holds.
def Settles (b : Ground) (result : Option (List TargetInfo)) (condition : Prop) : Prop :=
  ∃ infos, result = some infos ∧ ((∀ info ∈ infos, GoodTarget b info) ↔ condition)

section analyses
variable {b : Ground} {t : Ascoord}

theorem pushed_parts (placed : Placed b) (inside : b.isInMap t = true) (enemy : b.hasEnemy t = true) (attack : Ascoord)
    (cost : UInt8) : ∃ info, b.pushTarget t attack cost = some [info] ∧ info.attack = attack ∧ cellOf b info.bo = t ∧
      (b.fighter info.bo).side ≠ b.current.side ∧ 0 < (b.fighter info.bo).hp := by
  obtain ⟨_,bo,here,foe⟩ := enemy_parts enemy
  exact ⟨_,by rw [pushTarget,here]; rfl,rfl,placed t inside bo here,foe⟩

-- A push from the own cell is good exactly when the enemy is in its zone.
theorem push_own (placed : Placed b) (inside : b.isInMap t = true) (enemy : b.hasEnemy t = true) (cost : UInt8) :
    Settles b (b.pushTarget t b.own cost) (b.isInAttackZone b.own t = true) := by
  obtain ⟨info,pushed,attack,cell,foe⟩ := pushed_parts placed inside enemy b.own cost
  refine ⟨_,pushed,?_⟩
  rw [List.forall_mem_singleton]
  constructor
  · intro good
    have reach := good.reaches
    rwa [attack,cell] at reach
  · exact fun reach => ⟨foe,.inl attack,by rw [attack,cell]; exact reach⟩

-- A push from a free cell in the zone is good.
theorem push_free (placed : Placed b) (inside : b.isInMap t = true) (enemy : b.hasEnemy t = true) (cost : UInt8)
    (stands : p = b.own ∨ (b.isInMap p = true ∧ b.ground p ≠ 0 ∧ b.living p = false))
    (reach : b.isInAttackZone p t = true) : Settles b (b.pushTarget t p cost) True := by
  obtain ⟨info,pushed,attack,cell,foe⟩ := pushed_parts placed inside enemy p cost
  refine ⟨_,pushed,iff_true_intro fun i member => ?_⟩
  rw [List.mem_singleton.mp member]
  exact ⟨foe,attack ▸ stands,by rw [attack,cell]; exact reach⟩

theorem settles_none (b : Ground) : Settles b (some []) True := ⟨[],rfl,iff_true_intro nofun⟩

end analyses

section shots
variable {b : Ground} {t : Ascoord}

theorem attack_settles (placed : Placed b) (inside : b.isInMap t = true) (enemy : b.hasEnemy t = true)
    (stands : p = b.own ∨ (b.isInMap p = true ∧ b.ground p ≠ 0 ∧ b.living p = false))
    (reach : b.isInAttackZone p t = true) (cost : UInt8) : Settles b (b.analyseOffer t p cost) True := by
  have pushed := push_free placed inside enemy cost stands reach
  unfold analyseOffer
  dsimp only
  split
  · split
    · exact settles_none b
    · split
      · exact pushed
      · exact settles_none b
  · exact pushed

-- An advance from the own cell: only a neighbour is attacked without a look at
-- the zone.
theorem front_settles (placed : Placed b) (inOwn : b.isInMap b.own = true) (inside : b.isInMap t = true)
    (enemy : b.hasEnemy t = true) :
    Settles b ((b.findRoute b.own t).bind fun path => (between b b.own t).analyse path t)
      (b.isInAround b.own t = true → b.isInAttackZone b.own t = true) := by
  by_cases near : b.isInAround b.own t = true
  · have beside := around_symm ((isInAround_iff _ _ _).mp near).1
    rw [found_beside b beside (enemy_passable b.own inside (enemy_parts enemy).1),Option.bind_some]
    have stays : (between b b.own t).analyse [t,b.own] t = b.pushTarget t b.own 0 := by
      unfold analyse analysePath
      simp only [List.reverse_cons,List.reverse_nil,List.nil_append,List.cons_append]
      unfold analyseOffer
      dsimp only
      rw [if_neg (UInt8.not_lt.mpr (UInt8.le_iff_toNat_le.mpr (Nat.zero_le _)))]
      rfl
    obtain ⟨infos,result,good⟩ := push_own placed inside enemy 0
    exact ⟨infos,stays.trans result,good.trans ⟨fun reach _ => reach,fun reach => reach near⟩⟩
  · have far : b.own ∉ getAround t := fun beside => near ((isInAround_iff _ _ _).mpr ⟨beside,inOwn⟩)
    have free : ∀ {c : Prop}, (b.isInAround b.own t = true → c) ↔ True := iff_true_intro fun close => absurd close near
    rw [free]
    obtain ⟨path,found,rfl | ⟨apart,listed⟩⟩ := found_route b b.own t
    · rw [found]; exact settles_none b
    · rw [found,Option.bind_some]
      obtain ⟨rest,order,clear,length⟩ := mem_reverse_split listed
      obtain ⟨atLeast,two⟩ := listed_length apart listed
      have last := goal_behind listed order
      cases rest with
      | nil => simp at length; omega
      | cons p more =>
          cases more with
          | nil => exact absurd (around_symm (two (by simp at length; omega)).2) far
          | cons q more =>
              have halts := analyseWalk_halts (b:=between b b.own t) last (zone_self _ t) 0
              unfold analyse analysePath
              simp only [order]
              rcases halts with taken | ⟨a,cost,stops,member,reach,free⟩
              · rw [taken]; exact settles_none b
              · rw [stops]
                refine attack_settles placed inside enemy ?_ reach cost
                rcases List.mem_cons.mp member with same | later
                · exact .inl same
                · have passable := passable_parts (clear a later)
                  exact .inr ⟨passable.1,passable.2,free⟩

theorem retreat_settles (placed : Placed b) (inside : b.isInMap t = true) (enemy : b.hasEnemy t = true)
    (reach : b.isInAttackZone a t = true) :
    Settles b ((b.findRoute b.own a).bind fun path => b.bowAnalyse path t) True := by
  obtain ⟨path,found,rfl | ⟨apart,listed⟩⟩ := found_route b b.own a
  · rw [found]; exact settles_none b
  · rw [found,Option.bind_some]
    obtain ⟨rest,order,clear,length⟩ := mem_reverse_split listed
    have last : a ∈ rest := (List.mem_cons.mp (goal_behind listed order)).resolve_left (Ne.symm apart)
    cases rest with
    | nil => cases last
    | cons p more =>
        unfold bowAnalyse bowPath
        simp only [order]
        rcases bowWalk_halts (b:=b) last reach 0 with taken | ⟨q,cost,stops,member,near,free⟩
        · rw [taken]; exact settles_none b
        · rw [stops]
          have passable := passable_parts (clear q member)
          dsimp only [bowOffer]
          split
          · exact settles_none b
          · exact push_free placed inside enemy cost (.inr ⟨passable.1,passable.2,free⟩) near

end shots

-- Analyses one after the other.
theorem settles_all {f : α → Option (List TargetInfo)} {condition : α → Prop} (list : List α)
    (each : ∀ a ∈ list, Settles b (f a) (condition a)) :
    Settles b ((list.mapM f).map List.flatten) (∀ a ∈ list, condition a) := by
  induction list with
  | nil => exact ⟨[],rfl,by simp⟩
  | cons a rest ih =>
      obtain ⟨first,here,good⟩ := each a (List.mem_cons_self ..)
      obtain ⟨more,later,good'⟩ := ih fun c member => each c (List.mem_cons_of_mem _ member)
      rw [Option.map_eq_some_iff] at later
      obtain ⟨lists,ran,rfl⟩ := later
      refine ⟨first ++ lists.flatten,?_,?_⟩
      · rw [List.mapM_cons,here,ran]; rfl
      · rw [List.forall_mem_append,List.forall_mem_cons,good,good']

-- Somewhere in the ride zone a near enemy could be shot that cannot shoot back.
def HasBack (b : Ground) (t : Ascoord) : Prop :=
  ∃ p ∈ b.getRideZone t, ∃ e ∈ b.getNearEnemy b.own.x b.own.y,
    b.isInAttackZone p e = true ∧ b.enemyCanAttack e p = false

theorem back_parts {b : Ground} {t : Ascoord} {enemies : List Ascoord} {it : AttackInfo} : it ∈ b.getBackPosition t enemies ↔
    it.attack ∈ b.getRideZone t ∧ it.target ∈ enemies ∧ b.isInAttackZone it.attack it.target = true ∧
      b.enemyCanAttack it.target it.attack = false := by
  obtain ⟨p,e⟩ := it
  simp only [getBackPosition,List.mem_flatMap,List.mem_filterMap,Option.ite_none_right_eq_some,Bool.and_eq_true,
    Bool.not_eq_true',Option.some.injEq,AttackInfo.mk.injEq]
  constructor
  · rintro ⟨p',zone,e',near,facts,rfl,rfl⟩
    exact ⟨zone,near,facts⟩
  · intro ⟨zone,near,facts⟩
    exact ⟨p,zone,e,near,facts,rfl,rfl⟩

theorem back_settles (placed : Placed b) (inside : b.isInMap t = true) (enemy : b.hasEnemy t = true) :
    Settles b (b.shootBackAttack t) (¬HasBack b t → b.isInAttackZone b.own t = true) := by
  unfold shootBackAttack
  dsimp only
  cases final : b.getBackPosition t (b.getNearEnemy b.own.x b.own.y) with
  | nil =>
      have none_back : ¬HasBack b t := by
        intro ⟨p,zone,e,near,facts⟩
        have member : ⟨p,e⟩ ∈ b.getBackPosition t (b.getNearEnemy b.own.x b.own.y) := back_parts.mpr ⟨zone,near,facts⟩
        rw [final] at member
        exact List.not_mem_nil member
      obtain ⟨infos,result,good⟩ := push_own placed inside enemy 0
      exact ⟨infos,result,good.trans ⟨fun reach _ => reach,fun reach => reach none_back⟩⟩
  | cons first rest =>
      have back : HasBack b t := by
        have member : first ∈ b.getBackPosition t (b.getNearEnemy b.own.x b.own.y) := by
          rw [final]; exact List.mem_cons_self ..
        obtain ⟨zone,near,facts⟩ := back_parts.mp member
        exact ⟨first.attack,zone,first.target,near,facts⟩
      obtain ⟨infos,result,good⟩ := settles_all (b:=b)
        (f:=fun it : AttackInfo => (b.findRoute b.own it.attack).bind fun path => b.bowAnalyse path it.target)
        (first :: rest) (fun it member => by
          rw [←final] at member
          obtain ⟨_,near,reach,_⟩ := back_parts.mp member
          obtain ⟨inMap,foe⟩ := near_parts near
          exact retreat_settles placed inMap foe reach)
      exact ⟨infos,result,good.trans (by simp [back])⟩

-- The condition under which an enemy near the fighter gives good targets only.
def Answers (b : Ground) (t : Ascoord) : Prop :=
  if b.current.typeId = 3 then
    (b.isInAround b.own t = true → ¬HasBack b t → b.isInAttackZone b.own t = true) ∧
      (b.isInAround b.own t = false → (b.getNeighbourEnemy b.own.x b.own.y).length = 6 →
        b.isInAttackZone b.own t = true)
  else b.isInAround b.own t = true → b.isInAttackZone b.own t = true

theorem neighbours_six (b : Ground) (x y : UInt8) : (b.getNeighbourEnemy x y).length ≤ 6 := by
  refine Nat.le_trans (List.length_filter_le _ _) (Nat.le_trans (List.length_filter_le _ _) ?_)
  unfold getAround
  split <;> exact Nat.le_refl 6

theorem style_settles (placed : Placed b) (inOwn : b.isInMap b.own = true) (bow : b.current.typeId = 3)
    (inside : b.isInMap t = true) (enemy : b.hasEnemy t = true) :
    Settles b (b.attackInStyle b.own.x b.own.y t) (Answers b t) := by
  have six := neighbours_six b b.own.x b.own.y
  unfold attackInStyle Answers
  dsimp only
  rw [if_pos bow]
  have mine : (⟨b.own.x,b.own.y⟩ : Ascoord) = b.own := rfl
  rw [mine]
  cases near : b.isInAround b.own t with
  | true =>
      rw [if_pos (by simpa using six)]
      obtain ⟨infos,result,good⟩ := back_settles placed inside enemy
      exact ⟨infos,result,good.trans (by simp)⟩
  | false =>
      rw [if_neg (by simp)]
      by_cases surrounded : (b.getNeighbourEnemy b.own.x b.own.y).length = 6
      · rw [if_pos (by simp [surrounded])]
        obtain ⟨infos,result,good⟩ := push_own placed inside enemy 0
        exact ⟨infos,result,good.trans (by simp [surrounded])⟩
      · cases reach : b.isInAttackZone b.own t with
        | true =>
            rw [if_pos (by simp)]
            obtain ⟨infos,result,good⟩ := push_own placed inside enemy 0
            exact ⟨infos,result,good.trans (by simp [reach])⟩
        | false =>
            rw [if_neg (by simp [surrounded])]
            obtain ⟨infos,result,good⟩ := front_settles placed inOwn inside enemy
            exact ⟨infos,result,good.trans (by simp [near,surrounded])⟩

-- GetTarget comes back, and its targets are good exactly when every near enemy
-- answers: a bow that shoots from where it stands, because it is surrounded or
-- cannot back off, and a melee fighter beside its enemy do not look at the zone.
theorem targets_good_iff (b : Ground) (placed : Placed b) (inOwn : b.isInMap b.own = true) :
    ∃ infos, b.getTarget b.own.x b.own.y = some infos ∧
      ((∀ info ∈ infos, GoodTarget b info) ↔ ∀ t ∈ b.getNearEnemy b.own.x b.own.y, Answers b t) := by
  unfold getTarget bowGetTarget
  dsimp only
  split
  · rename_i bow
    exact settles_all _ fun t near => style_settles placed inOwn bow (near_parts near).1 (near_parts near).2
  · rename_i melee
    refine settles_all _ fun t near => ?_
    unfold Answers
    rw [if_neg melee]
    exact front_settles placed inOwn (near_parts near).1 (near_parts near).2

-- Grass with some fighters on it; the first one is the current one.
def arena (sizeX sizeY : UInt8) (fighters : List BattleFighter) : Ground := {
  sizeX,sizeY
  mapGround := fun _ => 1
  mapFighters := fun i => fighters.findIdx? fun f => f.groundX.toNat + f.groundY.toNat*sizeX.toNat = i
  fighter := fun bo => fighters.getD bo {}}

theorem placed_arena {sizeX sizeY : UInt8} {fighters : List BattleFighter} (inside : ∀ f ∈ fighters, (arena sizeX sizeY fighters).isInMap ⟨f.groundX,f.groundY⟩ = true) :
    Placed (arena sizeX sizeY fighters) := by
  intro p inMap bo here
  obtain ⟨small,same,_⟩ := List.findIdx?_eq_some_iff_getElem.mp here
  have cell : cellOf (arena sizeX sizeY fighters) bo = ⟨fighters[bo].groundX,fighters[bo].groundY⟩ := by
    unfold cellOf arena
    dsimp only
    rw [List.getD_eq_getElem?_getD,List.getElem?_eq_getElem small]
    rfl
  rw [cell]
  exact index_inj (inside _ (List.getElem_mem small)) inMap (of_decide_eq_true same)

def foe (x y : UInt8) : BattleFighter :=
  {side := 2,hp := 10,attackRange := 1,movePower := 2,groundX := x,groundY := y}

-- An archer with an enemy on every side and one more two cells away, with a
-- range of one cell: the far enemy becomes a target from where the archer stands.
def encircled : Ground := arena 7 7
  ({side := 1,hp := 10,typeId := 3,cls := 3,attackRange := 1,movePower := 2,groundX := 3,groundY := 3} ::
    [foe 3 2,foe 4 3,foe 4 2,foe 2 3,foe 3 4,foe 4 4,foe 5 3])

theorem encircled_target : encircled.getTarget 3 3 = some [⟨7,⟨3,3⟩,0,2⟩] := by decide +kernel

theorem shot_out_of_range : ¬∀ b : Ground, Placed b → b.isInMap b.own = true →
    ∃ infos, b.getTarget b.own.x b.own.y = some infos ∧ ∀ info ∈ infos, GoodTarget b info := by
  intro every
  obtain ⟨infos,result,good⟩ := every encircled (placed_arena (by decide)) (by decide)
  obtain rfl := Option.some.inj (encircled_target.symm.trans result)
  have reach := (good _ (List.mem_singleton_self _)).reaches
  revert reach
  decide

-- Two foot soldiers side by side.
def duel : Ground := arena 3 3 [{foe 0 0 with side := 1},foe 1 0]

theorem targets_good_duel : ∃ infos, duel.getTarget 0 0 = some infos ∧
    ((∀ info ∈ infos, GoodTarget duel info) ↔ ∀ t ∈ duel.getNearEnemy 0 0, Answers duel t) :=
  targets_good_iff duel (placed_arena (by decide)) (by decide)

end GameServer.Battle.Aim
