import GameServer.Battle.Aim
import GameServer.Battle.Walk

namespace GameServer.Battle.Choices
open Ground Aim Reach

-- What every target of GetTarget is, wherever the current fighter stands: a
-- living enemy found on the grid, and a cell that is the fighter's own or on
-- the map without a living fighter.
structure Offered (b : Ground) (info : TargetInfo) : Prop where
  found : ∃ t, b.isInMap t = true ∧ b.mapFighters (b.index t) = some info.bo
  foe : (b.fighter info.bo).side ≠ b.current.side ∧ 0 < (b.fighter info.bo).hp
  stands : info.attack = b.own ∨ (b.isInMap info.attack = true ∧ b.living info.attack = false)

def Offers (b : Ground) (result : Option (List TargetInfo)) : Prop :=
  ∃ infos, result = some infos ∧ ∀ info ∈ infos, Offered b info

section targets
variable {b : Ground} {t : Ascoord}

theorem offers_none (b : Ground) : Offers b (some []) := ⟨[],rfl,nofun⟩

theorem offers_push (inside : b.isInMap t = true) (enemy : b.hasEnemy t = true) (cost : UInt8)
    (stands : p = b.own ∨ (b.isInMap p = true ∧ b.living p = false)) : Offers b (b.pushTarget t p cost) := by
  obtain ⟨_,bo,here,foe⟩ := enemy_parts enemy
  refine ⟨_,by rw [pushTarget,here]; rfl,?_⟩
  intro info member
  rw [List.mem_singleton.mp member]
  exact ⟨⟨t,inside,here⟩,foe,stands⟩

theorem offers_analyse (inside : b.isInMap t = true) (enemy : b.hasEnemy t = true) (cost : UInt8)
    (stands : p = b.own ∨ (b.isInMap p = true ∧ b.living p = false)) : Offers b (b.analyseOffer t p cost) := by
  have pushed := offers_push inside enemy cost stands
  unfold analyseOffer
  dsimp only
  split
  · split
    · exact offers_none b
    · split
      · exact pushed
      · exact offers_none b
  · exact pushed

theorem offers_front (inside : b.isInMap t = true) (enemy : b.hasEnemy t = true) :
    Offers b ((b.findRoute b.own t).bind fun path => (between b b.own t).analyse path t) := by
  obtain ⟨path,found,rfl | ⟨apart,listed⟩⟩ := found_route b b.own t
  · rw [found]; exact offers_none b
  · rw [found,Option.bind_some]
    obtain ⟨rest,order,clear,length⟩ := mem_reverse_split listed
    have last := goal_behind listed order
    unfold analyse analysePath
    cases rest with
    | nil => simp only [order]; exact offers_none b
    | cons p more =>
        cases more with
        | nil => simp only [order]; exact offers_analyse (b:=b) inside enemy 0 (.inl rfl)
        | cons q more =>
            simp only [order]
            rcases analyseWalk_halts (b:=between b b.own t) last (zone_self _ t) 0 with taken | ⟨a,cost,stops,member,_,free⟩
            · rw [taken]; exact offers_none b
            · rw [stops]
              refine offers_analyse (b:=b) inside enemy cost ?_
              rcases List.mem_cons.mp member with same | later
              · exact .inl same
              · exact .inr ⟨(clear a later).1,free⟩

theorem offers_retreat (inside : b.isInMap t = true) (enemy : b.hasEnemy t = true) (reach : b.isInAttackZone a t = true) :
    Offers b ((b.findRoute b.own a).bind fun path => b.bowAnalyse path t) := by
  obtain ⟨path,found,rfl | ⟨apart,listed⟩⟩ := found_route b b.own a
  · rw [found]; exact offers_none b
  · rw [found,Option.bind_some]
    obtain ⟨rest,order,clear,length⟩ := mem_reverse_split listed
    have last : a ∈ rest := (List.mem_cons.mp (goal_behind listed order)).resolve_left (Ne.symm apart)
    unfold bowAnalyse bowPath
    cases rest with
    | nil => cases last
    | cons p more =>
        simp only [order]
        rcases bowWalk_halts (b:=b) last reach 0 with taken | ⟨q,cost,stops,member,_,free⟩
        · rw [taken]; exact offers_none b
        · rw [stops]
          dsimp only [bowOffer]
          split
          · exact offers_none b
          · exact offers_push inside enemy cost (.inr ⟨(clear q member).1,free⟩)

theorem offers_all {f : α → Option (List TargetInfo)} (list : List α) (each : ∀ a ∈ list, Offers b (f a)) :
    Offers b ((list.mapM f).map List.flatten) := by
  induction list with
  | nil => exact offers_none b
  | cons a rest ih =>
      obtain ⟨first,here,good⟩ := each a (List.mem_cons_self ..)
      obtain ⟨more,later,good'⟩ := ih fun c member => each c (List.mem_cons_of_mem _ member)
      rw [Option.map_eq_some_iff] at later
      obtain ⟨lists,ran,rfl⟩ := later
      refine ⟨first ++ lists.flatten,by rw [List.mapM_cons,here,ran]; rfl,?_⟩
      rw [List.forall_mem_append]
      exact ⟨good,good'⟩

theorem offers_back (inside : b.isInMap t = true) (enemy : b.hasEnemy t = true) : Offers b (b.shootBackAttack t) := by
  unfold shootBackAttack
  dsimp only
  split
  · exact offers_push inside enemy 0 (.inl rfl)
  · refine offers_all _ fun it member => ?_
    obtain ⟨_,near,reach,_⟩ := back_parts.mp member
    obtain ⟨inMap,foe⟩ := near_parts near
    exact offers_retreat inMap foe reach

theorem offers_style (inside : b.isInMap t = true) (enemy : b.hasEnemy t = true) :
    Offers b (b.attackInStyle b.own.x b.own.y t) := by
  unfold attackInStyle
  dsimp only
  split
  · exact offers_back inside enemy
  · split
    · exact offers_push inside enemy 0 (.inl rfl)
    · exact offers_front inside enemy

end targets

-- GetTarget always comes back.
theorem getTarget_offers (b : Ground) : Offers b (b.getTarget b.own.x b.own.y) := by
  unfold getTarget bowGetTarget
  dsimp only
  split
  · exact offers_all _ fun t near => offers_style (near_parts near).1 (near_parts near).2
  · exact offers_all _ fun t near => offers_front (near_parts near).1 (near_parts near).2

section walks
variable {b : Ground} {path : List Ascoord}

theorem getMovePos_mem (b : Ground) (path : List Ascoord) (move : Ascoord) :
    b.getMovePos path move = move ∨ (b.getMovePos path move ∈ path ∧ b.living (b.getMovePos path move) = false) := by
  unfold getMovePos
  cases found : path.reverse.find? (fun p => !b.living p) with
  | none => exact .inl rfl
  | some p =>
      exact .inr ⟨List.mem_reverse.mp (List.mem_of_find?_eq_some found),by simpa using List.find?_some found⟩

end walks

-- Without a target the fighter stays or goes to a cell of a route.
theorem getMovePosition_total (b : Ground) (move : Ascoord) : ∃ m, b.getMovePosition move = some m ∧
    (b.isInMap b.own = true → m = move ∨ b.isInMap m = true) := by
  unfold getMovePosition
  split
  · exact ⟨move,rfl,fun _ => .inl rfl⟩
  · rename_i target _ _
    obtain ⟨path,found,empty | ⟨apart,listed⟩⟩ := found_route b b.own target
    · subst empty
      exact ⟨move,by rw [found]; rfl,fun _ => .inl rfl⟩
    · refine ⟨_,by rw [found]; rfl,?_⟩
      intro inside
      obtain ⟨rest,order,clear,_⟩ := mem_reverse_split listed
      have cells : ∀ c ∈ path.reverse, b.isInMap c = true := by
        rw [order]
        exact List.forall_mem_cons.mpr ⟨inside,fun c member => (clear c member).1⟩
      have last : b.isInMap target = true :=
        cells target (List.mem_reverse.mpr (List.mem_of_mem_head? listed.ends))
      unfold moveAnalyse
      dsimp only
      split
      · exact .inl rfl
      · exact .inl rfl
      · rcases getMovePos_mem {b with start := b.own,target} (upTo {} path.reverse) _ with same | ⟨member,_⟩
        · rw [same]
          split
          · exact .inr inside
          · exact .inr last
        · exact .inr (cells _ (upTo_mem member))
      · rcases getMovePos_mem {b with start := b.own,target} _ move with same | ⟨member,_⟩
        · exact .inl same
        · exact .inr (cells _ (upTo_mem member))

end GameServer.Battle.Choices
