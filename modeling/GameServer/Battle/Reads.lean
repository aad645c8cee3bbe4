import GameServer.Battle.Aim

namespace GameServer.Battle.Reads
open Ground SearchLists Aim

-- What the walks read: the cost table at the ground of a cell, or a cell itself.
inductive Read where
  | ride (p : Ascoord)
  | cell (p : Ascoord)
  deriving DecidableEq, Repr

def Read.place : Read → Ascoord
  | .ride p => p
  | .cell p => p

-- IsNearbyHaveEnemy stops at the first enemy.
def nearbyRead (b : Ground) : List Ascoord → List Read × Bool
  | [] => ([],false)
  | q :: rest =>
    if b.hasEnemy q && !b.isCurrent q then ([.cell q],true)
    else
      let (reads,near) := nearbyRead b rest
      (.cell q :: reads,near)

def walkOnRead (b : Ground) (target p : Ascoord) (cost : UInt8) : List Read × UInt8 :=
  let (looks,near) := nearbyRead b (b.checkUp (getAround p))
  let cost := cost + b.getRideSub p
  (.ride p :: looks,if near && getDistance p target > 0 then cost + 1 else cost)

-- The loop of Analyse with what it reads.
def analyseWalkRead (b : Ground) (target : Ascoord) : Ascoord → List Ascoord → UInt8 → List Read × Walked
  | it,rest,cost =>
    if b.isInAttackZone it target then ([.cell it],if b.living it then .taken else .attack it cost)
    else match rest with
      | [] => ([],.beyond cost)
      | p :: rest =>
        let (on,cost) := walkOnRead b target p cost
        let (reads,walked) := analyseWalkRead b target p rest cost
        (on ++ reads,walked)

def analysePathRead (b : Ground) (list : List Ascoord) (target : Ascoord) : List Read × Option Walked :=
  match list.reverse with
  | [] | [_] => ([],none)
  | [_,_] => ([],some (.attack b.start 0))
  | first :: rest =>
    let (reads,walked) := analyseWalkRead b target first rest 0
    (reads,some walked)

-- The cost of the attack cell is read again, a push reads the cell of the target.
def analyseOfferRead (b : Ground) (target attack : Ascoord) (cost : UInt8) : List Read × Option (List TargetInfo) :=
  let ride := b.getRideSub attack
  let movePower := b.current.movePower
  if cost > movePower then
    if cost - ride ≥ movePower then ([.ride attack],some [])
    else if b.isInAround attack target then ([.ride attack,.cell target],b.pushTarget target attack cost)
    else ([.ride attack],some [])
  else ([.ride attack,.cell target],b.pushTarget target attack cost)

def analyseRead (b : Ground) (list : List Ascoord) (target : Ascoord) : List Read × Option (List TargetInfo) :=
  match analysePathRead b list target with
  | (reads,none) => (reads,some [])
  | (reads,some .taken) => (reads,some [])
  | (reads,some (.beyond _)) => (reads,none)
  | (reads,some (.attack attack cost)) =>
    let (offer,infos) := analyseOfferRead b target attack cost
    (reads ++ offer,infos)

-- The loop of BowAnalyse with what it reads.
def bowWalkRead (b : Ground) (target : Ascoord) : List Ascoord → UInt8 → List Read × Walked
  | [],cost => ([],.beyond cost)
  | p :: rest,cost =>
    if b.isInAttackZone p target then
      ([.ride p,.cell p],if b.living p then .taken else .attack p (cost + b.getRideSub p))
    else
      let (on,cost) := walkOnRead b target p cost
      let (reads,walked) := bowWalkRead b target rest cost
      (on ++ reads,walked)

def bowPathRead (b : Ground) (list : List Ascoord) (target : Ascoord) : List Read × Option Walked :=
  match list.reverse with
  | [] | [_] => ([],none)
  | _ :: path =>
    let (reads,walked) := bowWalkRead b target path 0
    (reads,some walked)

def bowOfferRead (b : Ground) (target attack : Ascoord) (cost : UInt8) : List Read × Option (List TargetInfo) :=
  if cost > b.current.movePower then ([],some []) else ([.cell target],b.pushTarget target attack cost)

def bowRead (b : Ground) (list : List Ascoord) (target : Ascoord) : List Read × Option (List TargetInfo) :=
  match bowPathRead b list target with
  | (reads,none) => (reads,some [])
  | (reads,some .taken) => (reads,some [])
  | (reads,some (.attack attack cost)) =>
    let (offer,infos) := bowOfferRead b target attack cost
    (reads ++ offer,infos)
  | (reads,some (.beyond cost)) =>
    let (offer,infos) := bowOfferRead b target {} cost
    (reads ++ offer,infos)

section results
variable (b : Ground) (target : Ascoord)

theorem nearby_result (cells : List Ascoord) : (nearbyRead b cells).2 = cells.any fun q => b.hasEnemy q && !b.isCurrent q := by
  induction cells with
  | nil => rfl
  | cons q rest ih =>
      rw [nearbyRead,List.any_cons]
      cases here : b.hasEnemy q && !b.isCurrent q with
      | true => rfl
      | false => exact ih

theorem walkOn_result (p : Ascoord) (cost : UInt8) : (walkOnRead b target p cost).2 = b.walkOn target p cost := by
  unfold walkOnRead walkOn isNearbyHaveEnemy
  dsimp only
  rw [nearby_result]

theorem analyseWalk_result (it : Ascoord) (rest : List Ascoord) (cost : UInt8) :
    (analyseWalkRead b target it rest cost).2 = b.analyseWalk target it rest cost := by
  induction rest generalizing it cost with
  | nil =>
      rw [analyseWalkRead,analyseWalk_last]
      split <;> rfl
  | cons p rest ih =>
      rw [analyseWalkRead,analyseWalk_on]
      split
      · rfl
      · dsimp only
        rw [ih,walkOn_result]

theorem bowWalk_result (path : List Ascoord) (cost : UInt8) : (bowWalkRead b target path cost).2 = b.bowWalk target path cost := by
  induction path generalizing cost with
  | nil => rfl
  | cons p rest ih =>
      rw [bowWalkRead,bowWalk]
      dsimp only
      split
      · rfl
      · dsimp only
        rw [ih,walkOn_result]
        rfl

theorem analysePath_result (list : List Ascoord) : (analysePathRead b list target).2 = b.analysePath list target := by
  unfold analysePathRead analysePath
  match list.reverse with
  | [] | [_] | [_,_] => rfl
  | first :: p :: q :: rest => exact congrArg some (analyseWalk_result b target first (p :: q :: rest) 0)

theorem bowPath_result (list : List Ascoord) : (bowPathRead b list target).2 = b.bowPath list target := by
  unfold bowPathRead bowPath
  match list.reverse with
  | [] | [_] => rfl
  | _ :: p :: rest => exact congrArg some (bowWalk_result b target (p :: rest) 0)

theorem analyseOffer_result (attack : Ascoord) (cost : UInt8) :
    (analyseOfferRead b target attack cost).2 = b.analyseOffer target attack cost := by
  unfold analyseOfferRead analyseOffer
  dsimp only
  split
  · split
    · rfl
    · split <;> rfl
  · rfl

theorem bowOffer_result (attack : Ascoord) (cost : UInt8) : (bowOfferRead b target attack cost).2 = b.bowOffer target attack cost := by
  unfold bowOfferRead bowOffer
  split <;> rfl

-- Without what they read the analyses are those of the battle ground.
theorem analyse_result (list : List Ascoord) : (analyseRead b list target).2 = b.analyse list target := by
  have walked := analysePath_result b target list
  unfold analyseRead analyse
  rw [←walked]
  obtain ⟨reads,_ | _ | _ | _⟩ := analysePathRead b list target
  · rfl
  · exact analyseOffer_result ..
  · rfl
  · rfl

theorem bow_result (list : List Ascoord) : (bowRead b list target).2 = b.bowAnalyse list target := by
  have walked := bowPath_result b target list
  unfold bowRead bowAnalyse
  rw [←walked]
  obtain ⟨reads,_ | _ | _ | _⟩ := bowPathRead b list target
  · rfl
  · exact bowOffer_result ..
  · rfl
  · exact bowOffer_result ..

end results

-- The cost of one of the cells `costed`, or a look at a cell of the path or of the map.
def Within (b : Ground) (costed path : List Ascoord) : Read → Prop
  | .ride p => p ∈ costed
  | .cell p => p ∈ path ∨ b.isInMap p = true

theorem within_later {b : Ground} {r : Read} (within : Within b costed path r) (p q : Ascoord) :
    Within b (p :: costed) (q :: path) r := by
  cases r with
  | ride c => exact List.mem_cons_of_mem _ within
  | cell c => exact within.imp_left (List.mem_cons_of_mem _)

theorem nearby_within {b : Ground} {cells costed path : List Ascoord} (inside : ∀ q ∈ cells, b.isInMap q = true) :
    ∀ r ∈ (nearbyRead b cells).1, Within b costed path r := by
  induction cells with
  | nil => exact List.forall_mem_nil _
  | cons q rest ih =>
      obtain ⟨here,later⟩ := List.forall_mem_cons.mp inside
      rw [nearbyRead]
      split
      · exact List.forall_mem_singleton.mpr (.inr here)
      · exact List.forall_mem_cons.mpr ⟨.inr here,ih later⟩

theorem walkOn_within (b : Ground) (target p : Ascoord) (cost : UInt8) (costed path : List Ascoord) :
    ∀ r ∈ (walkOnRead b target p cost).1, Within b (p :: costed) path r := by
  unfold walkOnRead
  exact List.forall_mem_cons.mpr ⟨List.mem_cons_self ..,nearby_within fun q member => (List.mem_filter.mp member).2⟩

-- The loop of Analyse costs the cells behind the first only.
theorem analyseWalk_within (b : Ground) (target it : Ascoord) (rest : List Ascoord) (cost : UInt8) :
    ∀ r ∈ (analyseWalkRead b target it rest cost).1, Within b rest (it :: rest) r := by
  induction rest generalizing it cost with
  | nil =>
      rw [analyseWalkRead]
      split
      · exact List.forall_mem_singleton.mpr (.inl (List.mem_cons_self ..))
      · exact List.forall_mem_nil _
  | cons p rest ih =>
      rw [analyseWalkRead]
      split
      · exact List.forall_mem_singleton.mpr (.inl (List.mem_cons_self ..))
      · exact List.forall_mem_append.mpr ⟨walkOn_within b target p cost rest _,
          fun r member => within_later (ih p _ r member) p it⟩

theorem bowWalk_within (b : Ground) (target : Ascoord) (path : List Ascoord) (cost : UInt8) :
    ∀ r ∈ (bowWalkRead b target path cost).1, Within b path path r := by
  induction path generalizing cost with
  | nil => exact List.forall_mem_nil _
  | cons p rest ih =>
      rw [bowWalkRead]
      split
      · exact List.forall_mem_cons.mpr ⟨List.mem_cons_self ..,List.forall_mem_singleton.mpr (.inl (List.mem_cons_self ..))⟩
      · exact List.forall_mem_append.mpr ⟨walkOn_within b target p cost rest _,
          fun r member => within_later (ih _ r member) p p⟩

theorem analyseWalk_member {b : Ground} {target : Ascoord} {cost paid : UInt8} (stops : b.analyseWalk target it rest cost = .attack p paid) :
    p ∈ it :: rest := by
  induction rest generalizing it cost with
  | nil =>
      rw [analyseWalk_last] at stops
      split at stops
      · split at stops
        · cases stops
        · cases stops; exact List.mem_cons_self ..
      · cases stops
  | cons q rest ih =>
      rw [analyseWalk_on] at stops
      split at stops
      · split at stops
        · cases stops
        · cases stops; exact List.mem_cons_self ..
      · exact List.mem_cons_of_mem _ (ih stops)

theorem offer_within (b : Ground) (target : Ascoord) (cost : UInt8) {costed path : List Ascoord} (member : p ∈ costed) :
    ∀ r ∈ (analyseOfferRead b target p cost).1, Within b costed (target :: path) r := by
  have ride : Within b costed (target :: path) (.ride p) := member
  have push : Within b costed (target :: path) (.cell target) := .inl (List.mem_cons_self ..)
  have both := List.forall_mem_cons.mpr ⟨ride,List.forall_mem_singleton.mpr push⟩
  have alone := List.forall_mem_singleton.mpr ride
  unfold analyseOfferRead
  dsimp only
  split
  · split
    · exact alone
    · split
      · exact both
      · exact alone
  · exact both

-- What Analyse reads on a path from its start.
theorem analyse_within (target : Ascoord) (order : list.reverse = b.start :: rest) :
    ∀ r ∈ (analyseRead b list target).1, Within b (b.start :: rest) (target :: b.start :: rest) r := by
  unfold analyseRead analysePathRead
  rw [order]
  match rest with
  | [] => exact List.forall_mem_nil _
  | [p] => exact offer_within b target 0 (List.mem_cons_self ..)
  | p :: q :: rest =>
      have walk : ∀ r ∈ (analyseWalkRead b target b.start (p :: q :: rest) 0).1,
          Within b (b.start :: p :: q :: rest) (target :: b.start :: p :: q :: rest) r := by
        intro r member
        have within := analyseWalk_within b target b.start (p :: q :: rest) 0 r member
        cases r with
        | ride c => exact List.mem_cons_of_mem _ within
        | cell c => exact within.imp_left (List.mem_cons_of_mem _)
      have result := analyseWalk_result b target b.start (p :: q :: rest) 0
      dsimp only
      cases walked : analyseWalkRead b target b.start (p :: q :: rest) 0 with
      | mk reads ended =>
          rw [walked] at walk result
          cases ended with
          | attack a cost =>
              exact List.forall_mem_append.mpr ⟨walk,offer_within b target cost (analyseWalk_member result.symm)⟩
          | taken => exact walk
          | beyond cost => exact walk

theorem bow_within (target : Ascoord) (order : list.reverse = first :: rest) :
    ∀ r ∈ (bowRead b list target).1, Within b rest (target :: rest) r := by
  have offer : ∀ attack cost, ∀ r ∈ (bowOfferRead b target attack cost).1, Within b rest (target :: rest) r := by
    intro attack cost
    unfold bowOfferRead
    split
    · exact List.forall_mem_nil _
    · exact List.forall_mem_singleton.mpr (.inl (List.mem_cons_self ..))
  unfold bowRead bowPathRead
  rw [order]
  match rest with
  | [] => exact List.forall_mem_nil _
  | p :: rest =>
      have walk : ∀ r ∈ (bowWalkRead b target (p :: rest) 0).1, Within b (p :: rest) (target :: p :: rest) r := by
        intro r member
        have within := bowWalk_within b target (p :: rest) 0 r member
        cases r with
        | ride c => exact within
        | cell c => exact within.imp_left (List.mem_cons_of_mem _)
      dsimp only
      cases walked : bowWalkRead b target (p :: rest) 0 with
      | mk reads ended =>
          rw [walked] at walk
          cases ended with
          | attack a cost => exact List.forall_mem_append.mpr ⟨walk,offer a cost⟩
          | taken => exact walk
          | beyond cost => exact List.forall_mem_append.mpr ⟨walk,offer {} cost⟩

-- A walk that ends before its path does, on a cell of the path if it attacks, and
-- reads nothing outside the map.
structure Steady (b : Ground) (path : List Ascoord) (walked : Option Walked) (reads : List Read) : Prop where
  ends : ∀ cost, walked ≠ some (.beyond cost)
  assigned : ∀ p cost, walked = some (.attack p cost) → p ∈ path
  inside : ∀ r ∈ reads, b.isInMap r.place = true

theorem within_inside {b : Ground} {costed path : List Ascoord} (costs : ∀ c ∈ costed, b.isInMap c = true)
    (cells : ∀ c ∈ path, b.isInMap c = true) (within : Within b costed path r) : b.isInMap r.place = true := by
  cases r with
  | ride c => exact costs c within
  | cell c => exact within.elim (cells c) id

theorem steady_still (still : walked = none ∨ walked = some .taken) (inside : ∀ r ∈ reads, b.isInMap r.place = true) :
    Steady b path walked reads := by
  refine ⟨fun cost stops => ?_,fun p cost stops => ?_,inside⟩
  all_goals rcases still with rfl | rfl <;> cases stops

theorem steady_attack (member : a ∈ path) (inside : ∀ r ∈ reads, b.isInMap r.place = true) :
    Steady b path (some (.attack a paid)) reads := by
  refine ⟨fun cost stops => ?_,fun p cost stops => ?_,inside⟩
  · cases stops
  · cases stops; exact member

theorem steady_empty (b : Ground) : Steady b [] none [] :=
  steady_still (.inl rfl) (List.forall_mem_nil _)

theorem halts_steady {b : Ground} {cells path : List Ascoord} {reads : List Read} (halts : Halts b t cells walked)
    (member : ∀ c ∈ cells, c ∈ path) (inside : ∀ r ∈ reads, b.isInMap r.place = true) : Steady b path (some walked) reads := by
  rcases halts with rfl | ⟨a,cost,rfl,here,_⟩
  · exact steady_still (.inr rfl) inside
  · exact steady_attack (member a here) inside

section walks
variable {b : Ground} {start target : Ascoord}

-- The end of the path is the target itself, which is in its own zone.
theorem analyse_steady (inside : b.isInMap start = true) (listed : Listed (between b start target) path) :
    Steady (between b start target) path ((between b start target).analysePath path target)
      (analyseRead (between b start target) path target).1 := by
  obtain ⟨rest,order,clear,_⟩ := mem_reverse_split listed
  have goal := goal_behind listed order
  have cells : ∀ c ∈ start :: rest, (between b start target).isInMap c = true :=
    List.forall_mem_cons.mpr ⟨inside,fun c member => (clear c member).1⟩
  have reads : ∀ r ∈ (analyseRead (between b start target) path target).1, (between b start target).isInMap r.place = true :=
    fun r member => within_inside cells (List.forall_mem_cons.mpr ⟨cells target goal,cells⟩)
      (analyse_within target order r member)
  have routed : ∀ c ∈ start :: rest, c ∈ path := fun c member => List.mem_reverse.mp (order ▸ member)
  unfold analysePath
  rw [order]
  match rest with
  | [] => exact steady_still (.inl rfl) reads
  | [p] => exact steady_attack (routed start (List.mem_cons_self ..)) reads
  | p :: q :: rest => exact halts_steady (analyseWalk_halts goal (zone_self _ target) 0) routed reads

-- The end of the path is the cell to fall back to, which has its enemy in the zone.
theorem bow_steady (listed : Listed (between b start target) path) (apart : start ≠ target) (aimed : b.isInMap aim = true)
    (reach : b.isInAttackZone target aim = true) : Steady b path (b.bowPath path aim) (bowRead b path aim).1 := by
  obtain ⟨rest,order,clear,_⟩ := mem_reverse_split listed
  have goal : target ∈ rest := (List.mem_cons.mp (goal_behind listed order)).resolve_left (Ne.symm apart)
  have cells : ∀ c ∈ rest, b.isInMap c = true := fun c member => (clear c member).1
  have reads : ∀ r ∈ (bowRead b path aim).1, b.isInMap r.place = true :=
    fun r member => within_inside cells (List.forall_mem_cons.mpr ⟨aimed,cells⟩) (bow_within aim order r member)
  have routed : ∀ c ∈ rest, c ∈ path := fun c member =>
    List.mem_reverse.mp (order ▸ List.mem_cons_of_mem _ member)
  unfold bowPath
  rw [order]
  match rest with
  | [] => cases goal
  | p :: rest => exact halts_steady (bowWalk_halts goal reach 0) routed reads

end walks

-- A battle ground and a cell of it to start from.
structure Layout where
  battle : Ground
  start : Ascoord
  inside : battle.isInMap start = true

-- Whatever the route, Analyse and BowAnalyse find their attack cell before its end.
theorem walks_steady (l : Layout) :
    (∀ target, ∃ path, l.battle.findRoute l.start target = some path ∧
      Steady (between l.battle l.start target) path ((between l.battle l.start target).analysePath path target)
        (analyseRead (between l.battle l.start target) path target).1) ∧
      ∀ call x y, ∀ it ∈ l.battle.getBackPosition call (l.battle.getNearEnemy x y),
        ∃ path, l.battle.findRoute l.start it.attack = some path ∧
          Steady l.battle path (l.battle.bowPath path it.target) (bowRead l.battle path it.target).1 := by
  constructor
  · intro target
    obtain ⟨path,found,rfl | ⟨_,listed⟩⟩ := found_route l.battle l.start target
    · exact ⟨[],found,steady_empty _⟩
    · exact ⟨path,found,analyse_steady l.inside listed⟩
  · intro call x y it back
    obtain ⟨_,near,reach,_⟩ := back_parts.mp back
    obtain ⟨path,found,rfl | ⟨apart,listed⟩⟩ := found_route l.battle l.start it.attack
    · exact ⟨[],found,steady_empty _⟩
    · exact ⟨path,found,bow_steady listed apart (near_parts near).1 reach⟩

-- An archer in a row of six cells, its enemy three cells away.
def gallery : Layout where
  battle := Aim.arena 6 1 [{side := 1,hp := 10,typeId := 3,cls := 3,attackRange := 2,movePower := 5,groundX := 1},Aim.foe 4 0]
  start := ⟨1,0⟩
  inside := rfl

-- Both find the cell beside the archer.
theorem walks_steady_gallery :
    (∃ path, gallery.battle.findRoute ⟨1,0⟩ ⟨4,0⟩ = some path ∧ path = [⟨4,0⟩,⟨3,0⟩,⟨2,0⟩,⟨1,0⟩] ∧
      (between gallery.battle ⟨1,0⟩ ⟨4,0⟩).analysePath path ⟨4,0⟩ = some (.attack ⟨2,0⟩ 1) ∧
      ∀ r ∈ (analyseRead (between gallery.battle ⟨1,0⟩ ⟨4,0⟩) path ⟨4,0⟩).1, gallery.battle.isInMap r.place = true) ∧
    ∃ path, gallery.battle.findRoute ⟨1,0⟩ ⟨2,0⟩ = some path ∧ Steady gallery.battle path (gallery.battle.bowPath path ⟨4,0⟩) (bowRead gallery.battle path ⟨4,0⟩).1 := by
  obtain ⟨analysed,shot⟩ := walks_steady gallery
  obtain ⟨path,found,steady⟩ := analysed ⟨4,0⟩
  have way : gallery.battle.findRoute ⟨1,0⟩ ⟨4,0⟩ = some [⟨4,0⟩,⟨3,0⟩,⟨2,0⟩,⟨1,0⟩] := by decide +kernel
  obtain rfl := Option.some.inj (found.symm.trans way)
  have back : (⟨⟨2,0⟩,⟨4,0⟩⟩ : AttackInfo) ∈ gallery.battle.getBackPosition ⟨1,0⟩ (gallery.battle.getNearEnemy 1 0) := by decide +kernel
  exact ⟨⟨_,way,rfl,by decide +kernel,steady.inside⟩,shot ⟨1,0⟩ 1 0 _ back⟩

end GameServer.Battle.Reads
