import GameServer.Battle.BattleGround

namespace GameServer.Battle.Places
open BattleGround OrderedMap

-- Everybody waiting on a bench, and everybody in camp2fighters.
def benched (b : BattleGround) : List Nat := b.listBench.flatMap fun info => info.listFighter
def enlisted (b : BattleGround) : List Nat := b.camp2fighters.flatMap fun camp => camp.2

-- The queue of a cell; a cell has at most one bench.
def queueAt (p : Ascoord) (benches : List BenchInfo) : List Nat :=
  ((getBenchInfo benches p).map fun info => info.listFighter).getD []

def Distinct (benches : List BenchInfo) : Prop := (benches.map fun info => (⟨info.x,info.y⟩ : Ascoord)).Nodup

section benches
variable {benches : List BenchInfo} {p q : Ascoord} {bf : Nat}

theorem front_head (b : BattleGround) (p : Ascoord) : b.getFrontFighter p = (queueAt p b.listBench).head? := by
  unfold getFrontFighter queueAt
  cases getBenchInfo b.listBench p <;> rfl

theorem queue_mem (waits : bf ∈ queueAt p benches) : bf ∈ benches.flatMap fun info => info.listFighter := by
  unfold queueAt getBenchInfo at waits
  cases found : benches.find? fun info => info.x = p.x ∧ info.y = p.y with
  | none => rw [found] at waits; cases waits
  | some info =>
      rw [found] at waits
      exact List.mem_flatMap.mpr ⟨info,List.mem_of_find?_eq_some found,waits⟩

theorem mem_queue (distinct : Distinct benches) (waits : bf ∈ benches.flatMap fun info => info.listFighter) :
    ∃ p, bf ∈ queueAt p benches := by
  obtain ⟨info,member,here⟩ := List.mem_flatMap.mp waits
  refine ⟨⟨info.x,info.y⟩,?_⟩
  induction benches with
  | nil => cases member
  | cons first rest ih =>
      obtain ⟨apart,later⟩ := List.nodup_cons.mp distinct
      unfold queueAt getBenchInfo
      rcases List.mem_cons.mp member with rfl | member
      · simpa using here
      · have other : ¬(first.x = info.x ∧ first.y = info.y) := by
          intro ⟨x,y⟩
          exact apart (List.mem_map.mpr ⟨info,member,by dsimp only; rw [x,y]⟩)
        rw [List.find?_cons_of_neg (by simpa using other)]
        exact ih later (List.mem_flatMap.mpr ⟨info,member,here⟩) member

theorem insert_distinct (distinct : Distinct benches) (p : Ascoord) (bf : Nat) : Distinct (insertBench p bf benches) := by
  have cells : ∀ benches : List BenchInfo, ∀ c, c ∈ (insertBench p bf benches).map (fun info => (⟨info.x,info.y⟩ : Ascoord)) →
      c = p ∨ c ∈ benches.map fun info => (⟨info.x,info.y⟩ : Ascoord) := by
    intro benches
    induction benches with
    | nil => intro c member; exact .inl (List.mem_singleton.mp member)
    | cons info rest ih =>
        intro c member
        unfold insertBench at member
        split at member
        · exact .inr member
        · rcases List.mem_cons.mp member with rfl | later
          · exact .inr (List.mem_cons_self ..)
          · exact (ih c later).imp_right (List.mem_cons_of_mem _)
  induction benches with
  | nil => exact List.nodup_singleton _
  | cons info rest ih =>
      obtain ⟨apart,later⟩ := List.nodup_cons.mp distinct
      unfold insertBench
      split
      · exact distinct
      · rename_i other
        refine List.nodup_cons.mpr ⟨?_,ih later⟩
        intro member
        rcases cells rest _ member with same | old
        · exact other (by rw [←same]; exact ⟨rfl,rfl⟩)
        · exact apart old

theorem pop_cells (p : Ascoord) (benches : List BenchInfo) :
    (popBench p benches).map (fun info => (⟨info.x,info.y⟩ : Ascoord)) = benches.map fun info => ⟨info.x,info.y⟩ := by
  induction benches with
  | nil => rfl
  | cons info rest ih =>
      unfold popBench
      split
      · rfl
      · rw [List.map_cons,List.map_cons,ih]

theorem insert_perm (p : Ascoord) (bf : Nat) (benches : List BenchInfo) :
    ((insertBench p bf benches).flatMap fun info => info.listFighter).Perm (bf :: benches.flatMap fun info => info.listFighter) := by
  induction benches with
  | nil => exact List.Perm.refl _
  | cons info rest ih =>
      unfold insertBench
      split
      · simp only [List.flatMap_cons,List.append_assoc]
        exact List.perm_middle
      · simp only [List.flatMap_cons]
        exact (ih.append_left _).trans List.perm_middle

theorem cell_iff {info : BenchInfo} : (info.x = p.x ∧ info.y = p.y) ↔ (⟨info.x,info.y⟩ : Ascoord) = p := by
  cases p
  simp

theorem queue_cons (q : Ascoord) (info : BenchInfo) (rest : List BenchInfo) :
    queueAt q (info :: rest) = if (⟨info.x,info.y⟩ : Ascoord) = q then info.listFighter else queueAt q rest := by
  unfold queueAt getBenchInfo
  rw [List.find?_cons]
  by_cases here : (⟨info.x,info.y⟩ : Ascoord) = q
  · rw [if_pos here,decide_eq_true (cell_iff.mpr here)]
    rfl
  · rw [if_neg here,decide_eq_false fun cell => here (cell_iff.mp cell)]

-- An edit of the first bench on the cell, made here or further down the list.
theorem queue_edit (edit : List Nat → List Nat) {info : BenchInfo} {rest later : List BenchInfo}
    (ih : queueAt q later = if q = p then edit (queueAt p rest) else queueAt q rest) :
    queueAt q (if info.x = p.x ∧ info.y = p.y then {info with listFighter := edit info.listFighter} :: rest else info :: later) =
      if q = p then edit (queueAt p (info :: rest)) else queueAt q (info :: rest) := by
  by_cases here : info.x = p.x ∧ info.y = p.y
  · rw [if_pos here,queue_cons,queue_cons,queue_cons,cell_iff.mp here,if_pos rfl]
    by_cases same : q = p
    · rw [if_pos same,if_pos same.symm]
    · rw [if_neg same,if_neg fun back => same back.symm,if_neg fun back => same back.symm]
  · rw [if_neg here,queue_cons,queue_cons,queue_cons,if_neg fun cell => here (cell_iff.mpr cell),ih]
    by_cases there : (⟨info.x,info.y⟩ : Ascoord) = q
    · have apart : q ≠ p := fun same => here (cell_iff.mpr (there.trans same))
      rw [if_pos there,if_neg apart,if_pos there]
    · rw [if_neg there,if_neg there]

theorem insert_queue (p : Ascoord) (bf : Nat) (benches : List BenchInfo) :
    queueAt q (insertBench p bf benches) = if q = p then queueAt p benches ++ [bf] else queueAt q benches := by
  induction benches with
  | nil =>
      unfold insertBench
      rw [queue_cons]
      by_cases same : q = p
      · rw [if_pos same,if_pos same.symm]
        rfl
      · rw [if_neg same,if_neg fun back => same back.symm]
  | cons info rest ih =>
      unfold insertBench
      exact queue_edit (fun queue => queue ++ [bf]) ih

theorem pop_perm (front : (queueAt p benches).head? = some bf) :
    (benches.flatMap fun info => info.listFighter).Perm (bf :: (popBench p benches).flatMap fun info => info.listFighter) := by
  induction benches with
  | nil => simp [queueAt,getBenchInfo] at front
  | cons info rest ih =>
      unfold popBench
      by_cases here : info.x = p.x ∧ info.y = p.y
      · rw [if_pos here]
        rw [queue_cons,if_pos (cell_iff.mp here)] at front
        obtain ⟨tail,whole⟩ := List.head?_eq_some_iff.mp front
        simp [whole]
      · rw [if_neg here]
        rw [queue_cons,if_neg fun cell => here (cell_iff.mpr cell)] at front
        simp only [List.flatMap_cons]
        exact ((ih front).append_left _).trans List.perm_middle

theorem pop_queue (p : Ascoord) (benches : List BenchInfo) :
    queueAt q (popBench p benches) = if q = p then (queueAt p benches).tail else queueAt q benches := by
  induction benches with
  | nil =>
      by_cases same : q = p
      · rw [if_pos same]
        rfl
      · rw [if_neg same]
        rfl
  | cons info rest ih =>
      unfold popBench
      exact queue_edit List.tail ih

end benches

section camps
variable (b : BattleGround) (campId : UInt8) (bf : Nat)

theorem enlisted_touch : enlisted (b.touchCamp campId) = enlisted b := by
  obtain ⟨pre,old,post,before,after⟩ := upsert_flat campId (fun old => old.getD []) b.camp2fighters
  exact after.trans before.symm

theorem enlisted_push : (enlisted (b.pushCamp campId bf)).Perm (bf :: enlisted b) := by
  obtain ⟨pre,old,post,before,after⟩ := upsert_flat campId (fun old => old.getD [] ++ [bf]) b.camp2fighters
  unfold enlisted
  rw [before,show (b.pushCamp campId bf).camp2fighters.flatMap (fun camp => camp.2) = _ from after]
  simp only [List.append_assoc]
  rw [←List.append_assoc,←List.append_assoc pre]
  exact List.perm_middle

theorem enlisted_remove : (enlisted (b.removeCamp campId bf)).Sublist (enlisted b) := by
  obtain ⟨pre,old,post,before,after⟩ := upsert_flat campId (fun old => (old.getD []).filter (· != bf)) b.camp2fighters
  unfold enlisted
  rw [before,show (b.removeCamp campId bf).camp2fighters.flatMap (fun camp => camp.2) = _ from after]
  exact ((List.filter_sublist ..).append_left pre).append_right post

end camps

-- What no operation changes.
def field (b : BattleGround) : UInt8 × UInt8 × (Nat → Bool) := (b.sizeX,b.sizeY,b.relivePoint)

theorem same_map {b b' : BattleGround} (same : field b' = field b) (p : Ascoord) :
    b'.isInMap p = b.isInMap p ∧ b'.index p = b.index p ∧ b'.isRelivePoint p = b.isRelivePoint p := by
  obtain ⟨width,rest⟩ := Prod.mk.inj same
  obtain ⟨height,points⟩ := Prod.mk.inj rest
  have position : b'.index p = b.index p := by unfold Ground.index; rw [width]
  refine ⟨?_,position,?_⟩
  · unfold Ground.isInMap; rw [width,height]
  · unfold isRelivePoint; rw [points,position]

theorem setCell_on {b : BattleGround} {p q : Ascoord} {v : Option Nat} :
    (b.setCell p v).on q = if b.index q = b.index p then v else b.on q := by
  show Function.update b.mapFighters (b.index p) v (b.index q) = _
  rw [Function.update_apply]
  rfl

-- On the map a cell is its index.
theorem setCell_on_map {b : BattleGround} {p q : Ascoord} {v : Option Nat} (one : b.isInMap p = true) (two : b.isInMap q = true) :
    (b.setCell p v).on q = if q = p then v else b.on q := by
  rw [setCell_on]
  by_cases same : q = p
  · rw [if_pos same,if_pos (by rw [same])]
  · rw [if_neg same,if_neg fun equal => same (Ground.index_inj two one equal)]

-- Whether setObject puts the fighter anywhere.
def Lands (b : BattleGround) (p : Ascoord) (bf : Nat) (flag : Bool) : Prop :=
  b.isInMap p = true ∧ (flag = true ∨ b.on (b.cellOf bf) = some bf) ∧ (b.on p = none ∨ b.isRelivePoint p = true)

theorem setObject_parts (b : BattleGround) (p : Ascoord) (bf : Nat) (flag : Bool) :
    (¬Lands b p bf flag ∧ b.setObject p bf flag = b) ∨
    (Lands b p bf flag ∧ b.on p = none ∧ b.setObject p bf flag = b.occupy p bf) ∨
    (Lands b p bf flag ∧ b.isRelivePoint p = true ∧ b.setObject p bf flag = b.insertFighter p bf) := by
  unfold setObject Lands
  by_cases inside : b.isInMap p = true
  · rw [if_neg (by simp [inside])]
    by_cases missing : flag = false ∧ b.on (b.cellOf bf) ≠ some bf
    · rw [if_pos missing]
      refine .inl ⟨?_,rfl⟩
      rintro ⟨_,here | here,_⟩
      · rw [missing.1] at here; cases here
      · exact missing.2 here
    · rw [if_neg missing]
      have found : flag = true ∨ b.on (b.cellOf bf) = some bf := by
        cases flag with
        | true => exact .inl rfl
        | false => exact .inr (Classical.not_not.mp fun other => missing ⟨rfl,other⟩)
      cases here : b.on p with
      | none => exact .inr (.inl ⟨⟨inside,found,.inl rfl⟩,rfl,rfl⟩)
      | some other =>
          dsimp only
          cases point : b.isRelivePoint p with
          | true => exact .inr (.inr ⟨⟨inside,found,.inr rfl⟩,rfl,if_pos rfl⟩)
          | false => exact .inl ⟨by simp,if_neg (by simp)⟩
  · rw [if_pos (by simpa using inside)]
    exact .inl ⟨fun lands => inside lands.1,rfl⟩

section updates
variable (b : BattleGround)

@[simp] theorem setCell_cellOf : (b.setCell p v).cellOf f = b.cellOf f := rfl
@[simp] theorem pushCamp_cellOf : (b.pushCamp campId bf).cellOf f = b.cellOf f := rfl
@[simp] theorem popFront_cellOf : (b.popFrontFighter p).cellOf f = b.cellOf f := rfl
@[simp] theorem insert_cellOf : (b.insertFighter p bf).cellOf f = b.cellOf f := rfl
@[simp] theorem setCell_hp : (b.setCell p v).hp f = b.hp f := rfl
@[simp] theorem pushCamp_hp : (b.pushCamp campId bf).hp f = b.hp f := rfl
@[simp] theorem popFront_hp : (b.popFrontFighter p).hp f = b.hp f := rfl
@[simp] theorem insert_hp : (b.insertFighter p bf).hp f = b.hp f := rfl
@[simp] theorem pushCamp_on : (b.pushCamp campId bf).on q = b.on q := rfl
@[simp] theorem removeCamp_on : (b.removeCamp campId bf).on q = b.on q := rfl
@[simp] theorem popFront_on : (b.popFrontFighter p).on q = b.on q := rfl
@[simp] theorem insert_on : (b.insertFighter p bf).on q = b.on q := rfl
@[simp] theorem create_on : (b.create p made).on q = b.on q := rfl
@[simp] theorem actId_on : (b.setBattleIndex bf actId).on q = b.on q := rfl
@[simp] theorem occupy_on : (b.occupy p bf).on q = (b.setCell p bf).on q := rfl
@[simp] theorem setCell_field : field (b.setCell p v) = field b := rfl
@[simp] theorem pushCamp_field : field (b.pushCamp campId bf) = field b := rfl
@[simp] theorem removeCamp_field : field (b.removeCamp campId bf) = field b := rfl
@[simp] theorem popFront_field : field (b.popFrontFighter p) = field b := rfl
@[simp] theorem insert_field : field (b.insertFighter p bf) = field b := rfl
@[simp] theorem create_field : field (b.create p made) = field b := rfl
@[simp] theorem actId_field : field (b.setBattleIndex bf actId) = field b := rfl
@[simp] theorem occupy_field : field (b.occupy p bf) = field b := rfl

end updates

-- A battle index is all that setBattleIndex changes.
theorem actId_hp (b : BattleGround) (bf : Nat) (actId : UInt8) (f : Nat) : (b.setBattleIndex bf actId).hp f = b.hp f := by
  show (Function.update b.fighter bf _ f).hp = (b.fighter f).hp
  by_cases same : f = bf
  · subst same; rw [Function.update_self]
  · rw [Function.update_of_ne same]

theorem actId_self (b : BattleGround) (bf : Nat) (actId : UInt8) : ((b.setBattleIndex bf actId).fighter bf).battleIndex = actId := by
  show (Function.update b.fighter bf _ bf).battleIndex = actId
  rw [Function.update_self]

theorem actId_cell (b : BattleGround) (bf : Nat) (actId : UInt8) (f : Nat) :
    (b.setBattleIndex bf actId).cellOf f = b.cellOf f := by
  show (⟨(Function.update b.fighter bf _ f).groundX,(Function.update b.fighter bf _ f).groundY⟩ : Ascoord) = _
  by_cases same : f = bf
  · subst same; rw [Function.update_self]; rfl
  · rw [Function.update_of_ne same]; rfl

theorem occupy_hp (b : BattleGround) (p : Ascoord) (bf f : Nat) : (b.occupy p bf).hp f = b.hp f := actId_hp _ _ _ _

theorem occupy_cell (b : BattleGround) (p : Ascoord) (bf f : Nat) : (b.occupy p bf).cellOf f = b.cellOf f := actId_cell _ _ _ _

theorem create_self (b : BattleGround) (p : Ascoord) (made : BattleFighter) :
    (b.create p made).hp b.next = made.hp ∧ (b.create p made).cellOf b.next = p := by
  show (Function.update b.fighter b.next _ b.next).hp = made.hp ∧ (⟨(Function.update b.fighter b.next _ b.next).groundX,
    (Function.update b.fighter b.next _ b.next).groundY⟩ : Ascoord) = p
  rw [Function.update_self]
  exact ⟨rfl,rfl⟩

theorem create_other {b : BattleGround} (p : Ascoord) (made : BattleFighter) {f : Nat} (other : f ≠ b.next) :
    (b.create p made).fighter f = b.fighter f := Function.update_of_ne other _ _

-- What a Relive that finds its revival cell free leaves behind.
structure Revived (b : BattleGround) (bft : Nat) (born : BattleFighter) (r : Ascoord) (b' : BattleGround) (front : Nat) : Prop where
  field : field b' = field b
  cells : ∀ q, b.isInMap q = true →
    b'.on q = if q = r then some front else if b.index q = b.index (b.cellOf bft) then none else b.on q
  first : (queueAt r b.listBench ++ [b.next]).head? = some front
  queues : ∀ q, queueAt q b'.listBench = if q = r then (queueAt r b.listBench ++ [b.next]).tail else queueAt q b.listBench
  distinct : Distinct b.listBench → Distinct b'.listBench
  benched : (b.next :: benched b).Perm (front :: benched b')
  camps : b'.camp2fighters = ((b.removeCamp (b.fighter bft).side bft).pushCamp (b.fighter bft).side front).camp2fighters
  others : ∀ f, f ≠ b.next → b'.fighter f = b.fighter f
  hp : b'.hp b.next = born.hp
  cell : b'.cellOf b.next = r
  actId : (b'.fighter b.next).battleIndex = (b.fighter bft).battleIndex
  next : b'.next = b.next+1
  food : b'.food = b.food
  queue : b'.listFighters = b.listFighters
  current : b'.currentBf = b.currentBf

theorem relive_point {b : BattleGround} (chosen : b.getMinNumRelive forceId = some r) :
    b.isInMap r = true ∧ b.isRelivePoint r = true := by
  have member : ∀ points ascoord num, minNumRelive b.listBench points ascoord num = some r → r ∈ points ∨ ascoord = some r := by
    intro points
    induction points with
    | nil => intro ascoord num found; exact .inr found
    | cons p rest ih =>
        intro ascoord num found
        unfold minNumRelive at found
        split at found
        · cases found; exact .inl (List.mem_cons_self ..)
        · dsimp only at found
          split at found
          · rcases ih _ _ found with later | same
            · exact .inl (List.mem_cons_of_mem _ later)
            · cases same; exact .inl (List.mem_cons_self ..)
          · exact (ih _ _ found).imp_left (List.mem_cons_of_mem _)
  rcases member _ _ _ chosen with inside | none
  · simp only [getAllRelivePoint,List.mem_filter,List.mem_flatMap,List.mem_map,List.mem_range,Bool.and_eq_true] at inside
    obtain ⟨⟨j,rows,i,columns,rfl⟩,point,_⟩ := inside
    refine ⟨?_,point⟩
    have small := b.sizeX.toNat_lt
    have small' := b.sizeY.toNat_lt
    simp only [Ground.isInMap,Bool.and_eq_true,decide_eq_true_eq,UInt8.lt_iff_toNat_lt,UInt8.toNat_ofNat']
    omega
  · cases none

theorem relive_none {b : BattleGround} (chosen : b.getMinNumRelive (b.fighter bft).side = none) :
    b.relive bft born = (b.removeCamp (b.fighter bft).side bft,bft) := by
  have same : (b.removeCamp (b.fighter bft).side bft).getMinNumRelive (b.fighter bft).side = none := chosen
  unfold relive
  dsimp only
  rw [same]

-- The state in which Relive looks for the front of the queue.
def readied (b : BattleGround) (bft : Nat) (born : BattleFighter) (r : Ascoord) : BattleGround :=
  ((((b.removeCamp (b.fighter bft).side bft).create r born).occupy r b.next).setBattleIndex b.next
    (b.fighter bft).battleIndex).insertFighter r b.next

theorem readied_self (b : BattleGround) (bft : Nat) (born : BattleFighter) (r : Ascoord) :
    (readied b bft born r).hp b.next = born.hp ∧ (readied b bft born r).cellOf b.next = r := by
  have made := create_self (b.removeCamp (b.fighter bft).side bft) r born
  unfold readied
  rw [insert_hp,insert_cellOf,actId_hp,actId_cell,occupy_hp,occupy_cell]
  exact made

theorem readied_field (b : BattleGround) (bft : Nat) (born : BattleFighter) (r : Ascoord) : field (readied b bft born r) = field b := by
  unfold readied
  rw [insert_field,actId_field,occupy_field,create_field,removeCamp_field]

theorem readied_on {b : BattleGround} (bft : Nat) (born : BattleFighter) {r q : Ascoord} (inside : b.isInMap r = true)
    (inMap : b.isInMap q = true) (other : q ≠ r) : (readied b bft born r).on q = b.on q := by
  unfold readied
  rw [insert_on,actId_on,occupy_on,setCell_on_map (by exact inside) (by exact inMap),if_neg other,create_on,removeCamp_on]

theorem relive_free {b : BattleGround} (born : BattleFighter) (chosen : b.getMinNumRelive (b.fighter bft).side = some r) (free : b.on r = none) :
    ∃ front, (queueAt r b.listBench ++ [b.next]).head? = some front ∧
      b.relive bft born = (((((readied b bft born r).popFrontFighter r).setCell (b.cellOf bft) none).pushCamp
        (b.fighter bft).side front).setCell r front,front) := by
  obtain ⟨inside,_⟩ := relive_point chosen
  have same : (b.removeCamp (b.fighter bft).side bft).getMinNumRelive (b.fighter bft).side = some r := chosen
  have placed : (((b.removeCamp (b.fighter bft).side bft).create r born).setObject r b.next true) =
      ((b.removeCamp (b.fighter bft).side bft).create r born).occupy r b.next := by
    unfold setObject
    rw [if_neg (by show b.isInMap r ≠ false; simp [inside]),if_neg (by simp)]
    rw [create_on,removeCamp_on,free]
  have head : (readied b bft born r).getFrontFighter r = (queueAt r b.listBench ++ [b.next]).head? := by
    rw [front_head]
    show (queueAt r (insertBench r b.next b.listBench)).head? = _
    rw [insert_queue,if_pos rfl]
  obtain ⟨front,first⟩ : ∃ front, (queueAt r b.listBench ++ [b.next]).head? = some front := by
    cases queueAt r b.listBench <;> exact ⟨_,rfl⟩
  refine ⟨front,first,?_⟩
  have ready : ((readied b bft born r).getFrontFighter r).getD b.next = front := by rw [head,first]; rfl
  unfold relive
  dsimp only
  rw [same]
  dsimp only [newFighter]
  rw [if_neg (by simp),show (b.removeCamp (b.fighter bft).side bft).next = b.next from rfl,placed]
  dsimp only
  rw [show ((((b.removeCamp (b.fighter bft).side bft).create r born).occupy r b.next).setBattleIndex b.next
    (b.fighter bft).battleIndex).insertFighter r b.next = readied b bft born r from rfl,ready]

theorem relive_some {b : BattleGround} (born : BattleFighter) (chosen : b.getMinNumRelive (b.fighter bft).side = some r) (free : b.on r = none) :
    Revived b bft born r (b.relive bft born).1 (b.relive bft born).2 := by
  obtain ⟨inside,_⟩ := relive_point chosen
  obtain ⟨front,first,result⟩ := relive_free born chosen free
  rw [result]
  have waits : (queueAt r (insertBench r b.next b.listBench)).head? = some front := by rw [insert_queue,if_pos rfl]; exact first
  constructor
  case field =>
    dsimp only
    rw [setCell_field,pushCamp_field,setCell_field,popFront_field,readied_field]
  case first => exact first
  case cells =>
    intro q inMap
    have stays : q ≠ r → (readied b bft born r).on q = b.on q := readied_on bft born inside inMap
    have atR := (same_map (readied_field b bft born r) r).2.1
    have atQ := (same_map (readied_field b bft born r) q).2.1
    have atCell := (same_map (readied_field b bft born r) (b.cellOf bft)).2.1
    generalize readied b bft born r = ready at stays atR atQ atCell ⊢
    have writes : (((((ready.popFrontFighter r).setCell (b.cellOf bft) none).pushCamp (b.fighter bft).side front).setCell r
        (some front))).on q = if ready.index q = ready.index r then some front
          else if ready.index q = ready.index (b.cellOf bft) then none else ready.on q := by
      rw [setCell_on,pushCamp_on,setCell_on,popFront_on]
      rfl
    rw [writes,atQ,atR,atCell]
    by_cases here : q = r
    · rw [if_pos here,if_pos (by rw [here])]
    · rw [if_neg here,if_neg fun same => here (Ground.index_inj inMap inside same),stays here]
  case queues =>
    intro q
    show queueAt q (popBench r (insertBench r b.next b.listBench)) = _
    rw [pop_queue,insert_queue,insert_queue,if_pos rfl]
    split <;> rfl
  case distinct =>
    intro distinct
    show Distinct (popBench r (insertBench r b.next b.listBench))
    unfold Distinct
    rw [pop_cells]
    exact insert_distinct distinct r b.next
  case benched =>
    exact (insert_perm r b.next b.listBench).symm.trans (pop_perm waits)
  case camps => rfl
  case others =>
    intro f other
    show Function.update (Function.update (Function.update b.fighter b.next _) b.next _) b.next _ f = _
    rw [Function.update_of_ne other,Function.update_of_ne other,Function.update_of_ne other]
  case hp =>
    dsimp only
    rw [setCell_hp,pushCamp_hp,setCell_hp,popFront_hp]
    exact (readied_self b bft born r).1
  case cell =>
    dsimp only
    rw [setCell_cellOf,pushCamp_cellOf,setCell_cellOf,popFront_cellOf]
    exact (readied_self b bft born r).2
  case actId =>
    exact actId_self (((b.removeCamp (b.fighter bft).side bft).create r born).occupy r b.next) b.next _
  all_goals rfl

-- Who steps up from the bench when the current fighter leaves its cell.
def stepsUp (b : BattleGround) : Option Nat := if b.isRelivePoint b.own then b.getFrontFighter b.own else none

theorem leave_steps (b : BattleGround) : b.leave = match stepsUp b with
    | none => b.setCell b.own none
    | some bft => ((b.setCell b.own none).popFrontFighter b.own).setCell b.own bft := by
  unfold leave stepsUp
  dsimp only
  -- Clearing the cell changes neither the map nor the benches.
  rw [show (b.setCell b.own none).isRelivePoint b.own = b.isRelivePoint b.own from rfl,
    show (b.setCell b.own none).getFrontFighter b.own = b.getFrontFighter b.own from rfl]
  cases b.isRelivePoint b.own <;> rfl

theorem leave_on {b : BattleGround} {q : Ascoord} (inside : b.isInMap b.own = true) (inMap : b.isInMap q = true) :
    b.leave.on q = if q = b.own then stepsUp b else b.on q := by
  have cleared := setCell_on_map (v:=none) inside inMap
  rw [leave_steps]
  cases stepsUp b with
  | none => exact cleared
  | some bft =>
      dsimp only
      rw [setCell_on_map (by exact inside) (by exact inMap),popFront_on,cleared]
      split <;> rfl

theorem leave_benches (b : BattleGround) :
    b.leave.listBench = if (stepsUp b).isSome then popBench b.own b.listBench else b.listBench := by
  rw [leave_steps]
  cases stepsUp b <;> rfl

-- The rest of the ground as it was.
structure Rest (b b' : BattleGround) : Prop where
  field : field b' = field b
  camps : b'.camp2fighters = b.camp2fighters
  next : b'.next = b.next
  food : b'.food = b.food
  queue : b'.listFighters = b.listFighters
  current : b'.currentBf = b.currentBf

theorem leave_rest (b : BattleGround) : Rest b b.leave ∧ b.leave.fighter = b.fighter := by
  unfold leave
  dsimp only
  split
  · split <;> exact ⟨⟨rfl,rfl,rfl,rfl,rfl,rfl⟩,rfl⟩
  · exact ⟨⟨rfl,rfl,rfl,rfl,rfl,rfl⟩,rfl⟩

structure Relocated (b : BattleGround) (p : Ascoord) (b' : BattleGround) : Prop where
  rest : Rest b b'
  cells : b.isInMap b.own = true → b.isInMap p = true → ∀ q, b.isInMap q = true →
    b'.on q = if q = p then some b.currentBf else if q = b.own then stepsUp b else b.on q
  benches : b'.listBench = if (stepsUp b).isSome then popBench b.own b.listBench else b.listBench
  others : ∀ f, f ≠ b.currentBf → b'.fighter f = b.fighter f
  self : b'.fighter b.currentBf = {b.current with groundX := p.x,groundY := p.y}

theorem relocate_parts (b : BattleGround) (p : Ascoord) : Relocated b p (b.relocate p) := by
  obtain ⟨rest,heap⟩ := leave_rest b
  unfold relocate
  constructor
  case rest => exact ⟨rest.field,rest.camps,rest.next,rest.food,rest.queue,rest.current⟩
  case cells =>
    intro inside inP q inMap
    have kept := same_map rest.field
    refine Eq.trans (setCell_on_map (b:=b.leave) (by rw [(kept p).1]; exact inP) (by rw [(kept q).1]; exact inMap)) ?_
    rw [leave_on inside inMap]
  case benches => exact leave_benches b
  case others =>
    intro f other
    refine (Function.update_of_ne other _ _).trans ?_
    exact congrFun heap f
  case self => exact Function.update_self ..

-- A fight changes nothing but the HP of the two.
structure Fought (b : BattleGround) (bo : Nat) (b' : BattleGround) : Prop where
  rest : Rest b b'
  cells : b'.mapFighters = b.mapFighters
  benches : b'.listBench = b.listBench
  others : ∀ f, f ≠ b.currentBf → f ≠ bo → b'.fighter f = b.fighter f
  same : ∀ f, b'.cellOf f = b.cellOf f ∧ (b'.fighter f).battleIndex = (b.fighter f).battleIndex

theorem setHp_same (b : BattleGround) (bf : Nat) (hp : Int) (f : Nat) :
    (b.setFighter bf {b.fighter bf with hp}).cellOf f = b.cellOf f ∧
      ((b.setFighter bf {b.fighter bf with hp}).fighter f).battleIndex = (b.fighter f).battleIndex := by
  unfold cellOf
  rw [show (b.setFighter bf {b.fighter bf with hp}).fighter f = Function.update b.fighter bf _ f from rfl]
  by_cases same : f = bf
  · subst same; rw [Function.update_self]; exact ⟨rfl,rfl⟩
  · rw [Function.update_of_ne same]; exact ⟨rfl,rfl⟩

theorem fight_parts (b : BattleGround) (bo : Nat) (o : Outcome) : Fought b bo (b.fight bo o) := by
  unfold fight
  split
  · exact ⟨⟨rfl,rfl,rfl,rfl,rfl,rfl⟩,rfl,rfl,fun _ _ _ => rfl,fun _ => ⟨rfl,rfl⟩⟩
  · constructor
    case rest => exact ⟨rfl,rfl,rfl,rfl,rfl,rfl⟩
    case cells => rfl
    case benches => rfl
    case others =>
      intro f other other'
      exact (Function.update_of_ne other' _ _).trans (Function.update_of_ne other _ _)
    case same =>
      intro f
      have first := setHp_same b b.currentBf o.hpCurrent f
      have second := setHp_same (b.setFighter b.currentBf {b.current with hp := o.hpCurrent}) bo o.hpTarget f
      exact ⟨second.1.trans first.1,second.2.trans first.2⟩

end GameServer.Battle.Places
