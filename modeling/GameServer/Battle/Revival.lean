import GameServer.Battle.Roster
import GameServer.Battle.Rounds

namespace GameServer.Battle.Revival
open BattleGround Places Roster Rounds

-- A ground with the Fighter behind every BattleFighter, and the battle status
-- the Fighters keep: 0 in the battle, 2 dead.
structure Deaths extends BattleGround where
  fighterOf : Nat → Nat := id
  battleStatus : Nat → UInt8 := fun _ => 0

namespace Deaths

def setBattleStatus (s : Deaths) (fgt : Nat) (status : UInt8) : Deaths :=
  {s with battleStatus := Function.update s.battleStatus fgt status}

-- newFighter makes a BattleFighter of the Fighter the owner finds under the id
-- of the fallen one.
def relive (s : Deaths) (bft : Nat) (born : BattleFighter) : Deaths × Nat :=
  let (b,front) := s.toBattleGround.relive bft born
  match s.getMinNumRelive (s.fighter bft).side with
  | none => ({s with toBattleGround := b},front)
  | some _ => ({s with toBattleGround := b,fighterOf := Function.update s.fighterOf s.next (s.fighterOf bft)},front)

-- A death in Move: the status is set through the pointer Relive leaves.
def fall (s : Deaths) (bft : Nat) (fed : Bool) (born : BattleFighter) : Deaths × Nat :=
  match (s.fighter bft).owner with
  | none => (s,bft)
  | some player =>
    let s := s.setBattleStatus (s.fighterOf bft) 2
    match s.consumeCampaginFood player fed with
    | none => (s,bft)
    | some b =>
      let (s,bft) := {s with toBattleGround := b}.relive bft born
      ({s with listFighters := s.listFighters ++ [bft]}.setBattleStatus (s.fighterOf bft) 0,bft)

theorem relive_ground (s : Deaths) (bft : Nat) (born : BattleFighter) :
    (s.relive bft born).1.toBattleGround = (s.toBattleGround.relive bft born).1 ∧
      (s.relive bft born).2 = (s.toBattleGround.relive bft born).2 := by
  unfold relive
  dsimp only
  split <;> exact ⟨rfl,rfl⟩

-- On the ground it is the death of the Move of the battle.
theorem fall_ground (s : Deaths) (bft : Nat) (fed : Bool) (born : BattleFighter) :
    (s.fall bft fed born).1.toBattleGround = (s.toBattleGround.fall bft fed born).1 ∧
      (s.fall bft fed born).2 = (s.toBattleGround.fall bft fed born).2 := by
  unfold fall BattleGround.fall
  cases (s.fighter bft).owner with
  | none => exact ⟨rfl,rfl⟩
  | some player =>
      dsimp only
      have same : (s.setBattleStatus (s.fighterOf bft) 2).consumeCampaginFood player fed =
        s.toBattleGround.consumeCampaginFood player fed := rfl
      rw [same]
      cases s.toBattleGround.consumeCampaginFood player fed with
      | none => exact ⟨rfl,rfl⟩
      | some paid =>
          obtain ⟨ground,front⟩ := relive_ground {s.setBattleStatus (s.fighterOf bft) 2 with toBattleGround := paid} bft born
          dsimp only at ground front ⊢
          refine ⟨?_,front⟩
          unfold setBattleStatus at ground front ⊢
          dsimp only at ground front ⊢
          rw [ground,front]

end Deaths

-- The addresses in use come before the next free one.
structure Fresh (b : BattleGround) : Prop where
  listed : ∀ f ∈ enlisted b, f < b.next
  queued : ∀ p, ∀ f ∈ queueAt p b.listBench, f < b.next

theorem enrolled_fresh (enrolled : Enrolled b) : Fresh b := ⟨enrolled.listed,fun p f waits => (enrolled.queued p f waits).2⟩

-- What a Relive that has a revival cell leaves, taken or free.
structure Seated (b : BattleGround) (bft : Nat) (born : BattleFighter) (r : Ascoord) (b' : BattleGround) (front : Nat) : Prop where
  first : (queueAt r b.listBench ++ [b.next]).head? = some front
  camps : b'.camp2fighters = ((b.removeCamp (b.fighter bft).side bft).pushCamp (b.fighter bft).side front).camp2fighters
  here : b'.isInMap r = true ∧ b'.on r = some front
  hp : b'.hp b.next = born.hp
  food : b'.food = b.food
  queue : b'.listFighters = b.listFighters
  next : b'.next = b.next+1

-- The ground on which Relive puts the new fighter.
def posted (b : BattleGround) (bft : Nat) (born : BattleFighter) (r : Ascoord) : BattleGround :=
  ((b.removeCamp (b.fighter bft).side bft).create r born).setObject r b.next true

structure Posted (b : BattleGround) (bft : Nat) (born : BattleFighter) (r : Ascoord) (b' : BattleGround) : Prop where
  field : field b' = field b
  queue : (queueAt r b'.listBench ++ [b.next]).head? = (queueAt r b.listBench ++ [b.next]).head?
  camps : b'.camp2fighters = (b.removeCamp (b.fighter bft).side bft).camp2fighters
  hp : b'.hp b.next = born.hp
  rest : b'.food = b.food ∧ b'.listFighters = b.listFighters ∧ b'.next = b.next+1

theorem posted_parts {b : BattleGround} (bft : Nat) (born : BattleFighter) (inside : b.isInMap r = true)
    (point : b.isRelivePoint r = true) : Posted b bft born r (posted b bft born r) := by
  have made := (create_self (b.removeCamp (b.fighter bft).side bft) r born).1
  unfold posted
  rcases setObject_parts ((b.removeCamp (b.fighter bft).side bft).create r born) r b.next true with
      ⟨out,_⟩ | ⟨_,_,same⟩ | ⟨_,_,same⟩
  · exact absurd ⟨inside,.inl rfl,.inr point⟩ out
  · rw [same]
    exact ⟨rfl,rfl,rfl,(occupy_hp _ _ _ _).trans made,rfl,rfl,rfl⟩
  · rw [same]
    refine ⟨rfl,?_,rfl,made,rfl,rfl,rfl⟩
    show (queueAt r (insertBench r b.next b.listBench) ++ [b.next]).head? = _
    rw [insert_queue,if_pos rfl]
    cases queueAt r b.listBench <;> rfl

theorem relive_posted {b : BattleGround} (born : BattleFighter) (chosen : b.getMinNumRelive (b.fighter bft).side = some r) :
    ∃ front, (queueAt r (posted b bft born r).listBench ++ [b.next]).head? = some front ∧
      b.relive bft born = ((((((((posted b bft born r).setBattleIndex b.next (b.fighter bft).battleIndex).insertFighter r b.next).popFrontFighter
        r).setCell (b.cellOf bft) none).pushCamp (b.fighter bft).side front).setCell r front),front) := by
  have same : (b.removeCamp (b.fighter bft).side bft).getMinNumRelive (b.fighter bft).side = some r := chosen
  have head : (((posted b bft born r).setBattleIndex b.next (b.fighter bft).battleIndex).insertFighter r b.next).getFrontFighter r =
      (queueAt r (posted b bft born r).listBench ++ [b.next]).head? := by
    rw [front_head]
    show (queueAt r (insertBench r b.next (posted b bft born r).listBench)).head? = _
    rw [insert_queue,if_pos rfl]
  obtain ⟨front,first⟩ : ∃ front, (queueAt r (posted b bft born r).listBench ++ [b.next]).head? = some front := by
    cases queueAt r (posted b bft born r).listBench <;> exact ⟨_,rfl⟩
  refine ⟨front,first,?_⟩
  have ready : ((((posted b bft born r).setBattleIndex b.next (b.fighter bft).battleIndex).insertFighter r
      b.next).getFrontFighter r).getD b.next = front := by
    rw [head,first]
    rfl
  unfold relive
  dsimp only
  rw [same]
  dsimp only [newFighter]
  rw [if_neg (by simp)]
  unfold posted at ready ⊢
  dsimp only
  rw [show (b.removeCamp (b.fighter bft).side bft).next = b.next from rfl,ready]

theorem relive_seats {b : BattleGround} (born : BattleFighter) (chosen : b.getMinNumRelive (b.fighter bft).side = some r) :
    Seated b bft born r (b.relive bft born).1 (b.relive bft born).2 := by
  obtain ⟨inside,point⟩ := relive_point chosen
  have parts := posted_parts bft born inside point
  obtain ⟨front,first,result⟩ := relive_posted born chosen
  rw [result]
  -- From here on only the parts of that ground are used.
  generalize posted b bft born r = seat at parts first ⊢
  obtain ⟨food,queue,next⟩ := parts.rest
  constructor
  case first => exact parts.queue.symm.trans first
  case camps =>
    show OrderedMap.upsert _ _ seat.camp2fighters = _
    rw [parts.camps]
    rfl
  case here =>
    refine ⟨?_,?_⟩
    · refine (same_map ?_ r).1.trans inside
      exact parts.field
    · rw [setCell_on,if_pos rfl]
  case hp =>
    dsimp only
    rw [setCell_hp,pushCamp_hp,setCell_hp,popFront_hp,insert_hp,actId_hp]
    exact parts.hp
  case food => exact food
  case queue => exact queue
  case next => exact next

-- The fallen one is back: a single new BattleFighter of its camp stands for it,
-- alive, on the grid or on a bench, and the food is what paying left.
structure Returned (s : Deaths) (bft : Nat) (paid : BattleGround) (after : Deaths) : Prop where
  single : ∃ bf, (enlisted after.toBattleGround).filter (fun f => s.next ≤ f) = [bf] ∧ 0 < after.hp bf ∧
    after.fighterOf bf = s.fighterOf bft ∧
    ((∃ p, after.isInMap p = true ∧ after.on p = some bf) ∨ bf ∈ benched after.toBattleGround)
  food : after.food = paid.food

-- Without a revival point nothing has been tried.
structure Untried (s : Deaths) (bft : Nat) (after : Deaths) : Prop where
  points : s.getAllRelivePoint (s.fighter bft).side = []
  camps : after.camp2fighters = s.camp2fighters
  queue : after.listFighters = s.listFighters
  food : after.food = s.food
  status : after.battleStatus (s.fighterOf bft) = 2

def Handled (s : Deaths) (bft : Nat) (paid : BattleGround) (after : Deaths) : Prop :=
  Returned s bft paid after ∨ Untried s bft after

-- Relive finds a revival cell behind which nobody waits.
def Welcome (b : BattleGround) (bft : Nat) : Prop :=
  ∃ r, b.getMinNumRelive (b.fighter bft).side = some r ∧ queueAt r b.listBench = []

section deaths
variable {s : Deaths} {bft : Nat} {fed : Bool} {player : Nat} {paid : BattleGround}

theorem fall_fed (born : BattleFighter) (owned : (s.fighter bft).owner = some player)
    (consumed : s.consumeCampaginFood player fed = some paid) : (s.fall bft fed born).1.toBattleGround =
      {(paid.relive bft born).1 with
        listFighters := (paid.relive bft born).1.listFighters ++ [(paid.relive bft born).2]} := by
  rw [(Deaths.fall_ground s bft fed born).1]
  unfold BattleGround.fall
  rw [owned]
  dsimp only
  rw [consumed]

-- The new BattleFighter stands for the Fighter of the fallen one.
theorem fall_fighter (born : BattleFighter) (owned : (s.fighter bft).owner = some player)
    (consumed : s.consumeCampaginFood player fed = some paid) (chosen : s.getMinNumRelive (s.fighter bft).side = some r) :
    (s.fall bft fed born).1.fighterOf = Function.update s.fighterOf s.next (s.fighterOf bft) := by
  obtain ⟨_,food,rfl⟩ := consume_parts consumed
  have same : ({s.toBattleGround with food} : BattleGround).getMinNumRelive (s.fighter bft).side = some r := chosen
  unfold Deaths.fall
  rw [owned]
  dsimp only
  rw [show (s.setBattleStatus (s.fighterOf bft) 2).consumeCampaginFood player fed = _ from consumed]
  unfold Deaths.relive Deaths.setBattleStatus
  dsimp only
  rw [same]

-- Nobody the fallen one leaves in the camps is new.
theorem removed_old {b : BattleGround} (fresh : Fresh b) (bft : Nat) :
    ∀ f ∈ enlisted (b.removeCamp (b.fighter bft).side bft), ¬b.next ≤ f := fun f member =>
  Nat.not_le.mpr (fresh.listed f ((enlisted_remove b (b.fighter bft).side bft).subset member))

theorem seated_new {b : BattleGround} (fresh : Fresh b) (seated : Seated b bft born r b' front) :
    ((enlisted b').filter fun f => b.next ≤ f).Perm (if b.next ≤ front then [front] else []) := by
  have perm := enlisted_push (b.removeCamp (b.fighter bft).side bft) (b.fighter bft).side front
  have camps : enlisted b' = enlisted ((b.removeCamp (b.fighter bft).side bft).pushCamp (b.fighter bft).side front) := by
    unfold enlisted
    rw [seated.camps]
  have none_left : (enlisted (b.removeCamp (b.fighter bft).side bft)).filter (fun f => b.next ≤ f) = [] := by
    rw [List.filter_eq_nil_iff]
    intro f member
    simpa using removed_old fresh bft f member
  rw [camps]
  refine (perm.filter _).trans ?_
  rw [List.filter_cons,none_left]
  simp only [decide_eq_true_eq]
  exact .refl _

theorem seated_front {b : BattleGround} (fresh : Fresh b) (seated : Seated b bft born r b' front) :
    (queueAt r b.listBench = [] ∧ front = b.next) ∨ (queueAt r b.listBench ≠ [] ∧ front < b.next) := by
  have first := seated.first
  cases waiting : queueAt r b.listBench with
  | nil =>
      rw [waiting] at first
      exact .inl ⟨rfl,(Option.some.inj first).symm⟩
  | cons f rest =>
      rw [waiting] at first
      refine .inr ⟨List.cons_ne_nil _ _,?_⟩
      rw [←Option.some.inj first]
      exact fresh.queued r f (by rw [waiting]; exact List.mem_cons_self ..)

-- Without a revival cell the camps have lost the fallen one and got nobody.
theorem missed_returns {food : List Nat} {after : Deaths} (fresh : Fresh s.toBattleGround)
    (chosen : s.getMinNumRelive (s.fighter bft).side = none)
    (camps : after.camp2fighters = (relive {s.toBattleGround with food} bft born).1.camp2fighters) : ¬Returned s bft paid after := by
  intro returned
  have missed : relive {s.toBattleGround with food} bft born = _ := relive_none chosen
  obtain ⟨bf,new,_⟩ := returned.single
  unfold enlisted at new
  rw [camps,missed] at new
  have member : bf ∈ [bf] := List.mem_singleton_self bf
  rw [←new,List.mem_filter] at member
  exact removed_old fresh bft bf member.1 (of_decide_eq_true member.2)

-- On a revival cell the fallen one is back just when nobody waited there.
theorem seated_returns {b b' : BattleGround} {after : Deaths} (fresh : Fresh b) (seated : Seated b bft born r b' front)
    (ground : after.toBattleGround = {b' with listFighters := b'.listFighters ++ [front]}) (same : s.next = b.next)
    (fighters : after.fighterOf = Function.update s.fighterOf s.next (s.fighterOf bft)) (food : b.food = paid.food) :
    Returned s bft paid after ↔ queueAt r b.listBench = [] ∧ 0 < born.hp := by
  have new := seated_new fresh seated
  have place := seated_front fresh seated
  have listed : enlisted after.toBattleGround = enlisted b' := by
    rw [ground]
    rfl
  rw [←listed,←same] at new
  constructor
  · intro returned
    obtain ⟨bf,single,alive,_⟩ := returned.single
    rw [single] at new
    split at new
    · rename_i late
      rcases place with ⟨empty,rfl⟩ | ⟨_,early⟩
      · obtain rfl := List.singleton_perm_singleton.mp new
        rw [ground] at alive
        exact ⟨empty,seated.hp ▸ alive⟩
      · exact absurd late (Nat.not_le.mpr (same ▸ early))
    · cases List.perm_nil.mp new
  · rintro ⟨empty,alive⟩
    obtain ⟨_,rfl⟩ := place.resolve_right fun waiting => waiting.1 empty
    rw [same,if_pos (Nat.le_refl _)] at new
    refine ⟨⟨b.next,?_,?_,?_,.inl ⟨r,?_⟩⟩,?_⟩
    · rw [same]
      exact List.perm_singleton.mp new
    · rw [ground]
      exact seated.hp.symm ▸ alive
    · rw [fighters,same,Function.update_self]
    · rw [ground]
      exact seated.here
    · rw [ground]
      exact seated.food.trans food

theorem revival_iff (fresh : Fresh s.toBattleGround) (born : BattleFighter) (owned : (s.fighter bft).owner = some player)
    (consumed : s.consumeCampaginFood player fed = some paid) :
    Handled s bft paid (s.fall bft fed born).1 ↔ Welcome s.toBattleGround bft ∧ 0 < born.hp := by
  have ground := fall_fed born owned consumed
  have fighters := fun r => fall_fighter (r:=r) born owned consumed
  obtain ⟨_,food,rfl⟩ := consume_parts consumed
  obtain ⟨_,same⟩ := relive_queue {s.toBattleGround with food} bft born
  generalize (s.fall bft fed born).1 = after at ground fighters ⊢
  -- Whoever Relive leaves has been queued, so nothing was tried in no case.
  have tried : ¬Untried s bft after := by
    intro untried
    have longer := congrArg List.length untried.queue
    rw [ground] at longer
    simp [same] at longer
  cases chosen : s.getMinNumRelive (s.fighter bft).side with
  | none =>
      refine iff_of_false ?_ fun both => ?_
      · rintro (returned | untried)
        · exact missed_returns fresh chosen (congrArg (·.camp2fighters) ground) returned
        · exact tried untried
      · obtain ⟨r,found,_⟩ := both.1
        rw [chosen] at found
        cases found
  | some r =>
      have seated : Seated {s.toBattleGround with food} bft born r _ _ := relive_seats born chosen
      have fresh : Fresh {s.toBattleGround with food} := ⟨fresh.listed,fresh.queued⟩
      have returns := seated_returns fresh seated ground rfl (fighters r chosen) rfl
      constructor
      · rintro (returned | untried)
        · obtain ⟨empty,alive⟩ := returns.mp returned
          exact ⟨⟨r,chosen,empty⟩,alive⟩
        · exact absurd untried tried
      · rintro ⟨⟨r',found,empty⟩,alive⟩
        cases chosen.symm.trans found
        exact .inl (returns.mpr ⟨empty,alive⟩)

end deaths

-- One cell, no revival point, and a dead fighter whose owner has food for one return.
def barren : Deaths where
  sizeX := 1
  sizeY := 1
  mapGround _ := 1
  fighter _ := {side := 1,owner := some 0}
  camp2fighters := [(1,[0])]
  next := 1
  food := [100]

-- The same with a free revival cell of the camp beside it.
def spring : Deaths := {barren with sizeX := 2,mapCamp := fun i => if i = 1 then 1 else 0,relivePoint := fun i => i = 1}

theorem spring_fresh : Fresh spring.toBattleGround where
  listed := by decide
  queued p f waits := by cases waits

-- There the dead fighter comes back.
theorem revival_spring : Handled spring 0 {spring.toBattleGround with food := [0]} (spring.fall 0 true {hp := 10}).1 ∧
    (spring.fall 0 true {hp := 10}).1.on ⟨1,0⟩ = some 1 :=
  ⟨(revival_iff spring_fresh {hp := 10} rfl rfl).mpr ⟨⟨⟨1,0⟩,by decide,rfl⟩,by decide⟩,by decide⟩

-- The food is gone, the camp has lost the dead fighter, and it is queued as alive.
theorem barren_lost : let after := (barren.fall 0 true {hp := 10}).1
    (after.food = [0] ∧ after.camp2fighters = [(1,[])] ∧ after.listFighters = [0] ∧ after.battleStatus 0 = 0) ∧
      ¬Handled barren 0 {barren.toBattleGround with food := [0]} after := by
  refine ⟨by decide,?_⟩
  rintro (returned | untried)
  · obtain ⟨bf,new,_⟩ := returned.single
    have none_new : (enlisted (barren.fall 0 true {hp := 10}).1.toBattleGround).filter (fun f => barren.next ≤ f) = [] := by decide
    rw [none_new] at new
    cases new
  · exact absurd untried.food (by decide)

end GameServer.Battle.Revival
