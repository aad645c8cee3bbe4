import GameServer.Battle.Choices
import GameServer.Battle.Places

namespace GameServer.Battle.Rounds
open BattleGround Places Choices

-- The turns a battle can still give: everybody queued, and one more for every
-- hundred of food somebody has left.
def work (b : BattleGround) : Nat := b.listFighters.length + b.food.sum / 100

theorem spend {food : List Nat} {player : Nat} (rich : 100 ≤ food.getD player 0) :
    (food.set player (food.getD player 0 - 100)).sum + 100 = food.sum := by
  induction food generalizing player with
  | nil => simp at rich
  | cons stock rest ih =>
      cases player with
      | zero => simp at rich ⊢; omega
      | succ player =>
          have later := ih (by simpa using rich)
          simp only [List.set_cons_succ,List.sum_cons,List.getD_cons_succ] at later ⊢
          omega

theorem consume_parts {b paid : BattleGround} (fed : b.consumeCampaginFood player willing = some paid) :
    paid.food.sum + 100 = b.food.sum ∧ ∃ food, paid = {b with food} := by
  unfold consumeCampaginFood at fed
  split at fed
  · rename_i able
    cases fed
    exact ⟨spend able.2,_,rfl⟩
  · cases fed

theorem setObject_rest (b : BattleGround) (p : Ascoord) (bf : Nat) (flag : Bool) : Rest b (b.setObject p bf flag) := by
  rcases setObject_parts b p bf flag with ⟨_,same⟩ | ⟨_,_,same⟩ | ⟨_,_,same⟩ <;> rw [same] <;>
    exact ⟨rfl,rfl,rfl,rfl,rfl,rfl⟩

theorem newFighter_queue (b : BattleGround) (p : Ascoord) (created : Option BattleFighter) (flag : Bool) :
    (b.newFighter p created flag).1.food = b.food ∧ (b.newFighter p created flag).1.listFighters = b.listFighters := by
  unfold newFighter
  cases created with
  | none => exact ⟨rfl,rfl⟩
  | some made =>
      dsimp only
      split
      · exact ⟨rfl,rfl⟩
      · have rest := setObject_rest (b.create p made) p b.next true
        exact ⟨rest.food,rest.queue⟩

-- A Relive neither eats nor queues anybody.
theorem relive_queue (b : BattleGround) (bft : Nat) (born : BattleFighter) :
    (b.relive bft born).1.food = b.food ∧ (b.relive bft born).1.listFighters = b.listFighters := by
  unfold relive
  dsimp only
  split
  · exact ⟨rfl,rfl⟩
  · rename_i r _
    obtain ⟨food,queue⟩ := newFighter_queue (b.removeCamp (b.fighter bft).side bft) r (some born) false
    generalize ((b.removeCamp (b.fighter bft).side bft).newFighter r (some born) false).1 = made at food queue ⊢
    exact ⟨food,queue⟩

theorem fall_parts (b : BattleGround) (bft : Nat) (fed : Bool) (born : BattleFighter) : b.fall bft fed born = (b,bft) ∨
    ∃ player paid, (b.fighter bft).owner = some player ∧ b.consumeCampaginFood player fed = some paid ∧
      b.fall bft fed born =
        ({(paid.relive bft born).1 with
          listFighters := (paid.relive bft born).1.listFighters ++ [(paid.relive bft born).2]},(paid.relive bft born).2) := by
  unfold fall
  split
  · exact .inl rfl
  · rename_i player owned
    cases consumed : b.consumeCampaginFood player fed with
    | none => exact .inl rfl
    | some paid => exact .inr ⟨player,paid,owned,consumed,rfl⟩

-- What a fallen fighter's return adds to the queue it has paid for.
theorem fall_work (b : BattleGround) (bft : Nat) (fed : Bool) (born : BattleFighter) :
    work (b.fall bft fed born).1 = work b ∧ ∃ more, (b.fall bft fed born).1.listFighters = b.listFighters ++ more := by
  rcases fall_parts b bft fed born with same | ⟨player,paid,_,consumed,same⟩
  · rw [same]
    exact ⟨rfl,[],(List.append_nil _).symm⟩
  · obtain ⟨less,food,rfl⟩ := consume_parts consumed
    obtain ⟨eaten,queued⟩ := relive_queue {b with food} bft born
    rw [same]
    dsimp only at less ⊢
    unfold work
    dsimp only
    rw [eaten,queued,List.length_append,List.length_singleton]
    dsimp only
    exact ⟨by omega,_,rfl⟩

-- A step leaves the work and only adds to the end of the queue.
structure Works (b b' : BattleGround) : Prop where
  work : work b' = work b
  queue : ∃ more, b'.listFighters = b.listFighters ++ more

theorem works_trans (first : Works a b) (second : Works b c) : Works a c := by
  obtain ⟨more,queued⟩ := first.queue
  obtain ⟨further,queued'⟩ := second.queue
  exact ⟨second.work.trans first.work,more ++ further,by rw [queued',queued,List.append_assoc]⟩

theorem works_rest (rest : Rest b b') : Works b b' :=
  ⟨by unfold work; rw [rest.food,rest.queue],[],by rw [rest.queue,List.append_nil]⟩

theorem works_fall (b : BattleGround) (bft : Nat) (fed : Bool) (born : BattleFighter) : Works b (b.fall bft fed born).1 :=
  let ⟨work,queue⟩ := fall_work b bft fed born
  ⟨work,queue⟩

theorem works_strike (b : BattleGround) (target : TargetInfo) (o : Outcome) : Works b (b.strike target o) := by
  have approached : Works b (b.approach target.attack) := by
    unfold approach
    split
    · exact ⟨rfl,[],(List.append_nil _).symm⟩
    · exact works_rest (relocate_parts b _).rest
  have fought := works_rest (fight_parts (b.approach target.attack) target.bo o).rest
  have current : ∀ b : BattleGround, Works b (b.currentFalls o) := by
    intro b
    unfold currentFalls
    split
    · have fell := works_fall b b.currentBf o.fedCurrent o.bornCurrent
      exact ⟨fell.work,fell.queue⟩
    · exact ⟨rfl,[],(List.append_nil _).symm⟩
  have enemy : ∀ b : BattleGround, Works b (b.targetFalls target.bo o) := by
    intro b
    unfold targetFalls
    split
    · have fell := works_fall (b.setCell (b.cellOf target.bo) none) target.bo o.fedTarget o.bornTarget
      exact ⟨fell.work,fell.queue⟩
    · exact ⟨rfl,[],(List.append_nil _).symm⟩
  exact works_trans (works_trans (works_trans approached fought) (current _)) (enemy _)

theorem move_total (b : BattleGround) (o : Outcome) : ∃ after, b.move o = some after ∧ Works b after := by
  unfold move
  obtain ⟨infos,found,_⟩ := getTarget_offers b.toGround
  rw [found]
  cases infos with
  | nil =>
      obtain ⟨m,walked,_⟩ := getMovePosition_total b.toGround ⟨0xFF,0xFF⟩
      dsimp only
      rw [walked]
      refine ⟨_,rfl,?_⟩
      dsimp only
      split
      · exact ⟨rfl,[],(List.append_nil _).symm⟩
      · exact works_rest (relocate_parts b _).rest
  | cons first rest => exact ⟨_,rfl,works_strike b _ o⟩

theorem nextTurn_parts {b now : BattleGround} (turn : b.nextTurn = some now) :
    ∃ bf rest, b.listFighters.dropWhile (fun bf => b.hp bf ≤ 0) = bf :: rest ∧ 0 < b.hp bf ∧
      now = {b with listFighters := bf :: rest,currentBf := bf} := by
  unfold nextTurn at turn
  split at turn
  · cases turn
  · rename_i bf rest dropped
    cases turn
    refine ⟨bf,rest,dropped,?_,rfl⟩
    have alive := List.head?_dropWhile_not (fun bf => decide (b.hp bf ≤ 0)) b.listFighters
    rw [dropped] at alive
    simpa using alive

theorem sort_length (b : BattleGround) (fighters : List Nat) : (b.sortFighters fighters).length = fighters.length :=
  List.length_insertionSort _ _

theorem turn_work {b now : BattleGround} (turn : b.nextTurn = some now) (o : Outcome) :
    ∃ after, now.move o = some after ∧ work after.endTurn + 1 ≤ work b := by
  obtain ⟨bf,rest,dropped,_,rfl⟩ := nextTurn_parts turn
  obtain ⟨after,moved,works⟩ := move_total {b with listFighters := bf :: rest,currentBf := bf} o
  refine ⟨after,moved,?_⟩
  obtain ⟨more,queued⟩ := works.queue
  have shorter : (b.listFighters.dropWhile fun bf => decide (b.hp bf ≤ 0)).length ≤ b.listFighters.length :=
    (List.dropWhile_suffix _).length_le
  rw [dropped] at shorter
  have kept := works.work
  unfold work at kept ⊢
  unfold endTurn
  dsimp only at kept queued ⊢
  rw [sort_length,queued]
  rw [queued] at kept
  simp only [List.cons_append,List.tail_cons,List.length_cons,List.length_append] at kept shorter ⊢
  omega

theorem loop_ends (plays : List Outcome) (b : BattleGround) (enough : work b ≤ plays.length) :
    ∃ turns last, turnLoop plays b = some (turns,last) ∧ turns.length ≤ work b := by
  induction plays generalizing b with
  | nil =>
      have empty : b.listFighters = [] := by
        unfold work at enough
        rw [List.length_nil] at enough
        exact List.length_eq_zero_iff.mp (by omega)
      exact ⟨_,_,by rw [turnLoop,nextTurn,empty]; rfl,Nat.zero_le _⟩
  | cons o plays ih =>
      rw [turnLoop]
      cases turn : b.nextTurn with
      | none => exact ⟨_,_,rfl,Nat.zero_le _⟩
      | some now =>
          obtain ⟨after,moved,less⟩ := turn_work turn o
          obtain ⟨turns,last,looped,short⟩ := ih after.endTurn (by rw [List.length_cons] at enough; omega)
          refine ⟨now :: turns,last,?_,by rw [List.length_cons]; omega⟩
          dsimp only
          rw [moved]
          show ((turnLoop plays after.endTurn).bind fun result => some (now :: result.1,result.2)) = _
          rw [looped]; rfl

-- From any ground and whatever the fights, the owners' choices and the fighters
-- made anew are, the turn loop ends after at most so many turns.
theorem turns_end (b : BattleGround) (play : Nat → Outcome) :
    ∃ turns last, turnLoop ((List.range (work b)).map play) b = some (turns,last) ∧ turns.length ≤ work b :=
  loop_ends _ b (by simp)

end GameServer.Battle.Rounds
