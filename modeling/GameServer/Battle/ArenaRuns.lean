import GameServer.Battle.Arena
import GameServer.Battle.Turns

namespace GameServer.Battle.ArenaRuns
open BattleGround Places Records Choices Rounds Roster Turns OrderedMap

-- What an act does: the acting fighter moves, it and one living enemy on the map
-- may come out with other HP, and that is all.
structure Act (b b' : BattleGround) : Prop where
  rest : Rest b b'
  benches : b'.listBench = b.listBench
  foe : ∃ foe, (∀ f, f ≠ b.currentBf → f ≠ foe → b'.fighter f = b.fighter f) ∧ (foe = b.currentBf ∨
    (0 < b.hp foe ∧ (b.fighter foe).side ≠ b.current.side ∧ ∃ t, b.isInMap t = true ∧ b.on t = some foe))
  sides : ∀ f, (b'.fighter f).side = (b.fighter f).side
  order : ∀ f, (b'.fighter f).battleIndex = (b.fighter f).battleIndex
  places : ∀ f, f ≠ b.currentBf → b'.cellOf f = b.cellOf f

-- What holds from one moment of a run to any later one: who has fallen is left
-- alone, wherever it lies, and nobody changes sides.
structure Onward (b b' : BattleGround) : Prop where
  field : field b' = field b
  camps : b'.camp2fighters = b.camp2fighters
  queue : b'.listFighters = b.listFighters
  fallen : ∀ f, b.hp f ≤ 0 → b'.fighter f = b.fighter f
  sides : ∀ f, (b'.fighter f).side = (b.fighter f).side
  order : ∀ f, (b'.fighter f).battleIndex = (b.fighter f).battleIndex

section acts
variable {b b' : BattleGround}

theorem walk_parts (b : BattleGround) (p : Ascoord) : Rest b (b.walk p) ∧ (b.walk p).listBench = b.listBench ∧
    (∀ f, f ≠ b.currentBf → (b.walk p).fighter f = b.fighter f) ∧
    (b.walk p).fighter b.currentBf = {b.current with groundX := p.x,groundY := p.y} ∧
    (∀ q, (b.walk p).on q = if b.index q = b.index p then some b.currentBf else if b.index q = b.index b.own then none else b.on q) := by
  refine ⟨⟨rfl,rfl,rfl,rfl,rfl,rfl⟩,rfl,fun f other => Function.update_of_ne other _ _,Function.update_self ..,fun q => ?_⟩
  have second : ((b.setCell b.own none).setCell p (some b.currentBf)).on q =
      if b.index q = b.index p then some b.currentBf else (b.setCell b.own none).on q := setCell_on
  refine second.trans ?_
  rw [setCell_on]

theorem fight_sides (b : BattleGround) (bo : Nat) (o : Outcome) (f : Nat) : ((b.fight bo o).fighter f).side = (b.fighter f).side := by
  have once : ∀ (b : BattleGround) (bf : Nat) (hp : Int), ((b.setFighter bf {b.fighter bf with hp}).fighter f).side = (b.fighter f).side := by
    intro b bf hp
    show (Function.update b.fighter bf _ f).side = _
    rw [Function.update_apply]
    split
    · rename_i same
      rw [same]
    · rfl
  unfold fight
  split
  · rfl
  · exact (once _ bo o.hpTarget).trans (once b b.currentBf o.hpCurrent)

theorem act_walk (b : BattleGround) (p : Ascoord) : Act b (b.walk p) := by
  obtain ⟨rest,benches,others,self,_⟩ := walk_parts b p
  have same : ∀ f, ((b.walk p).fighter f).side = (b.fighter f).side ∧ ((b.walk p).fighter f).battleIndex = (b.fighter f).battleIndex := by
    intro f
    by_cases acting : f = b.currentBf
    · subst acting
      rw [self]
      exact ⟨rfl,rfl⟩
    · rw [others f acting]
      exact ⟨rfl,rfl⟩
  refine ⟨rest,benches,⟨b.currentBf,fun f other _ => others f other,.inl rfl⟩,fun f => (same f).1,fun f => (same f).2,fun f other => ?_⟩
  unfold cellOf
  rw [others f other]

theorem act_refl (b : BattleGround) : Act b b :=
  ⟨⟨rfl,rfl,rfl,rfl,rfl,rfl⟩,rfl,⟨b.currentBf,fun _ _ _ => rfl,.inl rfl⟩,fun _ => rfl,fun _ => rfl,fun _ _ => rfl⟩

theorem closeIn_cases (b : BattleGround) (attack : Ascoord) : (attack = b.own ∧ b.closeIn attack = b) ∨ b.closeIn attack = b.walk attack := by
  unfold closeIn
  split
  · exact .inl ⟨by assumption,rfl⟩
  · exact .inr rfl

theorem chosen_mem (first : TargetInfo) (others : List TargetInfo) (choice : Nat) : (first :: others).getD choice first ∈ first :: others := by
  rw [List.getD_eq_getElem?_getD]
  cases there : (first :: others)[choice]? with
  | none => exact List.mem_cons_self
  | some info => exact List.mem_of_getElem? there

-- Every act comes about, and is what an act may be.
theorem arenaMove_act (b : BattleGround) (o : Outcome) : ∃ after, b.arenaMove o = some after ∧ Act b after := by
  obtain ⟨infos,found,offered⟩ := getTarget_offers b.toGround
  unfold arenaMove
  rw [found]
  cases infos with
  | nil =>
      obtain ⟨m,walked,_⟩ := getMovePosition_total b.toGround ⟨0xFF,0xFF⟩
      dsimp only
      rw [walked]
      refine ⟨_,rfl,?_⟩
      dsimp only
      split
      · exact act_refl b
      · exact act_walk b m
  | cons first others =>
      refine ⟨_,rfl,?_⟩
      generalize chosen : (first :: others).getD o.choice first = target
      have member : target ∈ first :: others := chosen ▸ chosen_mem first others o.choice
      have offer := offered target member
      have approach : Act b (b.closeIn target.attack) := by
        rcases closeIn_cases b target.attack with ⟨_,stays⟩ | walks
        · rw [stays]
          exact act_refl b
        · rw [walks]
          exact act_walk b _
      have alone : ∀ f, f ≠ b.currentBf → (b.closeIn target.attack).fighter f = b.fighter f := by
        rcases closeIn_cases b target.attack with ⟨_,stays⟩ | walks
        · rw [stays]
          exact fun _ _ => rfl
        · rw [walks]
          exact (walk_parts b _).2.2.1
      have fought := fight_parts (b.closeIn target.attack) target.bo o
      have current := approach.rest.current
      have one := approach.rest
      have two := fought.rest
      refine ⟨⟨two.field.trans one.field,two.camps.trans one.camps,two.next.trans one.next,two.food.trans one.food,two.queue.trans one.queue,
        two.current.trans one.current⟩,fought.benches.trans approach.benches,⟨target.bo,fun f other other' => ?_,?_⟩,fun f => ?_,fun f => ?_,
        fun f other => ?_⟩
      · exact (fought.others f (by rw [current]; exact other) other').trans (alone f other)
      · exact .inr ⟨offer.foe.2,offer.foe.1,offer.found⟩
      · exact (fight_sides _ _ _ f).trans (approach.sides f)
      · exact (fought.same f).2.trans (approach.order f)
      · exact (fought.same f).1.trans (approach.places f other)

theorem onward_refl (b : BattleGround) : Onward b b := ⟨rfl,rfl,rfl,fun _ _ => rfl,fun _ => rfl,fun _ => rfl⟩

theorem onward_trans {c : BattleGround} (first : Onward b b') (second : Onward b' c) : Onward b c where
  field := second.field.trans first.field
  camps := second.camps.trans first.camps
  queue := second.queue.trans first.queue
  fallen f dead := by
    have same := first.fallen f dead
    have still : b'.hp f ≤ 0 := by
      unfold hp
      rw [same]
      exact dead
    exact (second.fallen f still).trans same
  sides f := (second.sides f).trans (first.sides f)
  order f := (second.order f).trans (first.order f)

-- A living fighter's act.
theorem onward_act (act : Act b b') (alive : Alive b b.currentBf) : Onward b b' where
  field := act.rest.field
  camps := act.rest.camps
  queue := act.rest.queue
  fallen f dead := by
    obtain ⟨foe,others,known⟩ := act.foe
    have other : f ≠ b.currentBf := by
      rintro rfl
      exact absurd alive (Int.not_lt.mpr dead)
    refine others f other ?_
    rintro rfl
    rcases known with same | ⟨living,_⟩
    · exact other same
    · exact absurd living (Int.not_lt.mpr dead)
  sides := act.sides
  order := act.order

theorem onward_living (onward : Onward b b') (alive : Alive b' f) : Alive b f := by
  by_contra dead
  have same := onward.fallen f (Int.not_lt.mp dead)
  unfold Alive hp at alive dead
  rw [same] at alive
  exact dead alive

end acts

section rounds
variable {b : BattleGround} {plays : Nat → Outcome}

-- The ground the acts of some turns leave.
inductive Left (plays : Nat → Outcome) (before : BattleGround) : List BattleGround → BattleGround → Prop where
  | none : Left plays before [] before
  | act {turns : List BattleGround} {now due : BattleGround} (count : Nat) : now.arenaMove (plays count) = some due →
      Left plays before (turns ++ [now]) due

-- A fighter's turn comes when those ahead of it in the queue have had theirs. It acts
-- exactly if it is still alive on the ground they left.
structure Turn (plays : Nat → Outcome) (queue : List Nat) (before : BattleGround) (turns : List BattleGround) (f : Nat)
    (ahead behind : List Nat) (early late : List BattleGround) (due : BattleGround) : Prop where
  queued : queue = ahead ++ f :: behind
  split : turns = early ++ late
  earlier : ∀ now ∈ early, now.currentBf ∈ ahead
  later : ∀ now ∈ late, now.currentBf ∈ f :: behind
  left : Left plays before early due
  acts : f ∈ turns.map (fun now => now.currentBf) ↔ Alive due f

-- The turns of a round over a queue: each is an act of a living fighter, they come in
-- the order of the queue, whoever is alive when its turn comes has one and so has
-- whoever is alive behind the round.
structure Played (plays : Nat → Outcome) (queue : List Nat) (b : BattleGround) (turns : List BattleGround) (last : BattleGround) : Prop where
  order : (turns.map fun now => now.currentBf).Sublist queue
  onward : Onward b last
  acts : ∀ now ∈ turns, Onward b now ∧ Alive now now.currentBf ∧ ∃ act after, now.arenaMove (plays act) = some after ∧ Onward after last
  all : ∀ f ∈ queue, Alive last f → f ∈ turns.map fun now => now.currentBf
  turn : queue.Nodup → ∀ f ∈ queue, ∃ ahead behind early late due, Turn plays queue b turns f ahead behind early late due

theorem left_cons {now after due : BattleGround} (moved : now.arenaMove (plays count) = some after) (left : Left plays after early due) :
    Left plays b (now :: early) due := by
  cases left with
  | none =>
      change Left plays b ([] ++ [now]) after
      exact .act count moved
  | act later moved' =>
      rw [←List.cons_append]
      exact .act later moved'

-- Who is dead when its turn comes is passed over.
theorem turn_dead (turns : Turn plays copy b played f ahead behind early late due) (bf : Nat) :
    Turn plays (bf :: copy) b played f (bf :: ahead) behind early late due :=
  ⟨congrArg (bf :: ·) turns.queued,turns.split,fun now member => List.mem_cons_of_mem _ (turns.earlier now member),turns.later,turns.left,
    turns.acts⟩

theorem turn_behind {now after : BattleGround} (moved : now.arenaMove (plays count) = some after) (other : f ≠ now.currentBf)
    (turns : Turn plays copy after played f ahead behind early late due) :
    Turn plays (now.currentBf :: copy) b (now :: played) f (now.currentBf :: ahead) behind (now :: early) late due where
  queued := congrArg (now.currentBf :: ·) turns.queued
  split := congrArg (now :: ·) turns.split
  earlier := List.forall_mem_cons.mpr ⟨List.mem_cons_self,fun earlier member => List.mem_cons_of_mem _ (turns.earlier earlier member)⟩
  later := turns.later
  left := left_cons moved turns.left
  acts := by
    rw [List.map_cons,List.mem_cons,←turns.acts]
    exact or_iff_right other

theorem onward_current (b : BattleGround) (bf : Nat) : Onward b {b with currentBf := bf} :=
  ⟨rfl,rfl,rfl,fun _ _ => rfl,fun _ => rfl,fun _ => rfl⟩

theorem played_dead (dead : b.hp bf ≤ 0) (done : Played plays copy b turns last) : Played plays (bf :: copy) b turns last where
  order := done.order.cons _
  onward := done.onward
  acts := done.acts
  all f member alive := by
    rcases List.mem_cons.mp member with rfl | later
    · exact absurd (onward_living done.onward alive) (Int.not_lt.mpr dead)
    · exact done.all f later alive
  turn nodup f member := by
    rcases List.mem_cons.mp member with rfl | later
    · refine ⟨[],copy,[],turns,b,rfl,rfl,fun _ none => absurd none List.not_mem_nil,fun now there => ?_,.none,?_⟩
      · exact List.mem_cons_of_mem _ (done.order.subset (List.mem_map_of_mem there))
      · exact iff_of_false (fun there => (List.nodup_cons.mp nodup).1 (done.order.subset there)) (Int.not_lt.mpr dead)
    · obtain ⟨ahead,behind,early,late,due,turn⟩ := done.turn (List.nodup_cons.mp nodup).2 f later
      exact ⟨bf :: ahead,behind,early,late,due,turn_dead turn bf⟩

theorem played_act {now after : BattleGround} (first : Onward b now) (living : Alive now now.currentBf) (due : Alive b now.currentBf)
    (moved : now.arenaMove (plays count) = some after) (onward : Onward now after) (done : Played plays copy after turns last) :
    Played plays (now.currentBf :: copy) b (now :: turns) last where
  order := done.order.cons_cons now.currentBf
  onward := onward_trans (onward_trans first onward) done.onward
  acts turn member := by
    rcases List.mem_cons.mp member with rfl | later
    · exact ⟨first,living,_,after,moved,done.onward⟩
    · obtain ⟨before,alive,rest⟩ := done.acts turn later
      exact ⟨onward_trans (onward_trans first onward) before,alive,rest⟩
  all f member alive := by
    rcases List.mem_cons.mp member with rfl | later
    · exact List.mem_cons_self
    · exact List.mem_cons_of_mem _ (done.all f later alive)
  turn nodup f member := by
    obtain ⟨alone,nodup⟩ := List.nodup_cons.mp nodup
    rcases List.mem_cons.mp member with rfl | later
    · refine ⟨[],copy,[],_,b,rfl,rfl,fun _ none => absurd none List.not_mem_nil,fun turn there => ?_,.none,?_⟩
      · rcases List.mem_cons.mp there with rfl | there
        · exact List.mem_cons_self
        · exact List.mem_cons_of_mem _ (done.order.subset (List.mem_map_of_mem there))
      · exact iff_of_true List.mem_cons_self due
    · obtain ⟨ahead,behind,early,late,_,turn⟩ := done.turn nodup f later
      have other : f ≠ now.currentBf := by
        rintro rfl
        exact alone later
      exact ⟨now.currentBf :: ahead,behind,_,late,_,turn_behind moved other turn⟩

variable (plays) in
theorem round_turns (queue : List Nat) (actCount : Nat) (b : BattleGround) :
    ∃ turns last, arenaRound plays queue actCount b = some (turns,last) ∧ Played plays queue b turns last := by
  induction queue generalizing actCount b with
  | nil =>
      exact ⟨[],b,rfl,List.Sublist.refl _,onward_refl b,fun _ member => absurd member List.not_mem_nil,
        fun _ member => absurd member List.not_mem_nil,fun _ _ member => absurd member List.not_mem_nil⟩
  | cons bf copy ih =>
      unfold arenaRound
      by_cases dead : b.hp bf ≤ 0
      · rw [if_pos dead]
        obtain ⟨turns,last,ran,done⟩ := ih actCount b
        exact ⟨turns,last,ran,played_dead dead done⟩
      · rw [if_neg dead]
        have living : Alive {b with currentBf := bf} bf := Int.not_le.mp dead
        obtain ⟨after,moved,act⟩ := arenaMove_act {b with currentBf := bf} (plays actCount)
        obtain ⟨turns,last,ran,done⟩ := ih (actCount+1) after
        refine ⟨{b with currentBf := bf} :: turns,last,?_,played_act (onward_current b bf) living living moved (onward_act act living) done⟩
        show (({b with currentBf := bf} : BattleGround).arenaMove (plays actCount)).bind _ = _
        rw [moved]
        show (arenaRound plays copy (actCount+1) after).bind _ = _
        rw [ran]
        rfl

end rounds

section runs
variable {b : BattleGround} {plays : Nat → Outcome}

-- Rounds, each played because the battle has not stopped.
inductive Run (plays : Nat → Outcome) : BattleGround → List (List BattleGround) → BattleGround → Prop where
  | stop (b : BattleGround) : Run plays b [] b
  | round {b after last : BattleGround} {turns : List BattleGround} {rounds : List (List BattleGround)} : b.checkIsStop = false →
      Played plays b.listFighters b turns after → Run plays after rounds last → Run plays b (turns :: rounds) last

variable (plays) in
theorem loop_run (rounds actCount : Nat) (b : BattleGround) : ∃ played last, arenaLoop plays rounds actCount b = some (played,last) ∧
    Run plays b played last ∧ played.length ≤ rounds ∧ (played.length < rounds → last.checkIsStop = true) := by
  induction rounds generalizing actCount b with
  | zero => exact ⟨[],b,rfl,.stop b,Nat.le_refl _,fun less => absurd less (Nat.lt_irrefl _)⟩
  | succ rounds ih =>
      unfold arenaLoop
      by_cases stop : b.checkIsStop = true
      · rw [if_pos stop]
        exact ⟨[],b,rfl,.stop b,Nat.zero_le _,fun _ => stop⟩
      · rw [if_neg stop]
        obtain ⟨turns,after,ran,done⟩ := round_turns plays b.listFighters actCount b
        obtain ⟨played,last,later,run,few,ended⟩ := ih (actCount+turns.length) after
        refine ⟨turns :: played,last,?_,.round (Bool.eq_false_iff.mpr stop) done run,Nat.succ_le_succ few,
          fun less => ended (Nat.lt_of_succ_lt_succ less)⟩
        rw [ran]
        show (arenaLoop plays rounds (actCount+turns.length) after).bind _ = _
        rw [later]
        rfl

theorem run_onward (run : Run plays b rounds last) : Onward b last := by
  induction run with
  | stop b => exact onward_refl b
  | round _ turns _ ih => exact onward_trans turns.onward ih

-- Every round is one over the queue of the opening.
theorem run_rounds (run : Run plays b rounds last) : ∀ turns ∈ rounds, ∃ before after, Onward b before ∧ Onward after last ∧
    before.checkIsStop = false ∧ Played plays b.listFighters before turns after := by
  induction run with
  | stop b => exact fun _ member => absurd member List.not_mem_nil
  | @round b after last turns rounds going done run ih =>
      intro other member
      rcases List.mem_cons.mp member with rfl | later
      · exact ⟨b,after,onward_refl b,run_onward run,going,done⟩
      · obtain ⟨before,after',one,two,going',done'⟩ := ih other later
        rw [done.onward.queue] at done'
        exact ⟨before,after',onward_trans done.onward one,two,going',done'⟩

end runs

-- An empty ground, and who enters it, none of them for force 0.
structure Lobby where
  board : BattleGround
  opening : Opening board
  nobody : board.listFighters = []
  infos : List FighterInfo
  forces : ∀ info ∈ infos, info.campId ≠ 0

-- The ground the rounds begin on.
def Lobby.opened (lobby : Lobby) : BattleGround := (lobby.board.preStart lobby.infos).getAllBattleFighter

section lobbies

theorem opened_queue (lobby : Lobby) : lobby.opened.listFighters.Perm (enlisted lobby.opened) ∧ lobby.opened.listFighters.Nodup ∧
    lobby.opened.listFighters.Pairwise lobby.opened.before := by
  have listed : lobby.opened.listFighters = (lobby.board.preStart lobby.infos).sortFighters (enlisted (lobby.board.preStart lobby.infos)) := by
    unfold Lobby.opened getAllBattleFighter
    rw [preStart_queue,lobby.nobody,List.nil_append]
    rfl
  have roster := roster_preStart (roster_opening lobby.opening) lobby.infos
  have perm : lobby.opened.listFighters.Perm (enlisted lobby.opened) := by
    rw [listed]
    exact List.perm_insertionSort _ _
  refine ⟨perm,perm.nodup_iff.mpr roster.once,?_⟩
  rw [listed]
  exact List.pairwise_insertionSort (lobby.board.preStart lobby.infos).before _

end lobbies

section forces
variable {b : BattleGround}

-- A camp with a living fighter.
def Stands (b : BattleGround) (force : UInt8) : Prop := ∃ fighters, (force,fighters) ∈ b.camp2fighters ∧ ∃ f ∈ fighters, Alive b f

-- The camps as the map keeps them: by number, fewer than 256, none of number 0.
structure Camped (b : BattleGround) : Prop where
  ordered : b.camp2fighters.Pairwise fun one two => one.1 < two.1
  forces : ∀ camp ∈ b.camp2fighters, camp.1 ≠ 0

theorem camps_few (camped : Camped b) : b.camp2fighters.length < 256 := by
  have nodup : (b.camp2fighters.map fun camp => camp.1.toNat).Nodup := by
    refine List.pairwise_map.mpr (camped.ordered.imp fun less same => ?_)
    exact Nat.ne_of_lt (UInt8.lt_iff_toNat_lt.mp less) same
  have inside : (b.camp2fighters.map fun camp => camp.1.toNat) ⊆ (List.range 256).tail := by
    intro n member
    obtain ⟨camp,there,rfl⟩ := List.mem_map.mp member
    have some_force : camp.1.toNat ≠ 0 := fun none => camped.forces camp there (UInt8.toNat_inj.mp none)
    have small := camp.1.toNat_lt
    rw [List.tail_range,List.mem_range'_1]
    omega
  have few := (nodup.subperm inside).length_le
  simp only [List.length_map,List.length_tail,List.length_range] at few
  omega

theorem alive_stands (camped : Camped b) {force : UInt8} {fighters : List Nat} (there : (force,fighters) ∈ b.camp2fighters) :
    b.someCampIsAllDie force = false ↔ ∃ f ∈ fighters, Alive b f := by
  unfold someCampIsAllDie
  rw [(mem_iff_find camped.ordered force fighters).mp there,Option.getD_some,List.all_eq_false]
  constructor
  · rintro ⟨f,member,living⟩
    exact ⟨f,member,by simpa [Alive] using living⟩
  · rintro ⟨f,member,living⟩
    exact ⟨f,member,by simpa [Alive] using living⟩

-- The battle stops when at most one camp stands.
theorem stops_iff (camped : Camped b) : b.checkIsStop = true ↔ ∀ one two, Stands b one → Stands b two → one = two := by
  have few := camps_few camped
  have parts := List.length_eq_countP_add_countP (fun camp : UInt8 × List Nat => b.someCampIsAllDie camp.1) (l:=b.camp2fighters)
  have counts : b.checkIsStop = true ↔ (b.camp2fighters.filter fun camp => !b.someCampIsAllDie camp.1).length ≤ 1 := by
    simp only [decide_not,Bool.decide_eq_true] at parts
    unfold checkIsStop
    rw [←List.countP_eq_length_filter]
    simp only [Bool.or_eq_true,decide_eq_true_eq,UInt8.toNat_ofNat']
    omega
  have there : ∀ force, Stands b force ↔ ∃ fighters, (force,fighters) ∈ b.camp2fighters.filter fun camp => !b.someCampIsAllDie camp.1 := by
    intro force
    constructor
    · rintro ⟨fighters,inside,living⟩
      exact ⟨fighters,List.mem_filter.mpr ⟨inside,by rw [(alive_stands camped inside).mpr living]; rfl⟩⟩
    · rintro ⟨fighters,member⟩
      obtain ⟨inside,test⟩ := List.mem_filter.mp member
      exact ⟨fighters,inside,(alive_stands camped inside).mp (by simpa using test)⟩
  have ordered := camped.ordered.filter fun camp => !b.someCampIsAllDie camp.1
  rw [counts]
  generalize (b.camp2fighters.filter fun camp => !b.someCampIsAllDie camp.1) = left at there ordered ⊢
  match left with
  | [] =>
      refine iff_of_true (Nat.zero_le _) fun one _ stands _ => ?_
      obtain ⟨_,member⟩ := (there one).mp stands
      cases member
  | [camp] =>
      refine iff_of_true (Nat.le_refl _) fun one two stands stands' => ?_
      obtain ⟨_,member⟩ := (there one).mp stands
      obtain ⟨_,member'⟩ := (there two).mp stands'
      exact (congrArg Prod.fst (List.mem_singleton.mp member)).trans (congrArg Prod.fst (List.mem_singleton.mp member')).symm
  | (one,fighters) :: (two,fighters') :: rest =>
      have less := List.rel_of_pairwise_cons ordered List.mem_cons_self
      refine iff_of_false (fun few => absurd few (by simp)) fun alone => ?_
      have same := alone one two ((there one).mpr ⟨fighters,List.mem_cons_self⟩)
        ((there two).mpr ⟨fighters',List.mem_cons_of_mem _ List.mem_cons_self⟩)
      rw [same] at less
      exact UInt8.lt_irrefl _ less

theorem aliveForces_mem (camped : Camped b) (force : UInt8) : force ∈ b.getAliveForce ↔ Stands b force := by
  unfold getAliveForce Stands
  constructor
  · intro member
    obtain ⟨⟨force',fighters⟩,inside,rfl⟩ := List.mem_map.mp member
    obtain ⟨there,test⟩ := List.mem_filter.mp inside
    simp only [Bool.and_eq_true,Bool.not_eq_true'] at test
    exact ⟨fighters,there,(alive_stands camped there).mp test.2⟩
  · rintro ⟨fighters,there,living⟩
    refine List.mem_map.mpr ⟨(force,fighters),List.mem_filter.mpr ⟨there,?_⟩,rfl⟩
    simp only [Bool.and_eq_true,Bool.not_eq_true',decide_eq_true_eq]
    exact ⟨camped.forces _ there,(alive_stands camped there).mpr living⟩

theorem aliveForces_nodup (camped : Camped b) : b.getAliveForce.Nodup := by
  unfold getAliveForce
  refine List.pairwise_map.mpr ((camped.ordered.filter _).imp fun less same => ?_)
  rw [same] at less
  exact UInt8.lt_irrefl _ less

-- The capturing force is the one that stands alone, and 0 where there is no such force.
theorem capture_iff (camped : Camped b) (force : UInt8) (some_force : force ≠ 0) :
    b.getCaptureId = force ↔ Stands b force ∧ ∀ other, Stands b other → other = force := by
  have member := aliveForces_mem camped
  have nodup := aliveForces_nodup camped
  unfold getCaptureId
  match forces : b.getAliveForce with
  | [] =>
      rw [forces] at member
      exact iff_of_false (fun same => some_force same.symm) fun alone => absurd ((member force).mpr alone.1) List.not_mem_nil
  | [one] =>
      rw [forces] at member
      constructor
      · rintro rfl
        exact ⟨(member one).mp List.mem_cons_self,fun other stands => List.mem_singleton.mp ((member other).mpr stands)⟩
      · exact fun alone => (alone.2 one ((member one).mp List.mem_cons_self))
  | one :: two :: rest =>
      rw [forces] at member nodup
      refine iff_of_false (fun same => some_force same.symm) fun alone => ?_
      have same := (alone.2 one ((member one).mp List.mem_cons_self)).trans
        (alone.2 two ((member two).mp (List.mem_cons_of_mem _ List.mem_cons_self))).symm
      rw [same] at nodup
      exact (List.nodup_cons.mp nodup).1 List.mem_cons_self

theorem capture_set (camped : Camped b) (status : Bool) (force : UInt8) : b.setCaptureForce status = some force ↔
    status = true ∧ Stands b force ∧ ∀ other, Stands b other → other = force := by
  have some_force : Stands b force → force ≠ 0 := fun ⟨_,there,_⟩ => camped.forces _ there
  unfold setCaptureForce
  by_cases empty : b.camp2fighters.isEmpty = true
  · rw [if_pos empty]
    refine iff_of_false nofun fun alone => ?_
    obtain ⟨_,there,_⟩ := alone.2.1
    rw [List.isEmpty_iff.mp empty] at there
    cases there
  · rw [if_neg empty]
    cases status with
    | false => exact iff_of_false nofun fun alone => Bool.false_ne_true alone.1
    | true =>
        rw [if_neg (by decide)]
        constructor
        · intro set
          split at set
          · rename_i captured
            obtain rfl := Option.some.inj set
            exact ⟨rfl,(capture_iff camped _ captured).mp rfl⟩
          · cases set
        · rintro ⟨_,alone⟩
          have same := (capture_iff camped force (some_force alone.1)).mpr alone
          rw [same,if_pos (some_force alone.1)]

theorem capture_none (camped : Camped b) (single : ∀ one two, Stands b one → Stands b two → one = two) :
    b.getCaptureId = 0 ↔ ∀ force, ¬Stands b force := by
  constructor
  · intro none force stands
    have some_force : force ≠ 0 := by
      obtain ⟨_,there,_⟩ := stands
      exact camped.forces _ there
    have same := (capture_iff camped force some_force).mpr ⟨stands,fun other stands' => single other force stands' stands⟩
    exact some_force (same.symm.trans none)
  · intro nobody
    by_contra captured
    exact nobody _ ((capture_iff camped _ captured).mp rfl).1

theorem newFighter_camps (b : BattleGround) (p : Ascoord) (created : Option BattleFighter) (flag : Bool) :
    (b.newFighter p created flag).1.camp2fighters = b.camp2fighters := by
  unfold newFighter
  cases created with
  | none => rfl
  | some made =>
      dsimp only
      split
      · rfl
      · exact (setObject_rest (b.create p made) p b.next true).camps

theorem camped_upsert {camps : List (UInt8 × List Nat)} (camped : Camped b) (force : UInt8) (make : Option (List Nat) → List Nat)
    (some_force : force ≠ 0) (same : camps = upsert force make b.camp2fighters) : Camped {b with camp2fighters := camps} := by
  refine ⟨?_,fun camp member => ?_⟩
  · rw [show ({b with camp2fighters := camps} : BattleGround).camp2fighters = _ from same]
    exact upsert_ordered force make camped.ordered
  · rw [show ({b with camp2fighters := camps} : BattleGround).camp2fighters = _ from same] at member
    rcases mem_upsert member with old | rfl | ⟨v,_,rfl⟩
    · exact camped.forces camp old
    · exact some_force
    · exact some_force

theorem camped_enter (camped : Camped b) (info : FighterInfo) (some_force : info.campId ≠ 0) : Camped (b.enter info) := by
  have touched : Camped (b.touchCamp info.campId) := camped_upsert camped _ _ some_force rfl
  unfold enter
  cases info.fgt with
  | none => exact camped
  | some created =>
      have camps := newFighter_camps (b.touchCamp info.campId) ⟨info.posx,info.posy⟩ created false
      have made : Camped ((b.touchCamp info.campId).newFighter ⟨info.posx,info.posy⟩ created).1 := by
        refine ⟨?_,?_⟩
        · rw [camps]
          exact touched.ordered
        · rw [camps]
          exact touched.forces
      dsimp only
      split
      · rename_i left _ result
        rw [result] at made
        exact made
      · rename_i left bft result
        rw [result] at made
        exact camped_upsert made _ _ some_force rfl

theorem camped_preStart {infos : List FighterInfo} (camped : Camped b) (forces : ∀ info ∈ infos, info.campId ≠ 0) :
    Camped (b.preStart infos) := by
  induction infos generalizing b with
  | nil => exact camped
  | cons info rest ih =>
      exact ih (camped_enter camped info (forces info List.mem_cons_self)) fun other member => forces other (List.mem_cons_of_mem _ member)

theorem opened_camped (lobby : Lobby) : Camped lobby.opened := by
  have empty : Camped lobby.board := by
    refine ⟨?_,?_⟩
    · rw [lobby.opening.camps]
      exact List.Pairwise.nil
    · rw [lobby.opening.camps]
      exact fun _ none => absurd none List.not_mem_nil
  have camped := camped_preStart empty lobby.forces
  exact ⟨camped.ordered,camped.forces⟩

theorem camped_onward {b' : BattleGround} (onward : Onward b b') (camped : Camped b) : Camped b' := by
  refine ⟨?_,?_⟩
  · rw [onward.camps]
    exact camped.ordered
  · rw [onward.camps]
    exact camped.forces

theorem stands_onward {b' : BattleGround} (onward : Onward b b') {force : UInt8} (stands : Stands b' force) : Stands b force := by
  obtain ⟨fighters,there,f,member,alive⟩ := stands
  rw [onward.camps] at there
  exact ⟨fighters,there,f,member,onward_living onward alive⟩

end forces

-- A round as its fighters see it: in the order of the battle indices every fighter of the
-- camps that is alive when its turn comes acts once, and nobody else; the fallen are
-- left alone.
structure FairRound (plays : Nat → Outcome) (opened before : BattleGround) (turns : List BattleGround) (after : BattleGround) : Prop where
  once : (turns.map fun now => now.currentBf).Nodup
  order : (turns.map fun now => now.currentBf).Pairwise opened.before
  enlisted : ∀ now ∈ turns, now.currentBf ∈ Places.enlisted opened
  all : ∀ f ∈ Places.enlisted opened, Alive after f → f ∈ turns.map fun now => now.currentBf
  queued : opened.listFighters.Perm (Places.enlisted opened) ∧ opened.listFighters.Pairwise opened.before
  turn : ∀ f ∈ Places.enlisted opened, ∃ ahead behind early late due,
    Turn plays opened.listFighters before turns f ahead behind early late due
  living : ∀ now ∈ turns, Onward before now ∧ Alive now now.currentBf
  acts : ∀ now ∈ turns, ∃ act next, now.arenaMove (plays act) = some next ∧ Act now next ∧ Onward next after
  fallen : ∀ f, before.hp f ≤ 0 → after.fighter f = before.fighter f

-- Whatever the fights leave and whichever targets are taken, the battle comes to an
-- end after at most 101 rounds, and each of them is fair.
theorem arena_fair (lobby : Lobby) (plays : Nat → Outcome) : ∃ rounds last,
    lobby.board.arenaStart lobby.infos plays = some (rounds,last) ∧ rounds.length ≤ 101 ∧ ∀ turns ∈ rounds, ∃ before after,
      Onward lobby.opened before ∧ Onward after last ∧ before.checkIsStop = false ∧ FairRound plays lobby.opened before turns after := by
  obtain ⟨rounds,last,ran,run,few,_⟩ := loop_run plays 101 0 lobby.opened
  obtain ⟨perm,nodup,sorted⟩ := opened_queue lobby
  refine ⟨rounds,last,ran,few,fun turns member => ?_⟩
  obtain ⟨before,after,one,two,going,done⟩ := run_rounds run turns member
  refine ⟨before,after,one,two,going,done.order.nodup nodup,sorted.sublist done.order,fun now there => ?_,
    fun f there alive => done.all f (perm.mem_iff.mpr there) alive,⟨perm,sorted⟩,fun f there => done.turn nodup f (perm.mem_iff.mpr there),
    fun now there => ?_,fun now there => ?_,done.onward.fallen⟩
  · exact perm.mem_iff.mp (done.order.subset (List.mem_map_of_mem there))
  · exact ⟨(done.acts now there).1,(done.acts now there).2.1⟩
  · obtain ⟨_,_,count,next,moved,later⟩ := done.acts now there
    obtain ⟨next',moved',act⟩ := arenaMove_act now (plays count)
    rw [moved] at moved'
    cases moved'
    exact ⟨count,next,moved,act,later⟩

-- Two fighters side by side, of which the first to strike lives.
def skirmish : Lobby where
  board := {sizeX := 5,sizeY := 3,mapGround := fun _ => 1}
  opening := ⟨fun _ _ => rfl,rfl,rfl⟩
  nobody := rfl
  infos := [⟨1,2,0,some (some {side := 1,hp := 10,attackRange := 1,movePower := 5})⟩,
    ⟨2,3,0,some (some {side := 2,hp := 10,attackRange := 1,movePower := 5})⟩]
  forces := by decide

def blow (_ : Nat) : Outcome := {hpCurrent := 7}

theorem skirmish_runs : (skirmish.board.arenaStart skirmish.infos blow).map (fun run =>
    (run.1.map fun turns => turns.map fun now => now.currentBf,run.2.hp 0,run.2.hp 1,run.2.setCaptureForce true)) =
      some ([[0]],7,0,some 1) := by
  decide +kernel

-- The other is dead when its turn comes.
theorem arena_fair_skirmish : ∃ turns last, skirmish.board.arenaStart skirmish.infos blow = some ([turns],last) ∧
    (turns.map fun now => now.currentBf) = [0] ∧ ∃ before after, FairRound blow skirmish.opened before turns after := by
  obtain ⟨rounds,last,ran,_,fair⟩ := arena_fair skirmish blow
  have seen := skirmish_runs
  rw [ran] at seen
  match rounds with
  | [] => cases congrArg Prod.fst (Option.some.inj seen)
  | [turns] =>
      have acted := (List.cons.inj (congrArg Prod.fst (Option.some.inj seen))).1
      obtain ⟨before,after,_,_,_,round⟩ := fair turns List.mem_cons_self
      exact ⟨turns,last,ran,acted,before,after,round⟩
  | _ :: _ :: _ => cases (List.cons.inj (congrArg Prod.fst (Option.some.inj seen))).2

-- A battle that ends before its last round leaves one force standing at most; the city
-- goes to the force that stands alone, which has stood since the start, and to nobody
-- where no force does.
theorem arena_winner (lobby : Lobby) (plays : Nat → Outcome) : ∃ rounds last,
    lobby.board.arenaStart lobby.infos plays = some (rounds,last) ∧
    (∀ status force, last.setCaptureForce status = some force ↔ status = true ∧ Stands last force ∧
      ∀ other, Stands last other → other = force) ∧
    (∀ force, Stands last force → Stands lobby.opened force) ∧
    (rounds.length < 101 → (∀ one two, Stands last one → Stands last two → one = two) ∧
      (last.getCaptureId = 0 ↔ ∀ force, ¬Stands last force)) := by
  obtain ⟨rounds,last,ran,run,_,ended⟩ := loop_run plays 101 0 lobby.opened
  have onward := run_onward run
  have camped := camped_onward onward (opened_camped lobby)
  refine ⟨rounds,last,ran,fun status force => capture_set camped status force,fun force => stands_onward onward,fun early => ?_⟩
  have single := (stops_iff camped).mp (ended early)
  exact ⟨single,capture_none camped single⟩

theorem arena_winner_skirmish : ∃ rounds last, skirmish.board.arenaStart skirmish.infos blow = some (rounds,last) ∧
    Stands last 1 ∧ (∀ other, Stands last other → other = 1) ∧ Stands skirmish.opened 1 := by
  obtain ⟨rounds,last,ran,captured,since,_⟩ := arena_winner skirmish blow
  have seen := skirmish_runs
  rw [ran] at seen
  obtain ⟨_,stands,alone⟩ := (captured true 1).mp (congrArg (fun run => run.2.2.2) (Option.some.inj seen))
  exact ⟨rounds,last,ran,stands,alone,since 1 stands⟩

end GameServer.Battle.ArenaRuns
