import GameServer.Battle.ArenaRuns

namespace GameServer.Battle.ArenaPlaces
open Ground BattleGround Places Records Choices Rounds Roster Turns Reach ArenaRuns
open Aim (found_route mem_reverse_split)

-- Every living fighter of the camps is where its coordinates say.
def Seated (b : BattleGround) : Prop := ∀ f ∈ enlisted b, Alive b f → b.isInMap (b.cellOf f) = true ∧ b.on (b.cellOf f) = some f

-- Without a target the fighter goes all the way to the first enemy in its order of
-- rows where the route to it has two cells: the enemy is taken from the map.
def Overruns (b : BattleGround) : Prop := b.getTarget b.own.x b.own.y = some [] ∧ ∃ enemy rest path,
  b.moveGetEnemy = enemy :: rest ∧ b.findRoute b.own enemy = some path ∧ path.length = 2 ∧
  b.mapGround (enemy.x.toNat + enemy.y.toNat + b.sizeX.toNat) ≠ 0

section acts
variable {b b' : BattleGround} {p : Ascoord}

theorem living_on (alive : Alive b f) (here : b.on p = some f) : b.living p = true := by
  unfold Ground.living Ground.fighterAt
  rw [show b.mapFighters (b.index p) = some f from here]
  exact decide_eq_true alive

-- Any other walk ends where no living fighter is.
theorem walk_free (inside : b.isInMap b.own = true) (found : b.getTarget b.own.x b.own.y = some []) (free : ¬Overruns b) {m : Ascoord}
    (walked : b.getMovePosition ⟨0xFF,0xFF⟩ = some m) : m = ⟨0xFF,0xFF⟩ ∨ m = b.own ∨ (b.isInMap m = true ∧ b.living m = false) := by
  unfold Ground.getMovePosition at walked
  split at walked
  · exact .inl (Option.some.inj walked).symm
  · rename_i enemy rest enemies
    obtain ⟨path,routed,empty | ⟨apart,listed⟩⟩ := found_route b.toGround b.own enemy
    · rw [routed,empty] at walked
      exact .inl (Option.some.inj walked).symm
    · rw [routed] at walked
      have same := Option.some.inj walked
      obtain ⟨more,order,clear,_⟩ := mem_reverse_split listed
      have cells : ∀ c ∈ path.reverse, b.isInMap c = true := by
        rw [order]
        exact List.forall_mem_cons.mpr ⟨inside,fun c member => (clear c member).1⟩
      have short : ∀ next, path.reverse = [b.own,next] → b.mapGround (enemy.x.toNat + enemy.y.toNat + b.sizeX.toNat) = 0 := by
        intro next two
        have length : path.length = 2 := by
          rw [←List.length_reverse,two]
          rfl
        by_contra solid
        exact free ⟨found,enemy,rest,path,enemies,routed,length,solid⟩
      unfold moveAnalyse at same
      dsimp only at same
      have ends : ∀ (flag : Ascoord) (move : Ascoord), ({b.toGround with start := b.own,target := enemy}.getMovePos (upTo flag path.reverse) move = m) →
          m = move ∨ (b.isInMap m = true ∧ b.living m = false) := by
        intro flag move here
        rcases getMovePos_mem {b.toGround with start := b.own,target := enemy} (upTo flag path.reverse) move with stays | ⟨member,free⟩
        · exact .inl (here.symm.trans stays)
        · rw [here] at member free
          exact .inr ⟨cells m (upTo_mem member),free⟩
      split at same
      · exact .inl same.symm
      · exact .inl same.symm
      · rename_i first next two
        rw [two] at order
        cases (List.cons.inj order).1
        rw [if_pos (short next two)] at same
        rcases ends _ _ same with stays | free
        · exact .inr (.inl stays)
        · exact .inr (.inr free)
      · rcases ends _ _ same with stays | free
        · exact .inl stays
        · exact .inr (.inr free)

theorem seated_walk (seated : Seated b) (one : b.currentBf ∈ enlisted b) (alive : Alive b b.currentBf) (inside : b.isInMap p = true)
    (free : p = b.own ∨ b.living p = false) : Seated (b.walk p) := by
  obtain ⟨_,_,others,self,cells⟩ := walk_parts b p
  intro f member living
  have member : f ∈ enlisted b := member
  have here : b.isInMap b.own = true ∧ b.on b.own = some b.currentBf := seated b.currentBf one alive
  by_cases same : f = b.currentBf
  · subst same
    have cell : (b.walk p).cellOf b.currentBf = p := by
      unfold cellOf
      rw [self]
    rw [cell,cells,if_pos rfl]
    exact ⟨inside,rfl⟩
  · have stays : Alive b f := by
      unfold Alive hp at living ⊢
      rw [others f same] at living
      exact living
    have cell : (b.walk p).cellOf f = b.cellOf f := by
      unfold cellOf
      rw [others f same]
    obtain ⟨inside',there⟩ := seated f member stays
    have off : b.cellOf f ≠ b.own := by
      intro equal
      rw [equal,here.2] at there
      exact same (Option.some.inj there).symm
    have apart : b.cellOf f ≠ p := by
      intro equal
      rcases free with own | empty
      · exact off (equal.trans own)
      · rw [←equal,living_on stays there] at empty
        cases empty
    rw [cell,cells,if_neg fun equal => apart (index_inj inside' inside equal),if_neg fun equal => off (index_inj inside' here.1 equal)]
    exact ⟨inside',there⟩

theorem seated_fight {bo : Nat} {o : Outcome} (seated : Seated b) (older : ∀ f, Alive (b.fight bo o) f → Alive b f) :
    Seated (b.fight bo o) := by
  have fought := fight_parts b bo o
  intro f member alive
  rw [show enlisted (b.fight bo o) = enlisted b by unfold enlisted; rw [fought.rest.camps]] at member
  obtain ⟨inside,here⟩ := seated f member (older f alive)
  have kept := same_map fought.rest.field (b.cellOf f)
  rw [(fought.same f).1,kept.1]
  refine ⟨inside,?_⟩
  unfold on
  rw [kept.2.1,fought.cells]
  exact here

theorem walk_hp (b : BattleGround) (p : Ascoord) (f : Nat) : (b.walk p).hp f = b.hp f := by
  obtain ⟨_,_,others,self,_⟩ := walk_parts b p
  unfold hp
  by_cases same : f = b.currentBf
  · rw [same,self]
    rfl
  · rw [others f same]

theorem seated_act {o : Outcome} (seated : Seated b) (one : b.currentBf ∈ enlisted b) (alive : Alive b b.currentBf) (free : ¬Overruns b)
    (moved : b.arenaMove o = some b') : Seated b' := by
  have here : b.isInMap b.own = true ∧ b.on b.own = some b.currentBf := seated b.currentBf one alive
  obtain ⟨infos,found,offered⟩ := getTarget_offers b.toGround
  obtain ⟨after,same,act⟩ := arenaMove_act b o
  rw [moved] at same
  cases same
  unfold arenaMove at moved
  rw [found] at moved
  cases infos with
  | nil =>
      dsimp only at moved
      obtain ⟨m,walked,rfl⟩ := Option.map_eq_some_iff.mp moved
      split
      · exact seated
      · rename_i moves
        rcases walk_free here.1 found free walked with stays | own | ⟨inside,empty⟩
        · exact absurd stays moves
        · rw [own]
          exact seated_walk seated one alive here.1 (.inl rfl)
        · exact seated_walk seated one alive inside (.inr empty)
  | cons first others =>
      obtain rfl := Option.some.inj moved
      generalize chosen : (first :: others).getD o.choice first = target at act ⊢
      have member : target ∈ first :: others := chosen ▸ chosen_mem first others o.choice
      have older : ∀ f, Alive ((b.closeIn target.attack).fight target.bo o) f → Alive b f := fun f => onward_living (onward_act act alive)
      rcases closeIn_cases b target.attack with ⟨_,stays⟩ | walks
      · rw [stays] at older ⊢
        exact seated_fight seated older
      · rw [walks] at older ⊢
        have approached : Seated (b.walk target.attack) := by
          rcases (offered target member).stands with own | ⟨inside,empty⟩
          · rw [own]
            exact seated_walk seated one alive here.1 (.inl rfl)
          · exact seated_walk seated one alive inside (.inr empty)
        refine seated_fight approached fun f living => ?_
        unfold Alive
        rw [walk_hp]
        exact older f living

-- The map shows fighters of the camps only, each where its coordinates say, and the
-- coordinates of everybody are on the map.
structure Drawn (b : BattleGround) : Prop where
  shown : ∀ p f, b.isInMap p = true → b.on p = some f → f ∈ enlisted b ∧ b.cellOf f = p
  inside : ∀ f ∈ enlisted b, b.isInMap (b.cellOf f) = true

theorem walk_cell (b : BattleGround) (p : Ascoord) (f : Nat) : (b.walk p).cellOf f = if f = b.currentBf then p else b.cellOf f := by
  obtain ⟨_,_,others,self,_⟩ := walk_parts b p
  unfold cellOf
  by_cases same : f = b.currentBf
  · rw [if_pos same,same,self]
  · rw [if_neg same,others f same]

theorem drawn_walk (drawn : Drawn b) (one : b.currentBf ∈ enlisted b) (inside : b.isInMap p = true) : Drawn (b.walk p) := by
  obtain ⟨_,_,_,_,cells⟩ := walk_parts b p
  refine ⟨fun q f inMap here => ?_,fun f member => ?_⟩
  · rw [cells] at here
    rw [walk_cell]
    split at here
    · rename_i same
      cases here
      rw [if_pos rfl]
      exact ⟨one,(index_inj inMap inside same).symm⟩
    · split at here
      · cases here
      · rename_i off
        obtain ⟨member,cell⟩ := drawn.shown q f inMap here
        rw [if_neg fun same => off (by rw [←cell,same]; rfl)]
        exact ⟨member,cell⟩
  · rw [walk_cell]
    split
    · exact inside
    · exact drawn.inside f member

theorem drawn_act {o : Outcome} (drawn : Drawn b) (one : b.currentBf ∈ enlisted b) (moved : b.arenaMove o = some b') : Drawn b' := by
  have own : b.isInMap b.own = true := drawn.inside _ one
  obtain ⟨infos,found,offered⟩ := getTarget_offers b.toGround
  unfold arenaMove at moved
  rw [found] at moved
  cases infos with
  | nil =>
      obtain ⟨m,walked,rfl⟩ := Option.map_eq_some_iff.mp moved
      obtain ⟨m',walked',ends⟩ := getMovePosition_total b.toGround ⟨0xFF,0xFF⟩
      rw [walked] at walked'
      cases walked'
      split
      · exact drawn
      · rename_i moves
        exact drawn_walk drawn one ((ends own).resolve_left moves)
  | cons first others =>
      obtain rfl := Option.some.inj moved
      generalize chosen : (first :: others).getD o.choice first = target
      have member : target ∈ first :: others := chosen ▸ chosen_mem first others o.choice
      have closed : Drawn (b.closeIn target.attack) := by
        rcases closeIn_cases b target.attack with ⟨_,stays⟩ | walks
        · rw [stays]
          exact drawn
        · rw [walks]
          rcases (offered target member).stands with same | ⟨inside,_⟩
          · rw [same]
            exact drawn_walk drawn one own
          · exact drawn_walk drawn one inside
      have fought := fight_parts (b.closeIn target.attack) target.bo o
      have camps : enlisted ((b.closeIn target.attack).fight target.bo o) = enlisted (b.closeIn target.attack) := by
        unfold enlisted
        rw [fought.rest.camps]
      refine ⟨fun q f inMap here => ?_,fun f member => ?_⟩
      · have kept := same_map fought.rest.field q
        unfold on at here
        rw [kept.2.1,fought.cells] at here
        rw [kept.1] at inMap
        rw [camps,(fought.same f).1]
        exact closed.shown q f inMap here
      · rw [camps] at member
        rw [(fought.same f).1,(same_map fought.rest.field _).1]
        exact closed.inside f member

theorem first_enemy (inside : b.isInMap b.own = true) (enemies : b.moveGetEnemy = enemy :: rest) : b.isInMap enemy = true ∧ b.hasEnemy enemy = true := by
  have member : enemy ∈ b.moveGetEnemy := by
    rw [enemies]
    exact List.mem_cons_self
  have cell : ∀ j < b.sizeY.toNat, enemy ∈ ((List.range b.sizeX.toNat).map fun i => (⟨UInt8.ofNat i,UInt8.ofNat j⟩ : Ascoord)).filter b.hasEnemy →
      b.isInMap enemy = true ∧ b.hasEnemy enemy = true := by
    intro j rows there
    obtain ⟨inRow,foe⟩ := List.mem_filter.mp there
    obtain ⟨i,columns,rfl⟩ := List.mem_map.mp inRow
    have columns := List.mem_range.mp columns
    have small := b.sizeX.toNat_lt
    have small' := b.sizeY.toNat_lt
    refine ⟨?_,foe⟩
    simp only [Ground.isInMap,Bool.and_eq_true,decide_eq_true_eq,UInt8.lt_iff_toNat_lt,UInt8.toNat_ofNat']
    omega
  unfold moveGetEnemy at member
  dsimp only at member
  split at member
  · cases member
  · rcases List.mem_append.mp member with own | other
    · refine cell _ ?_ own
      simp only [Ground.isInMap,Bool.and_eq_true,decide_eq_true_eq,UInt8.lt_iff_toNat_lt] at inside
      exact inside.2
    · obtain ⟨j,rows,there⟩ := List.mem_flatMap.mp other
      exact cell j (List.mem_range.mp (List.mem_filter.mp rows).1) there

-- An overrun ends on the enemy's cell.
theorem overrun_walks (overruns : Overruns b) (inside : b.isInMap b.own = true) (living : b.living b.own = true) (o : Outcome) :
    ∃ enemy, b.isInMap enemy = true ∧ b.hasEnemy enemy = true ∧ b.arenaMove o = some (b.walk enemy) := by
  obtain ⟨found,enemy,rest,path,enemies,routed,length,solid⟩ := overruns
  obtain ⟨inside',foe⟩ := first_enemy inside enemies
  refine ⟨enemy,inside',foe,?_⟩
  have alive : b.living enemy = true := by
    obtain ⟨_,bo,here,_,alive⟩ := Aim.enemy_parts foe
    exact living_on alive here
  obtain ⟨path',routed',empty | ⟨apart,listed⟩⟩ := found_route b.toGround b.own enemy
  · rw [routed] at routed'
    cases routed'
    rw [empty] at length
    cases length
  · rw [routed] at routed'
    cases routed'
    obtain ⟨more,order,clear,_⟩ := mem_reverse_split listed
    have last : more = [enemy] := by
      have ends := listed.ends
      have two := congrArg List.length order
      rw [List.length_reverse,length,List.length_cons] at two
      match more with
      | [next] =>
          have path_two : path = [next,b.own] := by
            rw [←List.reverse_reverse path,order]
            rfl
          rw [path_two] at ends
          cases ends
          rfl
    rw [last] at order
    have taken : ∀ c ∈ path.reverse, b.living c = true := by
      rw [order]
      exact List.forall_mem_cons.mpr ⟨living,List.forall_mem_singleton.mpr alive⟩
    have stays : ∀ (flag move : Ascoord), ({b.toGround with start := b.own,target := enemy}.getMovePos (upTo flag path.reverse) move) = move := by
      intro flag move
      rcases getMovePos_mem {b.toGround with start := b.own,target := enemy} (upTo flag path.reverse) move with same | ⟨member,free⟩
      · exact same
      · exact absurd (taken _ (upTo_mem member)) (Bool.eq_false_iff.mp free)
    have walked : b.getMovePosition ⟨0xFF,0xFF⟩ = some enemy := by
      unfold Ground.getMovePosition
      rw [enemies]
      dsimp only
      rw [routed]
      refine congrArg some ?_
      unfold moveAnalyse
      rw [order]
      dsimp only
      rw [if_neg solid,←order]
      exact stays _ _
    unfold arenaMove
    rw [found]
    dsimp only
    rw [walked]
    have moves : enemy ≠ ⟨0xFF,0xFF⟩ := by
      rintro rfl
      simp only [Ground.isInMap,Bool.and_eq_true,decide_eq_true_eq,UInt8.lt_iff_toNat_lt] at inside'
      have small := b.sizeX.toNat_lt
      have wide : (0xFF : UInt8).toNat < b.sizeX.toNat := inside'.1
      rw [show (0xFF : UInt8).toNat = 255 from rfl] at wide
      omega
    exact congrArg some (if_neg moves)

-- From a ground on which everybody is seated an act unseats somebody exactly where it
-- is an overrun: the enemy is alive and nowhere.
theorem seats_iff {o : Outcome} (seated : Seated b) (drawn : Drawn b) (one : b.currentBf ∈ enlisted b) (alive : Alive b b.currentBf)
    (moved : b.arenaMove o = some b') : Seated b' ↔ ¬Overruns b := by
  refine ⟨fun kept overruns => ?_,fun free => seated_act seated one alive free moved⟩
  have here : b.isInMap b.own = true ∧ b.on b.own = some b.currentBf := seated b.currentBf one alive
  obtain ⟨enemy,inside,foe,walked⟩ := overrun_walks overruns here.1 (living_on alive here.2) o
  rw [moved] at walked
  cases walked
  obtain ⟨_,bo,there,side,living⟩ := Aim.enemy_parts foe
  have other : bo ≠ b.currentBf := by
    rintro rfl
    exact side rfl
  obtain ⟨member,cell⟩ := drawn.shown enemy bo inside there
  have stays := (kept bo member (by unfold Alive; rw [walk_hp]; exact living)).2
  rw [walk_cell,if_neg other,cell,(walk_parts b enemy).2.2.2.2,if_pos rfl] at stays
  exact other (Option.some.inj stays).symm

end acts

section runs
variable {b : BattleGround} {plays : Nat → Outcome} {I free : BattleGround → Prop}

-- What holds whoever's turn it is and is kept by every move that `free` allows.
structure Lasting (I free : BattleGround → Prop) : Prop where
  anyone : ∀ b bf, I b → I {b with currentBf := bf}
  moved : ∀ now o after, I now → now.currentBf ∈ enlisted now → Alive now now.currentBf → free now →
    now.arenaMove o = some after → I after

theorem round_lasts (lasting : Lasting I free) (queue : List Nat) (actCount : Nat) {turns : List BattleGround} {last : BattleGround}
    (holds : I b) (listed : ∀ f ∈ queue, f ∈ enlisted b) (ran : arenaRound plays queue actCount b = some (turns,last))
    (allowed : ∀ now ∈ turns, free now) :
    (∀ now ∈ turns, I now ∧ now.currentBf ∈ enlisted now ∧ Alive now now.currentBf) ∧ I last := by
  induction queue generalizing actCount b turns with
  | nil =>
      cases ran
      exact ⟨fun _ member => absurd member List.not_mem_nil,holds⟩
  | cons bf copy ih =>
      unfold arenaRound at ran
      split at ran
      · exact ih actCount holds (fun f member => listed f (List.mem_cons_of_mem _ member)) ran allowed
      · rename_i dead
        obtain ⟨after,moved,ran⟩ := Option.bind_eq_some_iff.mp ran
        obtain ⟨⟨later,end_⟩,ran,same⟩ := Option.bind_eq_some_iff.mp ran
        cases same
        have now := lasting.anyone b bf holds
        have one := listed bf List.mem_cons_self
        have alive : Alive b bf := Int.not_le.mp dead
        have kept := lasting.moved {b with currentBf := bf} _ after now one alive (allowed _ List.mem_cons_self) moved
        obtain ⟨next,same,act⟩ := arenaMove_act {b with currentBf := bf} (plays actCount)
        rw [moved] at same
        cases same
        have camps : enlisted after = enlisted b := by
          unfold enlisted
          rw [act.rest.camps]
        obtain ⟨each,ended⟩ := ih (actCount+1) kept
          (fun f member => by rw [camps]; exact listed f (List.mem_cons_of_mem _ member)) ran
          fun now member => allowed now (List.mem_cons_of_mem _ member)
        exact ⟨List.forall_mem_cons.mpr ⟨⟨now,one,alive⟩,each⟩,ended⟩

theorem loop_lasts (lasting : Lasting I free) (rounds actCount : Nat) {played : List (List BattleGround)} {last : BattleGround}
    (holds : I b) (listed : ∀ f ∈ b.listFighters, f ∈ enlisted b) (ran : arenaLoop plays rounds actCount b = some (played,last))
    (allowed : ∀ turns ∈ played, ∀ now ∈ turns, free now) :
    (∀ turns ∈ played, ∀ now ∈ turns, I now ∧ now.currentBf ∈ enlisted now ∧ Alive now now.currentBf) ∧ I last := by
  induction rounds generalizing actCount b played with
  | zero =>
      cases ran
      exact ⟨fun _ member => absurd member List.not_mem_nil,holds⟩
  | succ rounds ih =>
      unfold arenaLoop at ran
      split at ran
      · cases ran
        exact ⟨fun _ member => absurd member List.not_mem_nil,holds⟩
      · obtain ⟨⟨turns,after⟩,round,ran⟩ := Option.bind_eq_some_iff.mp ran
        obtain ⟨⟨later,end_⟩,ran,same⟩ := Option.bind_eq_some_iff.mp ran
        cases same
        obtain ⟨each,kept⟩ := round_lasts lasting b.listFighters actCount holds listed round (allowed turns List.mem_cons_self)
        obtain ⟨turns',after',same,done⟩ := round_turns plays b.listFighters actCount b
        rw [round] at same
        cases same
        have camps : enlisted after = enlisted b := by
          unfold enlisted
          rw [done.onward.camps]
        obtain ⟨others,ended⟩ := ih _ kept (by rw [done.onward.queue,camps]; exact listed) ran
          fun turns member => allowed turns (List.mem_cons_of_mem _ member)
        exact ⟨List.forall_mem_cons.mpr ⟨each,others⟩,ended⟩

theorem seated_lasting : Lasting Seated fun now => ¬Overruns now where
  anyone _ _ seated := seated
  moved _ _ _ seated one alive free moved := seated_act seated one alive free moved

theorem loop_seated (rounds actCount : Nat) {played : List (List BattleGround)} {last : BattleGround} (seated : Seated b)
    (listed : ∀ f ∈ b.listFighters, f ∈ enlisted b) (ran : arenaLoop plays rounds actCount b = some (played,last))
    (free : ∀ turns ∈ played, ∀ now ∈ turns, ¬Overruns now) : (∀ turns ∈ played, ∀ now ∈ turns, Seated now) ∧ Seated last := by
  obtain ⟨each,ended⟩ := loop_lasts seated_lasting rounds actCount seated listed ran free
  exact ⟨fun turns member now there => (each turns member now there).1,ended⟩

-- What every turn of a run begins with.
structure Drawing (now : BattleGround) : Prop where
  drawn : Drawn now
  one : now.currentBf ∈ enlisted now
  alive : Alive now now.currentBf

theorem drawn_lasting : Lasting Drawn fun _ => True where
  anyone _ _ drawn := ⟨drawn.shown,drawn.inside⟩
  moved _ _ _ drawn one _ _ moved := drawn_act drawn one moved

theorem loop_drawn (rounds actCount : Nat) {played : List (List BattleGround)} {last : BattleGround} (drawn : Drawn b)
    (listed : ∀ f ∈ b.listFighters, f ∈ enlisted b) (ran : arenaLoop plays rounds actCount b = some (played,last)) :
    ∀ turns ∈ played, ∀ now ∈ turns, Drawing now := by
  intro turns member now there
  obtain ⟨each,_⟩ := loop_lasts drawn_lasting rounds actCount drawn listed ran fun _ _ _ _ => trivial
  obtain ⟨drawn,one,alive⟩ := each turns member now there
  exact ⟨drawn,one,alive⟩

end runs

section entering
variable {b : BattleGround}

def place (info : FighterInfo) : Ascoord := ⟨info.posx,info.posy⟩

-- A fighter made anew stands on the free cell it is sent to.
structure Entered (b : BattleGround) (p : Ascoord) (b' : BattleGround) : Prop where
  field : field b' = field b
  listed : (enlisted b').Perm (b.next :: enlisted b)
  cells : ∀ q, b'.on q = if b.index q = b.index p then some b.next else b.on q
  place : b'.cellOf b.next = p
  others : ∀ f, f ≠ b.next → b'.cellOf f = b.cellOf f ∧ b'.hp f = b.hp f

theorem enter_parts {info : FighterInfo} (inside : b.isInMap (place info) = true) (free : b.on (place info) = none) :
    b.enter info = b ∨ b.enter info = b.touchCamp info.campId ∨ Entered b (place info) (b.enter info) := by
  cases made : info.fgt with
  | none =>
      refine .inl ?_
      unfold enter
      rw [made]
  | some created =>
      cases created with
      | none =>
          refine .inr (.inl ?_)
          unfold enter
          rw [made]
          rfl
      | some fighter =>
          let touched := b.touchCamp info.campId
          have landed : (touched.create (place info) fighter).setObject (place info) b.next true =
              (touched.create (place info) fighter).occupy (place info) b.next := by
            unfold setObject
            rw [if_neg (by show b.isInMap (place info) ≠ false; simp [inside]),if_neg (by simp),create_on,
              show touched.on (place info) = b.on (place info) from rfl,free]
          have entered : b.enter info =
              ((touched.create (place info) fighter).occupy (place info) b.next).pushCamp info.campId b.next := by
            unfold enter
            rw [made]
            show ((touched.create (place info) fighter).setObject (place info) b.next true).pushCamp info.campId b.next = _
            rw [landed]
          refine .inr (.inr ?_)
          rw [entered]
          refine ⟨rfl,?_,fun q => ?_,?_,fun f other => ?_⟩
          · refine (enlisted_push _ info.campId b.next).trans ?_
            rw [show enlisted ((touched.create (place info) fighter).occupy (place info) b.next) = enlisted touched from rfl,
              show enlisted touched = enlisted b from enlisted_touch b info.campId]
          · rw [pushCamp_on,occupy_on,setCell_on,create_on]
            rfl
          · rw [pushCamp_cellOf,occupy_cell]
            exact (create_self touched (place info) fighter).2
          · have same := create_other (b:=touched) (place info) fighter (f:=f) other
            rw [pushCamp_cellOf,pushCamp_hp,occupy_cell,occupy_hp]
            unfold cellOf hp
            rw [same]
            exact ⟨rfl,rfl⟩

theorem entered_seated {p : Ascoord} {b' : BattleGround} (entered : Entered b p b') (roster : Enrolled b) (inside : b.isInMap p = true)
    (free : b.on p = none) (seated : Seated b) : Seated b' := by
  intro f member alive
  rw [(same_map entered.field _).1,entered.cells]
  rcases List.mem_cons.mp (entered.listed.mem_iff.mp member) with rfl | old
  · rw [entered.place,if_pos rfl]
    exact ⟨inside,rfl⟩
  · have other : f ≠ b.next := Nat.ne_of_lt (roster.listed f old)
    unfold Alive at alive
    rw [(entered.others f other).2] at alive
    obtain ⟨inside',here⟩ := seated f old alive
    rw [(entered.others f other).1]
    refine ⟨inside',?_⟩
    rw [if_neg,here]
    intro equal
    rw [index_inj inside' inside equal,free] at here
    cases here

theorem entered_drawn {p : Ascoord} {b' : BattleGround} (entered : Entered b p b') (roster : Enrolled b) (inside : b.isInMap p = true)
    (drawn : Drawn b) : Drawn b' := by
  refine ⟨fun q f inMap here => ?_,fun f member => ?_⟩
  · rw [(same_map entered.field _).1] at inMap
    rw [entered.cells] at here
    split at here
    · rename_i same
      cases here
      exact ⟨entered.listed.mem_iff.mpr List.mem_cons_self,entered.place.trans (index_inj inMap inside same).symm⟩
    · obtain ⟨member,cell⟩ := drawn.shown q f inMap here
      refine ⟨entered.listed.mem_iff.mpr (List.mem_cons_of_mem _ member),?_⟩
      rw [(entered.others f (Nat.ne_of_lt (roster.listed f member))).1]
      exact cell
  · rw [(same_map entered.field _).1]
    rcases List.mem_cons.mp (entered.listed.mem_iff.mp member) with rfl | old
    · rw [entered.place]
      exact inside
    · rw [(entered.others f (Nat.ne_of_lt (roster.listed f old))).1]
      exact drawn.inside f old

theorem preStart_places {infos : List FighterInfo} (roster : Enrolled b) (seated : Seated b) (drawn : Drawn b)
    (inside : ∀ info ∈ infos, b.isInMap (place info) = true) (free : ∀ info ∈ infos, b.on (place info) = none)
    (apart : infos.Pairwise fun one two => place one ≠ place two) : Seated (b.preStart infos) ∧ Drawn (b.preStart infos) := by
  induction infos generalizing b with
  | nil => exact ⟨seated,drawn⟩
  | cons info rest ih =>
      obtain ⟨others,apart⟩ := List.pairwise_cons.mp apart
      have here := inside info List.mem_cons_self
      have step : Seated (b.enter info) ∧ Drawn (b.enter info) ∧ field (b.enter info) = field b ∧
          ∀ other ∈ rest, (b.enter info).on (place other) = b.on (place other) := by
        rcases enter_parts here (free info List.mem_cons_self) with same | same | entered
        · rw [same]
          exact ⟨seated,drawn,rfl,fun _ _ => rfl⟩
        · rw [same]
          have camps := enlisted_touch b info.campId
          refine ⟨fun f member => seated f (camps ▸ member),⟨fun q f inMap there => ?_,fun f member => drawn.inside f (camps ▸ member)⟩,
            rfl,fun _ _ => rfl⟩
          rw [camps]
          exact drawn.shown q f inMap there
        · refine ⟨entered_seated entered roster here (free info List.mem_cons_self) seated,entered_drawn entered roster here drawn,
            entered.field,fun other member => ?_⟩
          rw [entered.cells,if_neg]
          intro equal
          exact others other member (index_inj (inside other (List.mem_cons_of_mem _ member)) here equal).symm
      obtain ⟨seated',drawn',same,cells⟩ := step
      refine ih (roster_enter roster info) seated' drawn' (fun other member => ?_) (fun other member => ?_) apart
      · rw [(same_map same _).1]
        exact inside other (List.mem_cons_of_mem _ member)
      · rw [cells other member]
        exact free other (List.mem_cons_of_mem _ member)

end entering

-- The positions of a side: six of them, each given once.
structure Layout where
  entries : List (UInt8 × UInt16)
  once : (entries.map Prod.fst).Nodup
  six : ∀ entry ∈ entries, entry.1 < 6

inductive Opponent where
  | player (layout : Layout) (arenaLayout : List (UInt8 × UInt16))
  | member
  | robot (ground : UInt8) (fighters : List UInt16)

def Opponent.entrant : Opponent → Entrant
  | .player layout arenaLayout => .player arenaLayout layout.entries
  | .member => .member
  | .robot ground fighters => .robot ground fighters

section layouts
variable {b : BattleGround} {find : UInt16 → Option (Option BattleFighter)}

def point (index pos : UInt8) : UInt8 × UInt8 := (map2Point.getD (index-1).toNat []).getD pos.toNat (0,0)

-- The twelve points of the two sides are twelve.
theorem points_apart {pos pos' index index' : UInt8} (side : index = 1 ∨ index = 2) (side' : index' = 1 ∨ index' = 2) (six : pos < 6) (six' : pos' < 6)
    (same : point index pos = point index' pos') : index = index' ∧ pos = pos' := by
  have all : ∀ i i' : Fin 2, ∀ p p' : Fin 6, (map2Point.getD i.val []).getD p.val (0,0) = (map2Point.getD i'.val []).getD p'.val (0,0) →
      i = i' ∧ p = p' := by decide
  have here := all ⟨(index-1).toNat,by rcases side with rfl | rfl <;> decide⟩ ⟨(index'-1).toNat,by rcases side' with rfl | rfl <;> decide⟩
    ⟨pos.toNat,UInt8.lt_iff_toNat_lt.mp six⟩ ⟨pos'.toNat,UInt8.lt_iff_toNat_lt.mp six'⟩ same
  refine ⟨?_,UInt8.toNat_inj.mp (Fin.mk.inj here.2)⟩
  have sides := Fin.mk.inj here.1
  rcases side with rfl | rfl
  · rcases side' with rfl | rfl
    · rfl
    · exact absurd sides (by decide)
  · rcases side' with rfl | rfl
    · exact absurd sides (by decide)
    · rfl

-- Who a layout lets in: those of its fighters whose point is on the map.
structure Lined (b : BattleGround) (index : UInt8) (entries : List (UInt8 × UInt16)) (infos : List FighterInfo) : Prop where
  each : ∀ info ∈ infos, info.campId = index ∧ b.isInMap (place info) = true ∧
    ∃ entry ∈ entries, entry.2 ≠ 0 ∧ point index entry.1 = (info.posx,info.posy)
  apart : infos.Pairwise fun one two => place one ≠ place two

variable (b find) in
theorem enterLayout_lined {index : UInt8} (side : index = 1 ∨ index = 2) (entries : List (UInt8 × UInt16)) (once : (entries.map Prod.fst).Nodup)
    (six : ∀ entry ∈ entries, entry.1 < 6) : ∃ infos, b.enterLayout index find entries = some infos ∧ Lined b index entries infos := by
  induction entries with
  | nil => exact ⟨[],rfl,fun _ member => absurd member List.not_mem_nil,List.Pairwise.nil⟩
  | cons entry entries ih =>
      obtain ⟨pos,fighterId⟩ := entry
      obtain ⟨new,once⟩ := List.nodup_cons.mp once
      obtain ⟨infos,entered,lined⟩ := ih once fun other member => six other (List.mem_cons_of_mem _ member)
      have later : ∀ info ∈ infos, info.campId = index ∧ b.isInMap (place info) = true ∧
          ∃ entry ∈ (pos,fighterId) :: entries, entry.2 ≠ 0 ∧ point index entry.1 = (info.posx,info.posy) := by
        intro info member
        obtain ⟨camp,inside,other,there,rest⟩ := lined.each info member
        exact ⟨camp,inside,other,List.mem_cons_of_mem _ there,rest⟩
      unfold enterLayout
      by_cases nobody : fighterId = 0
      · rw [if_pos nobody]
        exact ⟨infos,entered,later,lined.apart⟩
      · rw [if_neg nobody]
        have small : pos.toNat < 6 := UInt8.lt_iff_toNat_lt.mp (six _ List.mem_cons_self)
        obtain ⟨row,rows,long⟩ : ∃ row, map2Point[(index-1).toNat]? = some row ∧ row.length = 7 := by
          rcases side with rfl | rfl
          · exact ⟨_,rfl,rfl⟩
          · exact ⟨_,rfl,rfl⟩
        have found : row[pos.toNat]? = some (point index pos) := by
          unfold point
          rw [List.getD_eq_getElem?_getD,List.getD_eq_getElem?_getD,rows,Option.getD_some,List.getElem?_eq_getElem (by omega)]
          rfl
        simp only [rows,found,entered,Option.bind_eq_bind,Option.bind_some]
        by_cases wide : b.sizeX ≤ (point index pos).1
        · rw [if_pos wide]
          exact ⟨infos,rfl,later,lined.apart⟩
        · rw [if_neg wide]
          by_cases high : b.sizeY ≤ (point index pos).2
          · rw [if_pos high]
            exact ⟨infos,rfl,later,lined.apart⟩
          · rw [if_neg high]
            refine ⟨_,rfl,List.forall_mem_cons.mpr ⟨⟨rfl,?_,(pos,fighterId),List.mem_cons_self,nobody,rfl⟩,later⟩,
              List.pairwise_cons.mpr ⟨fun info member same => ?_,lined.apart⟩⟩
            · unfold Ground.isInMap place
              simp only [Bool.and_eq_true,decide_eq_true_eq]
              exact ⟨UInt8.not_le.mp wide,UInt8.not_le.mp high⟩
            · obtain ⟨_,_,other,there,_,there'⟩ := lined.each info member
              have points : point index pos = point index other.1 := by
                rw [there']
                exact Prod.ext (congrArg Ascoord.x same) (congrArg Ascoord.y same)
              have equal := (points_apart side side (six _ List.mem_cons_self) (six other (List.mem_cons_of_mem _ there)) points).2
              rw [equal] at new
              exact new (List.mem_map_of_mem there)

-- A robot's positions are a layout's.
theorem robot_layout (known : UInt16 → Bool) (ground : UInt8) (fighters : List UInt16) :
    ((robotLayout known ground fighters).map Prod.fst).Nodup ∧ ∀ entry ∈ robotLayout known ground fighters, entry.1 < 6 := by
  have positions : ((robotLayout known ground fighters).map Prod.fst).Sublist ((List.range MAXPOS).map UInt8.ofNat) := by
    unfold robotLayout
    refine (List.Sublist.map Prod.fst List.filter_sublist).trans ?_
    have zipped : ∀ (positions : List UInt8) (fighters : List UInt16), ((positions.zip fighters).map Prod.fst).Sublist positions := by
      intro positions
      induction positions with
      | nil => exact fun _ => List.Sublist.refl _
      | cons pos positions ih =>
          intro fighters
          cases fighters with
          | nil => exact List.nil_sublist _
          | cons fighter fighters => exact (ih fighters).cons_cons pos
    exact (zipped _ _).trans (List.Sublist.map UInt8.ofNat List.filter_sublist)
  refine ⟨positions.nodup (by decide),fun entry member => ?_⟩
  have there := positions.subset (List.mem_map_of_mem member)
  have small : ((List.range MAXPOS).map UInt8.ofNat).all (fun pos => decide (pos < 6)) = true := by decide
  exact of_decide_eq_true (List.all_eq_true.mp small entry.1 there)

theorem entrant_layout (known : UInt16 → Bool) (opponent : Opponent) : entrantLayout known 2 opponent.entrant = none ∨
    ∃ entries, entrantLayout known 2 opponent.entrant = some entries ∧ (entries.map Prod.fst).Nodup ∧ ∀ entry ∈ entries, entry.1 < 6 := by
  cases opponent with
  | player layout arenaLayout => exact .inr ⟨layout.entries,rfl,layout.once,layout.six⟩
  | member => exact .inl rfl
  | robot ground fighters =>
      obtain ⟨once,six⟩ := robot_layout known ground fighters
      exact .inr ⟨_,rfl,once,six⟩

end layouts

-- An empty ground, a player's layout and what it meets.
structure Duel where
  board : BattleGround
  opening : Opening board
  nobody : board.listFighters = []
  find : UInt16 → Option (Option BattleFighter)
  attack : Layout
  spare : List (UInt8 × UInt16)
  opponent : Opponent

theorem duel_lined (duel : Duel) : ∃ infos infos',
    duel.board.autoEnterFighters 1 (.player duel.attack.entries duel.spare) duel.find = some infos ∧
    duel.board.autoEnterFighters 2 duel.opponent.entrant duel.find = some infos' ∧
    (∀ info ∈ infos ++ infos', duel.board.isInMap (place info) = true) ∧
    (infos ++ infos').Pairwise fun one two => place one ≠ place two := by
  obtain ⟨infos,entered,lined⟩ := enterLayout_lined duel.board duel.find (.inl rfl) duel.attack.entries duel.attack.once
    duel.attack.six
  have first : duel.board.autoEnterFighters 1 (.player duel.attack.entries duel.spare) duel.find = some infos := entered
  rcases entrant_layout (fun fighterId => (duel.find fighterId).isSome) duel.opponent with none | ⟨entries,laid,once,six⟩
  · refine ⟨infos,[],first,?_,?_,?_⟩
    · unfold autoEnterFighters
      rw [none]
      rfl
    · rw [List.append_nil]
      exact fun info member => (lined.each info member).2.1
    · rw [List.append_nil]
      exact lined.apart
  · obtain ⟨infos',entered',lined'⟩ := enterLayout_lined duel.board duel.find (.inr rfl) entries once six
    refine ⟨infos,infos',first,?_,fun info member => ?_,List.pairwise_append.mpr ⟨lined.apart,lined'.apart,fun one member two member' same => ?_⟩⟩
    · unfold autoEnterFighters
      rw [laid]
      exact entered'
    · rcases List.mem_append.mp member with there | there
      · exact (lined.each info there).2.1
      · exact (lined'.each info there).2.1
    · obtain ⟨_,_,entry,there,_,stands⟩ := lined.each one member
      obtain ⟨_,_,entry',there',_,stands'⟩ := lined'.each two member'
      have points : point 1 entry.1 = point 2 entry'.1 := by
        rw [stands,stands']
        exact Prod.ext (congrArg Ascoord.x same) (congrArg Ascoord.y same)
      exact absurd (points_apart (.inl rfl) (.inr rfl) (duel.attack.six entry there) (six entry' there') points).1 (by decide)

-- From two layouts on: at every turn the map shows the fighters of the camps where
-- their coordinates say; a turn that begins with every living fighter on the map leaves
-- it so exactly where it is no overrun, and a battle without one keeps them all there.
theorem arena_seats (duel : Duel) (plays : Nat → Outcome) : ∃ infos infos' rounds last,
    duel.board.autoEnterFighters 1 (.player duel.attack.entries duel.spare) duel.find = some infos ∧
    duel.board.autoEnterFighters 2 duel.opponent.entrant duel.find = some infos' ∧
    duel.board.arenaStart (infos ++ infos') plays = some (rounds,last) ∧
    (∀ turns ∈ rounds, ∀ now ∈ turns, Drawn now ∧
      (Seated now → ∀ o after, now.arenaMove o = some after → (Seated after ↔ ¬Overruns now))) ∧
    ((∀ turns ∈ rounds, ∀ now ∈ turns, ¬Overruns now) → (∀ turns ∈ rounds, ∀ now ∈ turns, Seated now) ∧ Seated last) := by
  obtain ⟨infos,infos',entered,entered',inside,apart⟩ := duel_lined duel
  have roster := roster_opening duel.opening
  have nobody : enlisted duel.board = [] := by
    unfold enlisted
    rw [duel.opening.camps]
    rfl
  have seated : Seated duel.board := fun f member => by
    rw [nobody] at member
    cases member
  have drawn : Drawn duel.board := by
    refine ⟨fun p f inMap here => ?_,fun f member => ?_⟩
    · rw [duel.opening.grid p inMap] at here
      cases here
    · rw [nobody] at member
      cases member
  obtain ⟨seated,drawn⟩ := preStart_places roster seated drawn inside (fun info member => duel.opening.grid _ (inside info member)) apart
  obtain ⟨rounds,last,ran,_⟩ := loop_run plays 101 0 (duel.board.preStart (infos ++ infos')).getAllBattleFighter
  have listed : ∀ f ∈ (duel.board.preStart (infos ++ infos')).getAllBattleFighter.listFighters, f ∈ enlisted (duel.board.preStart (infos ++ infos')) := by
    intro f member
    unfold getAllBattleFighter at member
    dsimp only at member
    rw [preStart_queue,duel.nobody,List.nil_append] at member
    exact (List.perm_insertionSort _ _).subset member
  refine ⟨infos,infos',rounds,last,entered,entered',ran,fun turns member now there => ?_,loop_seated (b:=(duel.board.preStart (infos ++ infos')).getAllBattleFighter) 101 0 seated listed ran⟩
  have drawing := loop_drawn (b:=(duel.board.preStart (infos ++ infos')).getAllBattleFighter) 101 0 ⟨drawn.shown,drawn.inside⟩ listed ran turns member now there
  exact ⟨drawing.drawn,fun seated o after moved => seats_iff seated drawing.drawn drawing.one drawing.alive moved⟩

-- The skirmish as a player's challenge to a robot of another's.
def challenge : Duel where
  board := skirmish.board
  opening := skirmish.opening
  nobody := rfl
  find fighterId := if fighterId = 1 then some (some {side := 1,hp := 10,attackRange := 1,movePower := 5})
    else if fighterId = 2 then some (some {side := 2,hp := 10,attackRange := 1,movePower := 5}) else none
  attack := ⟨[(0,1),(1,0)],by decide,by simp⟩
  spare := []
  opponent := .robot 1 [2,3]

theorem challenge_runs : ((do
    let infos ← challenge.board.autoEnterFighters 1 (.player challenge.attack.entries challenge.spare) challenge.find
    let infos' ← challenge.board.autoEnterFighters 2 challenge.opponent.entrant challenge.find
    let (rounds,_) ← challenge.board.arenaStart (infos ++ infos') blow
    return rounds.map fun turns => turns.map fun now => (now.getTarget now.own.x now.own.y).map List.isEmpty) : Option (List (List (Option Bool)))) =
      some [[some false]] := by
  decide +kernel

-- Its one turn has a target, so both stay on the map.
theorem arena_seats_challenge : ∃ infos infos' turns last,
    challenge.board.autoEnterFighters 1 (.player challenge.attack.entries challenge.spare) challenge.find = some infos ∧
    challenge.board.autoEnterFighters 2 challenge.opponent.entrant challenge.find = some infos' ∧
    challenge.board.arenaStart (infos ++ infos') blow = some ([turns],last) ∧ (∀ now ∈ turns, Drawn now ∧ Seated now) ∧ Seated last := by
  obtain ⟨infos,infos',rounds,last,entered,entered',ran,drawn,seated⟩ := arena_seats challenge blow
  have seen := challenge_runs
  simp only [entered,entered',ran,Option.bind_eq_bind,Option.bind_some,Option.pure_def,Option.some.injEq] at seen
  match rounds with
  | [] => cases seen
  | [turns] =>
      have targets : (turns.map fun now => (now.getTarget now.own.x now.own.y).map List.isEmpty) = [some false] := (List.cons.inj seen).1
      have calm : ∀ round ∈ [turns], ∀ now ∈ round, ¬Overruns now := by
        intro round member now there overruns
        rw [List.mem_singleton.mp member] at there
        have found := List.mem_map_of_mem (f:=fun now : BattleGround => (now.getTarget now.own.x now.own.y).map List.isEmpty) there
        rw [targets,overruns.1] at found
        simp at found
      obtain ⟨all,ended⟩ := seated calm
      refine ⟨infos,infos',turns,last,entered,entered',ran,fun now there => ⟨?_,?_⟩,ended⟩
      · exact (drawn turns List.mem_cons_self now there).1
      · exact all turns List.mem_cons_self now there
  | _ :: _ :: _ => cases (List.cons.inj seen).2

end GameServer.Battle.ArenaPlaces
