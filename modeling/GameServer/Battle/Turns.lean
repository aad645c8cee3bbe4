import GameServer.Battle.Roster
import GameServer.Battle.Bench

namespace GameServer.Battle.Turns
open BattleGround Places Records Rounds Choices Roster

-- Nobody waits for a cell of this index.
def Clear (b : BattleGround) (c : Ascoord) : Prop := ∀ p, queueAt p b.listBench ≠ [] → b.index p ≠ b.index c

-- A bench in order: the living fighter on its cell has its turn before those
-- who wait behind it, and they in the order they wait.
structure Leads (b : BattleGround) (queue : List Nat) (p : Ascoord) (occ : Nat) : Prop where
  here : b.on p = some occ
  cell : b.cellOf occ = p
  alive : ∀ f ∈ occ :: queueAt p b.listBench, Alive b f
  order : (occ :: queueAt p b.listBench).Sublist queue

-- A fighter that walks off makes room for who waits behind it, and goes where
-- nobody waits.
def WalkFits (b : BattleGround) (p : Ascoord) : Prop := Clear b p ∧ (Clear b b.own ∨ (p ≠ b.own ∧ Stands b))

def PlaceFits (b : BattleGround) (attack : Ascoord) : Prop := if attack = b.own then Clear b b.own else WalkFits b attack

-- A Relive comes to a free cell.
def FallFits (b : BattleGround) (bft : Nat) (fed : Bool) : Prop :=
  ∀ player, (b.fighter bft).owner = some player → fed = true → 100 ≤ b.food.getD player 0 →
    ∀ r, b.getMinNumRelive (b.fighter bft).side = some r → b.on r = none

structure StrikeFits (b : BattleGround) (target : TargetInfo) (o : Outcome) : Prop where
  place : PlaceFits b target.attack
  fallen : let after := (b.approach target.attack).fight target.bo o
    after.hp target.bo ≤ 0 → Clear after (after.cellOf target.bo)
  current : let after := (b.approach target.attack).fight target.bo o
    after.hp after.currentBf ≤ 0 → FallFits after after.currentBf o.fedCurrent
  enemy : let after := ((b.approach target.attack).fight target.bo o).currentFalls o
    after.hp target.bo ≤ 0 → FallFits (after.setCell (after.cellOf target.bo) none) target.bo o.fedTarget

def TurnFits (b : BattleGround) (o : Outcome) : Prop :=
  (b.getTarget b.own.x b.own.y = some [] → ∀ m, b.getMovePosition ⟨0xFF,0xFF⟩ = some m →
    if m = ⟨0xFF,0xFF⟩ then Clear b b.own else WalkFits b m) ∧
  ∀ first rest, b.getTarget b.own.x b.own.y = some (first :: rest) → StrikeFits b ((first :: rest).getD o.choice first) o

def TurnsFit : List Outcome → BattleGround → Prop
  | [],_ => True
  | o :: plays,b => ∀ now, b.nextTurn = some now → TurnFits now o ∧ ∀ after, now.move o = some after → TurnsFit plays after.endTurn

-- As many outcomes as the round can have turns.
def plays (b : BattleGround) (play : Nat → Outcome) : List Outcome := (List.range (work b.getAllBattleFighter)).map play

def RoundFits (b : BattleGround) (play : Nat → Outcome) : Prop := b.checkIsStop = false →
  (∀ p, queueAt p b.listBench ≠ [] → ∃ occ, Leads b b.getAllBattleFighter.listFighters p occ) ∧
    TurnsFit (plays b play) b.getAllBattleFighter

def roundStep (b : BattleGround) (play : Nat → Outcome) : Option (List BattleGround × BattleGround) :=
  b.fightOneRound (plays b play)

-- Within a round everybody has one turn at most, and nobody who waits on a bench has one.
def Fair (_ : BattleGround) (_ : Nat → Outcome) (turns : List BattleGround) (_ : BattleGround) : Prop :=
  (turns.map fun now => now.currentBf).Nodup ∧ ∀ now ∈ turns, now.currentBf ∉ benched now

instance (b : BattleGround) (f : Nat) : Decidable (Alive b f) := inferInstanceAs (Decidable (0 < b.hp f))

def Led (b : BattleGround) (queue : List Nat) (p : Ascoord) : Prop :=
  ∃ occ, Leads b queue p occ ∧ (occ :: queueAt p b.listBench).Pairwise b.before

-- Between two turns: who is queued and alive is queued once and has had no turn,
-- and every bench is in order.
structure Ready (b : BattleGround) (queue acted : List Nat) : Prop where
  roster : Enrolled b
  single : ∀ f, Alive b f → queue.count f + acted.count f ≤ 1
  made : ∀ f ∈ queue ++ acted, f < b.next
  led : ∀ p, queueAt p b.listBench ≠ [] → Led b queue p

-- In a turn: the current fighter is alive and on no bench, and the benches of the
-- other cells are in order behind it.
structure Acting (b : BattleGround) (rest acted : List Nat) : Prop where
  roster : Enrolled b
  single : ∀ f, Alive b f → rest.count f + (b.currentBf :: acted).count f ≤ 1
  made : ∀ f ∈ rest ++ b.currentBf :: acted, f < b.next
  alive : Alive b b.currentBf
  free : b.currentBf ∉ benched b
  others : ∀ p, queueAt p b.listBench ≠ [] → p ≠ b.own → Led b rest p
  behind : (∀ f ∈ queueAt b.own b.listBench, Alive b f) ∧ (queueAt b.own b.listBench).Sublist rest ∧
    (queueAt b.own b.listBench).Pairwise b.before

variable {b b' : BattleGround} {p c : Ascoord} {f occ : Nat} {queue rest acted l : List Nat}

theorem pairwise_same (same : ∀ f ∈ l, (b'.fighter f).battleIndex = (b.fighter f).battleIndex) (order : l.Pairwise b.before) :
    l.Pairwise b'.before := by
  apply order.imp_of_mem
  intro one two first second le
  unfold before
  rw [same one first,same two second]
  exact le

-- A bench nothing happens to stays in order.
theorem led_keeps (led : Led b queue p) (longer : queue.Sublist l) (queues : queueAt p b'.listBench = queueAt p b.listBench)
    (here : ∀ occ, b.on p = some occ → b.cellOf occ = p → b'.on p = some occ)
    (same : ∀ f, Alive b f → b.cellOf f = p → f < b.next → b'.cellOf f = p ∧
      (b'.fighter f).battleIndex = (b.fighter f).battleIndex ∧ Alive b' f)
    (roster : Enrolled b) (inside : b.isInMap p = true) : Led b' l p := by
  obtain ⟨occ,leads,order⟩ := led
  have cell : ∀ f ∈ occ :: queueAt p b.listBench, b.cellOf f = p ∧ f < b.next := by
    intro f member
    rcases List.mem_cons.mp member with first | waits
    · subst first
      exact ⟨leads.cell,roster.placed p f inside leads.here⟩
    · exact roster.queued p f waits
  have kept := fun f member => same f (leads.alive f member) (cell f member).1 (cell f member).2
  refine ⟨occ,⟨here occ leads.here leads.cell,(kept occ List.mem_cons_self).1,?_,?_⟩,?_⟩
  · rw [queues]
    exact fun f member => (kept f member).2.2
  · rw [queues]
    exact leads.order.trans longer
  · rw [queues]
    exact pairwise_same (fun f member => (kept f member).2.1) order

theorem clear_cell (clear : Clear b c) (waits : queueAt p b.listBench ≠ []) : p ≠ c := by
  intro same
  subst same
  exact clear p waits rfl

theorem sublist_dropWhile {dead : Nat → Bool} (part : l.Sublist queue) (living : ∀ f ∈ l, dead f = false) :
    l.Sublist (queue.dropWhile dead) := by
  induction queue with
  | nil => exact part
  | cons first rest ih =>
      rw [List.dropWhile_cons]
      split
      · rename_i fallen
        cases part with
        | cons _ later => exact ih later
        | cons_cons _ later =>
            rw [living first List.mem_cons_self] at fallen
            cases fallen
      · exact part

-- A bench in order over a queue: its second and later are in the rest of it.
theorem sublist_rest {first : Nat} (part : (occ :: l).Sublist (first :: rest)) : l.Sublist rest := by
  cases part with
  | cons _ later => exact (List.sublist_cons_self ..).trans later
  | cons_cons _ later => exact later

theorem led_cases (led : Led b (f :: rest) p) (other : b.cellOf f ≠ p) : Led b rest p := by
  obtain ⟨occ,leads,order⟩ := led
  refine ⟨occ,⟨leads.here,leads.cell,leads.alive,?_⟩,order⟩
  cases leads.order with
  | cons _ later => exact later
  | cons_cons _ _ => exact absurd leads.cell other

-- The first in the queue is on no bench: its turn would come twice.
theorem first_free (led : Led b (f :: rest) p) (single : (f :: rest).count f ≤ 1) : f ∉ queueAt p b.listBench := by
  intro waits
  obtain ⟨occ,leads,_⟩ := led
  have later := List.count_pos_iff.mpr ((sublist_rest leads.order).subset waits)
  rw [List.count_cons_self] at single
  omega

theorem turn_acting {now : BattleGround} (ready : Ready b b.listFighters acted) (turn : b.nextTurn = some now) :
    ∃ rest, now.listFighters = now.currentBf :: rest ∧ Acting now rest acted := by
  obtain ⟨f,rest,dropped,alive,rfl⟩ := nextTurn_parts turn
  have suffix : (f :: rest).Sublist b.listFighters := dropped ▸ (List.dropWhile_suffix _).sublist
  have single : ∀ g, Alive b g → (f :: rest).count g + acted.count g ≤ 1 := by
    intro g living
    have once := ready.single g living
    have less := suffix.count_le g
    omega
  have led : ∀ p, queueAt p b.listBench ≠ [] → Led b (f :: rest) p := by
    intro p waits
    obtain ⟨occ,leads,order⟩ := ready.led p waits
    refine ⟨occ,⟨leads.here,leads.cell,leads.alive,?_⟩,order⟩
    rw [← dropped]
    apply sublist_dropWhile leads.order
    intro g member
    exact decide_eq_false (Int.not_le.mpr (leads.alive g member))
  refine ⟨rest,rfl,?_⟩
  constructor
  case roster =>
    have roster := ready.roster
    exact ⟨roster.once,roster.listed,roster.queued,roster.placed,roster.points,roster.distinct⟩
  case single =>
    intro g living
    have once := single g living
    rw [List.count_cons] at once ⊢
    dsimp only at once ⊢
    omega
  case made =>
    intro g member
    apply ready.made g
    rcases List.mem_append.mp member with later | before
    · exact List.mem_append_left _ (suffix.subset (List.mem_cons_of_mem _ later))
    · rcases List.mem_cons.mp before with same | had
      · rw [same]
        exact List.mem_append_left _ (suffix.subset List.mem_cons_self)
      · exact List.mem_append_right _ had
  case alive => exact alive
  case free =>
    intro waits
    obtain ⟨p,here⟩ := mem_queue ready.roster.distinct waits
    have once := single f alive
    exact first_free (led p (List.ne_nil_of_mem here)) (by omega) here
  case others =>
    intro p waits other
    obtain ⟨occ,leads,order⟩ := led_cases (led p waits) (Ne.symm other)
    exact ⟨occ,⟨leads.here,leads.cell,leads.alive,leads.order⟩,order⟩
  case behind =>
    have own : ({b with listFighters := f :: rest,currentBf := f} : BattleGround).own = b.cellOf f := rfl
    rw [own]
    by_cases waits : queueAt (b.cellOf f) b.listBench = []
    · dsimp only
      rw [waits]
      exact ⟨fun _ none => absurd none List.not_mem_nil,List.nil_sublist _,List.Pairwise.nil⟩
    · obtain ⟨occ,leads,order⟩ := led (b.cellOf f) waits
      exact ⟨fun g member => leads.alive g (List.mem_cons_of_mem _ member),sublist_rest leads.order,(List.pairwise_cons.mp order).2⟩

-- It stays: nobody may wait behind it.
theorem acting_stays (acting : Acting b rest acted) (clear : Clear b b.own) : Ready b rest (b.currentBf :: acted) where
  roster := acting.roster
  single := acting.single
  made := acting.made
  led := fun p waits => acting.others p waits (clear_cell clear waits)

section walks

theorem leave_index (b : BattleGround) (q : Ascoord) :
    b.leave.on q = if b.index q = b.index b.own then stepsUp b else b.on q := by
  rw [leave_steps]
  cases stepsUp b with
  | none => exact setCell_on
  | some bft =>
      refine setCell_on.trans ?_
      rw [popFront_on,setCell_on]
      show (if b.index q = b.index b.own then some bft else _) = _
      split <;> rfl

theorem relocate_index (b : BattleGround) (p q : Ascoord) : (b.relocate p).on q =
    if b.index q = b.index p then some b.currentBf else if b.index q = b.index b.own then stepsUp b else b.on q := by
  have field := (leave_rest b).1.field
  have placed : (b.leave.setCell p b.currentBf).on q = if b.leave.index q = b.leave.index p then some b.currentBf else b.leave.on q :=
    setCell_on
  rw [(same_map field q).2.1,(same_map field p).2.1,leave_index] at placed
  exact placed

theorem relocate_queue (b : BattleGround) (p q : Ascoord) : queueAt q (b.relocate p).listBench =
    if q = b.own ∧ (stepsUp b).isSome then (queueAt q b.listBench).tail else queueAt q b.listBench := by
  rw [(relocate_parts b p).benches]
  by_cases up : (stepsUp b).isSome
  · rw [if_pos up,pop_queue]
    by_cases own : q = b.own
    · rw [if_pos own,if_pos ⟨own,up⟩,own]
    · rw [if_neg own,if_neg fun both => own both.1]
  · rw [if_neg up,if_neg fun both => up both.2]

theorem relocate_fighter (b : BattleGround) (p : Ascoord) (f : Nat) :
    (b.relocate p).hp f = b.hp f ∧ ((b.relocate p).fighter f).battleIndex = (b.fighter f).battleIndex := by
  have done := relocate_parts b p
  by_cases same : f = b.currentBf
  · subst same
    unfold hp
    rw [done.self]
    exact ⟨rfl,rfl⟩
  · unfold hp
    rw [done.others f same]
    exact ⟨rfl,rfl⟩

theorem relocate_own (b : BattleGround) (p : Ascoord) : (b.relocate p).own = p := by
  have done := relocate_parts b p
  show (⟨((b.relocate p).fighter (b.relocate p).currentBf).groundX,((b.relocate p).fighter (b.relocate p).currentBf).groundY⟩ : Ascoord) = p
  rw [done.rest.current,done.self]

-- Who steps up is the first that waits.
theorem stepsUp_head (roster : Enrolled b) (waits : queueAt b.own b.listBench = f :: l) : stepsUp b = some f := by
  have point := (roster.points b.own (by rw [waits]; exact List.cons_ne_nil _ _)).2
  rw [stepsUp,if_pos point,front_head,waits]
  rfl

theorem relocate_roster (acting : Acting b rest acted) (p : Ascoord) : Enrolled (b.relocate p) := by
  have done := relocate_parts b p
  have roster := acting.roster
  apply roster_moves roster done.rest.field done.rest.camps done.rest.next
  · intro q f waits
    have before := relocated_queued done waits
    have other : f ≠ b.currentBf := fun same => acting.free (same ▸ queue_mem before)
    exact ⟨before,relocated_cell done other⟩
  · intro q f inside here
    rw [relocate_index] at here
    split at here
    · cases here
      exact acting.made _ (List.mem_append_right _ List.mem_cons_self)
    · split at here
      · exact (roster.queued _ f (List.mem_of_head? (stepsUp_first here))).2
      · exact roster.placed q f inside here
  · unfold Distinct
    rw [done.benches]
    split
    · rw [pop_cells]
      exact roster.distinct
    · exact roster.distinct

-- The one that stepped up leads those still behind it.
theorem relocate_led (acting : Acting b rest acted) (fits : WalkFits b p) (waits : queueAt c (b.relocate p).listBench ≠ []) :
    Led (b.relocate p) rest c := by
  obtain ⟨toward,leaves⟩ := fits
  have done := relocate_parts b p
  obtain ⟨one,member⟩ := List.exists_mem_of_ne_nil _ waits
  have waited := List.ne_nil_of_mem (relocated_queued (relocate_parts b p) member)
  have inside := (acting.roster.points c waited).1
  by_cases own : c = b.own
  · subst own
    obtain ⟨alive,order,sorted⟩ := acting.behind
    obtain ⟨front,tail,queue⟩ := List.exists_cons_of_ne_nil waited
    have up := stepsUp_head acting.roster queue
    have after : queueAt b.own (b.relocate p).listBench = tail := by
      rw [relocate_queue,if_pos ⟨rfl,by rw [up]; rfl⟩,queue]
      rfl
    rw [queue] at alive order sorted
    have first : front ∈ queueAt b.own b.listBench := queue ▸ List.mem_cons_self
    have other : front ≠ b.currentBf := fun same => acting.free (same ▸ queue_mem first)
    refine ⟨front,⟨?_,?_,?_,?_⟩,?_⟩
    · rw [relocate_index,if_neg (toward _ waited),if_pos rfl,up]
    · rw [relocated_cell done other]
      exact (acting.roster.queued _ front first).1
    · rw [after]
      intro f inside
      unfold Alive
      rw [(relocate_fighter b p f).1]
      exact alive f inside
    · rw [after]
      exact order
    · rw [after]
      exact pairwise_same (fun f _ => (relocate_fighter b p f).2) sorted
  · have apart : b.index c ≠ b.index b.own := by
      rcases leaves with clear | ⟨_,stands⟩
      · exact clear c waited
      · exact fun same => own (Ground.index_inj inside stands.1 same)
    apply led_keeps (acting.others c waited own) (List.Sublist.refl _) _ _ _ acting.roster inside
    · rw [relocate_queue,if_neg fun both => own both.1]
    · intro occ here _
      rw [relocate_index,if_neg (toward c waited),if_neg apart]
      exact here
    · intro f alive cell _
      have other : f ≠ b.currentBf := by
        intro same
        subst same
        exact own cell.symm
      have same := relocate_fighter b p f
      refine ⟨(relocated_cell done other).trans cell,same.2,?_⟩
      unfold Alive
      rw [same.1]
      exact alive

theorem acting_walks (acting : Acting b rest acted) (fits : WalkFits b p) :
    Ready (b.relocate p) rest (b.currentBf :: acted) ∧ Clear (b.relocate p) (b.relocate p).own := by
  have done := relocate_parts b p
  refine ⟨⟨relocate_roster acting p,?_,?_,fun c waits => relocate_led acting fits waits⟩,?_⟩
  · intro f alive
    unfold Alive at alive
    rw [(relocate_fighter b p f).1] at alive
    exact acting.single f alive
  · intro f member
    rw [done.rest.next]
    exact acting.made f member
  · intro c waits
    obtain ⟨f,member⟩ := List.exists_mem_of_ne_nil _ waits
    rw [relocate_own,(same_map done.rest.field c).2.1,(same_map done.rest.field p).2.1]
    exact fits.1 c (List.ne_nil_of_mem (relocated_queued (relocate_parts b p) member))

end walks

section falls
variable {bo bft : Nat}

theorem roster_with (roster : Enrolled b) (food l : List Nat) (f : Nat) :
    Enrolled {b with food,listFighters := l,currentBf := f} :=
  ⟨roster.once,roster.listed,roster.queued,roster.placed,roster.points,roster.distinct⟩

theorem ready_with (ready : Ready b queue acted) (food l : List Nat) (f : Nat) :
    Ready {b with food,listFighters := l,currentBf := f} queue acted := by
  refine ⟨roster_with ready.roster food l f,ready.single,ready.made,?_⟩
  intro p waits
  obtain ⟨occ,leads,order⟩ := ready.led p waits
  exact ⟨occ,⟨leads.here,leads.cell,leads.alive,leads.order⟩,order⟩

-- A cell nobody waits for is cleared.
theorem ready_clear (ready : Ready b queue acted) (clear : Clear b c) : Ready (b.setCell c none) queue acted := by
  have roster := ready.roster
  refine ⟨⟨roster.once,roster.listed,roster.queued,?_,roster.points,roster.distinct⟩,ready.single,ready.made,?_⟩
  · intro q f inside here
    rw [setCell_on] at here
    split at here
    · cases here
    · exact roster.placed q f inside here
  · intro p waits
    apply led_keeps (ready.led p waits) (List.Sublist.refl _) _ _ _ roster (roster.points p waits).1
    · rfl
    · intro occ here _
      rw [setCell_on,if_neg (clear p waits)]
      exact here
    · intro f alive cell _
      exact ⟨cell,rfl,alive⟩

theorem fought_on (b : BattleGround) (bo : Nat) (q : Ascoord) : (b.fight bo o).on q = b.on q := by
  have fought := fight_parts b bo o
  unfold on
  rw [fought.cells,(same_map fought.rest.field q).2.1]

theorem fought_roster (roster : Enrolled b) (bo : Nat) : Enrolled (b.fight bo o) := by
  have fought := fight_parts b bo o
  apply roster_moves roster fought.rest.field fought.rest.camps fought.rest.next
  · intro q f waits
    rw [fought.benches] at waits
    exact ⟨waits,(fought.same f).1⟩
  · intro q f inside here
    rw [fought_on] at here
    exact roster.placed q f inside here
  · rw [fought.benches]
    exact roster.distinct

-- Whoever falls in a fight leaves no bench without its first.
theorem ready_fight (ready : Ready b queue acted) (one : Alive b b.currentBf) (two : Alive b bo) (clear : Clear b b.own)
    (fallen : (b.fight bo o).hp bo ≤ 0 → Clear (b.fight bo o) ((b.fight bo o).cellOf bo)) : Ready (b.fight bo o) queue acted := by
  have fought := fight_parts b bo o
  refine ⟨fought_roster ready.roster bo,?_,?_,?_⟩
  · intro f alive
    apply ready.single f
    by_cases first : f = b.currentBf
    · exact first ▸ one
    · by_cases second : f = bo
      · exact second ▸ two
      · unfold Alive hp at alive
        rw [fought.others f first second] at alive
        exact alive
  · intro f member
    rw [fought.rest.next]
    exact ready.made f member
  · intro p waits
    rw [fought.benches] at waits
    apply led_keeps (ready.led p waits) (List.Sublist.refl _) _ _ _ ready.roster (ready.roster.points p waits).1
    · rw [fought.benches]
    · intro occ here _
      rw [fought_on]
      exact here
    · intro f alive cell _
      refine ⟨(fought.same f).1.trans cell,(fought.same f).2,?_⟩
      by_cases first : f = b.currentBf
      · subst first
        exact absurd cell (Ne.symm (clear_cell clear waits))
      · by_cases second : f = bo
        · subst second
          by_cases dead : (b.fight f o).hp f ≤ 0
          · have away := clear_cell (fallen dead) (by rw [fought.benches]; exact waits)
            exact absurd ((fought.same f).1.trans cell) (Ne.symm away)
          · exact Int.not_le.mp dead
        · unfold Alive hp
          rw [fought.others f first second]
          exact alive

-- A Relive that comes to a free cell brings the new fighter there: nobody waits
-- for it, else somebody would lead the bench.
theorem relive_front (ready : Ready b queue acted) {r : Ascoord} (free : b.on r = none) : queueAt r b.listBench = [] := by
  cases waits : queueAt r b.listBench with
  | nil => rfl
  | cons f l =>
      obtain ⟨occ,leads,_⟩ := ready.led r (by rw [waits]; exact List.cons_ne_nil _ _)
      rw [leads.here] at free
      cases free

-- What a fall leaves of the ground.
structure Fallen (b b' : BattleGround) : Prop where
  field : field b' = field b
  next : b.next ≤ b'.next
  fighters : ∀ f, f < b.next → b'.fighter f = b.fighter f
  queues : ∀ q, queueAt q b'.listBench = queueAt q b.listBench

theorem ready_made {n : Nat} (ready : Ready b queue acted) (less : b.next ≤ n) (small : bft < n)
    (member : f ∈ (queue ++ [bft]) ++ acted) : f < n := by
  rw [List.append_assoc] at member
  rcases List.mem_append.mp member with before | later
  · exact Nat.lt_of_lt_of_le (ready.made f (List.mem_append_left _ before)) less
  · rcases List.mem_cons.mp later with same | had
    · exact same ▸ small
    · exact Nat.lt_of_lt_of_le (ready.made f (List.mem_append_right _ had)) less

-- Without a revival cell the dead one is queued again and leaves its camp.
theorem ready_remove (ready : Ready b queue acted) (campId : UInt8) (old : bft < b.next) (dead : ¬Alive b bft) :
    Ready (b.removeCamp campId bft) (queue ++ [bft]) acted := by
  refine ⟨roster_remove ready.roster campId bft,?_,fun f => ready_made ready (Nat.le_refl _) old,?_⟩
  · intro f alive
    have once := ready.single f alive
    have other : f ≠ bft := fun same => dead (same ▸ alive)
    rw [List.count_append,List.count_cons_of_ne (Ne.symm other),List.count_nil]
    exact once
  · intro p waits
    obtain ⟨occ,leads,order⟩ := ready.led p waits
    exact ⟨occ,⟨leads.here,leads.cell,leads.alive,leads.order.trans (List.sublist_append_left ..)⟩,order⟩

section revived
variable {r : Ascoord} {born : BattleFighter}

-- With nobody waiting for the revival cell the new fighter is the one on it.
theorem revived_alone (done : Revived b bft born r b' f) (nobody : queueAt r b.listBench = []) :
    b.next = f ∧ ∀ q, queueAt q b'.listBench = queueAt q b.listBench := by
  have first := done.first
  rw [nobody] at first
  refine ⟨Option.some.inj first,?_⟩
  intro q
  rw [done.queues]
  split
  · rename_i here
    rw [here,nobody]
    rfl
  · rfl

theorem revived_roster (roster : Enrolled b) (done : Revived b bft born r b' b.next) (nobody : queueAt r b.listBench = []) :
    Enrolled b' := by
  have map := same_map done.field
  have queues := (revived_alone done nobody).2
  have removed := roster_remove roster (b.fighter bft).side bft
  have perm := revived_camps done
  refine ⟨?_,?_,?_,?_,?_,done.distinct roster.distinct⟩
  · apply perm.nodup_iff.mpr
    exact List.nodup_cons.mpr ⟨fun member => Nat.lt_irrefl _ (removed.listed _ member),removed.once⟩
  · intro f member
    rw [done.next]
    rcases List.mem_cons.mp (perm.mem_iff.mp member) with same | before
    · exact same ▸ Nat.lt_succ_self _
    · exact Nat.lt_succ_of_lt (removed.listed f before)
  · intro q f waits
    rw [queues] at waits
    obtain ⟨cell,before⟩ := roster.queued q f waits
    rw [done.next,revived_cell done (Nat.ne_of_lt before)]
    exact ⟨cell,Nat.lt_succ_of_lt before⟩
  · intro q f inMap here
    rw [(map q).1] at inMap
    rw [done.cells q inMap] at here
    rw [done.next]
    split at here
    · cases here
      exact Nat.lt_succ_self _
    · split at here
      · cases here
      · exact Nat.lt_succ_of_lt (roster.placed q f inMap here)
  · intro q waits
    rw [queues] at waits
    rw [(map q).1,(map q).2.2]
    exact roster.points q waits

theorem revived_ready (ready : Ready b queue acted) (clear : Clear b (b.cellOf bft)) (done : Revived b bft born r b' b.next)
    (nobody : queueAt r b.listBench = []) : Ready b' (queue ++ [b.next]) acted := by
  have queues := (revived_alone done nobody).2
  have grown : b.next ≤ b'.next := by
    rw [done.next]
    exact Nat.le_succ _
  refine ⟨revived_roster ready.roster done nobody,?_,fun f => ready_made ready grown (by rw [done.next]; exact Nat.lt_succ_self _),?_⟩
  · intro f alive
    rw [List.count_append]
    by_cases made : f = b.next
    · subst made
      have new : b.next ∉ queue ++ acted := fun member => Nat.lt_irrefl _ (ready.made _ member)
      have none := List.count_eq_zero.mpr new
      rw [List.count_append] at none
      rw [List.count_cons_self,List.count_nil]
      omega
    · have once := ready.single f ((revived_alive done made).mp alive)
      rw [List.count_cons_of_ne (Ne.symm made),List.count_nil]
      exact once
  · intro p waits
    rw [queues] at waits
    have inMap := (ready.roster.points p waits).1
    apply led_keeps (ready.led p waits) (List.sublist_append_left ..) (queues p) _ _ ready.roster inMap
    · intro occ here _
      have apart : p ≠ r := fun same => waits (same ▸ nobody)
      rw [done.cells p inMap,if_neg apart,if_neg (clear p waits)]
      exact here
    · intro f alive cell before
      have other := Nat.ne_of_lt before
      exact ⟨(revived_cell done other).trans cell,by rw [done.others f other],(revived_alive done other).mpr alive⟩

end revived

theorem ready_relive (ready : Ready b queue acted) (clear : Clear b (b.cellOf bft)) (old : bft < b.next) (dead : ¬Alive b bft)
    (free : ∀ r, b.getMinNumRelive (b.fighter bft).side = some r → b.on r = none) (born : BattleFighter) :
    Ready (b.relive bft born).1 (queue ++ [(b.relive bft born).2]) acted ∧ Fallen b (b.relive bft born).1 := by
  cases chosen : b.getMinNumRelive (b.fighter bft).side with
  | none =>
      rw [relive_none chosen]
      exact ⟨ready_remove ready _ old dead,rfl,Nat.le_refl _,fun _ _ => rfl,fun _ => rfl⟩
  | some r =>
      have done := relive_some born chosen (free r chosen)
      have nobody := relive_front ready (free r chosen)
      generalize (b.relive bft born).1 = b' at done ⊢
      generalize (b.relive bft born).2 = front at done ⊢
      obtain ⟨same,queues⟩ := revived_alone done nobody
      subst same
      refine ⟨revived_ready ready clear done nobody,done.field,by rw [done.next]; exact Nat.le_succ _,?_,queues⟩
      intro f before
      exact done.others f (Nat.ne_of_lt before)

theorem ready_fall (ready : Ready b queue acted) (clear : Clear b (b.cellOf bft)) (old : bft < b.next) (dead : ¬Alive b bft)
    (fits : FallFits b bft fed) (born : BattleFighter) : ∃ more, (b.fall bft fed born).1.listFighters = b.listFighters ++ more ∧
      Ready (b.fall bft fed born).1 (queue ++ more) acted ∧ Fallen b (b.fall bft fed born).1 := by
  rcases fall_parts b bft fed born with same | ⟨player,paid,owned,consumed,same⟩
  · rw [same]
    refine ⟨[],(List.append_nil _).symm,?_,rfl,Nat.le_refl _,fun _ _ => rfl,fun _ => rfl⟩
    rw [List.append_nil]
    exact ready
  · unfold consumeCampaginFood at consumed
    split at consumed
    · rename_i able
      cases consumed
      have paid := ready_with ready (b.food.set player (b.food.getD player 0 - 100)) b.listFighters b.currentBf
      obtain ⟨valid,left⟩ := ready_relive paid clear old dead (fits player owned able.1 able.2) born
      have queued := (relive_queue {b with food := b.food.set player (b.food.getD player 0 - 100)} bft born).2
      rw [same]
      refine ⟨[_],congrArg (· ++ [_]) queued,?_,left.field,left.next,left.fighters,left.queues⟩
      exact ready_with valid _ _ _
    · cases consumed

end falls

section moves
variable {target : TargetInfo} {o : Outcome}

theorem fallen_refl (b : BattleGround) : Fallen b b := ⟨rfl,Nat.le_refl _,fun _ _ => rfl,fun _ => rfl⟩

theorem fallen_clear (fallen : Fallen b b') (clear : Clear b c) : Clear b' c := by
  intro p waits
  rw [fallen.queues] at waits
  rw [(same_map fallen.field p).2.1,(same_map fallen.field c).2.1]
  exact clear p waits

-- Where the fighter acts from, nobody waits.
theorem ready_approach (acting : Acting b rest acted) (attack : Ascoord) (fits : PlaceFits b attack) :
    Ready (b.approach attack) rest (b.currentBf :: acted) ∧ Clear (b.approach attack) (b.approach attack).own ∧
      (b.approach attack).currentBf = b.currentBf ∧ (b.approach attack).listFighters = b.listFighters ∧
      (b.approach attack).next = b.next ∧ ∀ f, (b.approach attack).hp f = b.hp f := by
  unfold approach PlaceFits at *
  split
  · rename_i stays
    rw [if_pos stays] at fits
    exact ⟨acting_stays acting fits,fits,rfl,rfl,rfl,fun _ => rfl⟩
  · rename_i leaves
    rw [if_neg leaves] at fits
    obtain ⟨ready,clear⟩ := acting_walks acting fits
    have done := relocate_parts b attack
    exact ⟨ready,clear,done.rest.current,done.rest.queue,done.rest.next,fun f => (relocate_fighter b attack f).1⟩

theorem ready_currentFalls (ready : Ready b queue acted) (clear : Clear b b.own) (old : b.currentBf < b.next)
    (fits : b.hp b.currentBf ≤ 0 → FallFits b b.currentBf o.fedCurrent) : ∃ more,
      (b.currentFalls o).listFighters = b.listFighters ++ more ∧ Ready (b.currentFalls o) (queue ++ more) acted ∧
        Fallen b (b.currentFalls o) := by
  unfold currentFalls
  split
  · rename_i dead
    obtain ⟨more,queued,valid,left⟩ := ready_fall ready clear old (Int.not_lt.mpr dead) (fits dead) o.bornCurrent
    exact ⟨more,queued,ready_with valid _ _ _,left.field,left.next,left.fighters,left.queues⟩
  · refine ⟨[],(List.append_nil _).symm,?_,fallen_refl b⟩
    rw [List.append_nil]
    exact ready

theorem ready_targetFalls {bo : Nat} (ready : Ready b queue acted) (old : bo < b.next) (clear : b.hp bo ≤ 0 → Clear b (b.cellOf bo))
    (fits : b.hp bo ≤ 0 → FallFits (b.setCell (b.cellOf bo) none) bo o.fedTarget) : ∃ more,
      (b.targetFalls bo o).listFighters = b.listFighters ++ more ∧ Ready (b.targetFalls bo o) (queue ++ more) acted := by
  unfold targetFalls
  split
  · rename_i dead
    have cleared := ready_clear ready (clear dead)
    obtain ⟨more,queued,valid,_⟩ := ready_fall cleared (clear dead) old (Int.not_lt.mpr dead) (fits dead) o.bornTarget
    exact ⟨more,queued,valid⟩
  · refine ⟨[],(List.append_nil _).symm,?_⟩
    rw [List.append_nil]
    exact ready

theorem ready_strike (acting : Acting b rest acted) (queued : b.listFighters = b.currentBf :: rest)
    (offered : Offered b.toGround target) (fits : StrikeFits b target o) :
    Ready (b.strike target o) (b.strike target o).listFighters.tail (b.currentBf :: acted) := by
  obtain ⟨t,inside,found⟩ := offered.found
  have living : Alive b target.bo := offered.foe.2
  have made : target.bo < b.next := acting.roster.placed t _ inside found
  have old : b.currentBf < b.next := acting.made _ (List.mem_append_right _ List.mem_cons_self)
  have alive := acting.alive
  obtain ⟨ready,clear,current,kept,next,hp⟩ := ready_approach acting target.attack fits.place
  have fallen := fits.fallen
  have fitsCurrent := fits.current
  have fitsEnemy := fits.enemy
  unfold strike
  dsimp only at fallen fitsCurrent fitsEnemy
  generalize b.approach target.attack = b1 at *
  have one : Alive b1 b1.currentBf := by
    unfold Alive
    rw [current,hp]
    exact alive
  have two : Alive b1 target.bo := by
    unfold Alive
    rw [hp]
    exact living
  have fought := fight_parts b1 target.bo o
  have ready2 := ready_fight ready one two clear fallen
  have clear2 : Clear (b1.fight target.bo o) (b1.fight target.bo o).own := by
    intro p waits
    rw [fought.benches] at waits
    have own : (b1.fight target.bo o).own = b1.own := by
      have same := (fought.same b1.currentBf).1
      unfold Ground.own Ground.current
      rw [fought.rest.current]
      exact same
    rw [own,(same_map fought.rest.field p).2.1,(same_map fought.rest.field b1.own).2.1]
    exact clear p waits
  have queue2 := fought.rest.queue
  have next2 := fought.rest.next
  have current2 := fought.rest.current
  generalize b1.fight target.bo o = b2 at *
  obtain ⟨more,queue3,ready3,left⟩ := ready_currentFalls ready2 clear2 (by omega) fitsCurrent
  generalize b2.currentFalls o = b3 at *
  have made2 : target.bo < b2.next := by omega
  have same3 := left.fighters target.bo made2
  have clear3 : b3.hp target.bo ≤ 0 → Clear b3 (b3.cellOf target.bo) := by
    intro dead
    unfold BattleGround.hp at dead fallen
    rw [same3] at dead
    have apart := fallen_clear left (fallen dead)
    unfold cellOf at apart ⊢
    rw [same3]
    exact apart
  obtain ⟨further,queue4,ready4⟩ := ready_targetFalls ready3 (Nat.lt_of_lt_of_le made2 left.next) clear3 fitsEnemy
  rw [queue4,queue3,queue2,kept,queued]
  exact ready4

-- A turn that fits leaves the benches in order.
theorem ready_move (acting : Acting b rest acted) (queued : b.listFighters = b.currentBf :: rest) (fits : TurnFits b o) :
    ∃ after, b.move o = some after ∧ Ready after after.listFighters.tail (b.currentBf :: acted) := by
  obtain ⟨infos,found,offered⟩ := getTarget_offers b.toGround
  unfold move
  rw [found]
  cases infos with
  | nil =>
      obtain ⟨m,walked,_⟩ := getMovePosition_total b.toGround ⟨0xFF,0xFF⟩
      have place := fits.1 found m walked
      dsimp only
      rw [walked]
      refine ⟨_,rfl,?_⟩
      dsimp only
      split
      · rename_i stays
        rw [if_pos stays] at place
        rw [queued]
        exact acting_stays acting place
      · rename_i leaves
        rw [if_neg leaves] at place
        rw [(relocate_parts b m).rest.queue,queued]
        exact (acting_walks acting place).1
  | cons first others =>
      have member : (first :: others).getD o.choice first ∈ first :: others := by
        rw [List.getD_eq_getElem?_getD]
        cases chosen : (first :: others)[o.choice]? with
        | none => exact List.mem_cons_self
        | some info => exact List.mem_of_getElem? chosen
      exact ⟨_,rfl,ready_strike acting queued (offered _ member) (fits.2 first others found)⟩

theorem sort_ready (ready : Ready b queue acted) (l : List Nat) (f : Nat) :
    Ready {b with listFighters := l,currentBf := f} (b.sortFighters queue) acted := by
  have perm : (b.sortFighters queue).Perm queue := List.perm_insertionSort _ _
  have kept := ready_with ready b.food l f
  refine ⟨kept.roster,?_,?_,?_⟩
  · intro g alive
    rw [perm.count_eq]
    exact ready.single g alive
  · intro g member
    apply ready.made g
    rcases List.mem_append.mp member with before | had
    · exact List.mem_append_left _ (perm.subset before)
    · exact List.mem_append_right _ had
  · intro p waits
    obtain ⟨occ,leads,order⟩ := kept.led p waits
    exact ⟨occ,⟨leads.here,leads.cell,leads.alive,List.sublist_insertionSort order leads.order⟩,order⟩

end moves

section rounds

-- The loop ends where nobody is next, or takes a turn and goes on.
theorem turnLoop_cases {outcomes : List Outcome} {turns : List BattleGround} {last : BattleGround} (looped : turnLoop outcomes b = some (turns,last)) :
    (turns = [] ∧ last = {b with listFighters := []}) ∨
      ∃ o rest now after more, outcomes = o :: rest ∧ b.nextTurn = some now ∧ now.move o = some after ∧
        turnLoop rest after.endTurn = some (more,last) ∧ turns = now :: more := by
  cases turn : b.nextTurn with
  | none =>
      left
      cases outcomes with
      | nil =>
          rw [turnLoop,turn] at looped
          cases looped
          exact ⟨rfl,rfl⟩
      | cons o rest =>
          rw [turnLoop,turn] at looped
          cases looped
          exact ⟨rfl,rfl⟩
  | some now =>
      right
      cases outcomes with
      | nil =>
          rw [turnLoop,turn] at looped
          cases looped
      | cons o rest =>
          rw [turnLoop,turn] at looped
          obtain ⟨after,moved,onward⟩ := Option.bind_eq_some_iff.mp looped
          obtain ⟨⟨more,final⟩,onward,same⟩ := Option.bind_eq_some_iff.mp onward
          cases same
          exact ⟨o,rest,now,after,more,rfl,rfl,moved,onward,rfl⟩

-- What the loop leaves: its turns are fair, and nobody has one who had one before.
theorem loop_fair (outcomes : List Outcome) {turns : List BattleGround} {last : BattleGround}
    (ready : Ready b b.listFighters acted) (fits : TurnsFit outcomes b) (looped : turnLoop outcomes b = some (turns,last)) :
    (turns.map fun now => now.currentBf).Nodup ∧ (∀ now ∈ turns, now.currentBf ∉ benched now ∧ now.currentBf ∉ acted) ∧
      Enrolled last ∧ last.listFighters = [] := by
  induction turns generalizing b acted outcomes with
  | nil =>
      obtain ⟨_,rfl⟩ | ⟨_,_,_,_,_,_,_,_,_,impossible⟩ := turnLoop_cases looped
      · exact ⟨List.nodup_nil,fun _ none => absurd none List.not_mem_nil,roster_with ready.roster b.food [] b.currentBf,rfl⟩
      · cases impossible
  | cons now more ih =>
      obtain ⟨impossible,_⟩ | ⟨o,rest,_,after,_,rfl,turn,moved,onward,same⟩ := turnLoop_cases looped
      · cases impossible
      · cases same
        obtain ⟨_,queued,acting⟩ := turn_acting ready turn
        obtain ⟨fit,later⟩ := fits now turn
        obtain ⟨_,taken,valid⟩ := ready_move acting queued fit
        cases moved.symm.trans taken
        have sorted : Ready after.endTurn after.endTurn.listFighters (now.currentBf :: acted) :=
          sort_ready valid (after.sortFighters after.listFighters.tail) after.currentBf
        obtain ⟨distinct,each,enrolled,empty⟩ := ih rest sorted (later after moved) onward
        have once := acting.single now.currentBf acting.alive
        rw [List.count_cons_self] at once
        have unacted : now.currentBf ∉ acted := fun had => by
          have some := List.count_pos_iff.mpr had
          omega
        refine ⟨?_,?_,enrolled,empty⟩
        · rw [List.map_cons]
          apply List.nodup_cons.mpr
          refine ⟨?_,distinct⟩
          intro again
          obtain ⟨turn,member,same⟩ := List.mem_map.mp again
          exact (each turn member).2 (same ▸ List.mem_cons_self)
        · intro turn member
          rcases List.mem_cons.mp member with first | behind
          · subst first
            exact ⟨acting.free,unacted⟩
          · obtain ⟨free,new⟩ := each turn behind
            exact ⟨free,fun had => new (List.mem_cons_of_mem _ had)⟩

instance (b : BattleGround) : Std.Total b.before := ⟨fun _ _ => UInt8.le_total ..⟩
instance (b : BattleGround) : IsTrans Nat b.before := ⟨fun _ _ _ => UInt8.le_trans⟩

-- The first queue of a round: everybody enlisted, in the order of the battle indices.
theorem round_ready (roster : Enrolled b) (empty : b.listFighters = [])
    (leads : ∀ p, queueAt p b.listBench ≠ [] → ∃ occ, Leads b b.getAllBattleFighter.listFighters p occ) :
    Ready b.getAllBattleFighter b.getAllBattleFighter.listFighters [] := by
  have listed : b.getAllBattleFighter.listFighters = b.sortFighters (enlisted b) := by
    unfold getAllBattleFighter
    rw [empty,List.nil_append]
    rfl
  have perm : (b.sortFighters (enlisted b)).Perm (enlisted b) := List.perm_insertionSort _ _
  have sorted : (b.sortFighters (enlisted b)).Pairwise b.before := List.pairwise_insertionSort _ _
  rw [listed] at leads ⊢
  have kept : Enrolled b.getAllBattleFighter := roster_with roster b.food b.getAllBattleFighter.listFighters b.currentBf
  refine ⟨kept,?_,?_,?_⟩
  · intro f _
    rw [perm.count_eq,List.count_nil]
    exact List.nodup_iff_count_le_one.mp roster.once f
  · intro f member
    rw [List.append_nil] at member
    exact roster.listed f (perm.subset member)
  · intro p waits
    obtain ⟨occ,lead⟩ := leads p waits
    exact ⟨occ,⟨lead.here,lead.cell,lead.alive,lead.order⟩,sorted.sublist lead.order⟩

def Between (b : BattleGround) : Prop := Enrolled b ∧ b.listFighters = []

theorem round_fair (between : Between b) (play : Nat → Outcome) (fits : RoundFits b play) :
    ∃ turns last, roundStep b play = some (turns,last) ∧ Fair b play turns last ∧ Between last := by
  obtain ⟨roster,empty⟩ := between
  unfold roundStep fightOneRound
  by_cases stop : b.checkIsStop = true
  · rw [if_pos stop]
    exact ⟨[],b,rfl,⟨List.nodup_nil,fun _ none => absurd none List.not_mem_nil⟩,roster,empty⟩
  · rw [if_neg stop]
    obtain ⟨leads,fit⟩ := fits (Bool.eq_false_iff.mpr stop)
    have ready := round_ready roster empty leads
    obtain ⟨turns,last,looped,_⟩ := turns_end b.getAllBattleFighter play
    obtain ⟨distinct,each,enrolled,ended⟩ := loop_fair (plays b play) ready fit looped
    exact ⟨turns,last,looped,⟨distinct,fun now member => (each now member).1⟩,enrolled,ended⟩

theorem enter_queue (b : BattleGround) (info : FighterInfo) : (b.enter info).listFighters = b.listFighters := by
  unfold enter
  cases info.fgt with
  | none => rfl
  | some created =>
      have queue := (newFighter_queue (b.touchCamp info.campId) ⟨info.posx,info.posy⟩ created false).2
      cases created with
      | none => rfl
      | some made => exact queue

theorem preStart_queue (b : BattleGround) (infos : List FighterInfo) : (b.preStart infos).listFighters = b.listFighters := by
  induction infos generalizing b with
  | nil => rfl
  | cons info rest ih => exact (ih (b.enter info)).trans (enter_queue b info)

theorem number_queue (b : BattleGround) (extra : List Nat) : (b.setExtraFighterActId extra).listFighters = b.listFighters := by
  induction extra generalizing b with
  | nil => rfl
  | cons bf rest ih => exact ih _

-- The ground before its first round.
def started (b : BattleGround) (infos : List FighterInfo) (extra : List Nat) : BattleGround :=
  (b.preStart infos).setExtraFighterActId extra

-- Whatever list SetExtraFighterActId comes to number, it leaves a ground to start from.
theorem started_set {b after : BattleGround} {preInfo : PreInfo} (set : (b.preStart infos).setExtraFighters preInfo = .ok after) :
    ∃ extra, after = started b infos extra := by
  unfold setExtraFighters at set
  cases mixed : (b.preStart infos).mixExtraFighterByForceId preInfo with
  | error fault =>
      rw [mixed] at set
      cases set
  | ok extra =>
      rw [mixed] at set
      cases set
      exact ⟨extra,rfl⟩

-- In every run of rounds after preStart, each round is fair as long as the benches
-- start it in order, who leaves a revival cell is followed by those behind it, and
-- a Relive finds its cell free.
theorem rounds_fair (opening : Opening b) (empty : b.listFighters = []) (infos : List FighterInfo) (extra : List Nat)
    (history : List (Nat → Outcome)) (guarded : History.Guarded roundStep RoundFits (started b infos extra) history) :
    History.Along roundStep Fair (started b infos extra) history := by
  have start : Between (started b infos extra) := by
    refine ⟨roster_number (roster_preStart (roster_opening opening) infos) extra,?_⟩
    unfold started
    rw [number_queue,preStart_queue]
    exact empty
  exact History.along_of_guarded start (fun _ play between fits => round_fair between play fits) guarded

end rounds

-- Nobody has an owner who could pay for a return.
def Wild (b : BattleGround) : Prop := ∀ f, (b.fighter f).owner = none

section wild
variable {o : Outcome}

theorem wild_update {heap : Nat → BattleFighter} {made : BattleFighter} (wild : ∀ f, (heap f).owner = none) (new : made.owner = none)
    (bf f : Nat) : (Function.update heap bf made f).owner = none := by
  by_cases same : f = bf
  · subst same
    rw [Function.update_self]
    exact new
  · rw [Function.update_of_ne same]
    exact wild f

theorem wild_enter (wild : Wild b) (info : FighterInfo) (unowned : ∀ made, info.fgt = some (some made) → made.owner = none) :
    Wild (b.enter info) := by
  unfold enter
  cases fgt : info.fgt with
  | none => exact wild
  | some created =>
      cases created with
      | none => exact wild
      | some made =>
          have fresh := unowned made fgt
          have placed : Wild ((b.touchCamp info.campId).create ⟨info.posx,info.posy⟩ made) :=
            fun f => wild_update wild (by exact fresh) b.next f
          intro f
          show ((((b.touchCamp info.campId).create ⟨info.posx,info.posy⟩ made).setObject ⟨info.posx,info.posy⟩ b.next true).fighter f).owner = none
          rcases setObject_parts ((b.touchCamp info.campId).create ⟨info.posx,info.posy⟩ made) ⟨info.posx,info.posy⟩ b.next true with
            ⟨_,same⟩ | ⟨_,_,same⟩ | ⟨_,_,same⟩
          · rw [same]
            exact placed f
          · rw [same]
            exact wild_update placed (by exact placed b.next) b.next f
          · rw [same]
            exact placed f

theorem wild_preStart {infos : List FighterInfo} (wild : Wild b)
    (unowned : ∀ info ∈ infos, ∀ made, info.fgt = some (some made) → made.owner = none) : Wild (b.preStart infos) := by
  induction infos generalizing b with
  | nil => exact wild
  | cons info rest ih =>
      apply ih (wild_enter wild info (unowned info List.mem_cons_self))
      intro other member
      exact unowned other (List.mem_cons_of_mem _ member)

theorem wild_number (wild : Wild b) (extra : List Nat) : Wild (b.setExtraFighterActId extra) := by
  induction extra generalizing b with
  | nil => exact wild
  | cons bf rest ih => exact ih fun f => wild_update wild (by exact wild bf) bf f

theorem wild_relocate (wild : Wild b) (p : Ascoord) : Wild (b.relocate p) := by
  intro f
  have done := relocate_parts b p
  by_cases same : f = b.currentBf
  · subst same
    rw [done.self]
    exact wild b.currentBf
  · rw [done.others f same]
    exact wild f

theorem wild_fight (wild : Wild b) (bo : Nat) : Wild (b.fight bo o) := by
  unfold fight
  split
  · exact wild
  · have first : Wild (b.setFighter b.currentBf {b.current with hp := o.hpCurrent}) :=
      fun f => wild_update wild (by exact wild b.currentBf) b.currentBf f
    exact fun f => wild_update first (by exact first bo) bo f

theorem wild_fall (wild : Wild b) (bft : Nat) (fed : Bool) (born : BattleFighter) : b.fall bft fed born = (b,bft) := by
  unfold fall
  rw [wild bft]

-- Without owners nobody comes back: who falls only leaves its cell.
theorem wild_currentFalls (wild : Wild b) : Wild (b.currentFalls o) ∧ (b.currentFalls o).listBench = b.listBench := by
  unfold currentFalls
  split
  · rw [wild_fall wild]
    exact ⟨wild,rfl⟩
  · exact ⟨wild,rfl⟩

theorem wild_targetFalls (wild : Wild b) (bo : Nat) :
    Wild (b.targetFalls bo o) ∧ (b.targetFalls bo o).listBench = b.listBench := by
  unfold targetFalls
  split
  · rw [wild_fall (b:=setCell _ _ _) wild]
    exact ⟨wild,rfl⟩
  · exact ⟨wild,rfl⟩

theorem wild_approach (wild : Wild b) (attack : Ascoord) : Wild (b.approach attack) := by
  unfold approach
  split
  · exact wild
  · exact wild_relocate wild attack

-- What is left of a strike then: the walk and the fight.
theorem wild_strike (wild : Wild b) (target : TargetInfo) : let after := b.strike target o
    Wild after ∧ after.listBench = (b.approach target.attack).listBench ∧
      FallFits ((b.approach target.attack).fight target.bo o) ((b.approach target.attack).fight target.bo o).currentBf o.fedCurrent ∧
      ∀ c, FallFits ((((b.approach target.attack).fight target.bo o).currentFalls o).setCell c none) target.bo o.fedTarget := by
  have fought := wild_fight (o:=o) (wild_approach wild target.attack) target.bo
  have benches := (fight_parts (b.approach target.attack) target.bo o).benches
  have current := wild_currentFalls (o:=o) fought
  have fallen := wild_targetFalls (o:=o) current.1 target.bo
  refine ⟨fallen.1,fallen.2.trans (current.2.trans benches),?_,?_⟩
  · intro player owned
    exact nomatch (fought _).symm.trans owned
  · intro c player owned
    exact nomatch (current.1 _).symm.trans owned

end wild

-- A ground where besides nobody waits.
structure Bare (b : BattleGround) : Prop where
  benches : ∀ p, queueAt p b.listBench = []
  wild : Wild b

section bare
variable {o : Outcome}

theorem bare_clear (benches : ∀ p, queueAt p b.listBench = []) (c : Ascoord) : Clear b c :=
  fun p waits => absurd (benches p) waits

theorem bare_relocate (bare : Bare b) (p : Ascoord) : Bare (b.relocate p) := by
  refine ⟨?_,wild_relocate bare.wild p⟩
  intro q
  rw [relocate_queue,bare.benches]
  split <;> rfl

theorem bare_approach (bare : Bare b) (attack : Ascoord) : Bare (b.approach attack) := by
  unfold approach
  split
  · exact bare
  · exact bare_relocate bare attack

theorem bare_walk (bare : Bare b) (p : Ascoord) : WalkFits b p := ⟨bare_clear bare.benches _,Or.inl (bare_clear bare.benches _)⟩

theorem bare_strike (bare : Bare b) (target : TargetInfo) (o : Outcome) : StrikeFits b target o := by
  obtain ⟨_,_,current,enemy⟩ := wild_strike bare.wild target (o:=o)
  refine ⟨?_,?_,fun _ => current,fun _ => enemy _⟩
  · unfold PlaceFits
    split
    · exact bare_clear bare.benches _
    · exact bare_walk bare _
  · intro after _
    apply bare_clear
    intro q
    rw [(fight_parts (b.approach target.attack) target.bo o).benches]
    exact (bare_approach bare target.attack).benches q

-- There every turn fits, and the next one finds it bare again.
theorem bare_fits (bare : Bare b) (o : Outcome) : TurnFits b o := by
  refine ⟨?_,fun first rest _ => bare_strike bare _ o⟩
  intro _ m _
  split
  · exact bare_clear bare.benches _
  · exact bare_walk bare m

theorem bare_move {after : BattleGround} (bare : Bare b) (moved : b.move o = some after) : Bare after := by
  unfold move at moved
  split at moved
  · cases moved
  · obtain ⟨m,_,result⟩ := Option.map_eq_some_iff.mp moved
    subst result
    split
    · exact bare
    · exact bare_relocate bare m
  · rename_i first rest _
    cases moved
    obtain ⟨wild,benches,_⟩ := wild_strike bare.wild ((first :: rest).getD o.choice first) (o:=o)
    refine ⟨?_,wild⟩
    intro q
    rw [benches]
    exact (bare_approach bare _).benches q

theorem bare_endTurn (bare : Bare b) : Bare b.endTurn := ⟨bare.benches,bare.wild⟩

theorem bare_turns (bare : Bare b) (outcomes : List Outcome) : TurnsFit outcomes b := by
  induction outcomes generalizing b with
  | nil => trivial
  | cons o outcomes ih =>
      intro now turn
      obtain ⟨f,rest,_,_,rfl⟩ := nextTurn_parts turn
      have same : Bare {b with listFighters := f :: rest,currentBf := f} := ⟨bare.benches,bare.wild⟩
      refine ⟨bare_fits same o,?_⟩
      intro after moved
      have left := bare_move same moved
      exact ih (bare_endTurn left)

end bare

-- One waits behind another on the revival cell, and an enemy stands beside them or
-- one cell off.
def manned (x : UInt8) : BattleGround := started lane [recruit 1 0 none,recruit 1 0 none,recruit 2 x none] [1]

def unhurt (_ : Nat) : Outcome := {hpCurrent := 5,hpTarget := 5}

theorem manned_wild (x : UInt8) : Wild (manned x) := by
  apply wild_number
  apply wild_preStart (fun _ => rfl)
  intro info member made
  simp only [List.mem_cons,List.not_mem_nil,or_false] at member
  rcases member with rfl | rfl | rfl <;> exact fun same => by cases same; rfl

theorem manned_bench {x : UInt8} (bench : (manned x).listBench = [⟨0,0,[1]⟩]) (waits : queueAt p (manned x).listBench ≠ []) : p = ⟨0,0⟩ := by
  rw [bench] at waits
  unfold queueAt getBenchInfo at waits
  by_cases here : (0 : UInt8) = p.x ∧ (0 : UInt8) = p.y
  · cases p
    obtain ⟨rfl,rfl⟩ := here
    rfl
  · rw [List.find?_cons_of_neg (by simpa using here)] at waits
    exact absurd rfl waits

-- The first turn: the fighter on the revival cell walks off to attack.
def opened : BattleGround := {(manned 2).getAllBattleFighter with listFighters := [0,2,1],currentBf := 0}

theorem opened_target : opened.getTarget opened.own.x opened.own.y = some [⟨2,⟨1,0⟩,1,1⟩] := by decide +kernel

theorem opened_fits : TurnFits opened (unhurt 0) := by
  have bench : (manned 2).listBench = [⟨0,0,[1]⟩] := by decide +kernel
  constructor
  · intro none
    rw [opened_target] at none
    cases none
  · intro first rest same
    rw [opened_target] at same
    cases same
    constructor
    case place =>
      refine ⟨?_,Or.inr ⟨by decide +kernel,by decide +kernel,by decide +kernel⟩⟩
      intro p waits
      cases manned_bench bench waits
      decide +kernel
    case fallen =>
      intro after dead
      exact absurd dead (by decide +kernel)
    case current =>
      intro after dead
      exact absurd dead (by decide +kernel)
    case enemy =>
      intro after dead
      exact absurd dead (by decide +kernel)

theorem opened_left : Bare (opened.strike ⟨2,⟨1,0⟩,1,1⟩ (unhurt 0)) := by
  have wild : Wild opened := manned_wild 2
  have left : (opened.strike ⟨2,⟨1,0⟩,1,1⟩ (unhurt 0)).listBench = [⟨0,0,[]⟩] := by decide +kernel
  refine ⟨?_,(wild_strike wild ⟨2,⟨1,0⟩,1,1⟩).1⟩
  intro p
  rw [left]
  unfold queueAt getBenchInfo
  by_cases here : (0 : UInt8) = p.x ∧ (0 : UInt8) = p.y
  · rw [List.find?_cons_of_pos (by simpa using here)]
    rfl
  · rw [List.find?_cons_of_neg (by simpa using here)]
    rfl

theorem opened_turns (outcomes : List Outcome) : TurnsFit (unhurt 0 :: outcomes) (manned 2).getAllBattleFighter := by
  intro now turn
  obtain ⟨f,rest,dropped,_,same⟩ := nextTurn_parts turn
  have queue : ((manned 2).getAllBattleFighter.listFighters.dropWhile fun bf => (manned 2).getAllBattleFighter.hp bf ≤ 0) = [0,2,1] := by
    decide +kernel
  cases queue.symm.trans dropped
  have first : now = opened := same
  subst first
  refine ⟨opened_fits,?_⟩
  intro after moved
  have struck : opened.move (unhurt 0) = some (opened.strike ⟨2,⟨1,0⟩,1,1⟩ (unhurt 0)) := by
    unfold move
    rw [opened_target]
    rfl
  have bare : Bare after := Option.some.inj (struck.symm.trans moved) ▸ opened_left
  exact bare_turns (bare_endTurn bare) outcomes

-- The second steps up before its own turn.
theorem rounds_fair_bench : History.Along roundStep Fair (manned 2) [unhurt] := by
  refine rounds_fair opening_lane rfl _ _ _ ⟨?_,fun _ _ _ => trivial⟩
  intro _
  have bench : (manned 2).listBench = [⟨0,0,[1]⟩] := by decide +kernel
  constructor
  · intro p waits
    cases manned_bench bench waits
    exact ⟨0,by decide +kernel,by decide +kernel,by decide +kernel,by decide +kernel⟩
  · have four : work (manned 2).getAllBattleFighter = 4 := by decide +kernel
    have turns : plays (manned 2) unhurt = [unhurt 0,unhurt 1,unhurt 2,unhurt 3] := by
      unfold plays
      rw [four]
      rfl
    have fit : TurnsFit (plays (manned 2) unhurt) (manned 2).getAllBattleFighter := by
      rw [turns]
      exact opened_turns _
    exact fit

-- An enemy beside the revival cell: the first attacks from where it stands, and the
-- one behind it has its turn on the bench.
theorem bench_moves : ¬∀ (b : BattleGround) (infos : List FighterInfo) (extra : List Nat) (history : List (Nat → Outcome)),
    Opening b → b.listFighters = [] → History.Along roundStep Fair (started b infos extra) history := by
  intro every
  obtain ⟨turns,last,played,⟨_,free⟩,_⟩ := every lane [recruit 1 0 none,recruit 1 0 none,recruit 2 1 none] [1] [unhurt] opening_lane rfl
  have third : (roundStep (manned 1) unhurt).map (fun r => r.1.map fun now => decide (now.currentBf ∈ benched now)) =
      some [false,false,true] := by decide +kernel
  have same : roundStep (manned 1) unhurt = some (turns,last) := played
  rw [same] at third
  have waits : (turns.map fun now => decide (now.currentBf ∈ benched now)) = [false,false,true] := Option.some.inj third
  have member : true ∈ turns.map fun now => decide (now.currentBf ∈ benched now) := by
    rw [waits]
    decide
  obtain ⟨now,inside,moves⟩ := List.mem_map.mp member
  exact free now inside (of_decide_eq_true moves)

end GameServer.Battle.Turns
