import GameServer.Battle.Rounds
import GameServer.Library.History

namespace GameServer.Battle.Records
open BattleGround Places Rounds Choices OrderedMap

def Alive (b : BattleGround) (f : Nat) : Prop := 0 < b.hp f

-- On its own cell of the grid, on no other and on no bench.
def Standing (b : BattleGround) (f : Nat) : Prop :=
  b.isInMap (b.cellOf f) = true ∧ (∀ p, b.isInMap p = true → (b.on p = some f ↔ p = b.cellOf f)) ∧ (benched b).count f = 0

-- Once on the benches and nowhere on the grid.
def Waiting (b : BattleGround) (f : Nat) : Prop :=
  (∀ p, b.isInMap p = true → b.on p ≠ some f) ∧ (benched b).count f = 1

def Recorded (b : BattleGround) (f : Nat) : Prop := Standing b f ∨ Waiting b f

def Absent (b : BattleGround) (f : Nat) : Prop :=
  (∀ p, b.isInMap p = true → b.on p ≠ some f) ∧ (benched b).count f = 0

-- The living are recorded or not in the battle at all, who waits for a cell
-- waits at its bench, and the free addresses point to nobody.
structure Sound (b : BattleGround) : Prop where
  known : ∀ f, Alive b f → Recorded b f ∨ (Absent b f ∧ f ∉ enlisted b)
  seats : ∀ p f, f ∈ queueAt p b.listBench → Alive b f → b.cellOf f = p
  fresh : ∀ f, b.next ≤ f → Absent b f ∧ f ∉ enlisted b

structure Kept (b b' : BattleGround) (f : Nat) : Prop where
  cells : ∀ p, b.isInMap p = true → (b'.on p = some f ↔ b.on p = some f)
  queue : (benched b').count f = (benched b).count f
  cell : b'.cellOf f = b.cellOf f
  camp : f ∈ enlisted b' → f ∈ enlisted b

-- What one operation does to those who were there before it.
structure Carries (b b' : BattleGround) : Prop where
  field : field b' = field b
  next : b.next ≤ b'.next
  older : ∀ f, f < b.next → Alive b' f → Alive b f
  keeps : ∀ f, f < b.next → Alive b' f → Recorded b f → Recorded b' f

section steps
variable {b b' : BattleGround} {f : Nat}

theorem absent_kept (same : field b' = field b) (kept : Kept b b' f) (absent : Absent b f) : Absent b' f := by
  refine ⟨?_,kept.queue.trans absent.2⟩
  intro p inside
  rw [(same_map same p).1] at inside
  exact fun here => absent.1 p inside ((kept.cells p inside).mp here)

theorem recorded_kept (same : field b' = field b) (kept : Kept b b' f) (recorded : Recorded b f) : Recorded b' f := by
  rcases recorded with ⟨inside,cells,count⟩ | ⟨nowhere,count⟩
  · refine .inl ⟨?_,?_,kept.queue.trans count⟩
    · rw [kept.cell,(same_map same _).1]; exact inside
    · intro p inMap
      rw [(same_map same p).1] at inMap
      rw [kept.cells p inMap,kept.cell]
      exact cells p inMap
  · refine .inr ⟨?_,kept.queue.trans count⟩
    intro p inMap
    rw [(same_map same p).1] at inMap
    exact fun here => nowhere p inMap ((kept.cells p inMap).mp here)

-- An operation is sound when every fighter alive afterwards is where it was, is
-- recorded anew, or is a new one that is not in the battle yet.
theorem sound_step (sound : Sound b) (same : field b' = field b) (grows : b.next ≤ b'.next)
    (older : ∀ f, f < b.next → Alive b' f → Alive b f)
    (each : ∀ f, Alive b' f → Kept b b' f ∨ Recorded b' f ∨ (b.next ≤ f ∧ Absent b' f ∧ f ∉ enlisted b'))
    (seats : ∀ p f, f ∈ queueAt p b'.listBench → Alive b' f → b'.cellOf f = p)
    (fresh : ∀ f, b'.next ≤ f → Kept b b' f) : Sound b' ∧ Carries b b' := by
  have unknown : ∀ f, Kept b b' f → Absent b f ∧ f ∉ enlisted b → Absent b' f ∧ f ∉ enlisted b' :=
    fun f kept ⟨absent,out⟩ => ⟨absent_kept same kept absent,fun listed => out (kept.camp listed)⟩
  refine ⟨⟨?_,seats,fun f free => unknown f (fresh f free) (sound.fresh f (Nat.le_trans grows free))⟩,same,grows,older,?_⟩
  · intro f alive
    rcases each f alive with kept | recorded | ⟨_,absent⟩
    · by_cases old : f < b.next
      · rcases sound.known f (older f old alive) with recorded | absent
        · exact .inl (recorded_kept same kept recorded)
        · exact .inr (unknown f kept absent)
      · exact .inr (unknown f kept (sound.fresh f (by omega)))
    · exact .inl recorded
    · exact .inr absent
  · intro f old alive recorded
    rcases each f alive with kept | recorded | ⟨new,_⟩
    · exact recorded_kept same kept recorded
    · exact recorded
    · omega

theorem carries_refl (b : BattleGround) : Carries b b :=
  ⟨rfl,Nat.le_refl _,fun _ _ alive => alive,fun _ _ _ recorded => recorded⟩

theorem carries_trans {c : BattleGround} (first : Carries b b') (second : Carries b' c) : Carries b c := by
  refine ⟨second.field.trans first.field,Nat.le_trans first.next second.next,?_,?_⟩
  · exact fun f old alive => first.older f old (second.older f (Nat.lt_of_lt_of_le old first.next) alive)
  · intro f old alive recorded
    have later := Nat.lt_of_lt_of_le old first.next
    exact second.keeps f later alive (first.keeps f old (second.older f later alive) recorded)

theorem old_of_found (sound : Sound b) (inside : b.isInMap p = true) (here : b.on p = some f) : f < b.next := by
  by_cases old : f < b.next
  · exact old
  · exact absurd here ((sound.fresh f (by omega)).1.1 p inside)

theorem standing_of_found (sound : Sound b) (inside : b.isInMap p = true) (here : b.on p = some f) (alive : Alive b f) :
    Standing b f := by
  rcases sound.known f alive with (standing | waiting) | absent
  · exact standing
  · exact absurd here (waiting.1 p inside)
  · exact absurd here (absent.1.1 p inside)

theorem not_queued (none : (benched b).count f = 0) : f ∉ queueAt p b.listBench := by
  intro waits
  have some := List.count_pos_iff.mpr (queue_mem waits)
  unfold benched at none
  exact absurd none (Nat.ne_of_gt some)

theorem waiting_of_queued (sound : Sound b) (queued : f ∈ queueAt p b.listBench) (alive : Alive b f) : Waiting b f := by
  rcases sound.known f alive with (standing | waiting) | absent
  · exact absurd queued (not_queued standing.2.2)
  · exact waiting
  · exact absurd queued (not_queued absent.1.2)

theorem not_living {p q : Ascoord} (clear : b.living p = false) (same : b.index q = b.index p) (here : b.on q = some f) :
    ¬Alive b f := by
  intro alive
  have found : b.mapFighters (b.index p) = some f := by rw [←same]; exact here
  simp only [Ground.living,Ground.fighterAt,found,Option.map_some,decide_eq_false_iff_not] at clear
  exact clear alive

end steps

section operations
variable {b : BattleGround} {f : Nat}

theorem create_sound (sound : Sound b) (p : Ascoord) (made : BattleFighter) :
    Sound (b.create p made) ∧ Carries b (b.create p made) := by
  have others : ∀ f, f ≠ b.next → Kept b (b.create p made) f := by
    intro f other
    refine ⟨fun _ _ => Iff.rfl,rfl,?_,id⟩
    unfold cellOf
    rw [create_other p made other]
  have same : ∀ f, f ≠ b.next → (Alive (b.create p made) f ↔ Alive b f) := by
    intro f other
    unfold Alive hp
    rw [create_other p made other]
  obtain ⟨absent,out⟩ := sound.fresh b.next (Nat.le_refl _)
  refine sound_step sound rfl (Nat.le_succ _) ?_ ?_ ?_ ?_
  · exact fun f old alive => (same f (Nat.ne_of_lt old)).mp alive
  · intro f alive
    by_cases new : f = b.next
    · subst new
      exact .inr (.inr ⟨Nat.le_refl _,absent,out⟩)
    · exact .inl (others f new)
  · intro q f queued alive
    have old : f ≠ b.next := by
      intro new
      rw [new] at queued
      exact not_queued absent.2 queued
    rw [(others f old).cell]
    exact sound.seats q f queued ((same f old).mp alive)
  · intro f free
    exact others f (Nat.ne_of_gt free)

-- Putting a fighter that is nowhere yet on its own cell, or on its bench.
theorem occupy_sound (sound : Sound b) (inside : b.isInMap p = true) (free : b.on p = none) (old : bf < b.next)
    (new : Alive b bf → Absent b bf ∧ b.cellOf bf = p) : Sound (b.occupy p bf) ∧ Carries b (b.occupy p bf) := by
  have alive : ∀ f, Alive (b.occupy p bf) f ↔ Alive b f := by
    intro f; unfold Alive; rw [occupy_hp]
  have cells : ∀ q, b.isInMap q = true → (b.occupy p bf).on q = if q = p then some bf else b.on q := by
    intro q inMap
    rw [occupy_on,setCell_on_map inside inMap]
  have others : ∀ f, f ≠ bf → Kept b (b.occupy p bf) f := by
    intro f other
    refine ⟨?_,rfl,occupy_cell b p bf f,id⟩
    intro q inMap
    rw [cells q inMap]
    split
    · rename_i here
      rw [here,free]
      exact ⟨fun same => absurd (Option.some.inj same).symm other,nofun⟩
    · exact Iff.rfl
  refine sound_step sound (occupy_field b) (Nat.le_refl _) (fun f _ => (alive f).mp) ?_ ?_ ?_
  · intro f living
    by_cases here : f = bf
    · subst here
      obtain ⟨absent,cell⟩ := new ((alive f).mp living)
      refine .inr (.inl (.inl ⟨?_,?_,absent.2⟩))
      · rw [occupy_cell,cell,(same_map (occupy_field b) p).1]; exact inside
      · intro q inMap
        rw [(same_map (occupy_field b) q).1] at inMap
        rw [cells q inMap,occupy_cell,cell]
        split
        · rename_i same; exact ⟨fun _ => same,fun _ => rfl⟩
        · rename_i apart; exact ⟨fun found => absurd found (absent.1 q inMap),fun same => absurd same apart⟩
    · exact .inl (others f here)
  · intro q f queued living
    rw [occupy_cell]
    exact sound.seats q f queued ((alive f).mp living)
  · exact fun f free => others f (by rintro rfl; exact absurd free (Nat.not_le_of_lt old))

theorem insert_sound (sound : Sound b) (old : bf < b.next) (new : Alive b bf → Absent b bf ∧ b.cellOf bf = p) :
    Sound (b.insertFighter p bf) ∧ Carries b (b.insertFighter p bf) := by
  have counts : ∀ f, (benched (b.insertFighter p bf)).count f = (bf :: benched b).count f :=
    fun f => (insert_perm p bf b.listBench).count_eq f
  have others : ∀ f, f ≠ bf → Kept b (b.insertFighter p bf) f := by
    intro f other
    refine ⟨fun _ _ => Iff.rfl,?_,rfl,id⟩
    rw [counts f,List.count_cons_of_ne (Ne.symm other)]
  refine sound_step sound rfl (Nat.le_refl _) (fun _ _ alive => alive) ?_ ?_ ?_
  · intro f alive
    by_cases here : f = bf
    · subst here
      obtain ⟨absent,_⟩ := new alive
      refine .inr (.inl (.inr ⟨absent.1,?_⟩))
      rw [counts f,List.count_cons_self,absent.2]
    · exact .inl (others f here)
  · intro q f queued alive
    change f ∈ queueAt q (insertBench p bf b.listBench) at queued
    rw [insert_queue] at queued
    split at queued
    · rename_i here
      subst here
      rcases List.mem_append.mp queued with before | last
      · exact sound.seats q f before alive
      · rw [List.mem_singleton.mp last] at alive ⊢
        exact (new alive).2
    · exact sound.seats q f queued alive
  · exact fun f free => others f (by rintro rfl; exact absurd free (Nat.not_le_of_lt old))

theorem setObject_sound (sound : Sound b)
    (allowed : Lands b p bf flag → bf < b.next ∧ (Alive b bf → Absent b bf ∧ b.cellOf bf = p)) :
    Sound (b.setObject p bf flag) ∧ Carries b (b.setObject p bf flag) := by
  rcases setObject_parts b p bf flag with ⟨_,same⟩ | ⟨lands,free,same⟩ | ⟨lands,_,same⟩
  · rw [same]; exact ⟨sound,carries_refl b⟩
  · rw [same]; exact occupy_sound sound lands.1 free (allowed lands).1 (allowed lands).2
  · rw [same]; exact insert_sound sound (allowed lands).1 (allowed lands).2

theorem newFighter_sound (sound : Sound b) (p : Ascoord) (created : Option BattleFighter) (flag : Bool) :
    Sound (b.newFighter p created flag).1 ∧ Carries b (b.newFighter p created flag).1 := by
  unfold newFighter
  cases created with
  | none => exact ⟨sound,carries_refl b⟩
  | some made =>
      obtain ⟨valid,carried⟩ := create_sound sound p made
      dsimp only
      split
      · exact ⟨valid,carried⟩
      · obtain ⟨valid',carried'⟩ := @setObject_sound _ _ b.next true valid
          (fun _ => ⟨Nat.lt_succ_self _,fun _ => ⟨(sound.fresh b.next (Nat.le_refl _)).1,(create_self b p made).2⟩⟩)
        exact ⟨valid',carries_trans carried carried'⟩

theorem camps_sound (sound : Sound b) (camps : List (UInt8 × List Nat))
    (enlists : ∀ f, f ∈ enlisted {b with camp2fighters := camps} → f ∈ enlisted b ∨ (f < b.next ∧ (Alive b f → Recorded b f))) :
    Sound {b with camp2fighters := camps} ∧ Carries b {b with camp2fighters := camps} := by
  refine ⟨⟨?_,sound.seats,?_⟩,rfl,Nat.le_refl _,fun _ _ alive => alive,fun _ _ _ recorded => recorded⟩
  · intro f alive
    rcases sound.known f alive with recorded | ⟨absent,out⟩
    · exact .inl recorded
    · by_cases listed : f ∈ enlisted {b with camp2fighters := camps}
      · exact (enlists f listed).elim (fun was => absurd was out) (fun new => .inl (new.2 alive))
      · exact .inr ⟨absent,listed⟩
  · intro f free
    refine ⟨(sound.fresh f free).1,?_⟩
    intro listed
    rcases enlists f listed with was | new
    · exact (sound.fresh f free).2 was
    · exact absurd free (Nat.not_le_of_lt new.1)

-- The cells a Relive will touch: the revival cell is free, and nobody alive
-- stands where the fallen one lies.
def ReliveGuard (b : BattleGround) (bft : Nat) : Prop :=
  ∀ r, b.getMinNumRelive (b.fighter bft).side = some r → b.on r = none ∧ b.living (b.cellOf bft) = false

section revived
variable {b' : BattleGround} {bft front : Nat} {born : BattleFighter} {q r : Ascoord}

theorem revived_alive (done : Revived b bft born r b' front) (other : f ≠ b.next) : Alive b' f ↔ Alive b f := by
  unfold Alive hp
  rw [done.others f other]

theorem revived_cell (done : Revived b bft born r b' front) (other : f ≠ b.next) : b'.cellOf f = b.cellOf f := by
  unfold cellOf
  rw [done.others f other]

-- The front is the new fighter, or waited for this very cell.
theorem front_waited (done : Revived b bft born r b' front) (other : front ≠ b.next) : front ∈ queueAt r b.listBench := by
  have first := done.first
  cases queue : queueAt r b.listBench with
  | nil =>
      rw [queue] at first
      exact absurd (Option.some.inj first).symm other
  | cons head rest =>
      rw [queue] at first
      rw [←Option.some.inj first]
      exact List.mem_cons_self

theorem revived_camps (done : Revived b bft born r b' front) :
    (enlisted b').Perm (front :: enlisted (b.removeCamp (b.fighter bft).side bft)) := by
  have pushed := enlisted_push (b.removeCamp (b.fighter bft).side bft) (b.fighter bft).side front
  unfold enlisted at pushed ⊢
  rw [done.camps]
  exact pushed

theorem revived_camp (done : Revived b bft born r b' front) (behind : f ≠ front) (listed : f ∈ enlisted b') : f ∈ enlisted b := by
  rcases List.mem_cons.mp ((revived_camps done).mem_iff.mp listed) with is | was
  · exact absurd is behind
  · exact (enlisted_remove b _ bft).subset was

theorem revived_kept (sound : Sound b) (done : Revived b bft born r b' front) (free : b.on r = none)
    (clear : b.living (b.cellOf bft) = false) (other : f ≠ b.next) (behind : f ≠ front) (here : Alive b f ∨ b.next < f) :
    Kept b b' f := by
  refine ⟨?_,?_,revived_cell done other,revived_camp done behind⟩
  · intro q inMap
    rw [done.cells q inMap]
    split
    · rename_i atR
      rw [atR,free]
      exact ⟨fun found => absurd (Option.some.inj found).symm behind,nofun⟩
    · split
      · rename_i cleared
        refine ⟨nofun,?_⟩
        intro found
        rcases here with alive | new
        · exact absurd alive (not_living clear cleared found)
        · exact absurd found ((sound.fresh f (Nat.le_of_lt new)).1.1 q inMap)
      · exact Iff.rfl
  · have count := done.benched.count_eq f
    rw [List.count_cons_of_ne (Ne.symm other),List.count_cons_of_ne (Ne.symm behind)] at count
    exact count.symm

theorem revived_front (sound : Sound b) (done : Revived b bft born r b' front) (inside : b.isInMap r = true)
    (alive : Alive b' front) : Standing b' front := by
  have came : b'.cellOf front = r ∧ (∀ q, b.isInMap q = true → b.on q ≠ some front) ∧ (benched b').count front = 0 := by
    have count := done.benched.count_eq front
    rw [List.count_cons_self] at count
    by_cases new : front = b.next
    · subst new
      obtain ⟨absent,_⟩ := sound.fresh b.next (Nat.le_refl _)
      rw [List.count_cons_self,absent.2] at count
      exact ⟨done.cell,absent.1,by omega⟩
    · have living := (revived_alive done new).mp alive
      have waiting := waiting_of_queued sound (front_waited done new) living
      rw [List.count_cons_of_ne (Ne.symm new),waiting.2] at count
      exact ⟨(revived_cell done new).trans (sound.seats r front (front_waited done new) living),waiting.1,by omega⟩
  obtain ⟨home,nowhere,count⟩ := came
  refine ⟨by rw [home,(same_map done.field r).1]; exact inside,?_,count⟩
  intro q inMap
  rw [(same_map done.field q).1] at inMap
  rw [done.cells q inMap,home]
  split
  · rename_i atR
    exact ⟨fun _ => atR,fun _ => rfl⟩
  · rename_i apart
    split
    · exact ⟨nofun,fun atR => absurd atR apart⟩
    · exact ⟨fun found => absurd found (nowhere q inMap),fun atR => absurd atR apart⟩

theorem revived_new (sound : Sound b) (done : Revived b bft born r b' front) (behind : b.next ≠ front) : Waiting b' b.next := by
  obtain ⟨absent,_⟩ := sound.fresh b.next (Nat.le_refl _)
  constructor
  · intro q inMap
    rw [(same_map done.field q).1] at inMap
    rw [done.cells q inMap]
    split
    · exact fun found => behind (Option.some.inj found).symm
    · split
      · exact nofun
      · exact absent.1 q inMap
  · have count := done.benched.count_eq b.next
    rw [List.count_cons_self,absent.2,List.count_cons_of_ne (Ne.symm behind)] at count
    omega

theorem revived_seats (sound : Sound b) (done : Revived b bft born r b' front) (queued : f ∈ queueAt q b'.listBench)
    (alive : Alive b' f) : b'.cellOf f = q := by
  have seat : f ∈ queueAt q b.listBench ∨ (f = b.next ∧ q = r) := by
    rw [done.queues q] at queued
    split at queued
    · rename_i atR
      rcases List.mem_append.mp (List.mem_of_mem_tail queued) with before | last
      · exact .inl (by rw [atR]; exact before)
      · exact .inr ⟨List.mem_singleton.mp last,atR⟩
    · exact .inl queued
  by_cases new : f = b.next
  · subst new
    rcases seat with before | ⟨_,atR⟩
    · exact absurd before (not_queued (sound.fresh b.next (Nat.le_refl _)).1.2)
    · rw [done.cell,atR]
  · rw [revived_cell done new]
    rcases seat with before | ⟨is,_⟩
    · exact sound.seats q f before ((revived_alive done new).mp alive)
    · exact absurd is new

end revived

theorem relive_sound (sound : Sound b) (guard : ReliveGuard b bft) (born : BattleFighter) :
    Sound (b.relive bft born).1 ∧ Carries b (b.relive bft born).1 := by
  cases chosen : b.getMinNumRelive (b.fighter bft).side with
  | none =>
      rw [relive_none chosen]
      exact camps_sound sound _ fun f listed => .inl ((enlisted_remove b _ bft).subset listed)
  | some r =>
      obtain ⟨free,clear⟩ := guard r chosen
      obtain ⟨inside,_⟩ := relive_point chosen
      have done := relive_some born chosen free
      generalize (b.relive bft born).1 = b' at done ⊢
      generalize (b.relive bft born).2 = front at done
      refine sound_step sound done.field (by rw [done.next]; exact Nat.le_succ _)
        (fun f old => (revived_alive done (Nat.ne_of_lt old)).mp) ?_ (fun q f => revived_seats sound done) ?_
      · intro f alive
        by_cases head : f = front
        · subst head
          exact .inr (.inl (.inl (revived_front sound done inside alive)))
        by_cases new : f = b.next
        · subst new
          exact .inr (.inl (.inr (revived_new sound done head)))
        · exact .inl (revived_kept sound done free clear new head (.inl ((revived_alive done new).mp alive)))
      · intro f unused
        rw [done.next] at unused
        have behind : f ≠ front := by
          intro same
          subst same
          exact not_queued (sound.fresh f (by omega)).1.2 (front_waited done (by omega))
        exact revived_kept sound done free clear (by omega) behind (.inr (by omega))

-- The current fighter stands where it says it is.
def Stands (b : BattleGround) : Prop := b.isInMap b.own = true ∧ b.on b.own = some b.currentBf

section relocated
variable {b' : BattleGround} {p q : Ascoord} {w : Nat}

theorem relocated_alive (done : Relocated b p b') (f : Nat) : Alive b' f ↔ Alive b f := by
  unfold Alive hp
  by_cases here : f = b.currentBf
  · rw [here,done.self]
    rfl
  · rw [done.others f here]

theorem relocated_cell (done : Relocated b p b') (other : f ≠ b.currentBf) : b'.cellOf f = b.cellOf f := by
  unfold cellOf
  rw [done.others f other]

theorem relocated_home (done : Relocated b p b') : b'.cellOf b.currentBf = p := by
  unfold cellOf
  rw [done.self]

-- Who steps up waited for the cell that is left.
theorem stepsUp_first (steps : stepsUp b = some w) : (queueAt b.own b.listBench).head? = some w := by
  unfold stepsUp at steps
  split at steps
  · rw [front_head] at steps
    exact steps
  · cases steps

theorem relocated_benched (done : Relocated b p b') (steps : stepsUp b = some w) : (benched b).Perm (w :: benched b') := by
  unfold benched
  rw [done.benches,steps]
  exact pop_perm (stepsUp_first steps)

theorem relocated_count (done : Relocated b p b') (other : stepsUp b ≠ some f) : (benched b').count f = (benched b).count f := by
  cases steps : stepsUp b with
  | none =>
      unfold benched
      rw [done.benches,steps]
      rfl
  | some w =>
      rw [(relocated_benched done steps).count_eq f,List.count_cons_of_ne]
      intro same
      exact other (same ▸ steps)

theorem relocated_kept (sound : Sound b) (stands : Stands b) (done : Relocated b p b') (inside : b.isInMap p = true)
    (leaves : p ≠ b.own → b.living p = false) (other : f ≠ b.currentBf) (behind : stepsUp b ≠ some f)
    (here : Alive b f ∨ b.next ≤ f) : Kept b b' f := by
  obtain ⟨inOwn,atOwn⟩ := stands
  refine ⟨?_,relocated_count done behind,relocated_cell done other,?_⟩
  · intro q inMap
    rw [done.cells inOwn inside q inMap]
    split
    · rename_i atP
      refine ⟨fun found => absurd (Option.some.inj found).symm other,?_⟩
      intro found
      by_cases own : p = b.own
      · rw [atP,own,atOwn] at found
        exact absurd (Option.some.inj found).symm other
      · rcases here with alive | free
        · exact absurd alive (not_living (leaves own) (by rw [atP]) found)
        · exact absurd found ((sound.fresh f free).1.1 q inMap)
    · split
      · rename_i atOwn'
        rw [atOwn',atOwn]
        exact ⟨fun found => absurd found behind,fun found => absurd (Option.some.inj found).symm other⟩
      · exact Iff.rfl
  · unfold enlisted
    rw [done.rest.camps]
    exact id

theorem relocated_current (sound : Sound b) (stands : Stands b) (done : Relocated b p b') (inside : b.isInMap p = true)
    (alive : Alive b b.currentBf) : Standing b' b.currentBf := by
  obtain ⟨inOwn,atOwn⟩ := stands
  have home := relocated_home done
  have standing := standing_of_found sound inOwn atOwn alive
  have apart : stepsUp b ≠ some b.currentBf := by
    intro steps
    exact not_queued standing.2.2 (List.mem_of_head? (stepsUp_first steps))
  refine ⟨by rw [home,(same_map done.rest.field p).1]; exact inside,?_,(relocated_count done apart).trans standing.2.2⟩
  intro q inMap
  rw [(same_map done.rest.field q).1] at inMap
  rw [done.cells inOwn inside q inMap,home]
  split
  · rename_i atP
    exact ⟨fun _ => atP,fun _ => rfl⟩
  · rename_i away
    refine ⟨?_,fun atP => absurd atP away⟩
    intro found
    split at found
    · exact absurd found apart
    · rename_i gone
      exact absurd ((standing.2.1 q inMap).mp found) gone

theorem relocated_front (sound : Sound b) (stands : Stands b) (done : Relocated b p b') (inside : b.isInMap p = true)
    (away : p ≠ b.own) (other : f ≠ b.currentBf) (steps : stepsUp b = some f) (alive : Alive b f) : Standing b' f := by
  obtain ⟨inOwn,_⟩ := stands
  have queued := List.mem_of_head? (stepsUp_first steps)
  have waiting := waiting_of_queued sound queued alive
  have home : b'.cellOf f = b.own := (relocated_cell done other).trans (sound.seats _ f queued alive)
  have count := (relocated_benched done steps).count_eq f
  rw [waiting.2,List.count_cons_self] at count
  refine ⟨by rw [home,(same_map done.rest.field _).1]; exact inOwn,?_,by omega⟩
  intro q inMap
  rw [(same_map done.rest.field q).1] at inMap
  rw [done.cells inOwn inside q inMap,home]
  split
  · rename_i atP
    exact ⟨fun found => absurd (Option.some.inj found).symm other,fun own => absurd (atP.symm.trans own) away⟩
  · split
    · rename_i own
      exact ⟨fun _ => own,fun _ => steps⟩
    · rename_i gone
      exact ⟨fun found => absurd found (waiting.1 q inMap),fun own => absurd own gone⟩

theorem relocated_queued (done : Relocated b p b') (queued : f ∈ queueAt q b'.listBench) : f ∈ queueAt q b.listBench := by
  rw [done.benches] at queued
  split at queued
  · rw [pop_queue] at queued
    split at queued
    · rename_i own
      rw [own]
      exact List.mem_of_mem_tail queued
    · exact queued
  · exact queued

end relocated

theorem relocate_sound (sound : Sound b) (stands : Stands b) (inside : b.isInMap p = true)
    (stays : p = b.own → stepsUp b = none) (leaves : p ≠ b.own → b.living p = false) :
    Sound (b.relocate p) ∧ Carries b (b.relocate p) := by
  obtain ⟨inOwn,atOwn⟩ := stands
  have done := relocate_parts b p
  generalize b.relocate p = b' at done ⊢
  refine sound_step sound done.rest.field (Nat.le_of_eq done.rest.next.symm) (fun f _ => (relocated_alive done f).mp) ?_ ?_ ?_
  · intro f alive
    have living := (relocated_alive done f).mp alive
    by_cases here : f = b.currentBf
    · subst here
      exact .inr (.inl (.inl (relocated_current sound ⟨inOwn,atOwn⟩ done inside living)))
    by_cases steps : stepsUp b = some f
    · have away : p ≠ b.own := by
        intro own
        rw [stays own] at steps
        cases steps
      exact .inr (.inl (.inl (relocated_front sound ⟨inOwn,atOwn⟩ done inside away here steps living)))
    · exact .inl (relocated_kept sound ⟨inOwn,atOwn⟩ done inside leaves here steps (.inl living))
  · intro q f queued alive
    have living := (relocated_alive done f).mp alive
    have before := relocated_queued done queued
    have other : f ≠ b.currentBf := by
      intro same
      subst same
      exact absurd atOwn ((waiting_of_queued sound before living).1 _ inOwn)
    rw [relocated_cell done other]
    exact sound.seats q f before living
  · intro f free
    rw [done.rest.next] at free
    refine relocated_kept sound ⟨inOwn,atOwn⟩ done inside leaves ?_ ?_ (.inr free)
    · intro same
      exact absurd (old_of_found sound inOwn atOwn) (Nat.not_lt_of_le (same ▸ free))
    · intro steps
      exact not_queued (sound.fresh f free).1.2 (List.mem_of_head? (stepsUp_first steps))

theorem fight_sound (sound : Sound b) (one : Alive b b.currentBf) (two : Alive b bo) (o : Outcome) :
    Sound (b.fight bo o) ∧ Carries b (b.fight bo o) := by
  have done := fight_parts b bo o
  generalize b.fight bo o = b' at done ⊢
  have kept : ∀ f, Kept b b' f := by
    intro f
    refine ⟨fun p _ => ?_,by unfold benched; rw [done.benches],(done.same f).1,by unfold enlisted; rw [done.rest.camps]; exact id⟩
    unfold on
    rw [done.cells,(same_map done.rest.field p).2.1]
  have older : ∀ f, Alive b' f → Alive b f := by
    intro f alive
    by_cases first : f = b.currentBf
    · rw [first]; exact one
    · by_cases second : f = bo
      · rw [second]; exact two
      · unfold Alive hp at alive ⊢
        rwa [done.others f first second] at alive
  refine sound_step sound done.rest.field (Nat.le_of_eq done.rest.next.symm) (fun f _ => older f) ?_ ?_ (fun f _ => kept f)
  · exact fun f _ => .inl (kept f)
  · intro p f queued alive
    rw [done.benches] at queued
    rw [(done.same f).1]
    exact sound.seats p f queued (older f alive)

theorem clear_sound (sound : Sound b) (clear : b.living p = false) :
    Sound (b.setCell p none) ∧ Carries b (b.setCell p none) := by
  have kept : ∀ f, Alive b f ∨ b.next ≤ f → Kept b (b.setCell p none) f := by
    intro f here
    refine ⟨?_,rfl,rfl,id⟩
    intro q inMap
    rw [setCell_on]
    split
    · rename_i atP
      refine ⟨nofun,fun found => ?_⟩
      rcases here with alive | free
      · exact absurd alive (not_living clear atP found)
      · exact absurd found ((sound.fresh f free).1.1 q inMap)
    · exact Iff.rfl
  exact sound_step sound rfl (Nat.le_refl _) (fun _ _ alive => alive) (fun f alive => .inl (kept f (.inl alive)))
    sound.seats (fun f free => kept f (.inr free))

end operations

-- A fallen fighter whose owner pays meets Relive.
def FallGuard (b : BattleGround) (bft : Nat) (fed : Bool) : Prop :=
  ∀ player, (b.fighter bft).owner = some player → fed = true → 100 ≤ b.food.getD player 0 → ReliveGuard b bft

-- A fighter that walks stands on its cell, nobody waits behind it if it goes
-- nowhere, and nobody alive is on the cell it goes to.
def WalkGuard (b : BattleGround) (p : Ascoord) : Prop :=
  Stands b ∧ (p = b.own → stepsUp b = none) ∧ (p ≠ b.own → b.living p = false)

-- A fighter that leaves its cell to attack stands on it, and both of the fight
-- fall where a Relive can take them.
structure StrikeGuard (b : BattleGround) (target : TargetInfo) (o : Outcome) : Prop where
  stands : target.attack ≠ b.own → Stands b
  current : let after := (b.approach target.attack).fight target.bo o
    after.hp after.currentBf ≤ 0 → FallGuard after after.currentBf o.fedCurrent
  enemy : let after := ((b.approach target.attack).fight target.bo o).currentFalls o
    after.hp target.bo ≤ 0 → FallGuard (after.setCell (after.cellOf target.bo) none) target.bo o.fedTarget

def MoveGuard (b : BattleGround) (o : Outcome) : Prop :=
  Alive b b.currentBf ∧
  (b.getTarget b.own.x b.own.y = some [] → ∀ m, b.getMovePosition ⟨0xFF,0xFF⟩ = some m → m ≠ ⟨0xFF,0xFF⟩ → WalkGuard b m) ∧
  ∀ first rest, b.getTarget b.own.x b.own.y = some (first :: rest) → StrikeGuard b ((first :: rest).getD o.choice first) o

section moves
variable {b : BattleGround} {f : Nat}

-- Nothing, or a Relive on a ground with less food and the queue one longer.
theorem fall_relives (guard : FallGuard b bft fed) (born : BattleFighter) : b.fall bft fed born = (b,bft) ∨
    ∃ food, ReliveGuard {b with food} bft ∧ b.fall bft fed born =
      ({(relive {b with food} bft born).1 with
        listFighters := (relive {b with food} bft born).1.listFighters ++ [(relive {b with food} bft born).2]},
        (relive {b with food} bft born).2) := by
  rcases fall_parts b bft fed born with same | ⟨player,paid,owned,consumed,same⟩
  · exact .inl same
  · unfold consumeCampaginFood at consumed
    split at consumed
    · rename_i able
      cases consumed
      exact .inr ⟨b.food.set player (b.food.getD player 0 - 100),guard player owned able.1 able.2,same⟩
    · cases consumed

theorem fall_sound (sound : Sound b) (guard : FallGuard b bft fed) (born : BattleFighter) :
    Sound (b.fall bft fed born).1 ∧ Carries b (b.fall bft fed born).1 := by
  rcases fall_relives guard born with same | ⟨food,allowed,same⟩
  · rw [same]; exact ⟨sound,carries_refl b⟩
  · obtain ⟨valid,carried⟩ := relive_sound (b:={b with food}) ⟨sound.known,sound.seats,sound.fresh⟩ allowed born
    rw [same]
    exact ⟨⟨valid.known,valid.seats,valid.fresh⟩,carried.field,carried.next,carried.older,carried.keeps⟩

-- A Relive leaves a taken cell as it is or clears it, and nobody's place in
-- memory changes.
theorem relive_others (guard : ReliveGuard b bft) (born : BattleFighter) (old : f < b.next) (inside : b.isInMap p = true)
    (taken : b.on p = some f) : ((b.relive bft born).1.on p = some f ∨ (b.relive bft born).1.on p = none) ∧
      (b.relive bft born).1.fighter f = b.fighter f := by
  cases chosen : b.getMinNumRelive (b.fighter bft).side with
  | none => rw [relive_none chosen]; exact ⟨.inl taken,rfl⟩
  | some r =>
      obtain ⟨free,_⟩ := guard r chosen
      have done := relive_some born chosen free
      refine ⟨?_,done.others f (Nat.ne_of_lt old)⟩
      rw [done.cells p inside,if_neg (by rintro rfl; rw [taken] at free; cases free)]
      split
      · exact .inr rfl
      · exact .inl taken

theorem fall_others (guard : FallGuard b bft fed) (born : BattleFighter) (old : f < b.next) (inside : b.isInMap p = true)
    (taken : b.on p = some f) : ((b.fall bft fed born).1.on p = some f ∨ (b.fall bft fed born).1.on p = none) ∧
      (b.fall bft fed born).1.fighter f = b.fighter f := by
  rcases fall_relives guard born with same | ⟨food,allowed,same⟩
  · rw [same]; exact ⟨.inl taken,rfl⟩
  · rw [same]
    exact relive_others (b:={b with food}) allowed born old inside taken

theorem approach_sound (sound : Sound b) (alive : Alive b b.currentBf) (stands : attack ≠ b.own → Stands b)
    (offered : attack = b.own ∨ (b.isInMap attack = true ∧ b.living attack = false))
    (inside : b.isInMap t = true) (found : b.on t = some bo) (living : Alive b bo) (foe : bo ≠ b.currentBf) :
    (Sound (b.approach attack) ∧ Carries b (b.approach attack)) ∧ (b.approach attack).on t = some bo ∧
      (b.approach attack).currentBf = b.currentBf ∧
      Alive (b.approach attack) b.currentBf ∧ Alive (b.approach attack) bo := by
  unfold approach
  split
  · exact ⟨⟨sound,carries_refl b⟩,found,rfl,alive,living⟩
  · rename_i away
    obtain ⟨inAttack,free⟩ := offered.resolve_left away
    have standing := stands away
    have done := relocate_parts b attack
    refine ⟨relocate_sound sound standing inAttack (fun own => absurd own away) (fun _ => free),?_,done.rest.current,?_,?_⟩
    · rw [done.cells standing.1 inAttack t inside,if_neg,if_neg,found]
      · rintro rfl
        rw [standing.2] at found
        exact foe (Option.some.inj found).symm
      · rintro rfl
        exact not_living free rfl found living
    · unfold Alive hp
      rw [done.self]
      exact alive
    · unfold Alive hp
      rw [done.others bo foe]
      exact living

theorem strike_sound (sound : Sound b) (alive : Alive b b.currentBf) (offered : Offered b.toGround target)
    (guard : StrikeGuard b target o) : Sound (b.strike target o) ∧ Carries b (b.strike target o) := by
  obtain ⟨t,inside,found⟩ := offered.found
  have living : Alive b target.bo := offered.foe.2
  have foe : target.bo ≠ b.currentBf := by
    intro same
    exact offered.foe.1 (by rw [same]; rfl)
  obtain ⟨⟨valid,carried⟩,at1,current1,alive1,living1⟩ :=
    approach_sound sound alive guard.stands offered.stands inside found living foe
  unfold strike
  have guardCurrent := guard.current
  have guardEnemy := guard.enemy
  dsimp only at guardCurrent guardEnemy
  generalize b.approach target.attack = b1 at *
  obtain ⟨valid2,carried2⟩ := fight_sound valid (by rw [current1]; exact alive1) living1 o
  have fought := fight_parts b1 target.bo o
  have inside1 : b1.isInMap t = true := by rw [(same_map carried.field t).1]; exact inside
  have cell1 : b1.cellOf target.bo = t := (((standing_of_found valid inside1 at1 living1).2.1 t inside1).mp at1).symm
  have at2 : (b1.fight target.bo o).on t = some target.bo := by
    unfold on
    rw [fought.cells,(same_map carried2.field t).2.1]
    exact at1
  have cell2 := (fought.same target.bo).1.trans cell1
  generalize b1.fight target.bo o = b2 at *
  have inside2 : b2.isInMap t = true := by rw [(same_map carried2.field t).1]; exact inside1
  -- The current fighter's fall leaves the target's cell to the target or clears it.
  have fallen : (Sound (b2.currentFalls o) ∧ Carries b2 (b2.currentFalls o)) ∧
      ((b2.currentFalls o).on t = some target.bo ∨ (b2.currentFalls o).on t = none) ∧
      (b2.currentFalls o).fighter target.bo = b2.fighter target.bo := by
    unfold currentFalls
    split
    · rename_i dead
      obtain ⟨valid3,carried3⟩ := fall_sound valid2 (guardCurrent dead) o.bornCurrent
      exact ⟨⟨⟨valid3.known,valid3.seats,valid3.fresh⟩,carried3.field,carried3.next,carried3.older,carried3.keeps⟩,
        fall_others (guardCurrent dead) o.bornCurrent (old_of_found valid2 inside2 at2) inside2 at2⟩
    · exact ⟨⟨valid2,carries_refl b2⟩,.inl at2,rfl⟩
  obtain ⟨⟨valid3,carried3⟩,at3,same3⟩ := fallen
  generalize b2.currentFalls o = b3 at *
  have cell3 : b3.cellOf target.bo = t := by
    unfold cellOf at cell2 ⊢
    rw [same3]; exact cell2
  have whole := carries_trans (carries_trans carried carried2) carried3
  unfold targetFalls
  split
  · rename_i dead
    have clear : b3.living (b3.cellOf target.bo) = false := by
      rw [cell3]
      unfold Ground.living Ground.fighterAt
      rcases at3 with here | gone
      · rw [show b3.mapFighters (b3.index t) = some target.bo from here]
        exact decide_eq_false (Int.not_lt.mpr dead)
      · rw [show b3.mapFighters (b3.index t) = none from gone]
        rfl
    obtain ⟨valid4,carried4⟩ := clear_sound valid3 clear
    obtain ⟨valid5,carried5⟩ := fall_sound valid4 (guardEnemy dead) o.bornTarget
    exact ⟨valid5,carries_trans (carries_trans whole carried4) carried5⟩
  · exact ⟨valid3,whole⟩

theorem move_sound (sound : Sound b) (guard : MoveGuard b o) : ∃ after, b.move o = some after ∧ Sound after ∧ Carries b after := by
  obtain ⟨alive,walks,strikes⟩ := guard
  obtain ⟨infos,found,offered⟩ := getTarget_offers b.toGround
  unfold move
  rw [found]
  cases infos with
  | nil =>
      obtain ⟨m,walked,reaches⟩ := getMovePosition_total b.toGround ⟨0xFF,0xFF⟩
      dsimp only
      rw [walked]
      refine ⟨_,rfl,?_⟩
      dsimp only
      split
      · exact ⟨sound,carries_refl b⟩
      · rename_i moves
        obtain ⟨stands,stays,leaves⟩ := walks found m walked moves
        exact relocate_sound sound stands ((reaches stands.1).resolve_left moves) stays leaves
  | cons first rest =>
      have member : (first :: rest).getD o.choice first ∈ first :: rest := by
        rw [List.getD_eq_getElem?_getD]
        cases chosen : (first :: rest)[o.choice]? with
        | none => exact List.mem_cons_self ..
        | some info => exact List.mem_of_getElem? chosen
      exact ⟨_,rfl,strike_sound sound alive (offered _ member) (strikes first rest found)⟩

end moves

section entries
variable {b : BattleGround}

-- A new fighter that lands is recorded.
theorem newFighter_recorded (sound : Sound b) (made : BattleFighter) (inside : b.isInMap p = true)
    (place : b.on p = none ∨ b.isRelivePoint p = true) (alive : Alive (b.newFighter p (some made)).1 b.next) :
    Recorded (b.newFighter p (some made)).1 b.next := by
  obtain ⟨valid,_⟩ := newFighter_sound sound p (some made) false
  refine (valid.known b.next alive).resolve_right ?_
  intro ⟨absent,_⟩
  have result : (b.newFighter p (some made)).1 = (b.create p made).setObject p b.next true := rfl
  rw [result] at absent
  rcases setObject_parts (b.create p made) p b.next true with ⟨misses,_⟩ | ⟨_,_,same⟩ | ⟨_,_,same⟩
  · exact misses ⟨inside,.inl rfl,place⟩
  · rw [same] at absent
    refine absent.1 p inside ?_
    rw [occupy_on,setCell_on]
    exact if_pos rfl
  · rw [same] at absent
    have count : (benched ((b.create p made).insertFighter p b.next)).count b.next = (b.next :: benched b).count b.next :=
      (insert_perm p b.next b.listBench).count_eq b.next
    rw [absent.2,List.count_cons_self] at count
    omega

-- A living fighter that enters the battle has a cell on the map to go to: a
-- free one or a revival cell.
def EnterGuard (b : BattleGround) (info : FighterInfo) : Prop :=
  ∀ made, info.fgt = some (some made) → 0 < made.hp → b.isInMap ⟨info.posx,info.posy⟩ = true ∧
    (b.on ⟨info.posx,info.posy⟩ = none ∨ b.isRelivePoint ⟨info.posx,info.posy⟩ = true)

theorem newFighter_made (b : BattleGround) (p : Ascoord) (made : BattleFighter) :
    (b.newFighter p (some made)).1.hp b.next = made.hp ∧ (b.newFighter p (some made)).1.next = b.next+1 := by
  refine ⟨?_,(setObject_rest (b.create p made) p b.next true).next⟩
  have result : (b.newFighter p (some made)).1 = (b.create p made).setObject p b.next true := rfl
  rw [result]
  rcases setObject_parts (b.create p made) p b.next true with ⟨_,same⟩ | ⟨_,_,same⟩ | ⟨_,_,same⟩
  · rw [same]; exact (create_self b p made).1
  · rw [same,occupy_hp]; exact (create_self b p made).1
  · rw [same,insert_hp]; exact (create_self b p made).1

theorem enter_sound (sound : Sound b) (guard : EnterGuard b info) : Sound (b.enter info) ∧ Carries b (b.enter info) := by
  unfold enter
  cases fgt : info.fgt with
  | none => exact ⟨sound,carries_refl b⟩
  | some created =>
      obtain ⟨valid,carried⟩ : Sound (b.touchCamp info.campId) ∧ Carries b (b.touchCamp info.campId) :=
        camps_sound sound _ fun f listed => .inl (by rw [←enlisted_touch b info.campId]; exact listed)
      obtain ⟨valid',carried'⟩ := newFighter_sound valid ⟨info.posx,info.posy⟩ created false
      cases created with
      | none => exact ⟨valid',carries_trans carried carried'⟩
      | some made =>
          obtain ⟨hp,next⟩ := newFighter_made (b.touchCamp info.campId) ⟨info.posx,info.posy⟩ made
          have recorded : Alive _ (b.touchCamp info.campId).next → Recorded _ (b.touchCamp info.campId).next := fun alive =>
            have lands := guard made fgt (by rw [←hp]; exact alive)
            newFighter_recorded valid made lands.1 lands.2 alive
          obtain ⟨valid'',carried''⟩ := camps_sound valid' (((b.touchCamp info.campId).newFighter ⟨info.posx,info.posy⟩ (some made)).1.pushCamp info.campId
              (b.touchCamp info.campId).next).camp2fighters
            (fun f listed =>
                (List.mem_cons.mp ((enlisted_push _ info.campId _).mem_iff.mp listed)).symm.imp_right fun is =>
                  ⟨by rw [is,next]; exact Nat.lt_succ_self _,by rw [is]; exact recorded⟩)
          exact ⟨valid'',carries_trans (carries_trans carried carried') carried''⟩

theorem preStart_sound {infos : List FighterInfo} (sound : Sound b)
    (guarded : History.Guarded (fun b info => some ((),b.enter info)) EnterGuard b infos) :
    Sound (b.preStart infos) ∧ Carries b (b.preStart infos) := by
  induction infos generalizing b with
  | nil => exact ⟨sound,carries_refl b⟩
  | cons info rest ih =>
      obtain ⟨valid,carried⟩ := enter_sound sound guarded.1
      obtain ⟨valid',carried'⟩ := ih valid (guarded.2 () _ rfl)
      exact ⟨valid',carries_trans carried carried'⟩

end entries

-- The operations that place fighters. A Move is one of the fighter whose turn it is.
inductive Command where
  | setObject (p : Ascoord) (bf : Nat) (flag : Bool)
  | newFighter (p : Ascoord) (created : Option BattleFighter) (flag : Bool)
  | preStart (infos : List FighterInfo)
  | move (bf : Nat) (o : Outcome)
  | relive (bft : Nat) (born : BattleFighter)

def step (b : BattleGround) : Command → Option (Unit × BattleGround)
  | .setObject p bf flag => some ((),b.setObject p bf flag)
  | .newFighter p created flag => some ((),(b.newFighter p created flag).1)
  | .preStart infos => some ((),b.preStart infos)
  | .move bf o => (({b with currentBf := bf} : BattleGround).move o).map fun after => ((),after)
  | .relive bft born => some ((),(b.relive bft born).1)

-- setObject takes a fighter that is in no cell and on no bench yet to where it
-- says it is; the other operations have the guards above.
def Guard (b : BattleGround) : Command → Prop
  | .setObject p bf flag => Lands b p bf flag → bf < b.next ∧ (Alive b bf → Absent b bf ∧ b.cellOf bf = p)
  | .newFighter _ _ _ => True
  | .preStart infos => History.Guarded (fun b info => some ((),b.enter info)) EnterGuard b infos
  | .move bf o => MoveGuard {b with currentBf := bf} o
  | .relive bft _ => ReliveGuard b bft

theorem step_sound {b : BattleGround} (sound : Sound b) {command : Command} (guard : Guard b command) :
    ∃ after, step b command = some ((),after) ∧ Sound after ∧ Carries b after := by
  cases command with
  | setObject p bf flag => exact ⟨_,rfl,setObject_sound sound guard⟩
  | newFighter p created flag => exact ⟨_,rfl,newFighter_sound sound p created flag⟩
  | preStart infos => exact ⟨_,rfl,preStart_sound sound guard⟩
  | move bf o =>
      obtain ⟨after,moved,valid,carried⟩ := move_sound (b:={b with currentBf := bf})
        ⟨sound.known,sound.seats,sound.fresh⟩ guard
      exact ⟨after,by rw [step,moved]; rfl,valid,carried.field,carried.next,carried.older,carried.keeps⟩
  | relive bft born => exact ⟨_,rfl,relive_sound sound guard born⟩

-- What is asked of an operation: every living fighter of a camp is recorded in
-- exactly one place, and a living fighter that leaves a cell is on another one
-- or on a bench.
structure Good (b b' : BattleGround) : Prop where
  recorded : ∀ f ∈ enlisted b', Alive b' f → Recorded b' f
  drops : ∀ p f, b.isInMap p = true → b.on p = some f → Alive b' f → b'.on p ≠ some f →
    (∃ q, b'.isInMap q = true ∧ b'.on q = some f) ∨ f ∈ benched b'

theorem good_of_carries {b b' : BattleGround} (sound : Sound b) (valid : Sound b') (carried : Carries b b') : Good b b' := by
  constructor
  · intro f listed alive
    exact (valid.known f alive).resolve_right fun unknown => unknown.2 listed
  · intro p f inside here alive _
    have old := old_of_found sound inside here
    have standing := standing_of_found sound inside here (carried.older f old alive)
    rcases carried.keeps f old alive (.inl standing) with stands | waits
    · exact .inl ⟨b'.cellOf f,stands.1,(stands.2.1 _ stands.1).mpr rfl⟩
    · exact .inr (List.count_pos_iff.mp (by rw [waits.2]; exact Nat.one_pos))

-- A ground nobody has entered yet.
structure Opening (b : BattleGround) : Prop where
  grid : ∀ p, b.isInMap p = true → b.on p = none
  benches : b.listBench = []
  camps : b.camp2fighters = []

theorem opening_sound {b : BattleGround} (opening : Opening b) : Sound b := by
  have absent : ∀ f, Absent b f ∧ f ∉ enlisted b := by
    intro f
    refine ⟨⟨fun p inside => by rw [opening.grid p inside]; exact nofun,?_⟩,?_⟩
    · unfold benched; rw [opening.benches]; rfl
    · unfold enlisted; rw [opening.camps]; exact List.not_mem_nil
  refine ⟨fun f _ => .inr (absent f),?_,fun f _ => absent f⟩
  intro p f queued
  rw [opening.benches] at queued
  cases queued

-- In a history whose operations meet their guards no living fighter of a camp
-- is ever lost or recorded twice.
theorem records_kept {b : BattleGround} {history : List Command} (opening : Opening b)
    (guarded : History.Guarded step Guard b history) : History.Along step (fun b _ _ after => Good b after) b history :=
  History.along_of_guarded (opening_sound opening) (fun _ _ sound guard =>
    let ⟨after,moved,valid,carried⟩ := step_sound sound guard
    ⟨(),after,moved,good_of_carries sound valid carried,valid⟩) guarded

-- Three cells in a row, the first one a revival cell of camp 1.
def lane : BattleGround := {
  sizeX := 3,sizeY := 1
  mapGround := fun _ => 1
  mapCamp := fun i => if i = 0 then 1 else 0
  relivePoint := fun i => i = 0
  food := [100]}

def soldier (side : UInt8) (owner : Option Nat) : BattleFighter := {side,hp := 10,attackRange := 1,movePower := 1,owner}

def recruit (camp x : UInt8) (owner : Option Nat) : FighterInfo := ⟨camp,x,0,some (some (soldier camp owner))⟩

theorem opening_lane : Opening lane := ⟨fun _ _ => rfl,rfl,rfl⟩

-- One of camp 1 on its revival cell, and an enemy two cells away.
def marched : BattleGround := {lane.preStart [recruit 1 0 (some 0),recruit 2 2 none] with currentBf := 0}

-- It goes up to the enemy, falls, and its owner pays for another one.
def march : Outcome := {hpCurrent := 0,hpTarget := 5,fedCurrent := true,bornCurrent := soldier 1 (some 0)}

theorem march_guard : MoveGuard marched march := by
  have target : marched.getTarget marched.own.x marched.own.y = some [⟨1,⟨1,0⟩,1,1⟩] := by decide +kernel
  refine ⟨by show 0 < marched.hp 0; decide +kernel,?_,?_⟩
  · rw [target]
    exact nofun
  · rw [target]
    intro first rest same
    cases Option.some.inj same
    constructor
    · exact fun _ => ⟨by decide +kernel,by decide +kernel⟩
    · intro after _ _ _ _ _ r chosen
      have cell : after.getMinNumRelive (after.fighter after.currentBf).side = some ⟨0,0⟩ := by decide +kernel
      cases Option.some.inj (cell.symm.trans chosen)
      exact ⟨by decide +kernel,by decide +kernel⟩
    · intro after dead
      exact absurd dead (by decide +kernel)

theorem records_kept_lane : History.Along step (fun b _ _ after => Good b after) lane
    [.preStart [recruit 1 0 (some 0),recruit 2 2 none],.move 0 march] := by
  refine records_kept opening_lane ⟨⟨?_,?_⟩,?_⟩
  · intro made _ _
    exact ⟨by decide,.inl rfl⟩
  · intro _ next entered
    cases Option.some.inj entered
    refine ⟨?_,fun _ _ _ => trivial⟩
    intro made _ _
    exact ⟨by decide,.inl (by decide +kernel)⟩
  · intro _ next moved
    cases Option.some.inj moved
    exact ⟨march_guard,fun _ _ _ => trivial⟩

-- The one made anew is on the revival cell, and the cell it fell on is empty.
example : (step marched (.move 0 march)).map (fun r => (r.2.on ⟨0,0⟩,r.2.on ⟨1,0⟩,r.2.hp 2)) = some (some 2,none,10) := by decide +kernel

-- A fighter falls beside the revival cell of its camp, on which another one
-- stands: the new fighter comes to the cell and to its bench, and the one that
-- stood there is in neither.
theorem relieved_twice : ¬∀ (b : BattleGround) (history : List Command), Opening b →
    History.Along step (fun b _ _ after => Good b after) b history := by
  intro every
  obtain ⟨_,s,entered,_,_,after,moved,good,_⟩ := every lane
    [.preStart [recruit 1 0 none,recruit 1 1 (some 0),recruit 2 2 none],
      .move 1 {hpCurrent := 0,hpTarget := 10,fedCurrent := true,bornCurrent := soldier 1 (some 0)}] opening_lane
  cases Option.some.inj entered
  have result : ((step (lane.preStart [recruit 1 0 none,recruit 1 1 (some 0),recruit 2 2 none])
      (.move 1 {hpCurrent := 0,hpTarget := 10,fedCurrent := true,bornCurrent := soldier 1 (some 0)})).map fun r =>
        (r.2.isInMap ⟨0,0⟩,r.2.on ⟨0,0⟩,(benched r.2).count 3,decide (3 ∈ enlisted r.2),r.2.hp 3)) =
      some (true,some 3,1,true,10) := by decide +kernel
  rw [moved] at result
  simp only [Option.map_some,Option.some.injEq,Prod.mk.injEq,decide_eq_true_eq] at result
  obtain ⟨inside,here,count,listed,hp⟩ := result
  rcases good.recorded 3 listed (by unfold Alive; rw [hp]; decide) with standing | waiting
  · rw [standing.2.2] at count
    cases count
  · exact waiting.1 _ inside here

end GameServer.Battle.Records
