import GameServer.Library.History
import GameServer.MsgHandler.Provenance

namespace GameServer.MsgHandler
open History

variable {θ π : Type _} {ws : Workers θ} {s next : Server θ π}

-- A fate of the message a worker popped.
def Event.Fate (worker : θ) (block : Block π) : Event θ π → Prop
  | given who what | dropped who what _ | requeued who what _ _ => who = worker ∧ what = block
  | _ => False

-- A popped block lies with its worker, its message before or after its fate, or
-- it was freed: the message has one fate and the block is freed once.
inductive Answered (s : Server θ π) (worker : θ) (block : Block π) : Prop where
  | hand : block.serial ∈ stock s (.hand worker) → times s.log .fated block.serial = 0 →
      times s.log .freed block.serial = 0 → Answered s worker block
  | settled : block.serial ∈ stock s (.settled worker) → times s.log .fated block.serial = 1 →
      times s.log .freed block.serial = 0 → Answered s worker block
  | freed : times s.log .fated block.serial = 1 → times s.log .freed block.serial = 1 → Answered s worker block

theorem fate_of_fated (sound : Sound ws s) (ledger : Ledger place s) (popped : .popped worker block ∈ s.log)
    (fated : times s.log .fated block.serial = 1) : ∃ event ∈ s.log, event.Fate worker block := by
  have some_ : 0 < times s.log .fated block.serial := by omega
  obtain ⟨event,member,stage⟩ := List.countP_pos_iff.mp some_
  have right := sound.rightful event member
  refine ⟨event,member,?_⟩
  cases event with
  | given who what => exact popped_once ledger popped right.1 (by simpa [Event.stage] using stage)
  | dropped who what seen =>
      have serial : what.serial = block.serial := by simpa [Event.stage] using stage
      cases seen with
      | none => exact popped_once ledger popped right.1 serial
      | some players => exact popped_once ledger popped right.1 serial
  | requeued who what copy seen => exact popped_once ledger popped right.1 (by simpa [Event.stage] using stage)
  | _ => simp [Event.stage] at stage

-- What a worker holds it popped.
theorem Sound.holder (sound : Sound ws s) (held : n ∈ stock s (.hand worker) ∨ n ∈ stock s (.settled worker)) :
    ∃ old, .popped worker old ∈ s.log ∧ old.serial = n := by
  have fit := sound.fit worker
  simp only [stock] at held
  cases phase : s.phase worker with
  | idle => simp [phase,Phase.hand,Phase.settled] at held
  | loop msgQueue => simp [phase,Phase.hand,Phase.settled] at held
  | check hdr msgQueue =>
      rw [phase] at fit held
      exact ⟨hdr,fit,Eq.symm (by simpa [Phase.hand,Phase.settled] using held)⟩
  | forward old hdr seen msgQueue =>
      rw [phase] at fit held
      exact ⟨old,fit.1,Eq.symm (by simpa [Phase.hand,Phase.settled,fit.2.1] using held)⟩
  | dispatch hdr msgQueue =>
      rw [phase] at fit held
      exact ⟨hdr,fit,Eq.symm (by simpa [Phase.hand,Phase.settled] using held)⟩
  | release hdr msgQueue =>
      rw [phase] at fit held
      obtain ⟨old,popped,same⟩ := fit
      exact ⟨old,popped,Eq.symm (by simpa [Phase.hand,Phase.settled,same] using held)⟩

theorem answered (sound : Sound ws s) (ledger : Ledger place s) (popped : .popped worker block ∈ s.log) :
    Answered s worker block := by
  have before := born ledger (sound.rightful _ popped)
  have count (stage : Stage) := ledger.counted stage block.serial
  have met : 0 < times s.log .popped block.serial := List.countP_pos_iff.mpr ⟨_,popped,by simp [Event.stage]⟩
  cases here : place block.serial with
  | none =>
      apply Answered.freed
      · simp [count,before,here,behind]
      · simp [count,before,here,behind]
  | some site =>
      have member := (ledger.custody.here site block.serial).mpr here
      cases site with
      | queue workerId => simp [count,here,behind] at met
      | bag other => simp [count,here,behind] at met
      | hand other =>
          obtain ⟨old,took,same⟩ := sound.holder (.inl member)
          cases (popped_once ledger popped took same).1
          apply Answered.hand member
          · simp [count,here,behind]
          · simp [count,here,behind]
      | settled other =>
          obtain ⟨old,took,same⟩ := sound.holder (.inr member)
          cases (popped_once ledger popped took same).1
          apply Answered.settled member
          · simp [count,before,here,behind]
          · simp [count,here,behind]

-- The worker whose step it is, and the step of its own it takes next.
def Action.worker : Action θ π → Option θ
  | push _ => none
  | enter worker _ | pop worker | check worker _ | forward worker | dispatch worker | release worker => some worker

def own (worker : θ) (players : Players π) : Phase π → Action θ π
  | .idle => .enter worker false
  | .loop _ => .pop worker
  | .check _ _ => .check worker players
  | .forward _ _ _ _ => .forward worker
  | .dispatch _ _ => .dispatch worker
  | .release _ _ => .release worker

theorem own_worker (worker : θ) (players : Players π) (phase : Phase π) : (own worker players phase).worker = some worker := by
  cases phase <;> rfl

-- The steps of its own a worker needs at most to free the block it holds.
def left (n : Nat) : Phase π → Nat
  | .check hdr _ => if hdr.serial = n then 3 else 0
  | .forward _ hdr _ _ | .dispatch hdr _ => if hdr.serial = n then 2 else 0
  | .release hdr _ => if hdr.serial = n then 1 else 0
  | _ => 0

theorem left_le (n : Nat) (phase : Phase π) : left n phase ≤ 3 := by
  cases phase with
  | idle | loop => exact Nat.zero_le 3
  | check | forward | dispatch | release =>
      simp only [left]
      split <;> omega

theorem left_pos (held : n ∈ stock s (.hand worker) ∨ n ∈ stock s (.settled worker)) : 0 < left n (s.phase worker) := by
  simp only [stock] at held
  cases phase : s.phase worker with
  | idle => simp [phase,Phase.hand,Phase.settled] at held
  | loop msgQueue => simp [phase,Phase.hand,Phase.settled] at held
  | check hdr msgQueue =>
      have same : n = hdr.serial := by simpa [phase,Phase.hand,Phase.settled] using held
      simp [left,same]
  | forward old hdr seen msgQueue =>
      have same : n = hdr.serial := by simpa [phase,Phase.hand,Phase.settled] using held
      simp [left,same]
  | dispatch hdr msgQueue =>
      have same : n = hdr.serial := by simpa [phase,Phase.hand,Phase.settled] using held
      simp [left,same]
  | release hdr msgQueue =>
      have same : n = hdr.serial := by simpa [phase,Phase.hand,Phase.settled] using held
      simp [left,same]

variable [DecidableEq θ]

def serverStep (ws : Workers θ) (s : Server θ π) (action : Action θ π) : Option (Unit × Server θ π) := (s.step ws action).map ((),·)

theorem reached_sound (path : Reached (serverStep ws) .start s) : Sound ws s ∧ ∃ place, Ledger place s := by
  apply reached_inv path
  · refine ⟨sound_start,fun _ => none,⟨?_,?_⟩,?_,?_⟩
    · intro site
      cases site <;> exact List.nodup_nil
    · intro site n
      cases site <;> simp [stock,Server.start,Phase.msgQueue,Phase.hand,Phase.settled]
    · intro n above
      rfl
    · intro stage n
      simp [times,Server.start]
  · intro s action answer next kept moved
    obtain ⟨sound,place,ledger⟩ := kept
    obtain ⟨after,stepped,same⟩ := Option.map_eq_some_iff.mp moved
    cases same
    obtain ⟨running,move⟩ := step_cases stepped
    refine ⟨sound_step sound ledger running move,?_⟩
    apply ledger_step ledger move
    intro worker old hdr seen msgQueue forwarding
    have fit := sound.fit worker
    rw [forwarding] at fit
    exact fit.2.1

theorem log_grows {action : Action θ π} (move : Move ws s action next) : s.log <:+ next.log := by
  cases move with
  | push => exact Server.PushMsg_grows _ _
  | swap | accept | redirect => exact List.suffix_refl _
  | back | pop | refuse | give | ignore | next => exact List.suffix_cons _ _
  | requeue => exact (Server.PushMsg_grows _ _).trans (List.suffix_cons _ _)
  | last => exact (List.suffix_cons _ _).trans (List.suffix_cons _ _)

def Server.run (ws : Workers θ) : Server θ π → List (Action θ π) → Option (Server θ π)
  | s,[] => some s
  | s,action :: rest => (s.step ws action).bind (run ws · rest)

theorem run_reached {s next : Server θ π} {actions : List (Action θ π)} (path : Reached (serverStep ws) .start s)
    (ran : s.run ws actions = some next) : Reached (serverStep ws) .start next := by
  induction actions generalizing s with
  | nil =>
      cases Option.some.inj ran
      exact path
  | cons action rest ih =>
      obtain ⟨after,moved,later⟩ := Option.bind_eq_some_iff.mp ran
      have stepped : serverStep ws s action = some ((),after) := by rw [serverStep,moved]; rfl
      exact ih (.step path stepped) later

theorem own_enabled (sound : Sound ws s) (running : s.ended = false) (worker : θ) (players : Players π) :
    (s.step ws (own worker players (s.phase worker))).isSome = true := by
  have fit := sound.fit worker
  cases phase : s.phase worker with
  | idle =>
      simp only [own,Server.step,running,phase]
      split
      · cases ‹_›
      · split
        · rfl
        · split <;> rfl
  | loop msgQueue =>
      rw [phase] at fit
      obtain ⟨hdr,rest,rfl⟩ := List.exists_cons_of_ne_nil fit
      simp [own,Server.step,running,phase]
  | check hdr msgQueue =>
      simp only [own,Server.step,running,phase]
      split
      · cases ‹_›
      · split <;> rfl
  | forward old hdr seen msgQueue => simp [own,Server.step,running,phase]
  | dispatch hdr msgQueue => simp [own,Server.step,running,phase]
  | release hdr msgQueue =>
      simp only [own,Server.step,running,phase]
      split
      · cases ‹_›
      · split <;> rfl

theorem left_go {worker other : θ} {phase : Phase π} (went : next.phase = Function.update s.phase worker phase)
    (less : left n phase < left n (s.phase worker) ∨ left n (s.phase worker) = 0) (busy : 0 < left n (s.phase other)) :
    left n (next.phase other) + (if some worker = some other then 1 else 0) ≤ left n (s.phase other) := by
  rw [went]
  by_cases same : other = worker
  · subst same
    rw [Function.update_self,if_pos rfl]
    omega
  · rw [if_neg (by simpa using Ne.symm same),Function.update_of_ne same]
    omega

theorem left_step {action : Action θ π} (move : Move ws s action next) (busy : 0 < left n (s.phase other)) :
    left n (next.phase other) + (if action.worker = some other then 1 else 0) ≤ left n (s.phase other) := by
  cases move with
  | push =>
      rw [Server.PushMsg_phase]
      simp [Action.worker]
  | back idle =>
      apply left_go (Function.update_eq_self _ _).symm _ busy
      rw [idle]
      exact .inr rfl
  | swap idle filled => exact left_go rfl (.inr (by rw [idle]; rfl)) busy
  | pop looping => exact left_go rfl (.inr (by rw [looping]; rfl)) busy
  | requeue forwarding =>
      refine left_go (congrArg (Function.update · _ _) (Server.PushMsg_phase _ _)) ?_ busy
      rw [forwarding]
      simp only [left]
      split <;> omega
  | refuse phase | accept phase | redirect phase | give phase | ignore phase | last phase | next phase =>
      refine left_go rfl ?_ busy
      rw [phase]
      simp only [left]
      split <;> omega

theorem run_grows {actions : List (Action θ π)} (ran : s.run ws actions = some next) : s.log <:+ next.log := by
  induction actions generalizing s with
  | nil =>
      cases Option.some.inj ran
      exact List.suffix_refl _
  | cons action rest ih =>
      obtain ⟨after,moved,later⟩ := Option.bind_eq_some_iff.mp ran
      exact (log_grows (step_cases moved).2).trans (ih later)

-- Whatever others do in between, a worker frees what it popped.
theorem freed_soon {actions : List (Action θ π)} (path : Reached (serverStep ws) .start s)
    (popped : .popped worker block ∈ s.log) (ran : s.run ws actions = some next)
    (enough : left block.serial (s.phase worker) ≤ actions.countP fun action => action.worker = some worker) :
    0 < times next.log .freed block.serial := by
  induction actions generalizing s with
  | nil =>
      obtain ⟨sound,place,ledger⟩ := reached_sound path
      have same : s = next := Option.some.inj ran
      subst same
      rw [List.countP_nil] at enough
      have idle : ¬ 0 < left block.serial (s.phase worker) := by omega
      cases answered sound ledger popped with
      | hand held => exact absurd (left_pos (.inl held)) idle
      | settled held => exact absurd (left_pos (.inr held)) idle
      | freed _ freed => omega
  | cons action rest ih =>
      obtain ⟨sound,place,ledger⟩ := reached_sound path
      obtain ⟨after,moved,later⟩ := Option.bind_eq_some_iff.mp ran
      obtain ⟨_,move⟩ := step_cases moved
      have busy (held : 0 < left block.serial (s.phase worker)) : 0 < times next.log .freed block.serial := by
        have stepped : serverStep ws s action = some ((),after) := by rw [serverStep,moved]; rfl
        apply ih (path.step stepped) ((log_grows move).subset popped) later
        have less := left_step move held
        rw [List.countP_cons] at enough
        simp only [decide_eq_true_eq] at enough
        omega
      cases answered sound ledger popped with
      | hand held => exact busy (left_pos (.inl held))
      | settled held => exact busy (left_pos (.inr held))
      | freed _ freed =>
          have more : times s.log .freed block.serial ≤ times next.log .freed block.serial := (run_grows ran).countP_le
          omega

-- No message is lost or duplicated: every pushed block lies in one place, once,
-- or was freed; what the books say of it happened rightly; a popped block has
-- one fate and is freed once, within three steps of its worker's own, which is
-- never kept from them unless the process ended at the assertion.
structure Conserved (ws : Workers θ) (s : Server θ π) : Prop where
  ledger : ∃ place, Ledger place s
  rightful : ∀ event ∈ s.log, Rightful ws s.log event
  copies : (s.log.filterMap Event.copy).Nodup
  answered : ∀ worker block, .popped worker block ∈ s.log → Answered s worker block
  fate : ∀ worker block, .popped worker block ∈ s.log → times s.log .fated block.serial = 1 →
    ∃ event ∈ s.log, event.Fate worker block
  freed : ∀ worker block, .popped worker block ∈ s.log → ∀ actions next, s.run ws actions = some next →
    3 ≤ actions.countP (fun action => action.worker = some worker) →
    times next.log .fated block.serial = 1 ∧ times next.log .freed block.serial = 1
  enabled : s.ended = false → ∀ worker players, (own worker players (s.phase worker)).worker = some worker ∧
    (s.step ws (own worker players (s.phase worker))).isSome = true
  ended : s.ended = true ↔ ∃ worker block, .popped worker block ∈ s.log ∧ MAX_MSG_NUM ≤ block.msg.cmdID

theorem messages_conserved (path : Reached (serverStep ws) .start s) : Conserved ws s := by
  obtain ⟨sound,place,ledger⟩ := reached_sound path
  refine ⟨⟨place,ledger⟩,sound.rightful,sound.copies,?_,?_,?_,?_,?_⟩
  · intro worker block popped
    exact answered sound ledger popped
  · intro worker block popped fated
    exact fate_of_fated sound ledger popped fated
  · intro worker block popped actions next ran enough
    have soon := freed_soon path popped ran (Nat.le_trans (left_le _ _) enough)
    obtain ⟨sound',place',ledger'⟩ := reached_sound (run_reached path ran)
    cases answered sound' ledger' ((run_grows ran).subset popped) with
    | hand _ _ none => omega
    | settled _ _ none => omega
    | freed fated freed => exact ⟨fated,freed⟩
  · intro running worker players
    exact ⟨own_worker worker players _,own_enabled sound running worker players⟩
  · rw [sound.ended,List.any_eq_true]
    constructor
    · intro ⟨event,member,fatal⟩
      cases event with
      | popped worker block => exact ⟨worker,block,member,by simpa [Event.fatal] using fatal⟩
      | _ => cases fatal
    · intro ⟨worker,block,popped,beyond⟩
      exact ⟨_,popped,by simpa [Event.fatal] using beyond⟩

-- An inner command of a player of the other thread goes to that thread's queue.
def duo : Workers Bool := ⟨fun second => if second then 1 else 0,by decide,fun _ _ => true⟩
def away : Players Unit := ⟨fun _ => false,fun _ => 1,fun _ => by decide⟩
def order : Message Unit := ⟨0,0x200,some (),0,[],rfl⟩
def course : List (Action Bool Unit) :=
  [.push order,.enter false false,.pop false,.check false away,.forward false,.release false]

theorem messages_conserved_order : ∃ s, (Server.start : Server Bool Unit).run duo course = some s ∧ Conserved duo s ∧
    times s.log .freed 0 = 1 ∧ s.m_MsgQueue 1 = [⟨1,{order with desWorkerID := 1}⟩] := by
  have ran : ((Server.start : Server Bool Unit).run duo course).isSome = true := by decide
  obtain ⟨s,ends⟩ := Option.isSome_iff_exists.mp ran
  refine ⟨s,ends,messages_conserved (run_reached .start ends),?_,?_⟩
  · cases Option.some.inj ends
    decide
  · cases Option.some.inj ends
    rfl

-- A command beyond the last one is popped, and the process ends with the block
-- in hand.
theorem block_kept_at_assertion : ∃ (s : Server Bool Unit) (block : Block Unit), Reached (serverStep duo) .start s ∧
    .popped false block ∈ s.log ∧ ∀ actions next, s.run duo actions = some next → times next.log .freed block.serial = 0 := by
  let beyond : Message Unit := ⟨0,0x600,none,0,[],rfl⟩
  have ran : ((Server.start : Server Bool Unit).run duo [.push beyond,.enter false false,.pop false]).isSome = true := by decide
  obtain ⟨s,ends⟩ := Option.isSome_iff_exists.mp ran
  refine ⟨s,⟨0,beyond⟩,run_reached .start ends,?_,?_⟩
  · cases Option.some.inj ends
    exact List.mem_cons_self
  · intro actions next again
    cases actions with
    | nil =>
        cases Option.some.inj again
        cases Option.some.inj ends
        decide
    | cons action rest =>
        have fatal : s.ended = true := by
          cases Option.some.inj ends
          decide
        simp [Server.run,Server.step,fatal] at again

end GameServer.MsgHandler
