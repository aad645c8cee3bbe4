import GameServer.MsgHandler.Ledger

namespace GameServer.MsgHandler

variable {θ π : Type _} {ws : Workers θ}

-- What the books must have for an event to be written.
def Rightful (ws : Workers θ) (log : List (Event θ π)) : Event θ π → Prop
  | .pushed workerId block => block.msg.desWorkerID = workerId ∧ workerId < MAX_THREAD_NUM
  | .popped worker block => .pushed (ws.m_Worker worker) block ∈ log
  | .given worker block => .popped worker block ∈ log ∧ ws.m_HandlerList worker block.msg.cmdID = true
  | .dropped worker block (some players) => .popped worker block ∈ log ∧ Refused (ws.m_Worker worker) players block.msg
  | .dropped worker block none => .popped worker block ∈ log ∧ ws.m_HandlerList worker block.msg.cmdID = false
  | .requeued worker block copy seen => .popped worker block ∈ log ∧
      Elsewhere (ws.m_Worker worker) seen block.msg copy.msg ∧ .pushed copy.msg.desWorkerID copy ∈ log
  | .freed worker block => ∃ old, .popped worker old ∈ log ∧ old.serial = block.serial
  | .returned _ _ => True

theorem rightful_more (right : Rightful ws log event) (more : log ⊆ longer) : Rightful ws longer event := by
  cases event with
  | pushed workerId block => exact right
  | popped worker block => exact more right
  | given worker block => exact ⟨more right.1,right.2⟩
  | dropped worker block seen =>
      cases seen with
      | none => exact ⟨more right.1,right.2⟩
      | some players => exact ⟨more right.1,right.2⟩
  | requeued worker block copy seen => exact ⟨more right.1,right.2.1,more right.2.2⟩
  | freed worker block =>
      obtain ⟨old,popped,same⟩ := right
      exact ⟨old,more popped,same⟩
  | returned worker result => trivial

-- What the books have of the blocks a worker holds.
def Fit (ws : Workers θ) (log : List (Event θ π)) (worker : θ) : Phase π → Prop
  | .idle => True
  | .loop msgQueue => msgQueue ≠ []
  | .check hdr _ | .dispatch hdr _ => .popped worker hdr ∈ log
  | .forward old hdr seen _ => .popped worker old ∈ log ∧ old.serial = hdr.serial ∧ Elsewhere (ws.m_Worker worker) seen old.msg hdr.msg
  | .release hdr _ => ∃ old, .popped worker old ∈ log ∧ old.serial = hdr.serial

theorem fit_more (fit : Fit ws log worker phase) (more : log ⊆ longer) : Fit ws longer worker phase := by
  cases phase with
  | idle => trivial
  | loop msgQueue => exact fit
  | check hdr msgQueue => exact more fit
  | forward old hdr seen msgQueue => exact ⟨more fit.1,fit.2⟩
  | dispatch hdr msgQueue => exact more fit
  | release hdr msgQueue =>
      obtain ⟨old,popped,same⟩ := fit
      exact ⟨old,more popped,same⟩

-- The assertion a popped block can break, and the block a re-queued message is in.
def Event.fatal : Event θ π → Bool
  | popped _ block => MAX_MSG_NUM ≤ block.msg.cmdID
  | _ => false

def Event.copy : Event θ π → Option Nat
  | requeued _ _ copy _ => some copy.serial
  | _ => none

structure Sound (ws : Workers θ) (s : Server θ π) : Prop where
  queues : ∀ workerId, ∀ block ∈ s.m_MsgQueue workerId, .pushed workerId block ∈ s.log
  bags : ∀ worker, ∀ block ∈ (s.phase worker).msgQueue, .pushed (ws.m_Worker worker) block ∈ s.log
  fit : ∀ worker, Fit ws s.log worker (s.phase worker)
  rightful : ∀ event ∈ s.log, Rightful ws s.log event
  copies : (s.log.filterMap Event.copy).Nodup
  ended : s.ended = s.log.any Event.fatal

theorem sound_start : Sound ws (.start : Server θ π) := by
  constructor
  · intro workerId block member
    cases member
  · intro worker block member
    cases member
  · intro worker
    trivial
  · intro event member
    cases member
  · exact List.nodup_nil
  · rfl

variable {s next : Server θ π}

-- The books go on by one event.
theorem Sound.write (sound : Sound ws s) (event : Event θ π) (right : Rightful ws s.log event)
    (fresh : ∀ n, event.copy = some n → n ∉ s.log.filterMap Event.copy) :
    Sound ws ({s with ended := event.fatal || s.ended}.write event) := by
  have more : s.log ⊆ event :: s.log := List.subset_cons_self event s.log
  constructor
  · intro workerId block member
    exact more (sound.queues workerId block member)
  · intro worker block member
    exact more (sound.bags worker block member)
  · intro worker
    exact fit_more (sound.fit worker) more
  · intro old member
    rcases List.mem_cons.mp member with rfl | earlier
    · exact rightful_more right more
    · exact rightful_more (sound.rightful old earlier) more
  · change (List.filterMap Event.copy (event :: s.log)).Nodup
    cases copied : event.copy with
    | none =>
        rw [List.filterMap_cons_none copied]
        exact sound.copies
    | some n =>
        rw [List.filterMap_cons_some copied]
        exact List.nodup_cons.mpr ⟨fresh n copied,sound.copies⟩
  · change (event.fatal || s.ended) = (event.fatal || s.log.any Event.fatal)
    rw [sound.ended]

theorem Sound.note (sound : Sound ws s) (event : Event θ π) (right : Rightful ws s.log event)
    (mild : event.fatal = false) (plain : event.copy = none) : Sound ws (s.write event) := by
  have written := sound.write event right (by simp [plain])
  rw [mild,Bool.false_or] at written
  exact written

theorem Sound.PushMsg (sound : Sound ws s) (msg : Message π) : Sound ws (s.PushMsg msg) := by
  rw [Server.PushMsg]
  split
  · exact sound
  · rename_i near
    have noted := sound.note (.pushed msg.desWorkerID ⟨s.serials,msg⟩) ⟨rfl,UInt8.not_le.mp near⟩ rfl rfl
    refine ⟨?_,noted.bags,noted.fit,noted.rightful,noted.copies,noted.ended⟩
    intro workerId block member
    by_cases same : workerId = msg.desWorkerID
    · subst same
      dsimp only at member
      rw [Function.update_self] at member
      rcases List.mem_append.mp member with old | new
      · exact noted.queues _ block old
      · cases List.mem_singleton.mp new
        exact List.mem_cons_self
    · dsimp only at member
      rw [Function.update_of_ne same] at member
      exact noted.queues _ block member

theorem born (ledger : Ledger place s) (pushed : .pushed workerId block ∈ s.log) : block.serial < s.serials := by
  have once := ledger.counted .pushed block.serial
  by_contra above
  rw [if_neg (by simp [above]),times,List.countP_eq_zero] at once
  exact once _ pushed (by simp [Event.stage])

-- The message in hand goes back to a queue: the copy is a new block there.
theorem Sound.requeue (sound : Sound ws s) (ledger : Ledger place s) (forwarding : s.phase worker = .forward old hdr seen msgQueue) :
    Sound ws ((s.PushMsg hdr.msg).write (.requeued worker old ⟨s.serials,hdr.msg⟩ seen)) := by
  have fit := sound.fit worker
  rw [forwarding] at fit
  obtain ⟨popped,_,elsewhere⟩ := fit
  obtain ⟨inner,player,known,away,moved⟩ := elsewhere
  have near : ¬ hdr.msg.desWorkerID ≥ MAX_THREAD_NUM := by
    rw [moved]
    exact UInt8.not_le.mpr (seen.below player)
  have pushed := sound.PushMsg hdr.msg
  have log : (s.PushMsg hdr.msg).log = .pushed hdr.msg.desWorkerID ⟨s.serials,hdr.msg⟩ :: s.log := by
    rw [Server.PushMsg,if_neg near]
  have written := pushed.write (.requeued worker old ⟨s.serials,hdr.msg⟩ seen) ?_ ?_
  · exact written
  · rw [log]
    exact ⟨List.mem_cons_of_mem _ popped,⟨inner,player,known,away,moved⟩,List.mem_cons_self⟩
  · intro n copied member
    cases Option.some.inj copied
    rw [log,List.filterMap_cons_none rfl] at member
    obtain ⟨event,earlier,same⟩ := List.mem_filterMap.mp member
    cases event with
    | requeued other block copy players =>
        have before := born ledger (sound.rightful _ earlier).2.2
        have number : copy.serial = s.serials := Option.some.inj same
        omega
    | _ => cases same

-- The queue is swapped for an empty one.
theorem Sound.emptied (sound : Sound ws s) (workerId : UInt8) :
    Sound ws {s with m_MsgQueue := Function.update s.m_MsgQueue workerId []} := by
  refine ⟨?_,sound.bags,sound.fit,sound.rightful,sound.copies,sound.ended⟩
  intro other block member
  by_cases same : other = workerId
  · subst same
    simp at member
  · dsimp only at member
    rw [Function.update_of_ne same] at member
    exact sound.queues other block member

variable [DecidableEq θ]

theorem Sound.go (sound : Sound ws s) (worker : θ) (phase : Phase π)
    (bag : ∀ block ∈ phase.msgQueue, .pushed (ws.m_Worker worker) block ∈ s.log) (fit : Fit ws s.log worker phase) :
    Sound ws (s.go worker phase) := by
  refine ⟨sound.queues,?_,?_,sound.rightful,sound.copies,sound.ended⟩
  · intro other block member
    by_cases same : other = worker
    · subst same
      simp only [Server.go,Function.update_self] at member
      exact bag block member
    · simp only [Server.go,Function.update_of_ne same] at member
      exact sound.bags other block member
  · intro other
    by_cases same : other = worker
    · subst same
      simp only [Server.go,Function.update_self]
      exact fit
    · simp only [Server.go,Function.update_of_ne same]
      exact sound.fit other

-- A worker writes an event and moves on with what it holds of its queue.
theorem Sound.turn (sound : Sound ws s) (worker : θ) (event : Event θ π) (right : Rightful ws s.log event) (mild : event.fatal = false)
    (plain : event.copy = none) (phase : Phase π) (queue : phase.msgQueue ⊆ (s.phase worker).msgQueue)
    (fit : Fit ws (event :: s.log) worker phase) : Sound ws ((s.write event).go worker phase) := by
  apply (sound.note event right mild plain).go worker phase
  · intro block member
    exact List.mem_cons_of_mem _ (sound.bags worker block (queue member))
  · exact fit

theorem sound_step {action : Action θ π} (sound : Sound ws s) (ledger : Ledger place s) (running : s.ended = false)
    (move : Move ws s action next) : Sound ws next := by
  cases move with
  | push => exact sound.PushMsg _
  | back idle => exact sound.note _ trivial rfl rfl
  | swap idle filled => exact (sound.emptied _).go _ _ (sound.queues _) filled
  | pop looping =>
      rename_i worker hdr msgQueue
      have bag := sound.bags worker
      rw [looping] at bag
      have written := sound.write (.popped worker hdr) (bag hdr List.mem_cons_self) (by simp [Event.copy])
      rw [running,Bool.or_false] at written
      apply written.go worker (.check hdr msgQueue)
      · intro block member
        exact List.mem_cons_of_mem _ (bag block (List.mem_cons_of_mem _ member))
      · exact List.mem_cons_self
  | refuse checking why =>
      rename_i worker hdr msgQueue players
      have popped := sound.fit worker
      rw [checking] at popped
      apply sound.turn worker (.dropped worker hdr (some players)) ⟨popped,why⟩ rfl rfl
      · rw [checking]
        exact List.Subset.refl _
      · exact ⟨hdr,List.mem_cons_of_mem _ popped,rfl⟩
  | accept checking =>
      rename_i worker hdr msgQueue players
      have popped := sound.fit worker
      have bag := sound.bags worker
      rw [checking] at popped bag
      exact sound.go worker (.dispatch hdr msgQueue) bag popped
  | redirect checking elsewhere =>
      rename_i worker hdr msgQueue players copy
      have popped := sound.fit worker
      have bag := sound.bags worker
      rw [checking] at popped bag
      exact sound.go worker (.forward hdr ⟨hdr.serial,copy⟩ players msgQueue) bag ⟨popped,rfl,elsewhere⟩
  | requeue forwarding =>
      rename_i worker old hdr seen msgQueue
      have fit := sound.fit worker
      have bag := sound.bags worker
      have log : s.log ⊆ .requeued worker old ⟨s.serials,hdr.msg⟩ seen :: (s.PushMsg hdr.msg).log :=
        List.subset_cons_of_subset _ (Server.PushMsg_grows s hdr.msg).subset
      rw [forwarding] at fit bag
      apply (sound.requeue ledger forwarding).go worker (.release hdr msgQueue)
      · intro block member
        exact log (bag block member)
      · exact ⟨old,log fit.1,fit.2.1⟩
  | give dispatching handled =>
      rename_i worker hdr msgQueue
      have popped := sound.fit worker
      rw [dispatching] at popped
      apply sound.turn worker (.given worker hdr) ⟨popped,handled⟩ rfl rfl
      · rw [dispatching]
        exact List.Subset.refl _
      · exact ⟨hdr,List.mem_cons_of_mem _ popped,rfl⟩
  | ignore dispatching bare =>
      rename_i worker hdr msgQueue
      have popped := sound.fit worker
      rw [dispatching] at popped
      apply sound.turn worker (.dropped worker hdr none) ⟨popped,bare⟩ rfl rfl
      · rw [dispatching]
        exact List.Subset.refl _
      · exact ⟨hdr,List.mem_cons_of_mem _ popped,rfl⟩
  | last releasing =>
      rename_i worker hdr
      have popped := sound.fit worker
      rw [releasing] at popped
      have freed := sound.turn worker (.freed worker hdr) popped rfl rfl .idle (List.nil_subset _) trivial
      exact freed.note (.returned worker true) trivial rfl rfl
  | next releasing more =>
      rename_i worker hdr msgQueue
      have popped := sound.fit worker
      rw [releasing] at popped
      apply sound.turn worker (.freed worker hdr) popped rfl rfl
      · rw [releasing]
        exact List.Subset.refl _
      · exact more

end GameServer.MsgHandler
