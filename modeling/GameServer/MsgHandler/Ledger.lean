import GameServer.MsgHandler.ProcessMsg

namespace GameServer.MsgHandler

variable {θ π : Type _}

-- Where a block can lie.
inductive Site (θ : Type _) where
  | queue (workerId : UInt8)
  | bag (worker : θ)
  | hand (worker : θ)
  | settled (worker : θ)
  deriving DecidableEq

def stock (s : Server θ π) : Site θ → List Nat
  | .queue workerId => (s.m_MsgQueue workerId).map Block.serial
  | .bag worker => (s.phase worker).msgQueue.map Block.serial
  | .hand worker => (s.phase worker).hand.map Block.serial
  | .settled worker => (s.phase worker).settled.map Block.serial

-- What the books can say of a block. Its message is fated when it was given to
-- its handler, dropped or put on another queue.
inductive Stage where
  | pushed
  | popped
  | fated
  | freed
  deriving DecidableEq

def Event.stage : Event θ π → Option (Stage × Nat)
  | pushed _ block => some (.pushed,block.serial)
  | popped _ block => some (.popped,block.serial)
  | given _ block | dropped _ block _ | requeued _ block _ _ => some (.fated,block.serial)
  | freed _ block => some (.freed,block.serial)
  | returned _ _ => none

def times (log : List (Event θ π)) (stage : Stage) (n : Nat) : Nat :=
  log.countP fun event => decide (event.stage = some (stage,n))

-- The stages behind a block that lies at the site, or that lies nowhere any more.
def behind : Option (Site θ) → Stage → Bool
  | _,.pushed => true
  | some (.queue _),_ | some (.bag _),_ => false
  | some (.hand _),stage => stage = .popped
  | some (.settled _),stage => stage ≠ .freed
  | none,_ => true

-- Every block that was pushed lies in one place, once, or nowhere, and the
-- books have each stage behind it once and no other.
structure Ledger (place : Nat → Option (Site θ)) (s : Server θ π) : Prop where
  custody : Custody place (stock s)
  unborn : ∀ n, s.serials ≤ n → place n = none
  counted : ∀ stage n, times s.log stage n = if n < s.serials ∧ behind (place n) stage = true then 1 else 0

theorem times_cons (event : Event θ π) (log : List (Event θ π)) (stage : Stage) (n : Nat) :
    times (event :: log) stage n = times log stage n + if event.stage = some (stage,n) then 1 else 0 := by
  rw [times,List.countP_cons,times]
  simp only [decide_eq_true_eq]

theorem times_returned (worker : θ) (result : Bool) (log : List (Event θ π)) (stage : Stage) (n : Nat) :
    times (.returned worker result :: log) stage n = times log stage n := by
  rw [times_cons]
  simp [Event.stage]

theorem stock_write (s : Server θ π) (event : Event θ π) : stock (s.write event) = stock s := rfl

variable {place : Nat → Option (Site θ)} {s next : Server θ π}

-- A step that moves no block and writes nothing of one.
theorem Ledger.same (ledger : Ledger place s) (stocks : stock next = stock s) (serials : next.serials = s.serials)
    (books : ∀ stage n, times next.log stage n = times s.log stage n) : Ledger place next := by
  constructor
  · rw [stocks]
    exact ledger.custody
  · rw [serials]
    exact ledger.unborn
  · intro stage n
    rw [books,serials]
    exact ledger.counted stage n

-- A block moves to another place, and the books have the stage it met.
theorem Ledger.move (ledger : Ledger place s) (known : place n ≠ none)
    (custody : Custody (Function.update place n goal) (stock next)) (serials : next.serials = s.serials)
    (books : next.log = event :: s.log) (met : event.stage = some (stage,n))
    (gain : ∀ other, behind goal other = true ↔ other = stage ∨ behind (place n) other = true)
    (ahead : behind (place n) stage = false) : Ledger (Function.update place n goal) next := by
  have born : n < s.serials := by
    by_contra above
    exact known (ledger.unborn n (by omega))
  refine ⟨custody,?_,?_⟩
  · intro m above
    rw [serials] at above
    rw [Function.update_of_ne (by omega)]
    exact ledger.unborn m above
  · intro other m
    rw [books,times_cons,met,ledger.counted,serials]
    by_cases this : m = n
    · subst this
      rw [Function.update_self]
      by_cases here : stage = other
      · subst here
        simp [born,ahead,(gain stage).mpr (.inl rfl)]
      · simp [gain other,here,Ne.symm here]
    · rw [Function.update_of_ne this]
      simp [Ne.symm this]

-- Two events of the books that are one stage of one block are one event.
theorem one_event {l : List α} {p : α → Bool} (few : l.countP p ≤ 1) (one : a ∈ l) (other : b ∈ l) (fits : p a = true)
    (fits' : p b = true) : a = b := by
  induction l with
  | nil => cases one
  | cons head rest ih =>
      rw [List.countP_cons] at few
      have none_more (here : p head = true) : ∀ x ∈ rest, ¬ p x = true := by
        rw [if_pos here] at few
        exact List.countP_eq_zero.mp (by omega)
      rcases List.mem_cons.mp one with rfl | later
      · rcases List.mem_cons.mp other with rfl | later
        · rfl
        · exact absurd fits' (none_more fits b later)
      · rcases List.mem_cons.mp other with rfl | later'
        · exact absurd fits (none_more fits' a later)
        · exact ih (by omega) later later'

theorem popped_once (ledger : Ledger place s) (one : .popped worker block ∈ s.log) (other : .popped worker' block' ∈ s.log)
    (same : block'.serial = block.serial) : worker' = worker ∧ block' = block := by
  have few : times s.log .popped block.serial ≤ 1 := by
    rw [ledger.counted]
    split <;> omega
  have event := one_event few one other (by simp [Event.stage]) (by simp [Event.stage,same])
  cases event
  exact ⟨rfl,rfl⟩

variable [DecidableEq θ]

-- The stocks after a worker moved on.
theorem stock_go {f : Site θ → List Nat} (queue : ∀ workerId, f (.queue workerId) = stock s (.queue workerId))
    (bag : f (.bag worker) = phase.msgQueue.map Block.serial) (hand : f (.hand worker) = phase.hand.map Block.serial)
    (settled : f (.settled worker) = phase.settled.map Block.serial)
    (others : ∀ other, other ≠ worker → f (.bag other) = stock s (.bag other) ∧ f (.hand other) = stock s (.hand other) ∧
      f (.settled other) = stock s (.settled other)) : stock (s.go worker phase) = f := by
  funext site
  cases site with
  | queue workerId => exact (queue workerId).symm
  | bag other =>
      by_cases same : other = worker
      · subst same
        simp [stock,Server.go,bag]
      · rw [(others other same).1]
        simp [stock,Server.go,same]
  | hand other =>
      by_cases same : other = worker
      · subst same
        simp [stock,Server.go,hand]
      · rw [(others other same).2.1]
        simp [stock,Server.go,same]
  | settled other =>
      by_cases same : other = worker
      · subst same
        simp [stock,Server.go,settled]
      · rw [(others other same).2.2]
        simp [stock,Server.go,same]

theorem stock_queue (workerId : UInt8) (msgQueue : List (Block π)) :
    stock {s with m_MsgQueue := Function.update s.m_MsgQueue workerId msgQueue} =
      Function.update (stock s) (.queue workerId) (msgQueue.map Block.serial) := by
  funext site
  cases site with
  | queue other =>
      by_cases same : other = workerId
      · subst same
        simp [stock]
      · simp [stock,same]
  | bag worker => simp [stock]
  | hand worker => simp [stock]
  | settled worker => simp [stock]

-- A new block comes to the end of a queue.
theorem Ledger.push (ledger : Ledger place s) (workerId : UInt8) (msg : Message π) :
    Ledger (Function.update place s.serials (some (.queue workerId)))
      {s with
        m_MsgQueue := Function.update s.m_MsgQueue workerId (s.m_MsgQueue workerId++[⟨s.serials,msg⟩])
        serials := s.serials+1
        log := .pushed workerId ⟨s.serials,msg⟩ :: s.log} := by
  have new := ledger.unborn s.serials (Nat.le_refl _)
  refine ⟨?_,?_,?_⟩
  · have put := ledger.custody.put new (.queue workerId)
    convert put using 1
    have stocks := stock_queue (s := s) workerId (s.m_MsgQueue workerId++[⟨s.serials,msg⟩])
    rw [List.map_append] at stocks
    exact stocks
  · intro n above
    change s.serials+1 ≤ n at above
    rw [Function.update_of_ne (by omega)]
    exact ledger.unborn n (by omega)
  · intro stage n
    rw [times_cons,ledger.counted]
    by_cases this : n = s.serials
    · subst this
      rw [Function.update_self]
      cases stage <;> simp [Event.stage,behind]
    · rw [Function.update_of_ne this]
      have later : n < s.serials+1 ↔ n < s.serials := by omega
      simp [Event.stage,later,Ne.symm this]

theorem Ledger.PushMsg (ledger : Ledger place s) (msg : Message π) : ∃ place, Ledger place (s.PushMsg msg) := by
  rw [Server.PushMsg]
  split
  · exact ⟨place,ledger⟩
  · exact ⟨_,ledger.push msg.desWorkerID msg⟩

-- The whole queue goes to the worker's own.
theorem Ledger.swap (ledger : Ledger place s) (idle : s.phase worker = .idle) (workerId : UInt8) :
    Ledger (fun n => if place n = some (.queue workerId) then some (.bag worker) else place n)
      ({s with m_MsgQueue := Function.update s.m_MsgQueue workerId []}.go worker (.loop (s.m_MsgQueue workerId))) := by
  refine ⟨?_,?_,?_⟩
  · have empty : stock s (.bag worker) = [] := by simp [stock,idle,Phase.msgQueue]
    have drain := ledger.custody.drain (a := .queue workerId) empty (by simp)
    convert drain using 1
    apply stock_go
    · intro other
      rw [stock_queue,Function.update_of_ne (by simp)]
      rfl
    · simp [stock,Phase.msgQueue]
    · simp [stock,Phase.hand,idle]
    · simp [stock,Phase.settled,idle]
    · intro other same
      simp [stock,same]
  · intro n above
    simp [ledger.unborn n above]
  · intro stage n
    change times s.log stage n = _
    rw [ledger.counted]
    by_cases queued : place n = some (.queue workerId)
    · rw [if_pos queued,queued]
      cases stage <;> rfl
    · rw [if_neg queued]
      rfl

-- The first block of a worker's own queue comes to hand.
theorem Ledger.pop (ledger : Ledger place s) (looping : s.phase worker = .loop (hdr :: msgQueue)) (ended : Bool) :
    Ledger (Function.update place hdr.serial (some (.hand worker)))
      ({s with ended := ended}.go worker (.check hdr msgQueue) |>.write (.popped worker hdr)) := by
  have first : stock s (.bag worker) = hdr.serial :: msgQueue.map Block.serial := by simp [stock,looping,Phase.msgQueue]
  have here : place hdr.serial = some (.bag worker) := (ledger.custody.here _ _).mp (first ▸ List.mem_cons_self)
  refine ledger.move (by simp [here]) ?_ rfl rfl rfl ?_ (by simp [here,behind])
  · have pass := ledger.custody.pass (b := .hand worker) first (by simp)
    convert pass using 1
    rw [stock_write]
    apply stock_go
    · intro workerId
      simp [stock]
    · simp [Phase.msgQueue]
    · simp [stock,Phase.hand,looping]
    · simp [stock,Phase.settled,looping]
    · intro other same
      simp [stock,same]
  · intro stage
    cases stage <;> simp [here,behind]

-- The message of the block in hand met its fate.
theorem Ledger.settle (ledger : Ledger place s) (queue : (s.phase worker).msgQueue = msgQueue)
    (hand : (s.phase worker).hand = [hdr]) (settled : (s.phase worker).settled = [])
    (fate : event.stage = some (.fated,hdr.serial)) :
    Ledger (Function.update place hdr.serial (some (.settled worker))) (s.go worker (.release hdr msgQueue) |>.write event) := by
  have first : stock s (.hand worker) = hdr.serial :: [] := by simp [stock,hand]
  have here : place hdr.serial = some (.hand worker) := (ledger.custody.here _ _).mp (first ▸ List.mem_cons_self)
  refine ledger.move (by simp [here]) ?_ rfl rfl fate ?_ (by simp [here,behind])
  · have pass := ledger.custody.pass (b := .settled worker) first (by simp)
    convert pass using 1
    rw [stock_write]
    apply stock_go
    · intro workerId
      simp [stock]
    · rw [Phase.msgQueue,← queue]
      simp [stock]
    · simp [Phase.hand]
    · rw [Function.update_self,stock,settled]
      rfl
    · intro other same
      simp [stock,same]
  · intro stage
    cases stage <;> simp [here,behind]

-- A settled block is freed.
theorem Ledger.free (ledger : Ledger place s) (releasing : s.phase worker = .release hdr msgQueue) (phase : Phase π)
    (queue : phase.msgQueue = msgQueue) (hand : phase.hand = []) (settled : phase.settled = []) :
    Ledger (Function.update place hdr.serial none) ((s.write (.freed worker hdr)).go worker phase) := by
  have first : stock s (.settled worker) = hdr.serial :: [] := by simp [stock,releasing,Phase.settled]
  have here : place hdr.serial = some (.settled worker) := (ledger.custody.here _ _).mp (first ▸ List.mem_cons_self)
  have empty : stock s (.hand worker) = [] := by simp [stock,releasing,Phase.hand]
  refine ledger.move (by simp [here]) ?_ rfl rfl rfl ?_ (by simp [here,behind])
  · have take := ledger.custody.take first
    convert take using 1
    apply stock_go
    · intro workerId
      simp [stock,Server.write]
    · simp [stock,releasing,Phase.msgQueue,← queue]
    · simp [empty,hand]
    · simp [settled]
    · intro other same
      simp [stock,Server.write,same]
  · intro stage
    cases stage <;> simp [here,behind]

-- Where its message goes is decided while the block stays in hand.
theorem Ledger.hold (ledger : Ledger place s) (phase : Phase π) (queue : phase.msgQueue = (s.phase worker).msgQueue)
    (hand : phase.hand.map Block.serial = (s.phase worker).hand.map Block.serial)
    (settled : phase.settled = (s.phase worker).settled) : Ledger place (s.go worker phase) := by
  refine ledger.same ?_ rfl (fun _ _ => rfl)
  apply stock_go
  · intro workerId
    rfl
  · rw [queue]
    rfl
  · rw [hand]
    rfl
  · rw [settled]
    rfl
  · intro other same
    exact ⟨rfl,rfl,rfl⟩

theorem ledger_step {ws : Workers θ} {action : Action θ π} (ledger : Ledger place s) (move : Move ws s action next)
    (same : ∀ worker old hdr seen msgQueue, s.phase worker = .forward old hdr seen msgQueue → old.serial = hdr.serial) :
    ∃ place, Ledger place next := by
  cases move with
  | push => exact ledger.PushMsg _
  | back idle => exact ⟨_,ledger.same rfl rfl (times_returned _ _ _)⟩
  | swap idle filled => exact ⟨_,ledger.swap idle _⟩
  | pop looping => exact ⟨_,ledger.pop looping _⟩
  | accept checking | redirect checking =>
      refine ⟨_,ledger.hold _ ?_ ?_ ?_⟩ <;> rw [checking] <;> rfl
  | requeue forwarding =>
      obtain ⟨_,pushed⟩ := ledger.PushMsg _
      refine ⟨_,pushed.settle ?_ ?_ ?_ (congrArg some (congrArg _ (same _ _ _ _ _ forwarding)))⟩ <;>
        rw [Server.PushMsg_phase,forwarding] <;> rfl
  | refuse phase | give phase | ignore phase =>
      refine ⟨_,ledger.settle ?_ ?_ ?_ rfl⟩ <;> rw [phase] <;> rfl
  | last releasing =>
      have freed := ledger.free releasing .idle rfl rfl rfl
      exact ⟨_,freed.same rfl rfl (times_returned _ _ _)⟩
  | next releasing more => exact ⟨_,ledger.free releasing _ rfl rfl rfl⟩

end GameServer.MsgHandler
