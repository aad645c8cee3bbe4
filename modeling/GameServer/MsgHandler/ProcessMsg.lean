import GameServer.Library.Custody

namespace GameServer.MsgHandler

def MAX_MSG_NUM : UInt32 := 0x600
def MAX_2_MSG_NUM : UInt32 := 0x500
def MIN_INNER_CHECK_MSG : UInt32 := 0x200
def WORKER_THREAD_NEUTRAL : UInt8 := 2
def WORKER_THREAD_DB : UInt8 := 6
def WORKER_THREAD_LOAD : UInt8 := 17
def MAX_THREAD_NUM : UInt8 := 18

-- A message as its block holds it. The player is that of a GameMsgHdr, which
-- every command of the two checked ranges has.
structure Message (π : Type _) where
  desWorkerID : UInt8
  cmdID : UInt32
  player : Option π
  bodyLen : UInt32
  body : List UInt8
  sized : body.length = bodyLen.toNat

-- AllocMsgBlock numbers the blocks.
structure Block (π : Type _) where
  serial : Nat
  msg : Message π

-- What the players answer when they are asked.
structure Players (π : Type _) where
  isJumpingMap : π → Bool
  getThreadId : π → UInt8
  below : ∀ player, getThreadId player < MAX_THREAD_NUM

-- Where a worker is in ProcessMsg, with its msgQueue and hdr. `old` is the
-- message before its desWorkerID was overwritten.
inductive Phase (π : Type _) where
  | idle
  | loop (msgQueue : List (Block π))
  | check (hdr : Block π) (msgQueue : List (Block π))
  | forward (old hdr : Block π) (seen : Players π) (msgQueue : List (Block π))
  | dispatch (hdr : Block π) (msgQueue : List (Block π))
  | release (hdr : Block π) (msgQueue : List (Block π))

namespace Phase
variable {π : Type _}

def msgQueue : Phase π → List (Block π)
  | idle => []
  | loop q | check _ q | forward _ _ _ q | dispatch _ q | release _ q => q

-- The block in hand before and after its message met its fate.
def hand : Phase π → List (Block π)
  | check hdr _ | forward _ hdr _ _ | dispatch hdr _ => [hdr]
  | _ => []

def settled : Phase π → List (Block π)
  | release hdr _ => [hdr]
  | _ => []

end Phase

-- What happened, for the books. A drop is for what the players answered, or
-- for want of a handler.
inductive Event (θ π : Type _) where
  | pushed (workerId : UInt8) (block : Block π)
  | popped (worker : θ) (block : Block π)
  | given (worker : θ) (block : Block π)
  | dropped (worker : θ) (block : Block π) (seen : Option (Players π))
  | requeued (worker : θ) (block copy : Block π) (seen : Players π)
  | freed (worker : θ) (block : Block π)
  | returned (worker : θ) (result : Bool)

-- `ended` by an assertion.
structure Server (θ π : Type _) where
  m_MsgQueue : UInt8 → List (Block π)
  phase : θ → Phase π
  serials : Nat
  ended : Bool
  log : List (Event θ π)

-- The workers: the queue each serves, and the commands it has a handler for.
structure Workers (θ : Type _) where
  m_Worker : θ → UInt8
  bounded : ∀ worker, m_Worker worker < MAX_THREAD_NUM
  m_HandlerList : θ → UInt32 → Bool

inductive Action (θ π : Type _) where
  | push (msg : Message π)
  | enter (worker : θ) (shutdown : Bool)
  | pop (worker : θ)
  | check (worker : θ) (players : Players π)
  | forward (worker : θ)
  | dispatch (worker : θ)
  | release (worker : θ)

def isClient {π : Type _} (msg : Message π) : Bool := msg.cmdID ≤ 0xFF && msg.desWorkerID ≤ WORKER_THREAD_NEUTRAL
def isInner {π : Type _} (msg : Message π) : Bool := MIN_INNER_CHECK_MSG ≤ msg.cmdID && msg.cmdID ≤ MAX_2_MSG_NUM

variable {θ π : Type _}

namespace Server

def start : Server θ π := ⟨fun _ => [],fun _ => .idle,0,false,[]⟩

-- A block with a copy of the message goes to the end of the queue it names.
def PushMsg (s : Server θ π) (msg : Message π) : Server θ π :=
  let workerId := msg.desWorkerID
  if workerId ≥ MAX_THREAD_NUM then s
  else {s with
    m_MsgQueue := Function.update s.m_MsgQueue workerId (s.m_MsgQueue workerId++[⟨s.serials,msg⟩])
    serials := s.serials+1
    log := .pushed workerId ⟨s.serials,msg⟩ :: s.log}

theorem PushMsg_phase (s : Server θ π) (msg : Message π) : (s.PushMsg msg).phase = s.phase := by
  rw [PushMsg]
  split <;> rfl

theorem PushMsg_grows (s : Server θ π) (msg : Message π) : s.log <:+ (s.PushMsg msg).log := by
  rw [PushMsg]
  split
  · exact List.suffix_refl _
  · exact List.suffix_cons _ _

-- The two ranges of commands whose player is asked.
def checked (m_Worker : UInt8) (players : Players π) (hdr : Block π) (msgQueue : List (Block π)) : Phase π :=
  if isClient hdr.msg then
    match hdr.msg.player with
    | none => .dispatch hdr msgQueue
    | some player =>
      if players.isJumpingMap player then .release hdr msgQueue
      else if players.getThreadId player ≠ m_Worker then .release hdr msgQueue
      else .dispatch hdr msgQueue
  else if isInner hdr.msg then
    match hdr.msg.player with
    | none => .dispatch hdr msgQueue
    | some player =>
      let tid := players.getThreadId player
      if tid ≠ m_Worker then .forward hdr {hdr with msg := {hdr.msg with desWorkerID := tid}} players msgQueue
      else .dispatch hdr msgQueue
  else .dispatch hdr msgQueue

section
variable [DecidableEq θ] (ws : Workers θ)

def go (s : Server θ π) (worker : θ) (phase : Phase π) : Server θ π := {s with phase := Function.update s.phase worker phase}

def write (s : Server θ π) (event : Event θ π) : Server θ π := {s with log := event :: s.log}

def step (s : Server θ π) (action : Action θ π) : Option (Server θ π) :=
  if s.ended then none
  else
    match action with
    | .push msg => some (s.PushMsg msg)
    | .enter worker shutdown =>
      match s.phase worker with
      | .idle =>
        let m_Worker := ws.m_Worker worker
        if shutdown ∧ (m_Worker < WORKER_THREAD_DB ∨ m_Worker = WORKER_THREAD_LOAD) then some (s.write (.returned worker false))
        else if (s.m_MsgQueue m_Worker).isEmpty then some (s.write (.returned worker false))
        else some ({s with m_MsgQueue := Function.update s.m_MsgQueue m_Worker []}.go worker (.loop (s.m_MsgQueue m_Worker)))
      | _ => none
    | .pop worker =>
      match s.phase worker with
      | .loop (hdr :: msgQueue) =>
        -- assert(hdr->cmdID < MAX_MSG_NUM)
        some ({s with ended := decide (MAX_MSG_NUM ≤ hdr.msg.cmdID)}.go worker (.check hdr msgQueue) |>.write (.popped worker hdr))
      | _ => none
    | .check worker players =>
      match s.phase worker with
      | .check hdr msgQueue =>
        match checked (ws.m_Worker worker) players hdr msgQueue with
        | .release hdr msgQueue => some (s.go worker (.release hdr msgQueue) |>.write (.dropped worker hdr (some players)))
        | phase => some (s.go worker phase)
      | _ => none
    | .forward worker =>
      match s.phase worker with
      | .forward old hdr seen msgQueue =>
        some ((s.PushMsg hdr.msg).go worker (.release hdr msgQueue) |>.write (.requeued worker old ⟨s.serials,hdr.msg⟩ seen))
      | _ => none
    | .dispatch worker =>
      match s.phase worker with
      | .dispatch hdr msgQueue =>
        let event := if ws.m_HandlerList worker hdr.msg.cmdID then .given worker hdr else .dropped worker hdr none
        some (s.go worker (.release hdr msgQueue) |>.write event)
      | _ => none
    | .release worker =>
      match s.phase worker with
      | .release hdr msgQueue =>
        let s := s.write (.freed worker hdr)
        if msgQueue.isEmpty then some (s.go worker .idle |>.write (.returned worker true)) else some (s.go worker (.loop msgQueue))
      | _ => none

end

end Server

-- Why a message of a player is refused, and where it is sent on to.
def Refused (m_Worker : UInt8) (players : Players π) (msg : Message π) : Prop :=
  isClient msg = true ∧ ∃ player, msg.player = some player ∧
    (players.isJumpingMap player = true ∨ players.getThreadId player ≠ m_Worker)

def Elsewhere (m_Worker : UInt8) (players : Players π) (msg copy : Message π) : Prop :=
  isInner msg = true ∧ ∃ player, msg.player = some player ∧ players.getThreadId player ≠ m_Worker ∧
    copy = {msg with desWorkerID := players.getThreadId player}

inductive Checked (m_Worker : UInt8) (players : Players π) (hdr : Block π) (msgQueue : List (Block π)) : Phase π → Prop where
  | dispatch : Checked m_Worker players hdr msgQueue (.dispatch hdr msgQueue)
  | refused : Refused m_Worker players hdr.msg → Checked m_Worker players hdr msgQueue (.release hdr msgQueue)
  | elsewhere : Elsewhere m_Worker players hdr.msg copy →
      Checked m_Worker players hdr msgQueue (.forward hdr ⟨hdr.serial,copy⟩ players msgQueue)

theorem checked_cases (m_Worker : UInt8) (players : Players π) (hdr : Block π) (msgQueue : List (Block π)) :
    Checked m_Worker players hdr msgQueue (Server.checked m_Worker players hdr msgQueue) := by
  rw [Server.checked]
  split
  · rename_i client
    split
    · exact .dispatch
    · rename_i player known
      split
      · rename_i jumping
        exact .refused ⟨client,player,known,.inl jumping⟩
      · split
        · rename_i away
          exact .refused ⟨client,player,known,.inr away⟩
        · exact .dispatch
  · split
    · rename_i inner
      split
      · exact .dispatch
      · rename_i player known
        dsimp only
        split
        · rename_i away
          exact .elsewhere ⟨inner,player,known,away,rfl⟩
        · exact .dispatch
    · exact .dispatch

variable [DecidableEq θ]

-- What a step can do.
inductive Move (ws : Workers θ) (s : Server θ π) : Action θ π → Server θ π → Prop where
  | push : Move ws s (.push msg) (s.PushMsg msg)
  | back : s.phase worker = .idle → Move ws s (.enter worker shutdown) (s.write (.returned worker false))
  | swap : s.phase worker = .idle → s.m_MsgQueue (ws.m_Worker worker) ≠ [] →
      Move ws s (.enter worker shutdown)
        ({s with m_MsgQueue := Function.update s.m_MsgQueue (ws.m_Worker worker) []}.go worker (.loop (s.m_MsgQueue (ws.m_Worker worker))))
  | pop : s.phase worker = .loop (hdr :: msgQueue) →
      Move ws s (.pop worker)
        ({s with ended := decide (MAX_MSG_NUM ≤ hdr.msg.cmdID)}.go worker (.check hdr msgQueue) |>.write (.popped worker hdr))
  | refuse : s.phase worker = .check hdr msgQueue → Refused (ws.m_Worker worker) players hdr.msg →
      Move ws s (.check worker players) (s.go worker (.release hdr msgQueue) |>.write (.dropped worker hdr (some players)))
  | accept : s.phase worker = .check hdr msgQueue → Move ws s (.check worker players) (s.go worker (.dispatch hdr msgQueue))
  | redirect : s.phase worker = .check hdr msgQueue → Elsewhere (ws.m_Worker worker) players hdr.msg copy →
      Move ws s (.check worker players) (s.go worker (.forward hdr ⟨hdr.serial,copy⟩ players msgQueue))
  | requeue : s.phase worker = .forward old hdr seen msgQueue →
      Move ws s (.forward worker)
        ((s.PushMsg hdr.msg).go worker (.release hdr msgQueue) |>.write (.requeued worker old ⟨s.serials,hdr.msg⟩ seen))
  | give : s.phase worker = .dispatch hdr msgQueue → ws.m_HandlerList worker hdr.msg.cmdID = true →
      Move ws s (.dispatch worker) (s.go worker (.release hdr msgQueue) |>.write (.given worker hdr))
  | ignore : s.phase worker = .dispatch hdr msgQueue → ws.m_HandlerList worker hdr.msg.cmdID = false →
      Move ws s (.dispatch worker) (s.go worker (.release hdr msgQueue) |>.write (.dropped worker hdr none))
  | last : s.phase worker = .release hdr [] →
      Move ws s (.release worker) ((s.write (.freed worker hdr)).go worker .idle |>.write (.returned worker true))
  | next : s.phase worker = .release hdr msgQueue → msgQueue ≠ [] →
      Move ws s (.release worker) ((s.write (.freed worker hdr)).go worker (.loop msgQueue))

theorem step_cases {ws : Workers θ} {s next : Server θ π} {action : Action θ π} (moved : s.step ws action = some next) :
    s.ended = false ∧ Move ws s action next := by
  unfold Server.step at moved
  split at moved
  · cases moved
  · rename_i running
    refine ⟨Bool.eq_false_iff.mpr running,?_⟩
    cases action with
    | push msg =>
        cases Option.some.inj moved
        exact .push
    | enter worker shutdown =>
        dsimp only at moved
        split at moved
        · rename_i idle
          split at moved
          · cases Option.some.inj moved
            exact .back idle
          · split at moved
            · cases Option.some.inj moved
              exact .back idle
            · rename_i filled
              cases Option.some.inj moved
              exact .swap idle (by simpa using filled)
        · cases moved
    | pop worker =>
        dsimp only at moved
        split at moved
        · rename_i hdr msgQueue looping
          cases Option.some.inj moved
          exact .pop looping
        · cases moved
    | check worker players =>
        dsimp only at moved
        split at moved
        · rename_i hdr msgQueue checking
          have outcome := checked_cases (ws.m_Worker worker) players hdr msgQueue
          generalize Server.checked (ws.m_Worker worker) players hdr msgQueue = phase at moved outcome
          cases outcome with
          | dispatch =>
              cases Option.some.inj moved
              exact .accept checking
          | refused why =>
              cases Option.some.inj moved
              exact .refuse checking why
          | elsewhere where_ =>
              cases Option.some.inj moved
              exact .redirect checking where_
        · cases moved
    | forward worker =>
        dsimp only at moved
        split at moved
        · rename_i old hdr seen msgQueue forwarding
          cases Option.some.inj moved
          exact .requeue forwarding
        · cases moved
    | dispatch worker =>
        dsimp only at moved
        split at moved
        · rename_i hdr msgQueue dispatching
          cases Option.some.inj moved
          split
          · rename_i handled
            exact .give dispatching handled
          · rename_i bare
            exact .ignore dispatching (Bool.eq_false_iff.mpr bare)
        · cases moved
    | release worker =>
        dsimp only at moved
        split at moved
        · rename_i hdr msgQueue releasing
          split at moved
          · rename_i empty
            cases Option.some.inj moved
            cases List.isEmpty_iff.mp empty
            exact .last releasing
          · rename_i more
            cases Option.some.inj moved
            exact .next releasing (by simpa using more)
        · cases moved

end GameServer.MsgHandler
