import GameServer.Network.FreeSlots
import GameServer.Network.Worker

namespace GameServer.Network.Requests
open TcpSlaveServer FreeSlots History

def queue (w : Worker) : List OpStruct := w.rlist ++ w.opList

-- A queue is safe over a table when each remove in it finds its own asker or an
-- empty seat: an accept fills some empty seat, so every asker behind it sits.
def Safe (seats : Nat → Option TcpConduit) : List OpStruct → Prop
  | [] => True
  | .accepted _ :: rest =>
    (∀ id asker, .remove id asker ∈ rest → seats (slot id) = some asker) ∧ Safe seats rest
  | .remove id asker :: rest =>
    (seats (slot id) = some asker ∨ seats (slot id) = none) ∧ Safe (Function.update seats (slot id) none) rest

def Passed (i : Nat) : List OpStruct → Prop
  | [] => False
  | .accepted _ :: rest => Passed i rest
  | .remove id _ :: rest => (slot id = i ∧ ∃ ss, .accepted ss ∈ rest) ∨ Passed i rest

theorem safe_congr {f g : Nat → Option TcpConduit} {q : List OpStruct}
    (agree : ∀ id asker, .remove id asker ∈ q → g (slot id) = f (slot id)) (safe : Safe f q) : Safe g q := by
  induction q generalizing f g with
  | nil => trivial
  | cons op rest ih =>
      have later : ∀ id asker, .remove id asker ∈ rest → g (slot id) = f (slot id) :=
        fun id asker member => agree id asker (List.mem_cons_of_mem _ member)
      cases op with
      | accepted ss =>
          refine ⟨?_,ih later safe.2⟩
          intro id asker member
          rw [later id asker member]
          exact safe.1 id asker member
      | remove id asker =>
          refine ⟨by rw [agree id asker List.mem_cons_self]; exact safe.1,ih ?_ safe.2⟩
          intro other owner member
          by_cases same : slot other = slot id
          · rw [same]; simp
          · rw [Function.update_of_ne same,Function.update_of_ne same]
            exact later other owner member

theorem safe_accepted {seats : Nat → Option TcpConduit} {q : List OpStruct} (safe : Safe seats q) (ss : Int) :
    Safe seats (q ++ [.accepted ss]) := by
  induction q generalizing seats with
  | nil => exact ⟨fun _ _ member => absurd member List.not_mem_nil,trivial⟩
  | cons op rest ih =>
      cases op with
      | accepted _ =>
          refine ⟨?_,ih safe.2⟩
          intro id asker member
          apply safe.1 id asker
          simpa using member
      | remove id asker => exact ⟨safe.1,ih safe.2⟩

-- A new remove is safe behind its seated asker; once that has gone it is safe
-- as long as nobody can have come.
theorem safe_remove {seats : Nat → Option TcpConduit} {q : List OpStruct} {id : Int} (safe : Safe seats q)
    (here : (seats (slot id) = some asker ∧ ¬Passed (slot id) q) ∨
      (seats (slot id) = none ∧ ∀ ss, .accepted ss ∉ q)) :
    Safe seats (q ++ [.remove id asker]) := by
  induction q generalizing seats with
  | nil =>
      refine ⟨?_,trivial⟩
      rcases here with seated | gone
      · exact .inl seated.1
      · exact .inr gone.1
  | cons op rest ih =>
      cases op with
      | accepted ss =>
          rcases here with seated | gone
          · refine ⟨?_,ih safe.2 (.inl seated)⟩
            intro other owner member
            rcases List.mem_append.mp member with old | new
            · exact safe.1 other owner old
            · cases List.mem_singleton.mp new
              exact seated.1
          · exact absurd List.mem_cons_self (gone.2 ss)
      | remove other owner =>
          refine ⟨safe.1,ih safe.2 ?_⟩
          by_cases same : slot id = slot other
          · refine .inr ⟨by rw [same]; simp,?_⟩
            intro ss member
            rcases here with seated | gone
            · exact seated.2 (.inl ⟨same.symm,ss,member⟩)
            · exact gone.2 ss (List.mem_cons_of_mem _ member)
          · rw [Function.update_of_ne same]
            rcases here with seated | gone
            · exact .inl ⟨seated.1,fun passed => seated.2 (.inr passed)⟩
            · exact .inr ⟨gone.1,fun ss member => gone.2 ss (List.mem_cons_of_mem _ member)⟩

structure Valid (w : Worker) : Prop where
  holes : Holes w.server
  safe : Safe (seat w.server) (queue w)

theorem valid_empty (slaveIdx : UInt32) : Valid (Worker.empty slaveIdx) := ⟨holes_empty slaveIdx,trivial⟩

-- A conduit may ask to be removed while it has its seat and no accept waits
-- behind an earlier request for that seat.
def MayAsk (w : Worker) (c : TcpConduit) : Prop :=
  seat w.server (slot c.uid) = some c ∧ ¬Passed (slot c.uid) (queue w)

def Timely (w : Worker) : Command → Prop
  | .initConnection stype => 1 ≤ stype
  | .lostConnection stype => 1 ≤ stype
  | .on_read c p => Worker.closes p = true → MayAsk w c
  | .on_event c wht => Worker.ends wht = true → MayAsk w c
  | .remove c => MayAsk w c
  | _ => True

-- A remove that is served takes its asker or changes nothing, and leaves every
-- other conduit on its seat.
def Own (w : Worker) : Command → Option TcpConduit → Worker → Prop
  | .serve _,gone,next => ∀ id asker rest, w.rlist = .remove id asker :: rest →
      (seat w.server (slot id) = some asker ∨ next.server = w.server) ∧
      (∀ c, gone = some c → c = asker) ∧
      ∀ i c, seat w.server i = some c → c ≠ asker → seat next.server i = some c
  | _,_,_ => True

theorem remove_missed {id : Int} (gone : seat s (slot id) = none) : s._remove id = s := by
  unfold _remove
  dsimp only
  split
  · rename_i present
    exact absurd gone present.2
  · rfl

theorem remove_valid (valid : Valid w) (may : MayAsk w c) : Valid (w.remove c) := by
  refine ⟨valid.holes,?_⟩
  have same : queue (w.remove c) = queue w ++ [.remove c.uid c] := (List.append_assoc ..).symm
  rw [same]
  exact safe_remove valid.safe (.inl may)

theorem accepted_valid (valid : Valid w) (holes : Holes next.server) (seats : seat next.server = seat w.server)
    (posted : queue next = queue w ++ [.accepted ss]) : Valid next := by
  refine ⟨holes,?_⟩
  rw [posted,seats]
  exact safe_accepted valid.safe ss

theorem initConnection_parts (moved : w.initConnection stype = some next) :
    next = w ∨ (queue next = queue w ++ [.accepted (-stype)] ∧ next.server.emptySet = w.server.emptySet ∧
      next.server.conduits = w.server.conduits) := by
  unfold Worker.initConnection at moved
  split at moved
  · exact .inl (Option.some.inj moved).symm
  split at moved
  · cases moved
  split at moved
  · exact .inl (Option.some.inj moved).symm
  · cases Option.some.inj moved
    exact .inr ⟨(List.append_assoc ..).symm,rfl,rfl⟩

theorem lostConnection_parts (moved : w.lostConnection stype = some next) :
    queue next = queue w ∧ next.server.emptySet = w.server.emptySet ∧ next.server.conduits = w.server.conduits := by
  unfold Worker.lostConnection at moved
  split at moved
  · cases Option.some.inj moved; exact ⟨rfl,rfl,rfl⟩
  split at moved
  · cases moved
  · cases Option.some.inj moved; exact ⟨rfl,rfl,rfl⟩

theorem initConnection_returns {w : Worker} (positive : 1 ≤ stype) : ∃ next, w.initConnection stype = some next := by
  unfold Worker.initConnection
  split
  · exact ⟨_,rfl⟩
  rw [if_neg (by omega)]
  split <;> exact ⟨_,rfl⟩

theorem lostConnection_returns {w : Worker} (positive : 1 ≤ stype) : ∃ next, w.lostConnection stype = some next := by
  unfold Worker.lostConnection
  split
  · exact ⟨_,rfl⟩
  rw [if_neg (by omega)]
  exact ⟨_,rfl⟩

theorem check_valid (valid : Valid w) : Valid w.onOpCheck := by
  obtain ⟨server,opList,rlist,made⟩ := w
  cases rlist with
  | nil => exact ⟨valid.holes,by simpa [queue,Worker.onOpCheck] using valid.safe⟩
  | cons op rest => exact valid

-- The conduit that an accept seats takes nobody's place, and no request in the
-- queue names that place.
theorem serve_accepted (valid : Valid w) (head : w.rlist = .accepted ss :: rest)
    (moved : w.server._accepted ss answer = some server) :
    Valid {w with server := server,rlist := rest,made := w.made+1} := by
  have safe := valid.safe
  have order : queue w = .accepted ss :: (rest ++ w.opList) := by simp [queue,head]
  rw [order] at safe
  refine ⟨accepted_holes valid.holes moved,?_⟩
  cases admitted moved with
  | away failed seats connUp =>
      dsimp only [queue]
      rw [seats]
      exact safe.2
  | seated serial made seats connUp =>
      apply safe_congr _ safe.2
      intro id asker member
      have sits := safe.1 id asker member
      have other : slot id ≠ nextSlot w.server := by
        intro same
        rw [same,seat_next valid.holes] at sits
        cases sits
      rw [seats,Function.update_of_ne other]

theorem serve_remove {id : Int} (answer : Answer) (valid : Valid w) (head : w.rlist = .remove id asker :: rest) :
    Valid {w with server := w.server._remove id,rlist := rest} ∧
      Own w (.serve answer) (seat w.server (slot id)) {w with server := w.server._remove id,rlist := rest} := by
  have safe := valid.safe
  have order : queue w = .remove id asker :: (rest ++ w.opList) := by simp [queue,head]
  rw [order] at safe
  constructor
  · refine ⟨remove_holes valid.holes id,?_⟩
    dsimp only [queue]
    rw [remove_seats]
    exact safe.2
  · intro id' asker' rest' head'
    cases head.symm.trans head'
    refine ⟨?_,?_,?_⟩
    · rcases safe.1 with sits | gone
      · exact .inl sits
      · exact .inr (remove_missed gone)
    · intro c taken
      rcases safe.1 with sits | gone
      · exact Option.some.inj (taken.symm.trans sits)
      · rw [gone] at taken; cases taken
    · intro i c sits other
      dsimp only
      rw [remove_seats]
      by_cases own : i = slot id
      · subst own
        rcases safe.1 with asked | gone
        · exact absurd (Option.some.inj (sits.symm.trans asked)) other
        · rw [gone] at sits; cases sits
      · rw [Function.update_of_ne own]
        exact sits

theorem step_own (valid : Valid w) (timely : Timely w command) :
    ∃ gone next, workerStep w command = some (gone,next) ∧ Own w command gone next ∧ Valid next := by
  cases command with
  | accepted ss => exact ⟨_,_,rfl,trivial,accepted_valid valid valid.holes rfl (List.append_assoc ..).symm⟩
  | initConnection stype =>
      obtain ⟨next,moved⟩ := initConnection_returns (w := w) timely
      refine ⟨none,next,by simp [workerStep,moved],trivial,?_⟩
      rcases initConnection_parts moved with same | ⟨posted,emptySet,conduits⟩
      · exact same ▸ valid
      · exact accepted_valid valid (holes_congr conduits emptySet valid.holes) (seat_same conduits) posted
  | lostConnection stype =>
      obtain ⟨next,moved⟩ := lostConnection_returns (w := w) timely
      obtain ⟨same,emptySet,conduits⟩ := lostConnection_parts moved
      refine ⟨none,next,by simp [workerStep,moved],trivial,holes_congr conduits emptySet valid.holes,?_⟩
      rw [same,seat_same conduits]
      exact valid.safe
  | on_read c p =>
      refine ⟨_,_,rfl,trivial,?_⟩
      unfold Worker.on_read
      split
      · exact remove_valid valid (timely ‹_›)
      · exact valid
  | on_event c wht =>
      refine ⟨_,_,rfl,trivial,?_⟩
      unfold Worker.on_event
      split
      · exact remove_valid valid (timely ‹_›)
      · exact valid
  | remove c => exact ⟨_,_,rfl,trivial,remove_valid valid timely⟩
  | onOpCheck => exact ⟨_,_,rfl,trivial,check_valid valid⟩
  | serve answer =>
      cases head : w.rlist with
      | nil =>
          refine ⟨none,w,by simp [workerStep,Worker.serve,head],?_,valid⟩
          intro id asker rest other
          rw [head] at other
          cases other
      | cons op rest =>
          cases op with
          | accepted ss =>
              obtain ⟨server,moved⟩ := (holes_ends valid.holes).2 ss (answer.numbered w.made)
              refine ⟨none,_,by simp [workerStep,Worker.serve,head,moved],?_,serve_accepted valid head moved⟩
              intro id asker rest' other
              rw [head] at other
              cases other
          | remove id asker =>
              obtain ⟨kept,own⟩ := serve_remove answer valid head
              exact ⟨_,_,by simp only [workerStep,Worker.serve,head]; rfl,own,kept⟩

-- In every order of accepts, requests, events and turns of onOpCheck, a remove
-- that is served takes the conduit that asked for it or nobody, when each
-- conduit asks in time.
theorem removes_own (slaveIdx : UInt32) (history : List Command)
    (timely : Guarded workerStep Timely (Worker.empty slaveIdx) history) :
    Along workerStep Own (Worker.empty slaveIdx) history :=
  along_of_guarded (valid_empty slaveIdx) (fun _ _ valid allowed => step_own valid allowed) timely

def first : TcpConduit := ⟨0,5,0⟩

-- Two clients come, the first one's socket ends, a third takes its slot.
theorem removes_own_third : Along workerStep Own (Worker.empty 0)
    [.accepted 5,.onOpCheck,.serve ⟨.built 0,false⟩,.on_event first 0x10,.accepted 6,.onOpCheck,
      .serve ⟨.null,false⟩,.serve ⟨.built 0,false⟩] := by
  apply removes_own
  refine ⟨trivial,fun _ _ one => ?_⟩
  cases Option.some.inj one
  refine ⟨trivial,fun _ _ two => ?_⟩
  cases Option.some.inj two
  refine ⟨trivial,fun _ _ three => ?_⟩
  cases Option.some.inj three
  refine ⟨fun _ => ⟨by decide +kernel,id⟩,fun _ _ four => ?_⟩
  cases Option.some.inj four
  refine ⟨trivial,fun _ _ five => ?_⟩
  cases Option.some.inj five
  refine ⟨trivial,fun _ _ six => ?_⟩
  cases Option.some.inj six
  refine ⟨trivial,fun _ _ seven => ?_⟩
  cases Option.some.inj seven
  exact ⟨trivial,fun _ _ _ => trivial⟩

-- A bad packet and then the end of its socket make a client ask twice, and an
-- accept gets in between: the second request takes the newcomer.
theorem stranger_removed : ¬ ∀ slaveIdx history, Along workerStep Own (Worker.empty slaveIdx) history := by
  intro claim
  obtain ⟨_,_,one,_,_,_,two,_,_,_,three,_,_,_,four,_,_,_,five,_,_,_,six,_,_,_,seven,_,_,_,eight,_,
    _,_,nine,_,_,_,ten,own,_⟩ := claim 0
    [.accepted 5,.onOpCheck,.serve ⟨.built 0,false⟩,.on_read first ⟨-1,0,true,false⟩,.accepted 6,
      .on_event first 0x10,.onOpCheck,.serve ⟨.null,false⟩,.serve ⟨.built 0,false⟩,.serve ⟨.null,false⟩]
  cases Option.some.inj one
  cases Option.some.inj two
  cases Option.some.inj three
  cases Option.some.inj four
  cases Option.some.inj five
  cases Option.some.inj six
  cases Option.some.inj seven
  cases Option.some.inj eight
  cases Option.some.inj nine
  cases Option.some.inj ten
  have taken := (own 0 first [] (by decide +kernel)).2.1 ⟨1,6,0⟩ (by decide +kernel)
  revert taken
  decide

end GameServer.Network.Requests
