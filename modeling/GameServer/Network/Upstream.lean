import GameServer.Network.Lookup

namespace GameServer.Network.Upstream
open TcpSlaveServer TcpMasterServer FreeSlots Requests Lookup History

def entryOf (connUp : List Int) (k : Nat) : Int := connUp.getD k (-1)

-- What a command does to a worker, as far as uids and upstream entries go: it
-- lets conduits go and entries fall back to -1, it queues a connection, or it
-- seats a conduit.
inductive Turn (w : Worker) (step : Command) (next : Worker) : Prop where
  | fewer (less : ∀ rid c, seat next.server rid = some c → seat w.server rid = some c)
      (entries : ∀ k, entryOf next.server.connUp k = entryOf w.server.connUp k ∨ entryOf next.server.connUp k = -1)
  | queued (stype : Int) (command : step = .initConnection stype) (known : stype-1 < tcpConnIdxMax)
      (down : entryOf w.server.connUp (stype-1).toNat < 0) (seats : seat next.server = seat w.server)
      (connUp : next.server.connUp = w.server.connUp.set (stype-1).toNat 0)
  | seated (answer : Answer) (ss : Int) (rest : List OpStruct) (serial : Nat) (command : step = .serve answer)
      (head : w.rlist = .accepted ss :: rest) (made : create ss (answer.numbered w.made) = .built serial)
      (seats : seat next.server = Function.update (seat w.server) (nextSlot w.server)
        (some ⟨serial,ss,w.server.uid (nextSlot w.server)⟩))
      (connUp : next.server.connUp = (w.server.setConnUp ss (w.server.uid (nextSlot w.server))).connUp)

theorem entry_set (connUp : List Int) (i : Nat) (value : Int) (k : Nat) :
    entryOf (connUp.set i value) k = entryOf connUp k ∨ (k = i ∧ entryOf (connUp.set i value) k = value) := by
  unfold entryOf
  rw [List.getD_eq_getElem?_getD,List.getD_eq_getElem?_getD,List.getElem?_set]
  split
  · rename_i same
    split
    · exact .inr ⟨same.symm,rfl⟩
    · rename_i short
      rw [List.getElem?_eq_none (by omega)]
      exact .inl rfl
  · exact .inl rfl

theorem entry_setConnUp (s : TcpSlaveServer) (ss value : Int) (k : Nat) :
    entryOf (s.setConnUp ss value).connUp k = entryOf s.connUp k ∨
      (ss = -1-k ∧ entryOf (s.setConnUp ss value).connUp k = value) := by
  unfold setConnUp
  split
  · rename_i upstream
    rcases entry_set s.connUp (-1-ss).toNat value k with same | ⟨place,new⟩
    · exact .inl same
    · exact .inr ⟨by omega,new⟩
  · exact .inl rfl

theorem turn (moved : workerStep w step = some (gone,next)) : Turn w step next := by
  cases step_moved moved with
  | posted server => exact .fewer (fun _ _ sits => server ▸ sits) (fun _ => .inl (by rw [server]))
  | queued stype known down => exact .queued stype rfl known down rfl rfl
  | lost stype =>
      refine .fewer (fun _ _ sits => sits) ?_
      intro k
      rcases entry_set w.server.connUp (stype-1).toNat (-1) k with same | ⟨_,down⟩
      · exact .inl same
      · exact .inr down
  | accepted ss answer head accepted =>
      cases admitted accepted with
      | away failed seats connUp =>
          refine .fewer (fun rid c sits => by rw [←seats]; exact sits) ?_
          intro k
          dsimp only
          rw [connUp]
          rcases entry_setConnUp w.server ss (-1) k with same | ⟨_,down⟩
          · exact .inl same
          · exact .inr down
      | seated serial made seats connUp => exact .seated answer ss _ serial rfl head made seats connUp
  | removed id =>
      refine .fewer ?_ (fun k => .inl (by rw [remove_connUp]))
      intro rid c sits
      dsimp only at sits
      rw [remove_seats] at sits
      by_cases own : rid = slot id
      · subst own; simp at sits
      · rwa [Function.update_of_ne own] at sits

theorem worker_holes (valid : Holes w.server) (moved : workerStep w step = some (gone,next)) : Holes next.server := by
  cases step_moved moved with
  | posted server => exact server ▸ valid
  | queued => exact holes_congr rfl rfl valid
  | lost => exact holes_congr rfl rfl valid
  | accepted _ _ _ accepted => exact accepted_holes valid accepted
  | removed => exact remove_holes valid _

-- _connUp has no entry for a type below 1.
def Typed : Command → Prop
  | .initConnection stype | .lostConnection stype => 1 ≤ stype
  | _ => True

theorem worker_returns (valid : Holes w.server) (typed : Typed step) : ∃ gone next, workerStep w step = some (gone,next) := by
  cases step with
  | initConnection stype =>
      obtain ⟨next,posted⟩ := initConnection_returns (w := w) typed
      exact ⟨none,next,by simp [workerStep,posted]⟩
  | lostConnection stype =>
      obtain ⟨next,posted⟩ := lostConnection_returns (w := w) typed
      exact ⟨none,next,by simp [workerStep,posted]⟩
  | serve answer =>
      simp only [workerStep,Worker.serve]
      split
      · exact ⟨_,_,rfl⟩
      · rename_i ss rest head
        obtain ⟨server,moved⟩ := (holes_ends valid).2 ss (answer.numbered w.made)
        exact ⟨_,_,by rw [moved]; rfl⟩
      · exact ⟨_,_,rfl⟩
  | accepted ss => exact ⟨_,_,rfl⟩
  | on_read c p => exact ⟨_,_,rfl⟩
  | on_event c wht => exact ⟨_,_,rfl⟩
  | remove c => exact ⟨_,_,rfl⟩
  | onOpCheck => exact ⟨_,_,rfl⟩

-- No upstream entry is the uid of a client or of another upstream's conduit.
def Apart (m : TcpMasterServer) : Prop :=
  ∀ k < tcpConnIdxMax, entryOf m.connUp k ≠ -1 → ∀ c, Live m c → c.uid = entryOf m.connUp k → c.socket = -1-k

-- What closeConn(-1-k) shuts down is the conduit of upstream k, or nothing.
def ClosesOwn (m : TcpMasterServer) : Prop :=
  ∀ k : Nat, ∃ closed, m.closeConn (-1-k) = some closed ∧ ∀ c, closed = some c → c.socket = -1-k

structure Valid (m : TcpMasterServer) : Prop where
  wired : Wired m
  holes : ∀ i, Holes (m._workers i).server
  labelled : ∀ i rid c, seat (m._workers i).server rid = some c → c.uid = (m._workers i).server.uid rid
  range : ∀ v ∈ m.connUp, -2^31 ≤ v ∧ v < 2^31
  apart : Apart m

theorem valid_init : Valid TcpMasterServer.init := by
  have bare : ∀ i rid, seat (TcpMasterServer.init._workers i).server rid = none := fun _ _ => rfl
  refine ⟨wired_init,fun i => holes_empty _,?_,?_,?_⟩
  · intro i rid c sits
    rw [bare] at sits
    cases sits
  · intro v member
    have marker : v = -1 := by
      simpa [TcpMasterServer.connUp,TcpMasterServer.init,Worker.empty,TcpSlaveServer.empty] using
        (List.mem_replicate.mp member).2
    omega
  · intro k _ _ c live
    obtain ⟨i,rid,sits⟩ := live
    rw [bare] at sits
    cases sits

-- The id of an upstream entry leads to the slot that gives this id out.
theorem slot_uid {s : TcpSlaveServer} (first : s.slaveIdx.toNat = 0) (even : 2 ∣ v) (lower : -2^31 ≤ v) (upper : v < 2^31) :
    s.uid (slot v) = v := by
  obtain ⟨u,rfl⟩ := even
  have half : (2*u).tdiv workers = u := Int.mul_tdiv_cancel_left u (by decide)
  have index : (((u % 2^32).toNat*workers+0 : Nat) : Int) = 2*(u % 2^32) := by simp only [workers]; omega
  unfold TcpSlaveServer.uid slot
  rw [first,half,index,Int.bmod_def]
  split <;> omega

theorem close_uid (valid : Valid m) (member : v ∈ m.connUp) :
    ∃ closed, m.close v = some closed ∧ ∀ c, closed = some c → v ≠ -1 ∧ Live m c ∧ c.uid = v := by
  unfold TcpMasterServer.close
  split
  · exact ⟨none,rfl,fun c none => nomatch none⟩
  · rename_i real
    have even : 2 ∣ v := (valid.wired.own v member).resolve_left real
    have zero : v.tmod workers = 0 := Int.tmod_eq_zero_of_dvd even
    have worker : workerOf v = some ⟨0,by decide⟩ := by simp [workerOf,zero]
    rw [worker]
    refine ⟨_,rfl,?_⟩
    intro c closed
    dsimp only at closed
    split at closed
    · cases closed
    · obtain ⟨lower,upper⟩ := valid.range v member
      exact ⟨real,⟨_,_,closed⟩,(valid.labelled _ _ _ closed).trans (slot_uid (valid.wired.idx _) even lower upper)⟩

theorem closes_own (valid : Valid m) : ClosesOwn m := by
  intro k
  unfold TcpMasterServer.closeConn
  have rid : (-1-(-1-(k : Int))) = k := by omega
  dsimp only
  rw [rid]
  split
  · exact ⟨none,rfl,fun c none => nomatch none⟩
  · rename_i known
    have small : k < tcpConnIdxMax := by omega
    have inside : k < m.connUp.length := by rw [valid.wired.length]; exact small
    rw [if_neg (by omega),Int.toNat_natCast,List.getElem?_eq_getElem inside,Option.bind_some]
    obtain ⟨closed,back,own⟩ := close_uid valid (List.getElem_mem inside)
    refine ⟨closed,back,?_⟩
    intro c taken
    obtain ⟨real,live,uid⟩ := own c taken
    have entry : entryOf m.connUp k = m.connUp[k] := by
      unfold entryOf
      rw [List.getD_eq_getElem?_getD,List.getElem?_eq_getElem inside]; rfl
    exact valid.apart k small (by rw [entry]; exact real) c live (by rw [entry]; exact uid)

theorem live_set {m : TcpMasterServer} {w : Worker} : Live (m.set i w) c ↔
    (∃ rid, seat w.server rid = some c) ∨ ∃ j rid, j ≠ i ∧ seat (m._workers j).server rid = some c := by
  constructor
  · intro ⟨j,rid,sits⟩
    by_cases same : j = i
    · subst same
      rw [set_self] at sits
      exact .inl ⟨rid,sits⟩
    · rw [set_other _ _ same] at sits
      exact .inr ⟨j,rid,same,sits⟩
  · intro live
    rcases live with ⟨rid,sits⟩ | ⟨j,rid,other,sits⟩
    · exact ⟨i,rid,by rw [set_self]; exact sits⟩
    · exact ⟨j,rid,by rw [set_other _ _ other]; exact sits⟩

theorem live_kept (less : ∀ rid c, seat w.server rid = some c → seat (m._workers i).server rid = some c)
    (live : Live (m.set i w) c) : Live m c := by
  rcases live_set.mp live with ⟨rid,sits⟩ | ⟨j,rid,_,sits⟩
  · exact ⟨i,rid,less rid c sits⟩
  · exact ⟨j,rid,sits⟩

-- Of the entries that closeConn reads only those of worker 0 count.
theorem entries_set (m : TcpMasterServer) (i : Fin workers) (w : Worker) :
    (m.set i w).connUp = m.connUp ∨ (i = ⟨0,by decide⟩ ∧ (m.set i w).connUp = w.server.connUp) := by
  by_cases first : (⟨0,by decide⟩ : Fin workers) = i
  · subst first
    exact .inr ⟨rfl,by unfold TcpMasterServer.connUp; rw [set_self]⟩
  · exact .inl (by unfold TcpMasterServer.connUp; rw [set_other _ _ first])

-- A connection may be queued while nobody else holds uid 0, the marker of a
-- queued one; a conduit may be seated under a uid that is not in use and that
-- no entry but its own names.
def Spaced (m : TcpMasterServer) (i : Fin workers) : Command → Prop
  | .initConnection stype => i = ⟨0,workers_pos⟩ → stype-1 < tcpConnIdxMax →
      entryOf m.connUp (stype-1).toNat < 0 → ∀ c, Live m c → c.uid = 0 → c.socket = -stype
  | .serve answer => ∀ ss rest serial, (m._workers i).rlist = .accepted ss :: rest →
      create ss (answer.numbered (m._workers i).made) = .built serial →
      (∀ c, Live m c → c.uid ≠ (m._workers i).server.uid (nextSlot (m._workers i).server)) ∧
      ∀ k < tcpConnIdxMax, entryOf m.connUp k ≠ -1 →
        entryOf m.connUp k = (m._workers i).server.uid (nextSlot (m._workers i).server) → ss = -1-k
  | _ => True

def Separate (m : TcpMasterServer) : MasterCommand → Prop
  | .worker i step => Typed step ∧ Spaced m i step
  | .close id => -1 ≤ id
  | .client _ | .closeConn _ => True

theorem apart_step (valid : Valid m) (typed : Typed step) (spaced : Spaced m i step)
    (stepped : workerStep (m._workers i) step = some (gone,w)) : Apart (m.set i w) := by
  intro k small real c live uid
  cases turn stepped with
  | fewer less entries =>
      have before : Live m c := live_kept less live
      have entry : entryOf (m.set i w).connUp k = entryOf m.connUp k := by
        rcases entries_set m i w with same | ⟨first,own⟩
        · rw [same]
        · subst first
          rw [own] at real ⊢
          exact (entries k).resolve_right real
      rw [entry] at real uid
      exact valid.apart k small real c before uid
  | queued stype command known down seats connUp =>
      subst command
      have before : Live m c := live_kept (fun rid c sits => by rw [←seats]; exact sits) live
      rcases entries_set m i w with same | ⟨first,own⟩
      · rw [same] at real uid
        exact valid.apart k small real c before uid
      · subst first
        rw [own,connUp] at real uid
        rcases entry_set (m._workers ⟨0,by decide⟩).server.connUp (stype-1).toNat 0 k with same | ⟨place,zero⟩
        · rw [same] at real uid
          exact valid.apart k small real c before uid
        · rw [zero] at uid
          have socket := spaced rfl known down c before uid
          have positive : 1 ≤ stype := typed
          omega
  | seated answer ss rest serial command head made seats connUp =>
      subst command
      obtain ⟨fresh,clear⟩ := spaced ss rest serial head made
      have newcomer : c = ⟨serial,ss,(m._workers i).server.uid (nextSlot (m._workers i).server)⟩ ∨ Live m c := by
        rcases live_set.mp live with ⟨rid,sits⟩ | ⟨j,rid,_,sits⟩
        · rw [seats] at sits
          by_cases own : rid = nextSlot (m._workers i).server
          · subst own
            rw [Function.update_self] at sits
            exact .inl (Option.some.inj sits).symm
          · rw [Function.update_of_ne own] at sits
            exact .inr ⟨i,rid,sits⟩
        · exact .inr ⟨j,rid,sits⟩
      have entry : entryOf (m.set i w).connUp k = entryOf m.connUp k ∨
          (ss = -1-k ∧ entryOf (m.set i w).connUp k = (m._workers i).server.uid (nextSlot (m._workers i).server)) := by
        rcases entries_set m i w with same | ⟨first,own⟩
        · exact .inl (by rw [same])
        · subst first
          rw [own,connUp]
          exact entry_setConnUp _ _ _ _
      rcases newcomer with new | old
      · subst new
        rcases entry with same | ⟨upstream,_⟩
        · rw [same] at real uid
          dsimp only at uid ⊢
          exact clear k small real uid.symm
        · exact upstream
      · rcases entry with same | ⟨_,named⟩
        · rw [same] at real uid
          exact valid.apart k small real c old uid
        · exact absurd (uid.trans named) (fresh c old)

theorem uid_congr {s t : TcpSlaveServer} (same : t.slaveIdx = s.slaveIdx) (id : Nat) : t.uid id = s.uid id := by
  unfold TcpSlaveServer.uid
  rw [same]

theorem labelled_step (valid : Valid m) (stepped : workerStep (m._workers i) step = some (gone,w)) (j : Fin workers)
    (rid : Nat) (c : TcpConduit) (sits : seat ((m.set i w)._workers j).server rid = some c) :
    c.uid = ((m.set i w)._workers j).server.uid rid := by
  by_cases same : j = i
  · subst same
    rw [set_self] at sits ⊢
    rw [uid_congr (step_wrote stepped).1]
    cases turn stepped with
    | fewer less entries => exact valid.labelled j rid c (less rid c sits)
    | queued stype command known down seats connUp => exact valid.labelled j rid c (by rw [←seats]; exact sits)
    | seated answer ss rest serial command head made seats connUp =>
        rw [seats] at sits
        by_cases own : rid = nextSlot (m._workers j).server
        · subst own
          rw [Function.update_self] at sits
          rw [←Option.some.inj sits]
        · rw [Function.update_of_ne own] at sits
          exact valid.labelled j rid c sits
  · rw [set_other _ _ same] at sits ⊢
    exact valid.labelled j rid c sits

theorem uid_range (s : TcpSlaveServer) (id : Nat) : -2^31 ≤ s.uid id ∧ s.uid id < 2^31 := by
  unfold TcpSlaveServer.uid
  rw [Int.bmod_def]
  split <;> omega

theorem range_step (valid : Valid m) (stepped : workerStep (m._workers i) step = some (gone,w)) :
    ∀ v ∈ (m.set i w).connUp, -2^31 ≤ v ∧ v < 2^31 := by
  intro v member
  cases step_connUp stepped with
  | kept same =>
      rw [same] at member
      exact valid.range v member
  | entry k value set kind =>
      rw [set] at member
      rcases List.mem_or_eq_of_mem_set member with old | new
      · exact valid.range v old
      · subst new
        rcases kind with marker | queued | ⟨id,uid⟩
        · omega
        · omega
        · rw [uid]; exact uid_range _ id

theorem valid_step (valid : Valid m) (typed : Typed step) (spaced : Spaced m i step)
    (stepped : workerStep (m._workers i) step = some (gone,w)) : Valid (m.set i w) := by
  refine ⟨wired_step valid.wired stepped,?_,labelled_step valid stepped,range_step valid stepped,
    apart_step valid typed spaced stepped⟩
  intro j
  by_cases same : j = i
  · subst same
    rw [set_self]
    exact worker_holes (valid.holes j) stepped
  · rw [set_other _ _ same]
    exact valid.holes j

theorem close_returns (m : TcpMasterServer) {id : Int} (lower : -1 ≤ id) : ∃ closed, m.close id = some closed := by
  unfold TcpMasterServer.close
  split
  · exact ⟨none,rfl⟩
  · rename_i real
    have own : id = -1 ∨ 0 ≤ id ∨ 2 ∣ id := by omega
    obtain ⟨i,worker⟩ := workerOf_own own real
    exact ⟨_,by rw [worker]; rfl⟩

theorem closeConn_returns (valid : Valid m) (id : Int) : ∃ closed, m.closeConn id = some closed := by
  by_cases upstream : id < 0
  · obtain ⟨closed,back,_⟩ := closes_own valid (-1-id).toNat
    have same : -1-(((-1-id).toNat : Nat) : Int) = id := by omega
    rw [same] at back
    exact ⟨closed,back⟩
  · unfold TcpMasterServer.closeConn
    dsimp only
    rw [if_neg (by simp only [tcpConnIdxMax]; omega),if_pos (by omega)]
    exact close_returns m (by omega)

theorem step_separate (valid : Valid m) (separate : Separate m command) :
    ∃ gone next, masterStep m command = some (gone,next) ∧ (ClosesOwn next ∧ Apart next) ∧ Valid next := by
  have settled : ∀ {next}, Valid next → (ClosesOwn next ∧ Apart next) ∧ Valid next :=
    fun kept => ⟨⟨closes_own kept,kept.apart⟩,kept⟩
  cases command with
  | client sock =>
      have posted : workerStep (m._workers m.least) (.accepted sock) = some (none,(m._workers m.least).accepted sock) := rfl
      exact ⟨_,_,rfl,settled (valid_step valid (by trivial) (by trivial) posted)⟩
  | worker i step =>
      obtain ⟨gone,w,stepped⟩ := worker_returns (valid.holes i) separate.1
      exact ⟨gone,m.set i w,by simp [masterStep,stepped],settled (valid_step valid separate.1 separate.2 stepped)⟩
  | close id =>
      obtain ⟨closed,back⟩ := close_returns m separate
      exact ⟨closed,m,by simp [masterStep,back],settled valid⟩
  | closeConn id =>
      obtain ⟨closed,back⟩ := closeConn_returns valid id
      exact ⟨closed,m,by simp [masterStep,back],settled valid⟩

-- In every run of connects, losses, accepts and closes, closeConn(-1-k) means
-- upstream connection k or nobody, as long as markers and uids stay apart.
theorem upstreams_apart (history : List MasterCommand)
    (separate : Guarded masterStep Separate TcpMasterServer.init history) :
    Along masterStep (fun _ _ _ next => ClosesOwn next ∧ Apart next) TcpMasterServer.init history :=
  along_of_guarded valid_init (fun _ _ valid allowed => step_separate valid allowed) separate

-- The first upstream is queued, connected and closed on a server of its own.
theorem upstreams_apart_one : Along masterStep (fun _ _ _ next => ClosesOwn next ∧ Apart next) TcpMasterServer.init
    [.worker ⟨0,by decide⟩ (.initConnection 1),.worker ⟨0,by decide⟩ .onOpCheck,
      .worker ⟨0,by decide⟩ (.serve ⟨.built 0,false⟩),.closeConn (-1)] := by
  apply upstreams_apart
  refine ⟨⟨Int.le_refl 1,?_⟩,fun _ _ one => ?_⟩
  · intro _ _ _ c ⟨i,rid,sits⟩
    cases sits
  cases Option.some.inj one
  refine ⟨⟨trivial,trivial⟩,fun _ _ two => ?_⟩
  cases Option.some.inj two
  refine ⟨⟨trivial,?_⟩,fun _ _ three => ?_⟩
  · intro ss rest serial head made
    cases head
    constructor
    · intro c ⟨i,rid,sits⟩
      match i with
      | ⟨0,_⟩ => cases sits
      | ⟨1,_⟩ => cases sits
    · decide +kernel
  cases Option.some.inj three
  exact ⟨trivial,fun _ _ _ => trivial⟩

-- A client sits in slot 0 when the timer queues the first upstream: until the
-- connection is made, closing the upstream closes the client.
theorem client_closed : ¬ ∀ history, Along masterStep (fun _ _ _ next => ClosesOwn next ∧ Apart next)
    TcpMasterServer.init history := by
  intro claim
  obtain ⟨_,_,one,_,_,_,two,_,_,_,three,_,_,_,four,⟨own,_⟩,_⟩ := claim
    [.client 5,.worker ⟨0,by decide⟩ .onOpCheck,.worker ⟨0,by decide⟩ (.serve ⟨.built 0,false⟩),
      .worker ⟨0,by decide⟩ (.initConnection 1)]
  cases Option.some.inj one
  cases Option.some.inj two
  cases Option.some.inj three
  cases Option.some.inj four
  obtain ⟨closed,back,upstream⟩ := own 0
  have client : closed = some ⟨0,5,0⟩ := by
    have : some closed = some (some ⟨0,5,0⟩) := by rw [←back]; decide +kernel
    exact Option.some.inj this
  have socket := upstream ⟨0,5,0⟩ client
  revert socket
  decide

end GameServer.Network.Upstream
