import GameServer.Library.Walk
import GameServer.Network.Requests
import GameServer.Network.Master

namespace GameServer.Network.Lookup
open TcpSlaveServer TcpMasterServer FreeSlots Requests History Walk

-- What a step of a worker writes into _connUp: the marker of no connection, the
-- marker of a queued one, or the uid of one of its slots.
inductive Wrote (s : TcpSlaveServer) (connUp : List Int) : Prop where
  | kept (same : connUp = s.connUp)
  | entry (k : Nat) (value : Int) (set : connUp = s.connUp.set k value)
      (kind : value = -1 ∨ value = 0 ∨ ∃ id, value = s.uid id)

theorem wrote_setConnUp {s : TcpSlaveServer} (ss : Int) (kind : value = -1 ∨ value = 0 ∨ ∃ id, value = s.uid id) :
    Wrote s (s.setConnUp ss value).connUp := by
  unfold setConnUp
  split
  · exact .entry _ value rfl kind
  · exact .kept rfl

theorem step_wrote (moved : workerStep w command = some (gone,next)) :
    next.server.slaveIdx = w.server.slaveIdx ∧ Wrote w.server next.server.connUp := by
  cases step_moved moved with
  | posted server => rw [server]; exact ⟨rfl,.kept rfl⟩
  | queued => exact ⟨rfl,.entry _ 0 rfl (.inr (.inl rfl))⟩
  | lost => exact ⟨rfl,.entry _ (-1) rfl (.inl rfl)⟩
  | accepted _ _ _ accepted =>
      refine ⟨accepted_slaveIdx accepted,?_⟩
      cases admitted accepted with
      | away failed seats connUp => rw [connUp]; exact wrote_setConnUp _ (.inl rfl)
      | seated serial made seats connUp => rw [connUp]; exact wrote_setConnUp _ (.inr (.inr ⟨_,rfl⟩))
  | removed => exact ⟨remove_slaveIdx _ _,.kept (remove_connUp _ _)⟩

-- Worker i gives out the uids of worker i, and worker 0 keeps three entries for
-- the upstream connections, each of them a marker or an id of its own.
structure Wired (m : TcpMasterServer) : Prop where
  idx : ∀ i, (m._workers i).server.slaveIdx.toNat = i
  length : m.connUp.length = tcpConnIdxMax
  own : ∀ v ∈ m.connUp, v = -1 ∨ 2 ∣ v

theorem uid_even {s : TcpSlaveServer} (first : s.slaveIdx.toNat = 0) (id : Nat) : (2 : Int) ∣ s.uid id := by
  unfold uid
  rw [first]
  have even : (2 : Int) ∣ ((id*workers+0 : Nat) : Int) := by simp only [workers]; omega
  rw [Int.bmod_def]
  split <;> omega

theorem wired_init : Wired TcpMasterServer.init := by
  refine ⟨?_,rfl,?_⟩
  · intro i
    have small : i.val < workers := i.2
    simp only [workers] at small
    simp only [TcpMasterServer.init,Worker.empty,TcpSlaveServer.empty,UInt32.toNat_ofNat']
    omega
  · intro v member
    have marker : v = -1 := by
      simpa [TcpMasterServer.connUp,TcpMasterServer.init,Worker.empty,TcpSlaveServer.empty] using (List.mem_replicate.mp member).2
    exact .inl marker

@[simp] theorem set_self (m : TcpMasterServer) (i : Fin workers) (w : Worker) : (m.set i w)._workers i = w := by
  simp [TcpMasterServer.set]

theorem set_other (m : TcpMasterServer) (w : Worker) (other : j ≠ i) : (m.set i w)._workers j = m._workers j := by
  simp [TcpMasterServer.set,Function.update_of_ne other]

theorem master_parts (moved : masterStep m command = some (gone,next)) :
    next = m ∨ ∃ i step w, workerStep (m._workers i) step = some (gone,w) ∧ next = m.set i w := by
  cases command with
  | client sock => cases Option.some.inj moved; exact .inr ⟨m.least,.accepted sock,_,rfl,rfl⟩
  | worker i step =>
      obtain ⟨⟨answer,w⟩,stepped,equal⟩ := Option.map_eq_some_iff.mp moved
      cases equal
      exact .inr ⟨i,step,w,stepped,rfl⟩
  | close id =>
      obtain ⟨closed,_,equal⟩ := Option.map_eq_some_iff.mp moved
      cases equal
      exact .inl rfl
  | closeConn id =>
      obtain ⟨closed,_,equal⟩ := Option.map_eq_some_iff.mp moved
      cases equal
      exact .inl rfl

-- The upstream entries are those of worker 0 whichever worker moves.
theorem step_connUp {m : TcpMasterServer} (stepped : workerStep (m._workers i) step = some (gone,w)) :
    Wrote (m._workers ⟨0,by decide⟩).server (m.set i w).connUp := by
  unfold TcpMasterServer.connUp
  by_cases first : (⟨0,by decide⟩ : Fin workers) = i
  · subst first
    rw [set_self]
    exact (step_wrote stepped).2
  · rw [set_other _ _ first]
    exact .kept rfl

theorem wired_step (valid : Wired m) (stepped : workerStep (m._workers i) step = some (gone,w)) : Wired (m.set i w) := by
  have wrote := step_connUp stepped
  refine ⟨?_,?_,?_⟩
  · intro j
    by_cases same : j = i
    · subst same
      rw [set_self,(step_wrote stepped).1]
      exact valid.idx j
    · rw [set_other _ _ same]
      exact valid.idx j
  · cases wrote with
    | kept same => rw [same]; exact valid.length
    | entry k value set kind => rw [set,List.length_set]; exact valid.length
  · intro v member
    cases wrote with
    | kept same =>
        rw [same] at member
        exact valid.own v member
    | entry k value set kind =>
        rw [set] at member
        rcases List.mem_or_eq_of_mem_set member with old | new
        · exact valid.own v old
        · subst new
          rcases kind with marker | queued | ⟨id,uid⟩
          · exact .inl marker
          · exact .inr (by rw [queued]; exact Int.dvd_zero 2)
          · exact .inr (by rw [uid]; exact uid_even (valid.idx _) id)

theorem reached_wired (reached : Reached masterStep TcpMasterServer.init m) : Wired m := by
  apply reached_inv reached wired_init
  intro s command answer next valid moved
  rcases master_parts moved with same | ⟨i,step,w,stepped,rfl⟩
  · exact same ▸ valid
  · exact wired_step valid stepped

def Live (m : TcpMasterServer) (c : TcpConduit) : Prop := ∃ i rid, seat (m._workers i).server rid = some c

-- find comes back, with the live conduit of that uid or, when there is none,
-- with the empty pointer.
def Finds (m : TcpMasterServer) (id : Int) : Prop :=
  ∃ calls found, m.find calls id = some found ∧
    ((∃ c, Live m c ∧ c.uid = id ∧ found = .conduit c) ∨ ((∀ c, Live m c → c.uid ≠ id) ∧ found = .empty))

-- Where the chain of upstream entries ends: at the marker of no connection or
-- past the table of the worker.
def Past (m : TcpMasterServer) (id : Int) : Prop :=
  id = -1 ∨ ∃ i, workerOf id = some i ∧ (m._workers i).server.conduits.length ≤ slot id

def entry (m : TcpMasterServer) (id : Int) : Int := m.connUp.getD (slot id) (-1)

def Escapes (m : TcpMasterServer) (steps : Nat) (id : Int) : Prop :=
  Leaves (entry m) (Past m) slot tcpConnIdxMax steps id

theorem workerOf_own {id : Int} (own : id = -1 ∨ 0 ≤ id ∨ 2 ∣ id) (real : id ≠ -1) : ∃ i, workerOf id = some i := by
  have nonneg : 0 ≤ id.tmod workers := by
    rcases own with marker | nonneg | even
    · exact absurd marker real
    · exact Int.tmod_nonneg _ nonneg
    · rw [show ((workers : Nat) : Int) = 2 from rfl,Int.tmod_eq_zero_of_dvd even]
  exact ⟨_,if_pos nonneg⟩

theorem entry_own (valid : Wired m) (id : Int) : entry m id = -1 ∨ 0 ≤ entry m id ∨ 2 ∣ entry m id := by
  unfold entry
  rw [List.getD_eq_getElem?_getD]
  cases found : m.connUp[slot id]? with
  | none => exact .inl rfl
  | some v =>
      rcases valid.own v (List.mem_of_getElem? found) with marker | even
      · exact .inl marker
      · exact .inr (.inr even)

theorem find_escapes (valid : Wired m) {id : Int} (own : id = -1 ∨ 0 ≤ id ∨ 2 ∣ id)
    (escapes : Escapes m steps id) : m.find (steps+1) id = some .empty := by
  induction steps generalizing id with
  | zero =>
      rcases leaves_zero.mp escapes with marker | ⟨i,worker,past⟩
      · rw [TcpMasterServer.find,if_pos marker]
      · rw [TcpMasterServer.find]
        split
        · rfl
        · simp only [worker]
          rw [if_pos past]
  | succ steps ih =>
      obtain ⟨⟨inside,small⟩,later⟩ := leaves_succ.mp escapes
      have real : id ≠ -1 := fun marker => inside (.inl marker)
      obtain ⟨i,worker⟩ := workerOf_own own real
      have short : ¬slot id ≥ (m._workers i).server.conduits.length := fun past => inside (.inr ⟨i,worker,past⟩)
      have known : m.connUp[slot id]? = some (entry m id) := by
        unfold entry
        rw [List.getD_eq_getElem?_getD,List.getElem?_eq_getElem (by rw [valid.length]; exact small)]
        rfl
      rw [TcpMasterServer.find,if_neg real]
      simp only [worker,known]
      rw [if_neg short]
      exact ih (entry_own valid id) later

theorem find_empty (valid : Wired m) {id : Int} (found : m.find calls id = some .empty) :
    ∃ steps, Escapes m steps id := by
  induction calls generalizing id with
  | zero => cases found
  | succ calls ih =>
      rw [TcpMasterServer.find] at found
      split at found
      · rename_i marker
        exact ⟨0,leaves_zero.mpr (.inl marker)⟩
      · rename_i real
        split at found
        · cases found
        · rename_i i worker
          split at found
          · rename_i past
            exact ⟨0,leaves_zero.mpr (.inr ⟨i,worker,past⟩)⟩
          · rename_i short
            split at found
            · cases found
            · rename_i next known
              obtain ⟨steps,later⟩ := ih found
              have step : entry m id = next := by
                unfold entry
                rw [List.getD_eq_getElem?_getD,known]; rfl
              have small : slot id < tcpConnIdxMax := by
                rw [←valid.length]
                exact (List.getElem?_eq_some_iff.mp known).1
              refine ⟨steps+1,leaves_succ.mpr ⟨⟨?_,small⟩,by rw [step]; exact later⟩⟩
              rintro (marker | ⟨j,other,past⟩)
              · exact real marker
              · cases worker.symm.trans other
                exact short past

-- find has no branch that hands a conduit out.
theorem find_conduit (m : TcpMasterServer) (calls : Nat) (id : Int) (c : TcpConduit) :
    m.find calls id ≠ some (.conduit c) := by
  induction calls generalizing id with
  | zero => simp [TcpMasterServer.find]
  | succ calls ih =>
      rw [TcpMasterServer.find]
      split
      · simp
      split
      · simp
      split
      · simp
      split
      · simp
      · exact ih _

-- Exactly when no live conduit has the uid and the chain of upstream entries
-- from its slot comes out does find answer as it should.
theorem find_exact_iff (reached : Reached masterStep TcpMasterServer.init m) (id : Int) (lower : -1 ≤ id) :
    Finds m id ↔ (∀ c, Live m c → c.uid ≠ id) ∧ ∃ steps ≤ tcpConnIdxMax, Escapes m steps id := by
  have valid := reached_wired reached
  constructor
  · intro ⟨calls,found,back,right⟩
    rcases right with ⟨c,_,_,conduit⟩ | ⟨nobody,bare⟩
    · subst conduit
      exact absurd back (find_conduit m calls id c)
    · subst bare
      obtain ⟨steps,escapes⟩ := find_empty valid back
      refine ⟨nobody,steps,leaves_within ?_ escapes,escapes⟩
      intro x y same
      simp [entry,same]
  · intro ⟨nobody,steps,_,escapes⟩
    have own : id = -1 ∨ 0 ≤ id ∨ 2 ∣ id := by omega
    exact ⟨steps+1,.empty,find_escapes valid own escapes,.inr ⟨nobody,rfl⟩⟩

-- One client on worker 0, in slot 0 under uid 0; worker 1 is empty.
theorem one_client : ∃ m, Reached masterStep TcpMasterServer.init m ∧ Live m ⟨0,5,0⟩ ∧ (∀ c, Live m c → c.uid = 0) ∧ Escapes m 0 5 := by
  have posted := Reached.step .start (rfl : masterStep TcpMasterServer.init (.client 5) = some (_,_))
  have taken := Reached.step posted (rfl : masterStep _ (.worker ⟨0,by decide⟩ .onOpCheck) = some (_,_))
  have served := Reached.step taken (rfl : masterStep _ (.worker ⟨0,by decide⟩ (.serve ⟨.built 0,false⟩)) = some (_,_))
  have one : ∃ m, Reached masterStep TcpMasterServer.init m ∧ (m._workers ⟨0,by decide⟩).server.conduits = [some ⟨0,5,0⟩] ∧
      (m._workers ⟨1,by decide⟩).server.conduits = [] := ⟨_,served,by decide +kernel,by decide +kernel⟩
  obtain ⟨m,reached,first,second⟩ := one
  refine ⟨m,reached,⟨⟨0,by decide⟩,0,by rw [seat,first]; rfl⟩,?_,leaves_zero.mpr (.inr ⟨⟨1,by decide⟩,by decide,?_⟩)⟩
  · rintro c ⟨i,rid,here⟩
    obtain ⟨i,bound⟩ := i
    cases i with
    | zero =>
        rw [seat,first] at here
        cases rid with
        | zero => cases here; rfl
        | succ rid => cases here
    | succ i =>
        have last : i = 0 := by
          change i+1 < 2 at bound
          omega
        subst last
        rw [seat,second] at here
        cases here
  · rw [second]
    exact Nat.zero_le _

-- Beside the client nobody has uid 5, and that is what find says; the client it misses.
theorem find_exact_iff_client : ∃ m, Live m ⟨0,5,0⟩ ∧ Finds m 5 ∧ ¬Finds m 0 := by
  obtain ⟨m,reached,live,only,escapes⟩ := one_client
  refine ⟨m,live,(find_exact_iff reached 5 (by decide)).mpr ⟨fun c there five => ?_,0,by decide,escapes⟩,fun finds => ?_⟩
  · rw [only c there] at five
    cases five
  · exact ((find_exact_iff reached 0 (by decide)).mp finds).1 _ live rfl

-- find looks the slot of a client up among the upstream connections.
theorem client_not_found : ¬ ∀ m id, Reached masterStep TcpMasterServer.init m → -1 ≤ id → Finds m id := by
  intro claim
  obtain ⟨m,reached,live,_⟩ := one_client
  obtain ⟨calls,found,back,right⟩ := claim m 0 reached (by decide)
  rcases right with ⟨c,_,_,conduit⟩ | ⟨nobody,_⟩
  · subst conduit
    exact find_conduit m calls 0 c back
  · exact nobody _ live rfl

end GameServer.Network.Lookup
