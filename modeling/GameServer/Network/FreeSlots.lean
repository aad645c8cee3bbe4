import GameServer.Network.SlotTable

namespace GameServer.Network.FreeSlots
open TcpSlaveServer SlotTable History

-- Who holds a slot: nobody in a freed one and nobody past the table.
def seat (s : TcpSlaveServer) (i : Nat) : Option TcpConduit := s.conduits.getD i none

def nextSlot (s : TcpSlaveServer) : Nat :=
  if filled : s.emptySet.Nonempty then s.emptySet.min' filled else s.conduits.length

def Holes (s : TcpSlaveServer) : Prop := ∀ i ∈ s.emptySet, s.conduits[i]? = some none

theorem holes_empty (slaveIdx : UInt32) : Holes (TcpSlaveServer.empty slaveIdx) := by
  intro i member
  simp [TcpSlaveServer.empty] at member

theorem holes_lt (valid : Holes s) (member : i ∈ s.emptySet) : i < s.conduits.length :=
  (List.getElem?_eq_some_iff.mp (valid i member)).1

theorem seat_eq (s : TcpSlaveServer) (i : Nat) : seat s i = (s.conduits[i]?).getD none :=
  List.getD_eq_getElem?_getD

theorem seat_next (valid : Holes s) : seat s (nextSlot s) = none := by
  unfold nextSlot
  split
  · rename_i filled
    rw [seat_eq,valid _ (s.emptySet.min'_mem filled)]; rfl
  · simp [seat]

theorem seat_same (conduits : t.conduits = s.conduits) : seat t = seat s := by
  funext i
  simp [seat,conduits]

theorem seat_set (small : i < s.conduits.length) (conduits : t.conduits = s.conduits.set i entry) :
    seat t = Function.update (seat s) i entry := by
  funext j
  simp only [seat,conduits]
  by_cases same : j = i
  · subst same; simp [small]
  · simp [Function.update_of_ne same,List.getElem?_set_ne (Ne.symm same),seat]

theorem seat_append (conduits : t.conduits = s.conduits ++ [entry]) :
    seat t = Function.update (seat s) s.conduits.length entry := by
  funext j
  simp only [seat,conduits]
  by_cases same : j = s.conduits.length
  · subst same; simp
  · rw [Function.update_of_ne same]
    by_cases small : j < s.conduits.length
    · simp [List.getElem?_append_left small,seat]
    · have past : (s.conduits ++ [entry]).length ≤ j := by rw [List.length_append,List.length_singleton]; omega
      simp only [seat,List.getD_eq_getElem?_getD]
      rw [List.getElem?_eq_none past,List.getElem?_eq_none (Nat.le_of_not_lt small)]

@[simp] theorem lock_uid (s : TcpSlaveServer) (id : Nat) : s.lock.uid id = s.uid id := rfl

theorem setConnUp_connUp {s t : TcpSlaveServer} (same : t.connUp = s.connUp) (ss value : Int) :
    (t.setConnUp ss value).unlock.connUp = (s.setConnUp ss value).connUp := by
  unfold setConnUp unlock
  split
  · simp [same]
  · exact same

theorem setConnUp_client (client : 0 ≤ ss) (s : TcpSlaveServer) (value : Int) : s.setConnUp ss value = s := by
  unfold setConnUp
  exact if_neg (by omega)

-- What an accept does to the table seen as seats, and to _connUp: it turns the
-- connection away, or puts it on the next slot under that slot's uid.
inductive Admitted (s : TcpSlaveServer) (ss : Int) (answer : Answer) (next : TcpSlaveServer) : Prop where
  | away (failed : ∀ serial, create ss answer ≠ .built serial) (seats : seat next = seat s)
      (connUp : next.connUp = (s.setConnUp ss (-1)).connUp)
  | seated (serial : Nat) (made : create ss answer = .built serial)
      (seats : seat next = Function.update (seat s) (nextSlot s) (some ⟨serial,ss,s.uid (nextSlot s)⟩))
      (connUp : next.connUp = (s.setConnUp ss (s.uid (nextSlot s))).connUp)

theorem admitted (moved : s._accepted ss answer = some next) : Admitted s ss answer next := by
  unfold _accepted at moved
  dsimp only at moved
  split at moved
  · rename_i filled
    have first : nextSlot s = s.lock.emptySet.min' filled := dif_pos filled
    split at moved
    · rename_i small
      split at moved
      · rename_i serial made
        cases Option.some.inj moved
        refine .seated serial made ?_ ?_
        · rw [first]
          exact seat_set small (by simp)
        · rw [first]
          exact setConnUp_connUp (by rfl) _ _
      · rename_i made
        cases Option.some.inj moved
        exact .away (by simp [made]) (seat_same (by simp)) (setConnUp_connUp (by rfl) _ _)
      · rename_i made
        cases Option.some.inj moved
        exact .away (by simp [made]) (seat_same (by simp)) (setConnUp_connUp (by rfl) _ _)
    · cases moved
  · rename_i filled
    have first : nextSlot s = s.conduits.length := dif_neg filled
    split at moved
    · rename_i serial made
      cases Option.some.inj moved
      refine .seated serial made ?_ ?_
      · rw [first]
        exact seat_append (by simp)
      · rw [first]
        exact setConnUp_connUp (by rfl) _ _
    · rename_i made
      split at moved
      · cases Option.some.inj moved
        exact .away (by simp [made]) (seat_same (by simp)) (setConnUp_connUp (by rfl) _ _)
      · rename_i client
        -- the NULL of a client takes a slot of the vector and nobody's seat
        cases Option.some.inj moved
        have hole : seat s s.conduits.length = none := by simp [seat]
        have kept : Function.update (seat s) s.conduits.length none = seat s := by rw [←hole,Function.update_eq_self]
        refine .away (by simp [made]) ((seat_append (by simp)).trans kept) ?_
        have untouched : ∀ value, (s.setConnUp ss value).connUp = s.connUp :=
          fun value => congrArg connUp (setConnUp_client (by omega) s value)
        exact ((setConnUp_connUp (by rfl) _ _).trans (untouched _)).trans (untouched _).symm
    · rename_i made
      cases Option.some.inj moved
      exact .away (by simp [made]) (seat_same (by simp)) (setConnUp_connUp (by rfl) _ _)

theorem holes_congr (conduits : t.conduits = s.conduits) (emptySet : t.emptySet = s.emptySet) (valid : Holes s) :
    Holes t := by
  intro i member
  rw [emptySet] at member
  rw [conduits]
  exact valid i member

theorem accepted_holes (valid : Holes s) (moved : s._accepted ss answer = some next) : Holes next := by
  cases accepted_parts moved with
  | refused failed kept conduits emptySet count => exact holes_congr conduits emptySet valid
  | reused id conduit made member conduits emptySet count =>
      intro i free
      rw [emptySet,Finset.mem_erase] at free
      rw [conduits,List.getElem?_set_ne (Ne.symm free.1)]
      exact valid i free.2
  | appended conduit made full conduits emptySet count =>
      intro i free
      rw [emptySet,full] at free
      simp at free
  | hollow client made full conduits emptySet count =>
      intro i free
      rw [emptySet,full] at free
      simp at free

-- What a remove does to the table: nothing, a cut below the slot it empties, or
-- a hole inside.
inductive Vacated (s : TcpSlaveServer) (rid : Nat) (next : TcpSlaveServer) : Prop where
  | missed (gone : seat s rid = none) (conduits : next.conduits = s.conduits) (emptySet : next.emptySet = s.emptySet)
  | cut (size : Nat) (last : rid+1 = s.conduits.length) (less : size ≤ rid)
      (holes : ∀ i, size ≤ i → i < rid → s.conduits[i]? = some none)
      (conduits : next.conduits = s.conduits.take size)
      (emptySet : ∀ i, i ∈ next.emptySet ↔ i ∈ s.emptySet ∧ ¬(size ≤ i ∧ i < rid+1))
  | inner (small : rid < s.conduits.length) (conduits : next.conduits = s.conduits.set rid none)
      (emptySet : next.emptySet = insert rid s.emptySet)

theorem vacated (s : TcpSlaveServer) (id : Int) : Vacated s (slot id) (s._remove id) := by
  unfold _remove
  dsimp only
  split
  · rename_i present
    have small : slot id < s.conduits.length := present.1
    split
    · rename_i top
      have last : slot id+1 = s.conduits.length := by
        simp only [lock_conduits,List.length_set] at top
        omega
      have hole : (s.conduits.set (slot id) none)[slot id+1-1]? = some none := by simp [small]
      have length : (s.conduits.set (slot id) none).length = slot id+1 := by rw [List.length_set,last]
      obtain ⟨less,holes,_,forgot⟩ := trim_parts (s.conduits.set (slot id) none) s.emptySet
        (Nat.lt_add_one_of_le (Nat.zero_le (slot id))) (Nat.le_of_eq length.symm) hole
      refine .cut _ last (Nat.le_of_lt_succ less) ?_ ?_ (by simpa using forgot)
      · intro i above below
        have empty := holes i above (Nat.lt_succ_of_lt below)
        rwa [List.getElem?_set_ne (by omega)] at empty
      · simpa using List.take_set_of_le (Nat.le_of_lt_succ less)
    · exact .inner small (by simp) (by simp)
  · rename_i absent
    refine .missed ?_ (by simp) (by simp)
    by_cases small : slot id < s.conduits.length
    · by_contra taken
      exact absent ⟨small,taken⟩
    · rw [seat_eq,List.getElem?_eq_none (Nat.le_of_not_lt small)]; rfl

-- Whatever _remove cuts off the table it has forgotten in the free set.
theorem remove_holes (valid : Holes s) (id : Int) : Holes (s._remove id) := by
  cases vacated s id with
  | missed gone conduits emptySet => exact holes_congr conduits emptySet valid
  | cut size last less holes conduits emptySet =>
      intro i member
      obtain ⟨free,outside⟩ := (emptySet i).mp member
      have inside := holes_lt valid free
      rw [conduits,List.getElem?_take,if_pos (by omega)]
      exact valid i free
  | inner small conduits emptySet =>
      intro i member
      rw [emptySet,Finset.mem_insert] at member
      rw [conduits,List.getElem?_set]
      split
      · simp_all
      · rcases member with own | free
        · omega
        · exact valid i free

-- A remove empties the seat its id names, and no other.
theorem remove_seats (s : TcpSlaveServer) (id : Int) :
    seat (s._remove id) = Function.update (seat s) (slot id) none := by
  cases vacated s id with
  | missed gone conduits emptySet => rw [seat_same conduits,←gone,Function.update_eq_self]
  | cut size last less holes conduits emptySet =>
      funext i
      by_cases own : i = slot id
      · subst own
        simp [seat_eq,conduits,less]
      · rw [Function.update_of_ne own,seat_eq,seat_eq,conduits,List.getElem?_take]
        split
        · rfl
        · by_cases below : i < slot id
          · rw [holes i (by omega) below]; rfl
          · rw [List.getElem?_eq_none (by omega)]
  | inner small conduits emptySet => exact seat_set small conduits

@[simp] theorem lock_slaveIdx (s : TcpSlaveServer) : s.lock.slaveIdx = s.slaveIdx := rfl
@[simp] theorem unlock_slaveIdx (s : TcpSlaveServer) : s.unlock.slaveIdx = s.slaveIdx := rfl
@[simp] theorem unlock_connUp (s : TcpSlaveServer) : s.unlock.connUp = s.connUp := rfl

@[simp] theorem setConnUp_slaveIdx (s : TcpSlaveServer) (ss value : Int) :
    (s.setConnUp ss value).slaveIdx = s.slaveIdx := by
  unfold setConnUp; split <;> rfl

@[simp] theorem countDown_slaveIdx (s : TcpSlaveServer) : s.countDown.slaveIdx = s.slaveIdx := by
  unfold countDown; split <;> rfl

@[simp] theorem countDown_connUp (s : TcpSlaveServer) : s.countDown.connUp = s.connUp := by
  unfold countDown; split <;> rfl

theorem accepted_slaveIdx {s next : TcpSlaveServer} (moved : s._accepted ss answer = some next) : next.slaveIdx = s.slaveIdx := by
  unfold _accepted at moved
  dsimp only at moved
  split at moved
  · split at moved
    · split at moved <;> cases Option.some.inj moved <;> simp
    · cases moved
  · split at moved
    · cases Option.some.inj moved; simp
    · split at moved <;> cases Option.some.inj moved <;> simp
    · cases Option.some.inj moved; simp

theorem remove_slaveIdx (s : TcpSlaveServer) (id : Int) : (s._remove id).slaveIdx = s.slaveIdx := by
  unfold _remove
  dsimp only
  split
  · split <;> simp
  · rfl

theorem remove_connUp (s : TcpSlaveServer) (id : Int) : (s._remove id).connUp = s.connUp := by
  unfold _remove
  dsimp only
  split
  · split
    · simp only [unlock_connUp,countDown_connUp]; rfl
    · simp only [unlock_connUp,countDown_connUp]; rfl
  · rfl

-- The loop of _accepted over the free set ends, whatever is accepted.
def Ends (s : TcpSlaveServer) : Prop :=
  (∀ i ∈ s.emptySet, i < s.conduits.length) ∧ ∀ ss answer, ∃ next, s._accepted ss answer = some next

theorem holes_ends (valid : Holes s) : Ends s :=
  ⟨fun _ => holes_lt valid,fun ss answer => accepted_returns ss answer (fun _ => holes_lt valid)⟩

-- A shutdown empties the table and leaves the free set.
def Cleared (s : TcpSlaveServer) : Op → Prop
  | .destroy => s.emptySet = ∅
  | _ => True

theorem step_holes (valid : Holes s) (cleared : Cleared s op) :
    ∃ answer next, slaveStep s op = some (answer,next) ∧ Holes next := by
  cases op with
  | accepted ss answer =>
      obtain ⟨next,moved⟩ := (holes_ends valid).2 ss answer
      exact ⟨(),next,by simp [slaveStep,moved],accepted_holes valid moved⟩
  | remove id => exact ⟨(),_,rfl,remove_holes valid id⟩
  | destroy =>
      have bare : s.emptySet = ∅ := cleared
      refine ⟨(),_,rfl,?_⟩
      intro i member
      simp [destroy,bare] at member

-- Every accept of a run comes back exactly when no shutdown of the run leaves a
-- freed slot behind: an index past the table has nothing that takes it away.
theorem accepts_end_iff (slaveIdx : UInt32) (history : List Op) :
    Along slaveStep (fun _ _ _ next => Ends next) (TcpSlaveServer.empty slaveIdx) history ↔
      Guarded slaveStep Cleared (TcpSlaveServer.empty slaveIdx) history := by
  apply along_iff_guarded (holes_empty slaveIdx)
  · intro s op valid cleared
    obtain ⟨answer,next,moved,kept⟩ := step_holes valid cleared
    exact ⟨answer,next,moved,holes_ends kept,kept⟩
  · intro s op answer next valid moved ends
    cases op with
    | accepted ss made => trivial
    | remove id => trivial
    | destroy =>
        cases Option.some.inj moved
        apply Finset.eq_empty_of_forall_notMem
        intro i member
        exact Nat.not_lt_zero i (ends.1 i member)

-- Two clients come, the first leaves, the server shuts down: the next accept
-- keeps index 0 of a table without slots.
theorem accept_stuck : ¬ ∀ slaveIdx history,
    Along slaveStep (fun _ _ _ next => Ends next) (TcpSlaveServer.empty slaveIdx) history := by
  intro claim
  obtain ⟨_,_,one,_,_,_,two,_,_,_,three,_,_,_,four,ends,_⟩ := claim 0
    [.accepted 5 ⟨.built 0,false⟩,.accepted 6 ⟨.built 1,false⟩,.remove 0,.destroy]
  cases Option.some.inj one
  cases Option.some.inj two
  cases Option.some.inj three
  cases Option.some.inj four
  exact absurd (Option.isSome_iff_exists.mpr (ends.2 7 ⟨.built 2,false⟩)) (by decide)

end GameServer.Network.FreeSlots
