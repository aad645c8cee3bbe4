import GameServer.Network.TcpServer

namespace GameServer.Network.SlotTable
open TcpSlaveServer History

def live (conduits : List (Option TcpConduit)) : Nat := conduits.countP Option.isSome

-- The three views of one table agree: the free set, the trimmed vector, the
-- counter.
structure Agrees (s : TcpSlaveServer) : Prop where
  free : ∀ i, i ∈ s.emptySet ↔ s.conduits[i]? = some none
  last : s.conduits.getLast? ≠ some none
  count : s.count.toNat = live s.conduits

theorem empty_agrees (slaveIdx : UInt32) : Agrees (TcpSlaveServer.empty slaveIdx) := by
  constructor <;> simp [TcpSlaveServer.empty,live]

@[simp] theorem lock_conduits (s : TcpSlaveServer) : s.lock.conduits = s.conduits := rfl
@[simp] theorem lock_emptySet (s : TcpSlaveServer) : s.lock.emptySet = s.emptySet := rfl
@[simp] theorem lock_count (s : TcpSlaveServer) : s.lock.count = s.count := rfl
@[simp] theorem unlock_conduits (s : TcpSlaveServer) : s.unlock.conduits = s.conduits := rfl
@[simp] theorem unlock_emptySet (s : TcpSlaveServer) : s.unlock.emptySet = s.emptySet := rfl
@[simp] theorem unlock_count (s : TcpSlaveServer) : s.unlock.count = s.count := rfl

@[simp] theorem setConnUp_conduits (s : TcpSlaveServer) (ss value : Int) :
    (s.setConnUp ss value).conduits = s.conduits := by
  unfold setConnUp; split <;> rfl

@[simp] theorem setConnUp_emptySet (s : TcpSlaveServer) (ss value : Int) :
    (s.setConnUp ss value).emptySet = s.emptySet := by
  unfold setConnUp; split <;> rfl

@[simp] theorem setConnUp_count (s : TcpSlaveServer) (ss value : Int) :
    (s.setConnUp ss value).count = s.count := by
  unfold setConnUp; split <;> rfl

@[simp] theorem countDown_conduits (s : TcpSlaveServer) : s.countDown.conduits = s.conduits := by
  unfold countDown; split <;> rfl

@[simp] theorem countDown_emptySet (s : TcpSlaveServer) : s.countDown.emptySet = s.emptySet := by
  unfold countDown; split <;> rfl

theorem countDown_count (s : TcpSlaveServer) (positive : 0 < s.count.toNat) :
    s.countDown.count.toNat + 1 = s.count.toNat := by
  have one : (1 : UInt32) ≤ s.count := UInt32.le_iff_toNat_le.mpr positive
  have above : s.count > 0 := UInt32.lt_iff_toNat_lt.mpr (by simpa using positive)
  unfold countDown
  rw [if_pos above]
  dsimp only
  rw [UInt32.toNat_sub_of_le _ _ one]
  simp only [UInt32.toNat_one]
  omega

theorem agrees_congr (conduits : t.conduits = s.conduits) (emptySet : t.emptySet = s.emptySet)
    (count : t.count = s.count) : Agrees t ↔ Agrees s := by
  constructor <;> intro ⟨free,last,number⟩
  · exact ⟨by rw [←conduits,←emptySet]; exact free,by rw [←conduits]; exact last,by rw [←conduits,←count]; exact number⟩
  · exact ⟨by rw [conduits,emptySet]; exact free,by rw [conduits]; exact last,by rw [conduits,count]; exact number⟩

theorem free_lt (valid : Agrees s) (member : i ∈ s.emptySet) : i < s.conduits.length :=
  (List.getElem?_eq_some_iff.mp ((valid.free i).mp member)).1

-- With no stale index in the set an accept always comes back.
theorem accepted_returns {s : TcpSlaveServer} (ss : Int) (answer : Answer)
    (below : ∀ i ∈ s.emptySet, i < s.conduits.length) : ∃ next, s._accepted ss answer = some next := by
  unfold _accepted
  dsimp only
  split
  · rename_i filled
    have small : s.emptySet.min' filled < s.conduits.length := below _ (s.emptySet.min'_mem filled)
    rw [if_pos (by exact small)]
    split <;> exact ⟨_,rfl⟩
  · split
    · exact ⟨_,rfl⟩
    · split <;> exact ⟨_,rfl⟩
    · exact ⟨_,rfl⟩

-- What an accept leaves of the three views, by what came of the construction.
inductive Accepted (s : TcpSlaveServer) (ss : Int) (answer : Answer) (next : TcpSlaveServer) : Prop where
  | refused (failed : ∀ serial, create ss answer ≠ .built serial)
      (kept : s.emptySet = ∅ → ss < 0 ∨ create ss answer = .threw)
      (conduits : next.conduits = s.conduits) (emptySet : next.emptySet = s.emptySet)
      (count : next.count = s.count)
  | reused (id : Nat) (conduit : TcpConduit) (made : create ss answer = .built conduit.serial)
      (member : id ∈ s.emptySet)
      (conduits : next.conduits = s.conduits.set id (some conduit))
      (emptySet : next.emptySet = s.emptySet.erase id) (count : next.count = s.count+1)
  | appended (conduit : TcpConduit) (made : create ss answer = .built conduit.serial)
      (full : s.emptySet = ∅) (conduits : next.conduits = s.conduits ++ [some conduit])
      (emptySet : next.emptySet = s.emptySet) (count : next.count = s.count+1)
  | hollow (client : 0 ≤ ss) (made : create ss answer = .null)
      (full : s.emptySet = ∅) (conduits : next.conduits = s.conduits ++ [none])
      (emptySet : next.emptySet = s.emptySet) (count : next.count = s.count+1)

theorem accepted_parts (moved : s._accepted ss answer = some next) : Accepted s ss answer next := by
  unfold _accepted at moved
  dsimp only at moved
  split at moved
  · rename_i filled
    split at moved
    · have occupied : s.emptySet ≠ ∅ := Finset.nonempty_iff_ne_empty.mp filled
      let id := s.emptySet.min' filled
      split at moved
      · rename_i serial made
        cases Option.some.inj moved
        exact .reused id ⟨serial,ss,s.lock.uid id⟩ made (s.emptySet.min'_mem filled) (by simp [id]) (by simp [id]) (by simp)
      · rename_i made
        cases Option.some.inj moved
        exact .refused (by simp [made]) (fun none => absurd none occupied) (by simp) (by simp) (by simp)
      · rename_i made
        cases Option.some.inj moved
        exact .refused (by simp [made]) (fun none => absurd none occupied) (by simp) (by simp) (by simp)
    · cases moved
  · rename_i filled
    have full : s.emptySet = ∅ := Finset.not_nonempty_iff_eq_empty.mp filled
    split at moved
    · rename_i serial made
      cases Option.some.inj moved
      exact .appended ⟨serial,ss,s.lock.uid s.conduits.length⟩ made full (by simp) (by simp) (by simp)
    · rename_i made
      split at moved
      · rename_i upstream
        cases Option.some.inj moved
        exact .refused (by simp [made]) (fun _ => .inl upstream) (by simp) (by simp) (by simp)
      · rename_i client
        cases Option.some.inj moved
        exact .hollow (by omega) made full (by simp) (by simp) (by simp)
    · rename_i made
      cases Option.some.inj moved
      exact .refused (by simp [made]) (fun _ => .inr made) (by simp) (by simp) (by simp)

-- An accept keeps the views together unless it appends an empty pointer or
-- drives the 32-bit counter round.
def AcceptFits (s : TcpSlaveServer) (ss : Int) (answer : Answer) : Prop :=
  (s.emptySet = ∅ → 0 ≤ ss → create ss answer ≠ .null) ∧
    (∀ serial, create ss answer = .built serial → s.count.toNat+1 < 2^32)

theorem count_succ {n : UInt32} : (n+1).toNat = n.toNat+1 ↔ n.toNat+1 < 2^32 := by
  rw [UInt32.toNat_add]
  have := n.toNat_lt
  simp only [UInt32.reduceToNat]
  omega

theorem live_set (conduits : List (Option TcpConduit)) (hole : conduits[i]? = some none) :
    live (conduits.set i (some c)) = live conduits + 1 := by
  obtain ⟨small,empty⟩ := List.getElem?_eq_some_iff.mp hole
  simp [live,List.countP_set small,empty]

theorem live_append (conduits : List (Option TcpConduit)) :
    live (conduits ++ [some c]) = live conduits + 1 := by simp [live]

-- With one conduit more, and one more in the count, nothing is to fear but a
-- counter that goes round.
theorem grown_agrees {serial : Nat} (made : create ss answer = .built serial) (number : live next.conduits = s.count.toNat+1)
    (count : next.count = s.count+1) (free : ∀ i, i ∈ next.emptySet ↔ next.conduits[i]? = some none)
    (last : next.conduits.getLast? ≠ some none) : Agrees next ↔ AcceptFits s ss answer := by
  constructor
  · intro agreed
    refine ⟨fun _ _ => by simp [made],fun _ _ => ?_⟩
    have same := agreed.count
    rw [number,count] at same
    exact count_succ.mp same
  · intro fits
    refine ⟨free,last,?_⟩
    rw [number,count]
    exact count_succ.mpr (fits.2 _ made)

theorem accepted_agrees (valid : Agrees s) (moved : s._accepted ss answer = some next) :
    Agrees next ↔ AcceptFits s ss answer := by
  cases accepted_parts moved with
  | refused failed kept conduits emptySet count =>
      refine ⟨fun _ => ⟨?_,fun serial made => absurd made (failed serial)⟩,
        fun _ => (agrees_congr conduits emptySet count).mpr valid⟩
      intro full client null
      rcases kept full with upstream | threw
      · omega
      · rw [threw] at null; cases null
  | reused id conduit made member conduits emptySet count =>
      have hole := (valid.free id).mp member
      refine grown_agrees made (by rw [conduits,live_set _ hole,valid.count]) count ?_ ?_
      · intro i
        rw [emptySet,conduits,Finset.mem_erase,valid.free i,List.getElem?_set]
        have small := (List.getElem?_eq_some_iff.mp hole).1
        by_cases equal : id = i
        · subst equal; simp [small]
        · simp [equal,Ne.symm equal]
      · rw [conduits,List.getLast?_eq_getElem?,List.length_set,List.getElem?_set]
        have old := valid.last
        rw [List.getLast?_eq_getElem?] at old
        split
        · split <;> simp
        · exact old
  | appended conduit made full conduits emptySet count =>
      refine grown_agrees made (by rw [conduits,live_append,valid.count]) count ?_ (by simp [conduits])
      intro i
      have none := valid.free i
      rw [full] at none
      rw [emptySet,full,conduits,List.getElem?_append]
      split
      · exact none
      · cases i - s.conduits.length <;> simp
  | hollow client made full conduits emptySet count =>
      constructor
      · intro agreed
        exact absurd (by simp [conduits]) agreed.last
      · intro fits
        exact absurd made (fits.1 full client)

theorem trim_succ (conduits : List (Option TcpConduit)) (rrid : Nat) (emptySet : Finset Nat) :
    trim conduits (rrid+1) emptySet =
      if 0 < rrid ∧ conduits.getD (rrid-1) none = none then trim conduits rrid (emptySet.erase rrid)
      else (rrid,emptySet.erase rrid) := by
  have forget : (if emptySet.Nonempty then emptySet.erase rrid else emptySet) = emptySet.erase rrid := by
    split
    · rfl
    · rename_i bare
      simp [Finset.not_nonempty_iff_eq_empty.mp bare]
  rw [trim,forget]

-- The do-while stops at the first occupied slot below, or at the bottom, and
-- forgets exactly the indices it has stepped over.
theorem trim_parts (conduits : List (Option TcpConduit)) (emptySet : Finset Nat) (top : 0 < n)
    (fits : n ≤ conduits.length) (hole : conduits[n-1]? = some none) :
    (trim conduits n emptySet).1 < n ∧
      (∀ i, (trim conduits n emptySet).1 ≤ i → i < n → conduits[i]? = some none) ∧
      (∀ i, i+1 = (trim conduits n emptySet).1 → conduits[i]? ≠ some none) ∧
      ∀ i, i ∈ (trim conduits n emptySet).2 ↔ i ∈ emptySet ∧ ¬((trim conduits n emptySet).1 ≤ i ∧ i < n) := by
  induction n generalizing emptySet with
  | zero => omega
  | succ rrid ih =>
      rw [trim_succ]
      split
      · rename_i below
        have lower : conduits[rrid-1]? = some none := by
          have small : rrid-1 < conduits.length := by omega
          have empty := below.2
          rw [List.getD_eq_getElem?_getD] at empty
          rw [List.getElem?_eq_getElem small] at empty ⊢
          simpa using empty
        obtain ⟨less,holes,stop,forgot⟩ := ih (emptySet.erase rrid) below.1 (by omega) lower
        refine ⟨by omega,?_,stop,?_⟩
        · intro i lo hi
          by_cases equal : i = rrid
          · subst i; exact hole
          · exact holes i lo (by omega)
        · intro i
          rw [forgot,Finset.mem_erase]
          constructor
          · intro ⟨⟨other,member⟩,outside⟩
            exact ⟨member,by omega⟩
          · intro ⟨member,outside⟩
            exact ⟨⟨by omega,member⟩,by omega⟩
      · rename_i stopped
        refine ⟨Nat.lt_succ_self rrid,?_,?_,?_⟩
        · intro i lo hi
          have equal : i = rrid := by dsimp only at lo; omega
          subst i; exact hole
        · intro i equal empty
          dsimp only at equal
          refine stopped ⟨by omega,?_⟩
          have same : rrid-1 = i := by omega
          rw [same,List.getD_eq_getElem?_getD,empty]; rfl
        · intro i
          dsimp only
          rw [Finset.mem_erase]
          constructor
          · intro ⟨other,member⟩; exact ⟨member,by omega⟩
          · intro ⟨member,outside⟩; exact ⟨by omega,member⟩

theorem live_take (conduits : List (Option TcpConduit))
    (holes : ∀ i, size ≤ i → i < conduits.length → conduits[i]? = some none) :
    live (conduits.take size) = live conduits := by
  have dropped : (conduits.drop size).countP Option.isSome = 0 := by
    rw [List.countP_eq_zero]
    intro entry member
    obtain ⟨i,small,rfl⟩ := List.getElem_of_mem member
    rw [List.getElem_drop]
    have inside : size+i < conduits.length := by simp at small; omega
    have empty := holes (size+i) (by omega) inside
    rw [List.getElem?_eq_getElem inside] at empty
    simp [Option.some.inj empty]
  calc live (conduits.take size)
      = (conduits.take size).countP Option.isSome + (conduits.drop size).countP Option.isSome := by rw [dropped]; rfl
    _ = live conduits := by rw [←List.countP_append,List.take_append_drop]; rfl

theorem live_clear (conduits : List (Option TcpConduit)) (taken : conduits[rid]? = some (some c)) :
    live (conduits.set rid none) + 1 = live conduits := by
  obtain ⟨small,full⟩ := List.getElem?_eq_some_iff.mp taken
  have positive : 0 < conduits.countP Option.isSome :=
    List.countP_pos_iff.mpr ⟨some c,full ▸ List.getElem_mem small,rfl⟩
  simp only [live,List.countP_set small,full]
  simp only [Option.isSome_some,if_true,Option.isSome_none,Bool.false_eq_true,if_false]
  omega

-- What a remove leaves of the three views: nothing changed, the top of the
-- table trimmed, or a slot inside it freed.
inductive Removed (s : TcpSlaveServer) (rid : Nat) (next : TcpSlaveServer) : Prop where
  | missed (gone : ∀ c, s.conduits[rid]? ≠ some (some c)) (conduits : next.conduits = s.conduits)
      (emptySet : next.emptySet = s.emptySet) (count : next.count = s.count)
  | top (c : TcpConduit) (taken : s.conduits[rid]? = some (some c)) (last : rid+1 = s.conduits.length)
      (conduits : next.conduits = (s.conduits.set rid none).take (trim (s.conduits.set rid none) (rid+1) s.emptySet).1)
      (emptySet : next.emptySet = (trim (s.conduits.set rid none) (rid+1) s.emptySet).2)
      (count : next.count.toNat+1 = s.count.toNat)
  | inner (c : TcpConduit) (taken : s.conduits[rid]? = some (some c)) (below : rid+1 < s.conduits.length)
      (conduits : next.conduits = s.conduits.set rid none) (emptySet : next.emptySet = insert rid s.emptySet)
      (count : next.count.toNat+1 = s.count.toNat)

theorem taken_iff (conduits : List (Option TcpConduit)) (rid : Nat) :
    (rid < conduits.length ∧ conduits.getD rid none ≠ none) ↔ ∃ c, conduits[rid]? = some (some c) := by
  rw [List.getD_eq_getElem?_getD]
  constructor
  · intro ⟨small,full⟩
    rw [List.getElem?_eq_getElem small] at full ⊢
    obtain ⟨c,eq⟩ := Option.ne_none_iff_exists'.mp full
    exact ⟨c,congrArg some eq⟩
  · intro ⟨c,entry⟩
    exact ⟨(List.getElem?_eq_some_iff.mp entry).1,by simp [entry]⟩

theorem remove_parts (valid : Agrees s) (id : Int) : Removed s (slot id) (s._remove id) := by
  unfold _remove
  dsimp only
  split
  · rename_i present
    obtain ⟨c,taken⟩ := (taken_iff _ _).mp present
    have counted : 0 < s.lock.count.toNat := by
      have := live_clear _ taken
      rw [lock_count,valid.count]; exact Nat.lt_of_lt_of_eq (Nat.succ_pos _) this
    split
    · rename_i top
      have last : slot id+1 = s.conduits.length := by
        have small := present.1
        simp only [lock_conduits,List.length_set] at top small
        omega
      exact .top c taken last (by simp) (by simp) (countDown_count _ counted)
    · rename_i inside
      have below : slot id+1 < s.conduits.length := by
        have small := present.1
        simp only [lock_conduits,List.length_set] at inside small
        omega
      exact .inner c taken below (by simp) (by simp) (countDown_count _ counted)
  · rename_i absent
    exact .missed (fun c taken => absent ((taken_iff _ _).mpr ⟨c,taken⟩)) rfl rfl rfl

theorem remove_agrees (valid : Agrees s) (id : Int) : Agrees (s._remove id) := by
  cases remove_parts valid id with
  | missed gone conduits emptySet count => exact (agrees_congr conduits emptySet count).mpr valid
  | top c taken last conduits emptySet count =>
      have small : slot id < s.conduits.length := by omega
      have number := live_clear _ taken
      have hole : (s.conduits.set (slot id) none)[slot id+1-1]? = some none := by simp [small]
      have other : ∀ i, i ≠ slot id → (s.conduits.set (slot id) none)[i]? = s.conduits[i]? :=
        fun i differs => List.getElem?_set_ne (Ne.symm differs)
      have length : (s.conduits.set (slot id) none).length = slot id+1 := by rw [List.length_set,last]
      obtain ⟨less,holes,stop,forgot⟩ := trim_parts (s.conduits.set (slot id) none) s.emptySet
        (Nat.succ_pos _) (Nat.le_of_eq length.symm) hole
      generalize trim (s.conduits.set (slot id) none) (slot id+1) s.emptySet = trimmed at *
      generalize s.conduits.set (slot id) none = cleared at *
      refine ⟨?_,?_,?_⟩
      · intro i
        rw [emptySet,forgot,valid.free,conduits,List.getElem?_take]
        by_cases kept : i < trimmed.1
        · rw [if_pos kept,other i (by omega)]
          exact ⟨And.left,fun entry => ⟨entry,by omega⟩⟩
        · rw [if_neg kept]
          constructor
          · intro ⟨entry,outside⟩
            have := (List.getElem?_eq_some_iff.mp entry).1
            omega
          · intro none; cases none
      · rw [conduits,List.getLast?_eq_getElem?,List.length_take,length,Nat.min_eq_left (Nat.le_of_lt less),List.getElem?_take]
        by_cases bare : trimmed.1 = 0
        · simp [bare]
        · rw [if_pos (by omega)]
          exact stop _ (by omega)
      · have kept : live (cleared.take trimmed.1) = live cleared :=
          live_take cleared (fun i lo hi => holes i lo (by omega))
        have before := valid.count
        rw [conduits,kept]; omega
  | inner c taken below conduits emptySet count =>
      have number := live_clear _ taken
      refine ⟨?_,?_,?_⟩
      · intro i
        rw [emptySet,conduits,Finset.mem_insert,valid.free,List.getElem?_set]
        by_cases equal : slot id = i
        · subst equal; simp; omega
        · simp [equal,Ne.symm equal]
      · have old := valid.last
        rw [List.getLast?_eq_getElem?] at old ⊢
        rw [conduits,List.length_set,List.getElem?_set_ne (by omega)]
        exact old
      · have before := valid.count
        rw [conduits]; omega

theorem destroy_agrees (s : TcpSlaveServer) : Agrees s.destroy ↔ s.emptySet = ∅ := by
  constructor
  · intro agreed
    ext i
    have stale := agreed.free i
    simp only [destroy,List.getElem?_nil] at stale
    simpa using stale
  · intro bare
    exact ⟨by simp [destroy,bare],by simp [destroy],by simp [destroy,live]⟩

-- Where each operation keeps the views together: an accept must not append a
-- NULL client conduit or wrap the counter, and a shutdown must find no freed
-- slot below a used one.
def Fits (s : TcpSlaveServer) : Op → Prop
  | .accepted ss answer => AcceptFits s ss answer
  | .remove _ => True
  | .destroy => s.emptySet = ∅

theorem step_returns (valid : Agrees s) (op : Op) : ∃ answer next, slaveStep s op = some (answer,next) := by
  cases op with
  | accepted ss answer =>
      obtain ⟨next,moved⟩ := accepted_returns ss answer (fun _ => free_lt valid)
      exact ⟨(),next,by simp [slaveStep,moved]⟩
  | remove id => exact ⟨(),_,rfl⟩
  | destroy => exact ⟨(),_,rfl⟩

theorem step_agrees (valid : Agrees s) (moved : slaveStep s op = some (answer,next)) :
    Agrees next ↔ Fits s op := by
  cases op with
  | accepted ss made =>
      obtain ⟨after,accepted,equal⟩ := Option.map_eq_some_iff.mp moved
      cases equal
      exact accepted_agrees valid accepted
  | remove id =>
      cases Option.some.inj moved
      exact ⟨fun _ => trivial,fun _ => remove_agrees valid id⟩
  | destroy =>
      cases Option.some.inj moved
      exact destroy_agrees s

def Consistent (slaveIdx : UInt32) (history : List Op) : Prop :=
  Along slaveStep (fun _ _ _ next => Agrees next) (TcpSlaveServer.empty slaveIdx) history

-- A history leaves the three views in agreement after every operation exactly
-- when every operation fits the state it runs in.
theorem consistent_iff_fits (slaveIdx : UInt32) (history : List Op) :
    Consistent slaveIdx history ↔ Guarded slaveStep Fits (TcpSlaveServer.empty slaveIdx) history := by
  refine along_iff_guarded (empty_agrees slaveIdx) ?_ ?_
  · intro s op valid fits
    obtain ⟨answer,next,moved⟩ := step_returns valid op
    have kept := (step_agrees valid moved).mpr fits
    exact ⟨answer,next,moved,kept,kept⟩
  · intro s op answer next valid moved kept
    exact (step_agrees valid moved).mp kept

-- Two clients, the first leaves, the server shuts down: index 0 stays in the
-- free set of a table without slots.
theorem stale_after_destroy : ¬ ∀ slaveIdx history, Consistent slaveIdx history := by
  intro claim
  obtain ⟨_,_,one,_,_,_,two,_,_,_,three,_,_,_,four,agreed,_⟩ := claim 0
    [.accepted 5 ⟨.built 0,false⟩,.accepted 6 ⟨.built 1,false⟩,.remove 0,.destroy]
  cases Option.some.inj one
  cases Option.some.inj two
  cases Option.some.inj three
  cases Option.some.inj four
  have stale := (agreed.free 0).mp (by decide)
  simp [destroy] at stale

end GameServer.Network.SlotTable
