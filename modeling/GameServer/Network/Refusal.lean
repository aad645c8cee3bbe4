import GameServer.Network.SlotTable

namespace GameServer.Network.Refusal
open TcpSlaveServer SlotTable

-- No conduit came of the construction: NULL or an exception, and for an upstream
-- one also an exception of its initConnection.
def Failed (ss : Int) (answer : Answer) : Prop := ∀ serial, create ss answer ≠ .built serial

-- The slot table is the one before, and the mutex is as far open.
structure Untouched (s next : TcpSlaveServer) : Prop where
  conduits : next.conduits = s.conduits
  emptySet : next.emptySet = s.emptySet
  count : next.count = s.count
  released : next.held = s.held

def Refuses (s : TcpSlaveServer) (ss : Int) (answer : Answer) : Prop :=
  ∃ next, s._accepted ss answer = some next ∧ Untouched s next

@[simp] theorem setConnUp_held (s : TcpSlaveServer) (ss value : Int) : (s.setConnUp ss value).held = s.held := by
  unfold setConnUp; split <;> rfl

-- Both NULL branches and both catch blocks forget the upstream and leave.
theorem untouched_away (s : TcpSlaveServer) (ss : Int) : Untouched s ((s.lock.setConnUp ss (-1)).unlock) :=
  ⟨by simp,by simp,by simp,by simp [unlock,lock]⟩

theorem failed_client {ss : Int} {answer : Answer} (client : 0 ≤ ss) (failed : Failed ss answer) :
    answer.made = .null ∨ answer.made = .threw := by
  have same : create ss answer = answer.made := by rw [create,if_neg (by omega)]
  cases made : answer.made with
  | built serial => exact absurd (same.trans made) (failed serial)
  | null => exact .inl rfl
  | threw => exact .inr rfl

-- Reusing a slot: every failure leaves, where the slot is one of the table.
theorem reused_iff {s : TcpSlaveServer} {ss : Int} {answer : Answer} (failed : Failed ss answer) (filled : s.emptySet.Nonempty) :
    Refuses s ss answer ↔ s.emptySet.min' filled < s.conduits.length := by
  have here : s.lock.emptySet.Nonempty := filled
  unfold Refuses _accepted
  dsimp only
  rw [dif_pos here]
  by_cases inside : s.emptySet.min' filled < s.conduits.length
  · have inside' : s.lock.emptySet.min' here < s.lock.conduits.length := inside
    rw [if_pos inside']
    refine ⟨fun _ => inside,fun _ => ?_⟩
    cases made : create ss answer with
    | built serial => exact absurd made (failed serial)
    | null => exact ⟨_,rfl,untouched_away s ss⟩
    | threw => exact ⟨_,rfl,untouched_away s ss⟩
  · have outside' : ¬s.lock.emptySet.min' here < s.lock.conduits.length := inside
    rw [if_neg outside']
    constructor
    · intro ⟨_,ended,_⟩
      cases ended
    · exact fun below => absurd below inside

-- Appending one: a client whose conduit is NULL falls through.
theorem appended_iff {s : TcpSlaveServer} {ss : Int} {answer : Answer} (failed : Failed ss answer) (full : s.emptySet = ∅) :
    Refuses s ss answer ↔ ss < 0 ∨ answer.made = .threw := by
  have none : ¬s.lock.emptySet.Nonempty := Finset.not_nonempty_iff_eq_empty.mpr full
  unfold Refuses _accepted
  dsimp only
  rw [dif_neg none]
  by_cases upstream : ss < 0
  · refine ⟨fun _ => .inl upstream,fun _ => ?_⟩
    cases made : create ss answer with
    | built serial => exact absurd made (failed serial)
    | null =>
        dsimp only
        rw [if_pos upstream]
        exact ⟨_,rfl,untouched_away s ss⟩
    | threw => exact ⟨_,rfl,untouched_away s ss⟩
  · have same : create ss answer = answer.made := by rw [create,if_neg upstream]
    rcases failed_client (Int.not_lt.mp upstream) failed with null | threw
    · rw [same,null]
      dsimp only
      rw [if_neg upstream]
      constructor
      · intro ⟨_,ended,untouched⟩
        cases ended
        have longer := congrArg List.length untouched.conduits
        simp at longer
      · rintro (below | wrong)
        · exact absurd below upstream
        · cases wrong
    · rw [same,threw]
      exact ⟨fun _ => .inr rfl,fun _ => ⟨_,rfl,untouched_away s ss⟩⟩

-- A refused accept leaves the server as it was exactly where the least free slot
-- is one of the table and no NULL client comes to a table without one.
theorem refuses_iff (s : TcpSlaveServer) (ss : Int) (answer : Answer) (failed : Failed ss answer) :
    Refuses s ss answer ↔ (∀ filled : s.emptySet.Nonempty, s.emptySet.min' filled < s.conduits.length) ∧
      (s.emptySet = ∅ → ss < 0 ∨ answer.made = .threw) := by
  rcases s.emptySet.eq_empty_or_nonempty with full | filled
  · rw [appended_iff failed full]
    refine ⟨fun leaves => ⟨fun filled => ?_,fun _ => leaves⟩,fun ⟨_,leaves⟩ => leaves full⟩
    rw [full] at filled
    exact absurd filled Finset.not_nonempty_empty
  · rw [reused_iff failed filled]
    refine ⟨fun inside => ⟨fun _ => inside,fun full => ?_⟩,fun ⟨inside,_⟩ => inside filled⟩
    rw [full] at filled
    exact absurd filled Finset.not_nonempty_empty

theorem refuses_upstream : Refuses (TcpSlaveServer.empty 0) (-1) ⟨.null,false⟩ := by
  refine (refuses_iff _ (-1) _ ?_).mpr ⟨?_,fun _ => .inl (by decide)⟩
  · intro serial made
    cases made
  · intro filled
    exact absurd filled Finset.not_nonempty_empty

-- A client whose newConduit gives NULL, with no slot to reuse: a NULL slot is
-- appended and counted.
theorem null_published : Failed 5 ⟨.null,false⟩ ∧ ¬Refuses (TcpSlaveServer.empty 0) 5 ⟨.null,false⟩ := by
  have failed : Failed 5 ⟨.null,false⟩ := by
    intro serial made
    cases made
  refine ⟨failed,?_⟩
  rw [appended_iff failed rfl]
  rintro (below | wrong)
  · exact absurd below (by decide)
  · cases wrong

end GameServer.Network.Refusal
