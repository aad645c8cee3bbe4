import GameServer.Common.FiniteMap

namespace GameServer.Common.ListRuns
open HashList ProbeChain HashMap
open FiniteMap (Op Answer)
variable {K V : Type _}

theorem bare_of_quiet {s : HashList K V} (quiet : ∀ p e, ¬LiveAt s.entryList p e) : ∀ e, .entry e ∉ s.entryList := by
  intro e member
  obtain ⟨p,live⟩ := mem_iff_live.mp member
  exact quiet p e live

-- From a slot, the lookup of a key comes to an entry past live entries that are
-- not the one it looks for.
def Meets (entries : List (Slot K V)) (code : Int) (key : K) (rounds home p : Nat) (e : HashEntry K V) : Prop :=
  ∃ d, d < rounds ∧ (home+d) % entries.length = p ∧ cell entries (home+d) = .entry e ∧ (e.hash = code ∧ e.key = key) ∧
    ∀ j, j < d → ∃ f, cell entries (home+j) = .entry f ∧ ¬(f.hash = code ∧ f.key = key)

theorem meets_here {entries : List (Slot K V)} (here : cell entries home = .entry f) (same : f.hash = code ∧ f.key = key) :
    Meets entries code key (rounds+1) home p e ↔ home % entries.length = p ∧ f = e := by
  constructor
  · intro ⟨d,_,at_,found,_,passed⟩
    cases d with
    | zero => cases here.symm.trans found; exact ⟨at_,rfl⟩
    | succ d =>
        obtain ⟨g,first,other⟩ := passed 0 (Nat.succ_pos d)
        cases here.symm.trans first
        exact absurd same other
  · rintro ⟨rfl,rfl⟩
    exact ⟨0,Nat.succ_pos _,rfl,here,same,fun j less => absurd less (Nat.not_lt_zero j)⟩

theorem meets_next {entries : List (Slot K V)} (here : cell entries home = .entry f) (other : ¬(f.hash = code ∧ f.key = key)) :
    Meets entries code key (rounds+1) home p e ↔ Meets entries code key rounds (home+1) p e := by
  constructor
  · intro ⟨d,small,at_,found,same,passed⟩
    cases d with
    | zero => cases here.symm.trans found; exact absurd same other
    | succ d =>
        refine ⟨d,Nat.lt_of_succ_lt_succ small,?_,?_,same,?_⟩
        · rw [← at_]; congr 1; omega
        · rw [← found]; congr 1; omega
        · intro j less
          obtain ⟨g,live,apart⟩ := passed (j+1) (Nat.succ_lt_succ less)
          exact ⟨g,by rw [← live]; congr 1; omega,apart⟩
  · intro ⟨d,small,at_,found,same,passed⟩
    refine ⟨d+1,Nat.succ_lt_succ small,?_,?_,same,?_⟩
    · rw [← at_]; congr 1; omega
    · rw [← found]; congr 1; omega
    · intro j less
      cases j with
      | zero => exact ⟨f,here,other⟩
      | succ j =>
          obtain ⟨g,live,apart⟩ := passed j (Nat.lt_of_succ_lt_succ less)
          exact ⟨g,by rw [← live]; congr 1; omega,apart⟩

theorem not_meets {entries : List (Slot K V)} (unused : ∀ f, cell entries home ≠ .entry f) : ¬Meets entries code key rounds home p e := by
  intro ⟨d,_,_,found,_,passed⟩
  cases d with
  | zero => exact unused e found
  | succ d =>
      obtain ⟨g,first,_⟩ := passed 0 (Nat.succ_pos d)
      exact unused g first

variable [DecidableEq K]

-- One operation on one list, and the same as a step: a fault leaves it without a
-- next state.
def listTry (hasher : Hasher K) (useMutex : Bool) (s : HashList K V) : Op K V → Except Fault (Answer V × HashList K V)
  | .insert key value => (s.insert hasher useMutex key value).map fun (b,s) => (.flag b,s)
  | .remove key => (s.remove hasher useMutex key).map fun (b,s) => (.flag b,s)
  | .take key remove => (s.take hasher useMutex key remove).map fun (v,s) => (.found v,s)
  | .reset => (s.reset useMutex).map fun s => (.done,s)

def listStep (hasher : Hasher K) (useMutex : Bool) (s : HashList K V) (op : Op K V) : Option (Answer V × HashList K V) :=
  (listTry hasher useMutex s op).toOption

variable {hasher : Hasher K} {useMutex : Bool} {s : HashList K V}

theorem homeSlot_lt (home : homeSlot code n = .ok pos) : pos < n := by
  have room := homeSlot_parts home
  unfold homeSlot at home
  rw [if_neg (by omega)] at home
  split at home
  · cases home
  · cases home
    have below := Int.tmod_lt_of_pos code (Int.natCast_pos.mpr room)
    omega

theorem insertInternal_lost (opened : s.locked = false) (home : homeSlot ent.hash s.entryList.length = .error f) :
    s.insertInternal useMutex ent = .error f := by
  obtain ⟨entries,n,_⟩ := s
  cases opened
  dsimp only at home
  unfold insertInternal
  rw [lock_ok rfl]
  simp only [bind,Except.bind,capacity,home]

theorem remove_lost (opened : s.locked = false) (home : homeSlot (hasher.doHash2 key) s.entryList.length = .error f) :
    s.remove hasher useMutex key = .error f := by
  obtain ⟨entries,n,_⟩ := s
  cases opened
  dsimp only at home
  unfold HashList.remove
  rw [lock_ok rfl]
  simp only [bind,Except.bind,capacity,home]

theorem take_lost (opened : s.locked = false) (home : homeSlot (hasher.doHash2 key) s.entryList.length = .error f) (rm : Bool) :
    s.take hasher useMutex key rm = .error f := by
  obtain ⟨entries,n,_⟩ := s
  cases opened
  dsimp only at home
  unfold HashList.take
  rw [lock_ok rfl]
  simp only [bind,Except.bind,capacity,home]

-- A list that grew is the new list with the old live entries put into it; behind
-- the mutex there were none.
structure Grown (useMutex : Bool) (s g : HashList K V) (step : Nat) : Prop where
  full : s.full = true
  larger : stepSize.find? (fun step => s.capacity < step) = some step
  quiet : useMutex = true → ∀ p e, ¬LiveAt s.entryList p e
  rehashed : rehash false s.entryList ⟨List.replicate step .null,0,false⟩ = .ok g

theorem checkup_parts (opened : s.locked = false) (moved : s.checkupSpace useMutex = .ok g) :
    (s.full = false ∧ g = s) ∨ ∃ step, Grown useMutex s g step := by
  cases full : s.full with
  | false =>
      rw [checkup_idle full] at moved
      cases moved
      exact .inl ⟨rfl,rfl⟩
  | true =>
      obtain ⟨_,quiet⟩ := checkup_exact opened full moved
      cases larger : stepSize.find? (fun step => s.capacity < step) with
      | none => rw [checkup_stuck opened full larger] at moved; cases moved
      | some step =>
          rw [checkup_eq opened full larger] at moved
          refine .inr ⟨step,full,larger,quiet,?_⟩
          cases useMutex with
          | true =>
              have bare := bare_of_quiet (quiet rfl)
              rw [rehash_bare bare] at moved ⊢
              exact moved
          | false =>
              cases done : rehash false s.entryList ⟨List.replicate step .null,0,false⟩ with
              | error f => rw [done] at moved; cases moved
              | ok g' => rw [done] at moved; exact moved

-- What growing does, one live entry after the other: the invariant speaks of the
-- old slots still to come.
theorem rehash_walk {I : List (Slot K V) → HashList K V → Prop} {old : List (Slot K V)} (init : I old s)
    (skips : ∀ s slot rest, (∀ e, slot ≠ .entry e) → I (slot :: rest) s → I rest s)
    (keeps : ∀ s e rest b s', I (.entry e :: rest) s → s.insertInternal false e = .ok (b,s') → I rest s')
    (moved : rehash false old s = .ok g) : I [] g := by
  induction old generalizing s with
  | nil => cases moved; exact init
  | cons slot rest ih =>
      cases slot with
      | null => exact ih (skips s .null rest (by intro e same; cases same) init) moved
      | corpse => exact ih (skips s .corpse rest (by intro e same; cases same) init) moved
      | entry e =>
          rw [rehash] at moved
          cases filled : s.insertInternal false e with
          | error f => rw [filled] at moved; cases moved
          | ok pair =>
              obtain ⟨b,s'⟩ := pair
              rw [filled] at moved
              exact ih (keeps s e rest b s' init filled) moved

theorem rehash_inv {I : HashList K V → Prop} {old : List (Slot K V)} (init : I s)
    (keeps : ∀ s e b s', I s → .entry e ∈ old → s.insertInternal false e = .ok (b,s') → I s')
    (moved : rehash false old s = .ok g) : I g := by
  refine (rehash_walk (I := fun rest s => rest ⊆ old ∧ I s) ⟨List.Subset.refl old,init⟩ ?_ ?_ moved).2
  · intro s slot rest _ ⟨among,held⟩
    exact ⟨List.subset_of_cons_subset among,held⟩
  · intro s e rest b s' ⟨among,held⟩ filled
    exact ⟨List.subset_of_cons_subset among,keeps s e b s' held (among List.mem_cons_self) filled⟩

-- The slot insertInternal fills ends a run of live entries from the home slot.
theorem freeSlot_path {entries : List (Slot K V)} (found : freeSlot entries code key rounds (home % entries.length) = some q) :
    ∃ d, d < rounds ∧ (home+d) % entries.length = q ∧ (∀ j, j < d → ∃ e, cell entries (home+j) = .entry e) ∧
      ∀ e, cell entries (home+d) ≠ .entry e := by
  induction rounds generalizing home with
  | zero => cases found
  | succ rounds ih =>
      unfold freeSlot at found
      cases here : entries.getD (home % entries.length) .null with
      | null =>
          rw [here] at found
          cases found
          exact ⟨0,Nat.succ_pos _,rfl,fun j less => absurd less (Nat.not_lt_zero j),fun e live => by cases here.symm.trans live⟩
      | corpse =>
          rw [here] at found
          cases found
          exact ⟨0,Nat.succ_pos _,rfl,fun j less => absurd less (Nat.not_lt_zero j),fun e live => by cases here.symm.trans live⟩
      | entry f =>
          rw [here] at found
          dsimp only at found
          split at found
          · cases found
          · rw [mod_succ] at found
            obtain ⟨d,small,at_,used,free⟩ := @ih (home+1) found
            refine ⟨d+1,Nat.succ_lt_succ small,?_,?_,?_⟩
            · rw [← at_,Nat.add_right_comm,Nat.add_assoc]
            · intro j less
              cases j with
              | zero => exact ⟨f,here⟩
              | succ j =>
                  obtain ⟨e,live⟩ := used j (Nat.lt_of_succ_lt_succ less)
                  exact ⟨e,by rw [← live]; congr 1; omega⟩
            · intro e live
              exact free e (by rw [← live]; congr 1; omega)

theorem probe_meets {entries : List (Slot K V)} :
    probe entries code key rounds (home % entries.length) = some (p,e) ↔ Meets entries code key rounds home p e := by
  induction rounds generalizing home with
  | zero => exact iff_of_false (by intro found; cases found) (by intro ⟨d,small,_⟩; cases small)
  | succ rounds ih =>
      unfold probe
      cases here : entries.getD (home % entries.length) .null with
      | null => exact iff_of_false (by intro found; cases found) (not_meets fun f live => by cases here.symm.trans live)
      | corpse =>
          dsimp only
          rw [probe_corpse here]
          exact iff_of_false (by intro found; cases found) (not_meets fun f live => by cases here.symm.trans live)
      | entry f =>
          dsimp only
          split
          · rename_i same
            rw [meets_here here same,Option.some_inj,Prod.mk_inj]
          · rename_i other
            rw [meets_next here other,mod_succ,ih]

theorem live_of_probe {entries : List (Slot K V)} (found : probe entries code key rounds pos = some (p,e)) : LiveAt entries p e := by
  obtain ⟨_,here⟩ := probe_sound found
  unfold LiveAt
  rw [List.getD_eq_getElem?_getD] at here
  cases slot : entries[p]? with
  | none => simp [slot] at here
  | some s => simpa [slot] using here

-- What an insertInternal that comes back has done.
inductive Put (s : HashList K V) (ent : HashEntry K V) : Bool → HashList K V → Prop where
  | filled (home : homeSlot ent.hash s.entryList.length = .ok pos)
      (free : freeSlot s.entryList ent.hash ent.key s.entryList.length pos = some q) :
      Put s ent true ⟨s.entryList.set q (.entry ent),wrap32 (s.count+1),false⟩
  | turned (home : homeSlot ent.hash s.entryList.length = .ok pos)
      (taken : freeSlot s.entryList ent.hash ent.key s.entryList.length pos = none) : Put s ent false s

theorem put (opened : s.locked = false) (moved : s.insertInternal useMutex ent = .ok (b,next)) : Put s ent b next := by
  cases home : homeSlot ent.hash s.entryList.length with
  | error f => rw [insertInternal_lost opened home] at moved; cases moved
  | ok pos =>
      rw [insertInternal_home opened home] at moved
      cases free : freeSlot s.entryList ent.hash ent.key s.entryList.length pos with
      | some q => rw [free] at moved; cases moved; exact .filled home free
      | none => rw [free] at moved; cases moved; exact .turned home free

theorem put_opened (opened : s.locked = false) (done : Put s ent b next) : next.locked = false := by
  cases done with
  | filled => rfl
  | turned => exact opened

theorem grown_opened (grown : Grown useMutex s g step) : g.locked = false :=
  rehash_inv (I := fun s => s.locked = false) rfl (fun _ _ _ _ opened _ filled => put_opened opened (put opened filled)) grown.rehashed

theorem checkup_opened (opened : s.locked = false) (moved : s.checkupSpace useMutex = .ok g) : g.locked = false := by
  rcases checkup_parts opened moved with ⟨_,rfl⟩ | ⟨step,grown⟩
  · exact opened
  · exact grown_opened grown

def Looks (op : Op K V) (key : K) : Prop := op = .remove key ∨ ∃ rm, op = .take key rm

-- What an operation that comes back has done.
inductive Stepped (hasher : Hasher K) (useMutex : Bool) (s : HashList K V) : Op K V → Answer V → HashList K V → Prop where
  | missed (looks : Looks op key) (home : homeSlot (hasher.doHash2 key) s.entryList.length = .ok pos)
      (none : probe s.entryList (hasher.doHash2 key) key s.entryList.length pos = none) : Stepped hasher useMutex s op answer s
  | peeked : Stepped hasher useMutex s (.take key false) answer s
  | removed (home : homeSlot (hasher.doHash2 key) s.entryList.length = .ok pos)
      (found : probe s.entryList (hasher.doHash2 key) key s.entryList.length pos = some (p,e)) :
      Stepped hasher useMutex s (.remove key) answer ⟨bury s.entryList p,wrap32 (s.count-1),false⟩
  | taken (home : homeSlot (hasher.doHash2 key) s.entryList.length = .ok pos)
      (found : probe s.entryList (hasher.doHash2 key) key s.entryList.length pos = some (p,e)) :
      Stepped hasher useMutex s (.take key true) answer ⟨bury s.entryList p,wrap32 (wrap32 (s.count-1)-1),false⟩
  | inserted (checked : s.checkupSpace useMutex = .ok g) (done : Put g ⟨hasher.doHash2 key,key,value⟩ b next) :
      Stepped hasher useMutex s (.insert key value) (.flag b) next
  | reset : Stepped hasher useMutex s .reset answer (emptied s)

theorem stepped (opened : s.locked = false) (moved : listStep hasher useMutex s op = some (answer,next)) :
    Stepped hasher useMutex s op answer next := by
  cases op with
  | insert key value =>
      simp only [listStep,listTry,HashList.insert] at moved
      cases checked : s.checkupSpace useMutex with
      | error f => rw [checked] at moved; cases moved
      | ok g =>
          rw [checked] at moved
          simp only [bind,Except.bind] at moved
          cases filled : g.insertInternal useMutex ⟨hasher.doHash2 key,key,value⟩ with
          | error f => rw [filled] at moved; cases moved
          | ok pair =>
              obtain ⟨b,g'⟩ := pair
              rw [filled] at moved
              cases moved
              exact .inserted checked (put (checkup_opened opened checked) filled)
  | remove key =>
      simp only [listStep,listTry] at moved
      cases home : homeSlot (hasher.doHash2 key) s.entryList.length with
      | error f => rw [remove_lost opened home] at moved; cases moved
      | ok pos =>
          rw [remove_home opened home] at moved
          cases found : probe s.entryList (hasher.doHash2 key) key s.entryList.length pos with
          | none => rw [found] at moved; cases moved; exact .missed (.inl rfl) home found
          | some pair => rw [found] at moved; cases moved; exact .removed home found
  | take key rm =>
      simp only [listStep,listTry] at moved
      cases home : homeSlot (hasher.doHash2 key) s.entryList.length with
      | error f => rw [take_lost opened home] at moved; cases moved
      | ok pos =>
          rw [take_home opened home] at moved
          cases found : probe s.entryList (hasher.doHash2 key) key s.entryList.length pos with
          | none => rw [found] at moved; cases moved; exact .missed (.inr ⟨rm,rfl⟩) home found
          | some pair =>
              rw [found] at moved
              cases rm with
              | true => cases moved; exact .taken home found
              | false => cases moved; exact .peeked
  | reset =>
      simp only [listStep,listTry,reset_eq opened] at moved
      cases moved
      exact .reset

theorem step_opened (opened : s.locked = false) (moved : listStep hasher useMutex s op = some (answer,next)) : next.locked = false := by
  cases stepped opened moved with
  | missed => exact opened
  | peeked => exact opened
  | removed => rfl
  | taken => rfl
  | inserted checked done => exact put_opened (checkup_opened opened checked) done
  | reset => rfl

end GameServer.Common.ListRuns
