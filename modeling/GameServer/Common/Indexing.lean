import GameServer.Common.ListRuns

namespace GameServer.Common.Indexing
open HashList ProbeChain HashMap ListRuns
open FiniteMap (Op Answer ListAt tableStep)
variable {K V : Type _} {α : Type _}

-- A hash leads to a slot: there is one, and the remainder is not negative.
def Within (code : Int) (n : Nat) : Prop := n ≠ 0 ∧ 0 ≤ code.tmod n

-- An operation computes no remainder by zero and no negative index. It may still
-- stop at the mutex or past the last growth step.
def Indexed (outcome : Except Fault α) : Prop := outcome ≠ .error .divideByZero ∧ outcome ≠ .error .badIndex

def Stray (f : Fault) : Prop := f = .divideByZero ∨ f = .badIndex

theorem indexed_ok (a : α) : Indexed (.ok a) := by simp [Indexed]

theorem indexed_error : Indexed (.error f : Except Fault α) ↔ ¬Stray f := by simp [Indexed,Stray]

theorem not_indexed (stray : Stray f) : ¬Indexed (.error f : Except Fault α) := fun indexed => indexed_error.mp indexed stray

theorem indexed_map (outcome : Except Fault α) (g : α → β) : Indexed (outcome.map g) ↔ Indexed outcome := by
  cases outcome with
  | ok a => exact iff_of_true (indexed_ok _) (indexed_ok _)
  | error f => exact indexed_error.trans indexed_error.symm

theorem homeSlot_cases (code : Int) (n : Nat) : (Within code n ∧ ∃ pos, homeSlot code n = .ok pos) ∨
    (¬Within code n ∧ ∃ f, homeSlot code n = .error f ∧ Stray f) := by
  unfold homeSlot Within
  by_cases bare : n = 0
  · rw [if_pos bare]
    exact .inr ⟨fun within => within.1 bare,_,rfl,.inl rfl⟩
  · rw [if_neg bare]
    by_cases negative : code.tmod n < 0
    · rw [if_pos negative]
      exact .inr ⟨fun within => by omega,_,rfl,.inr rfl⟩
    · rw [if_neg negative]
      exact .inl ⟨⟨bare,by omega⟩,_,rfl⟩

-- An operation that starts at its home slot comes back where there is one and
-- stops with the slot's fault where there is none.
def Homed (code : Int) (n : Nat) (outcome : Except Fault α) : Prop :=
  (Within code n ∧ ∃ a, outcome = .ok a) ∨ (¬Within code n ∧ ∃ f, outcome = .error f ∧ Stray f)

theorem homed_of {outcome : Except Fault α} (returns : ∀ pos, homeSlot code n = .ok pos → ∃ a, outcome = .ok a)
    (stops : ∀ f, homeSlot code n = .error f → outcome = .error f) : Homed code n outcome := by
  rcases homeSlot_cases code n with ⟨within,pos,home⟩ | ⟨astray,f,lost,stray⟩
  · exact .inl ⟨within,returns pos home⟩
  · exact .inr ⟨astray,f,stops f lost,stray⟩

theorem Homed.indexed {outcome : Except Fault α} (homed : Homed code n outcome) : Indexed outcome ↔ Within code n := by
  rcases homed with ⟨within,a,rfl⟩ | ⟨astray,f,rfl,stray⟩
  · exact iff_of_true (indexed_ok a) within
  · exact iff_of_false (not_indexed stray) astray

theorem Homed.not_deadlock {outcome : Except Fault α} (homed : Homed code n outcome) : outcome ≠ .error .deadlock := by
  intro stopped
  rcases homed with ⟨_,_,rfl⟩ | ⟨_,_,rfl,stray⟩
  · cases stopped
  · cases stopped
    rcases stray with same | same <;> cases same

-- The capacity an insertion works with once the space is checked, unless the
-- growth steps run out.
def roomFor (s : HashList K V) : Option Nat :=
  if s.full then stepSize.find? (fun step => s.capacity < step) else some s.capacity

-- The key's hash leads into that capacity, and so do the entries that move there;
-- behind the mutex an entry that has to move stops the growth before it indexes.
def Insertable (hasher : Hasher K) (useMutex : Bool) (s : HashList K V) (key : K) : Prop :=
  ∀ n, roomFor s = some n → (s.full = true ∧ useMutex = true ∧ ∃ p e, LiveAt s.entryList p e) ∨
    (Within (hasher.doHash2 key) n ∧ (s.full = true → ∀ p e, LiveAt s.entryList p e → Within e.hash n))

theorem insertable_iff {hasher : Hasher K} {s : HashList K V} (room : roomFor s = some n) : Insertable hasher useMutex s key ↔
    (s.full = true ∧ useMutex = true ∧ ∃ p e, LiveAt s.entryList p e) ∨
      (Within (hasher.doHash2 key) n ∧ (s.full = true → ∀ p e, LiveAt s.entryList p e → Within e.hash n)) := by
  constructor
  · intro insertable
    exact insertable n room
  · intro fits m there
    cases Option.some.inj (room.symm.trans there)
    exact fits

section lists
variable [DecidableEq K] {hasher : Hasher K} {useMutex : Bool} {s : HashList K V}

theorem insertInternal_homed (opened : s.locked = false) (ent : HashEntry K V) :
    Homed ent.hash s.entryList.length (s.insertInternal useMutex ent) := by
  refine homed_of (fun pos home => ?_) (fun f lost => insertInternal_lost opened lost)
  rw [insertInternal_home opened home]
  split <;> exact ⟨_,rfl⟩

theorem remove_homed (opened : s.locked = false) (key : K) :
    Homed (hasher.doHash2 key) s.entryList.length (s.remove hasher useMutex key) := by
  refine homed_of (fun pos home => ?_) (fun f lost => remove_lost opened lost)
  rw [remove_home opened home]
  split <;> exact ⟨_,rfl⟩

theorem take_homed (opened : s.locked = false) (key : K) (rm : Bool) :
    Homed (hasher.doHash2 key) s.entryList.length (s.take hasher useMutex key rm) := by
  refine homed_of (fun pos home => ?_) (fun f lost => take_lost opened lost rm)
  rw [take_home opened home]
  split <;> exact ⟨_,rfl⟩

theorem put_length (done : Put s ent b next) : next.entryList.length = s.entryList.length := by
  cases done with
  | filled => exact List.length_set
  | turned => rfl

-- Growing indexes by the hash of every old live entry, up to the first that
-- leads nowhere.
theorem rehash_indexed (old : List (Slot K V)) (opened : s.locked = false) :
    (Indexed (rehash false old s) ↔ ∀ e, .entry e ∈ old → Within e.hash s.entryList.length) ∧
      ((∀ e, .entry e ∈ old → Within e.hash s.entryList.length) → ∃ g, rehash false old s = .ok g ∧
        g.locked = false ∧ g.entryList.length = s.entryList.length) := by
  induction old generalizing s with
  | nil => exact ⟨iff_of_true (indexed_ok _) (fun e member => by cases member),fun _ => ⟨s,rfl,opened,rfl⟩⟩
  | cons slot rest ih =>
      cases slot with
      | null => simpa [rehash] using ih opened
      | corpse => simpa [rehash] using ih opened
      | entry e =>
          have split_ : (∀ f, .entry f ∈ Slot.entry e :: rest → Within f.hash s.entryList.length) ↔
              Within e.hash s.entryList.length ∧ ∀ f, .entry f ∈ rest → Within f.hash s.entryList.length := by
            constructor
            · intro all
              exact ⟨all e List.mem_cons_self,fun f member => all f (List.mem_cons_of_mem _ member)⟩
            · rintro ⟨own,later⟩ f member
              rcases List.mem_cons.mp member with same | member
              · cases same; exact own
              · exact later f member
          rw [split_,rehash]
          rcases insertInternal_homed opened e with ⟨within,⟨b,s'⟩,filled⟩ | ⟨astray,f,lost,stray⟩
          · have done := put opened filled
            have later := @ih s' (put_opened opened done)
            rw [put_length done] at later
            rw [and_iff_right within,filled]
            exact later
          · rw [lost]
            exact ⟨iff_of_false (not_indexed stray) fun all => astray all.1,fun all => absurd all.1 astray⟩

theorem insert_grown (checked : s.checkupSpace useMutex = .ok g) (opened : g.locked = false) (value : V) :
    Indexed (s.insert hasher useMutex key value) ↔ Within (hasher.doHash2 key) g.entryList.length := by
  unfold HashList.insert
  rw [checked]
  exact (insertInternal_homed opened ⟨hasher.doHash2 key,key,value⟩).indexed

theorem insert_stopped (stopped : s.checkupSpace useMutex = .error f) (value : V) :
    Indexed (s.insert hasher useMutex key value) ↔ ¬Stray f := by
  unfold HashList.insert
  rw [stopped]
  exact indexed_error

theorem insert_indexed (opened : s.locked = false) (key : K) (value : V) :
    Indexed (s.insert hasher useMutex key value) ↔ Insertable hasher useMutex s key := by
  cases full : s.full with
  | false =>
      rw [insert_grown (checkup_idle full) opened,insertable_iff (by rw [roomFor,full]; rfl),full]
      simp [capacity]
  | true =>
      cases larger : stepSize.find? (fun step => s.capacity < step) with
      | none =>
          rw [insert_stopped (checkup_stuck opened full larger)]
          refine iff_of_true (by simp [Stray]) ?_
          intro n room
          rw [roomFor,if_pos full,larger] at room
          cases room
      | some step =>
          rw [insertable_iff (by rw [roomFor,if_pos full]; exact larger),full]
          have grown : s.checkupSpace useMutex = _ := checkup_eq opened full larger
          by_cases live : ∃ p e, LiveAt s.entryList p e
          · cases useMutex with
            | true =>
                obtain ⟨p,e,here⟩ := live
                rw [rehash_deadlock rfl (mem_iff_live.mpr ⟨p,here⟩)] at grown
                rw [insert_stopped grown]
                exact iff_of_true (by simp [Stray]) (.inl ⟨rfl,rfl,p,e,here⟩)
            | false =>
                have entries : (∀ e, .entry e ∈ s.entryList → Within e.hash (List.replicate step (Slot.null : Slot K V)).length) ↔
                    ∀ p e, LiveAt s.entryList p e → Within e.hash step := by
                  rw [List.length_replicate]
                  exact ⟨fun all p e here => all e (mem_iff_live.mpr ⟨p,here⟩),
                    fun all e member => by obtain ⟨p,here⟩ := mem_iff_live.mp member; exact all p e here⟩
                obtain ⟨fine,done⟩ := rehash_indexed (s := ⟨List.replicate step .null,0,false⟩) s.entryList rfl
                rw [entries] at fine done
                by_cases all : ∀ p e, LiveAt s.entryList p e → Within e.hash step
                · obtain ⟨g,rehashed,free,length⟩ := done all
                  rw [rehashed] at grown
                  rw [insert_grown grown free]
                  simpa [length,unlock] using fun _ => all
                · cases result : rehash false s.entryList ⟨List.replicate step .null,0,false⟩ with
                  | ok g => rw [result] at fine; exact absurd (fine.mp (indexed_ok g)) all
                  | error f =>
                      rw [result] at fine grown
                      rw [insert_stopped grown,← indexed_error,fine]
                      simp [all]
          · have bare : ∀ e, .entry e ∉ s.entryList := fun e member => by
              obtain ⟨p,here⟩ := mem_iff_live.mp member
              exact live ⟨p,e,here⟩
            rw [rehash_bare bare] at grown
            rw [insert_grown grown (by cases useMutex <;> rfl)]
            have quiet : ∀ p e, ¬LiveAt s.entryList p e := fun p e here => live ⟨p,e,here⟩
            cases useMutex <;> simp [unlock,quiet]

-- An operation that has a key asks for its list: to find it a removal or a lookup
-- divides by the capacity there is.
def ListFits (hasher : Hasher K) (useMutex : Bool) (s : HashList K V) : Op K V → Prop
  | .insert key _ => Insertable hasher useMutex s key
  | .remove key => Within (hasher.doHash2 key) s.capacity
  | .take key _ => Within (hasher.doHash2 key) s.capacity
  | .reset => True

theorem list_indexed (opened : s.locked = false) (op : Op K V) :
    Indexed (listTry hasher useMutex s op) ↔ ListFits hasher useMutex s op := by
  cases op with
  | insert key value => exact (indexed_map _ _).trans (insert_indexed opened key value)
  | remove key => exact (indexed_map _ _).trans (remove_homed opened key).indexed
  | take key rm => exact (indexed_map _ _).trans (take_homed opened key rm).indexed
  | reset =>
      rw [listTry,reset_eq opened]
      exact iff_of_true (indexed_ok _) trivial

end lists

section tables
variable {hasher : Hasher K} {useMutex : Bool} {t : HashTable K V}

def keyOf : Op K V → Option K
  | .insert key _ => some key
  | .remove key => some key
  | .take key _ => some key
  | .reset => none

theorem onList_map (op : HashList K V → Except Fault (α × HashList K V)) (answer : α → β) (key : K) :
    (t.onList hasher key op).map (fun (a,t) => (answer a,t)) =
      t.onList hasher key fun l => (op l).map fun (a,l) => (answer a,l) := by
  unfold HashTable.onList
  cases homeSlot (hasher.doHash1 key) t.hashLists.length with
  | error f => rfl
  | ok i =>
      simp only [bind,Except.bind,pure,Except.pure]
      cases op (t.hashLists.getD i {}) <;> rfl

theorem list_home (home : homeSlot (hasher.doHash1 key) t.hashLists.length = .ok i) : ∃ l, ListAt t i l :=
  ⟨_,List.getElem?_eq_getElem (homeSlot_lt home)⟩

def Open (t : HashTable K V) : Prop := ∀ l ∈ t.hashLists, l.locked = false

theorem open_empty (capacity : Nat) : Open (HashTable.empty capacity : HashTable K V) := by
  intro l member
  rw [List.eq_of_mem_replicate member]

theorem reset_open (open_ : Open t) : t.reset useMutex = .ok ⟨t.hashLists.map emptied⟩ := by
  unfold HashTable.reset
  rw [FiniteMap.mapM_reset useMutex _ open_]
  rfl

variable [DecidableEq K]

def tableTry (hasher : Hasher K) (useMutex : Bool) (t : HashTable K V) : Op K V → Except Fault (Answer V × HashTable K V)
  | .insert key value => (t.insert hasher useMutex key value).map fun (b,t) => (.flag b,t)
  | .remove key => (t.remove hasher useMutex key).map fun (b,t) => (.flag b,t)
  | .take key remove => (t.take hasher useMutex key remove).map fun (v,t) => (.found v,t)
  | .reset => (t.reset useMutex).map fun t => (.done,t)

theorem tableStep_eq (op : Op K V) : tableStep hasher useMutex t op = (tableTry hasher useMutex t op).toOption := by
  cases op with
  | insert key value => rw [tableStep,tableTry]; cases t.insert hasher useMutex key value <;> rfl
  | remove key => rw [tableStep,tableTry]; cases t.remove hasher useMutex key <;> rfl
  | take key rm => rw [tableStep,tableTry]; cases t.take hasher useMutex key rm <;> rfl
  | reset => rw [tableStep,tableTry]; cases t.reset useMutex <;> rfl

theorem tableTry_keyed (keyed : keyOf op = some key) :
    tableTry hasher useMutex t op = t.onList hasher key fun l => listTry hasher useMutex l op := by
  cases op with
  | insert k value => cases keyed; exact onList_map _ _ key
  | remove k => cases keyed; exact onList_map _ _ key
  | take k rm => cases keyed; exact onList_map _ _ key
  | reset => cases keyed

-- The key leads to a list and the list's own indexing is within bounds.
def TableFits (hasher : Hasher K) (useMutex : Bool) (t : HashTable K V) (op : Op K V) : Prop :=
  ∀ key, keyOf op = some key → Within (hasher.doHash1 key) t.hashLists.length ∧
    ∀ i l, homeSlot (hasher.doHash1 key) t.hashLists.length = .ok i → ListAt t i l → ListFits hasher useMutex l op

theorem table_indexed (open_ : Open t) (op : Op K V) :
    Indexed (tableTry hasher useMutex t op) ↔ TableFits hasher useMutex t op := by
  cases keyed : keyOf op with
  | none =>
      cases op with
      | reset =>
          rw [tableTry,reset_open open_]
          refine iff_of_true (indexed_ok _) ?_
          intro key keyed
          cases keyed
      | _ => cases keyed
  | some key =>
      rw [tableTry_keyed keyed]
      rcases homeSlot_cases (hasher.doHash1 key) t.hashLists.length with ⟨within,i,home⟩ | ⟨astray,f,lost,stray⟩
      · obtain ⟨l,found⟩ := list_home home
        rw [FiniteMap.onList_home home found,indexed_map,list_indexed (open_ l (List.mem_of_getElem? found))]
        constructor
        · intro fits key' keyed'
          cases keyed.symm.trans keyed'
          refine ⟨within,?_⟩
          intro i' l' home' found'
          cases home.symm.trans home'
          cases Option.some.inj (found.symm.trans found')
          exact fits
        · intro fits
          exact (fits key keyed).2 i l home found
      · have stopped : t.onList hasher key (fun l => listTry hasher useMutex l op) = .error f := by
          unfold HashTable.onList
          rw [lost]
          rfl
        rw [stopped]
        refine iff_of_false (not_indexed stray) ?_
        intro fits
        exact astray (fits key keyed).1

theorem table_open (open_ : Open t) (moved : tableStep hasher useMutex t op = some (answer,next)) : Open next := by
  rw [tableStep_eq] at moved
  cases keyed : keyOf op with
  | none =>
      cases op with
      | reset =>
          rw [tableTry,reset_open open_] at moved
          cases moved
          intro l member
          obtain ⟨_,_,rfl⟩ := List.mem_map.mp member
          rfl
      | _ => cases keyed
  | some key =>
      rw [tableTry_keyed keyed] at moved
      rcases homeSlot_cases (hasher.doHash1 key) t.hashLists.length with ⟨_,i,home⟩ | ⟨_,f,lost,_⟩
      · obtain ⟨l,found⟩ := list_home home
        rw [FiniteMap.onList_home home found] at moved
        cases result : listTry hasher useMutex l op with
        | error f => rw [result] at moved; cases moved
        | ok pair =>
            obtain ⟨a,l'⟩ := pair
            rw [result] at moved
            cases moved
            have kept : l'.locked = false :=
              step_opened (open_ l (List.mem_of_getElem? found)) (by rw [listStep,result]; rfl)
            intro x member
            rcases List.mem_or_eq_of_mem_set member with old | rfl
            · exact open_ x old
            · exact kept
      · unfold HashTable.onList at moved
        rw [lost] at moved
        cases moved

def Indexes (hasher : Hasher K) (useMutex : Bool) (t : HashTable K V) (op : Op K V) : Prop :=
  Indexed (tableTry hasher useMutex t op)

-- A history keeps every index within bounds exactly if each of its operations is
-- handed to a list by a remainder that is not negative and finds there a capacity
-- and no negative remainder.
theorem indexes_iff (hasher : Hasher K) (useMutex : Bool) (capacity : Nat) (history : List (Op K V)) :
    History.Guarded (tableStep hasher useMutex) (Indexes hasher useMutex) (HashTable.empty capacity) history ↔
      History.Guarded (tableStep hasher useMutex) (TableFits hasher useMutex) (HashTable.empty capacity) history := by
  have every : ∀ op ∈ history, True := fun _ _ => trivial
  refine History.guarded_congr (open_empty capacity) ?_ ?_ every
  · exact fun t op open_ _ => table_indexed open_ op
  · exact fun t op answer next open_ _ _ moved => table_open open_ moved

end tables

-- The hasher of the source, for keys that are integers.
def hashTableHasher : Hasher Int where
  doHash1 := wrap32
  doHash2 := wrap32

-- The first removal from a table divides by the capacity 0 of its list, and the
-- key 2^32-1 narrows to -1, the list of which is none.
theorem bad_indexes : (¬History.Guarded (tableStep hashTableHasher true) (Indexes hashTableHasher true)
      (HashTable.empty : HashTable Int Nat) [.remove 5]) ∧
    ¬History.Guarded (tableStep hashTableHasher true) (Indexes hashTableHasher true)
      (HashTable.empty : HashTable Int Nat) [.insert 4294967295 1] := by
  constructor
  · intro ⟨⟨divided,_⟩,_⟩
    exact divided (by decide +kernel)
  · intro ⟨⟨_,negative⟩,_⟩
    exact negative (by decide +kernel)

end GameServer.Common.Indexing
