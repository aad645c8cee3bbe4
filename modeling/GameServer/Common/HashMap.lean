import Mathlib.Logic.Function.Basic
import GameServer.Library.History
import GameServer.Common.ProbeChain

namespace GameServer.Common.HashMap
open HashList ProbeChain
variable {K V : Type _}

-- What every list of the table keeps: the probe chains, an open mutex and,
-- while the list was never grown, a count of zero.
structure Valid (hasher : Hasher K) (s : HashList K V) : Prop where
  chained : Chained hasher.doHash2 s.entryList
  opened : s.locked = false
  hashes : ∀ k v, Holds s.entryList k v → 0 ≤ hasher.doHash2 k
  bare : s.entryList = [] → s.count = 0

def Bound (s : HashList K V) (key : K) : Prop := ∃ v, Holds s.entryList key v

theorem holds_bare (capacity : Nat) : ¬Holds (List.replicate capacity (Slot.null : Slot K V)) k v :=
  fun ⟨_,_,live,_⟩ => live_bare capacity live

theorem valid_empty (hasher : Hasher K) : Valid hasher ({} : HashList K V) :=
  ⟨chained_bare _ 0,rfl,fun _ _ held => absurd held (holds_bare 0),fun _ => rfl⟩

theorem homeSlot_ok (nonneg : 0 ≤ code) (room : 0 < n) : homeSlot code n = .ok (code.toNat % n) := by
  obtain ⟨c,rfl⟩ := Int.eq_ofNat_of_zero_le nonneg
  have same : (c : Int).tmod n = ((c % n : Nat) : Int) := rfl
  rw [homeSlot,if_neg (by omega),Int.toNat_natCast,same,if_neg (by omega),Int.toNat_natCast]

theorem homeSlot_parts (found : homeSlot code n = .ok i) : 0 < n := by
  unfold homeSlot at found
  split at found
  · cases found
  · omega

-- The mutex is the non-recursive one; a list without a mutex, and one with a
-- recursive mutex, run as useMutex := false.
theorem lock_ok {s : HashList K V} (opened : s.locked = false) (useMutex : Bool) :
    s.lock useMutex = .ok {s with locked := useMutex} := by
  obtain ⟨entries,n,_⟩ := s
  cases opened
  cases useMutex <;> rfl

theorem lock_twice {s : HashList K V} (locked : s.locked = true) : s.lock true = .error .deadlock := by
  simp [lock,locked]

theorem unlock_ok (useMutex : Bool) (entries : List (Slot K V)) (n : Int) :
    unlock useMutex ⟨entries,n,useMutex⟩ = ⟨entries,n,false⟩ := by
  cases useMutex <;> rfl

def emptied (s : HashList K V) : HashList K V := ⟨List.replicate s.entryList.length .null,s.count,false⟩

theorem reset_eq {s : HashList K V} (opened : s.locked = false) (useMutex : Bool) :
    s.reset useMutex = .ok (emptied s) := by
  obtain ⟨entries,n,_⟩ := s
  cases opened
  unfold HashList.reset emptied
  rw [lock_ok rfl]
  simp only [bind,Except.bind,pure,Except.pure,List.map_const']
  exact congrArg Except.ok (unlock_ok _ _ _)

theorem valid_emptied {hasher : Hasher K} {s : HashList K V} (valid : Valid hasher s) : Valid hasher (emptied s) := by
  refine ⟨chained_bare _ _,rfl,fun k v held => absurd held (holds_bare _),fun bare => ?_⟩
  have length : (List.replicate s.entryList.length (Slot.null : Slot K V)).length = 0 := congrArg List.length bare
  rw [List.length_replicate] at length
  exact valid.bare (List.eq_nil_of_length_eq_zero length)

section lists
variable [DecidableEq K] {hasher : Hasher K} {s : HashList K V} {useMutex : Bool}

-- Past the lock and the remainder: the entry goes into the free slot of its walk.
theorem insertInternal_home (opened : s.locked = false) (home : homeSlot ent.hash s.entryList.length = .ok pos) :
    s.insertInternal useMutex ent =
      match freeSlot s.entryList ent.hash ent.key s.entryList.length pos with
      | some free => .ok (true,⟨s.entryList.set free (.entry ent),wrap32 (s.count+1),false⟩)
      | none => .ok (false,s) := by
  obtain ⟨entries,n,_⟩ := s
  cases opened
  unfold insertInternal
  rw [lock_ok rfl]
  dsimp only at home
  simp only [bind,Except.bind,pure,Except.pure,capacity,home]
  cases freeSlot entries ent.hash ent.key entries.length pos with
  | some free => exact congrArg (fun l => Except.ok (true,l)) (unlock_ok _ _ _)
  | none => exact congrArg (fun l => Except.ok (false,l)) (unlock_ok _ _ _)

theorem remove_home (opened : s.locked = false) (home : homeSlot (hasher.doHash2 key) s.entryList.length = .ok pos) :
    s.remove hasher useMutex key =
      match probe s.entryList (hasher.doHash2 key) key s.entryList.length pos with
      | some (pos,_) => .ok (true,⟨bury s.entryList pos,wrap32 (s.count-1),false⟩)
      | none => .ok (false,s) := by
  obtain ⟨entries,n,_⟩ := s
  cases opened
  unfold HashList.remove
  rw [lock_ok rfl]
  dsimp only at home
  simp only [bind,Except.bind,pure,Except.pure,capacity,home]
  cases probe entries (hasher.doHash2 key) key entries.length pos with
  | none => exact congrArg (fun l => Except.ok (false,l)) (unlock_ok _ _ _)
  | some found => exact congrArg (fun l => Except.ok (true,l)) (unlock_ok _ _ _)

theorem take_home (opened : s.locked = false) (home : homeSlot (hasher.doHash2 key) s.entryList.length = .ok pos) (rm : Bool) :
    s.take hasher useMutex key rm =
      match probe s.entryList (hasher.doHash2 key) key s.entryList.length pos with
      | some (pos,e) => .ok (some e.value,
          if rm then ⟨bury s.entryList pos,wrap32 (wrap32 (s.count-1)-1),false⟩ else s)
      | none => .ok (none,s) := by
  obtain ⟨entries,n,_⟩ := s
  cases opened
  unfold HashList.take
  rw [lock_ok rfl]
  dsimp only at home
  simp only [bind,Except.bind,pure,Except.pure,capacity,home]
  cases probe entries (hasher.doHash2 key) key entries.length pos with
  | none => exact congrArg (fun l => Except.ok (none,l)) (unlock_ok _ _ _)
  | some found =>
    cases rm with
    | true => exact congrArg (fun l => Except.ok (_,l)) (unlock_ok _ _ _)
    | false => exact congrArg (fun l => Except.ok (_,l)) (unlock_ok _ _ _)

theorem insertInternal_eq (opened : s.locked = false) (nonneg : 0 ≤ ent.hash) (room : 0 < s.entryList.length) :
    s.insertInternal useMutex ent =
      match freeSlot s.entryList ent.hash ent.key s.entryList.length (ent.hash.toNat % s.entryList.length) with
      | some free => .ok (true,⟨s.entryList.set free (.entry ent),wrap32 (s.count+1),false⟩)
      | none => .ok (false,s) :=
  insertInternal_home opened (homeSlot_ok nonneg room)

theorem remove_eq (opened : s.locked = false) (nonneg : 0 ≤ hasher.doHash2 key) (room : 0 < s.entryList.length) :
    s.remove hasher useMutex key =
      match probe s.entryList (hasher.doHash2 key) key s.entryList.length
        ((hasher.doHash2 key).toNat % s.entryList.length) with
      | some (pos,_) => .ok (true,⟨bury s.entryList pos,wrap32 (s.count-1),false⟩)
      | none => .ok (false,s) :=
  remove_home opened (homeSlot_ok nonneg room)

theorem take_eq (opened : s.locked = false) (nonneg : 0 ≤ hasher.doHash2 key) (room : 0 < s.entryList.length)
    (rm : Bool) :
    s.take hasher useMutex key rm =
      match probe s.entryList (hasher.doHash2 key) key s.entryList.length
        ((hasher.doHash2 key).toNat % s.entryList.length) with
      | some (pos,e) => .ok (some e.value,
          if rm then ⟨bury s.entryList pos,wrap32 (wrap32 (s.count-1)-1),false⟩ else s)
      | none => .ok (none,s) :=
  take_home opened (homeSlot_ok nonneg room) rm

-- A bare list has no capacity to divide by.
theorem remove_bare (opened : s.locked = false) (bare : s.entryList.length = 0) :
    s.remove hasher useMutex key = .error .divideByZero := by
  unfold HashList.remove
  rw [lock_ok opened]
  simp [bind,Except.bind,capacity,homeSlot,bare]

theorem take_bare (opened : s.locked = false) (bare : s.entryList.length = 0) :
    s.take hasher useMutex key rm = .error .divideByZero := by
  unfold HashList.take
  rw [lock_ok opened]
  simp [bind,Except.bind,capacity,homeSlot,bare]

-- What an operation on one key leaves: the key has its new binding, the others theirs.
structure Follows (hasher : Hasher K) (s : HashList K V) (key : K) (new : Option V) (s' : HashList K V) : Prop where
  valid : Valid hasher s'
  holds : ∀ k v, Holds s'.entryList k v ↔ if k = key then new = some v else Holds s.entryList k v

-- A lookup has a capacity to divide by and no corpse before the key's entry.
def FindFits (hasher : Hasher K) (s : HashList K V) (key : K) : Prop :=
  0 < s.entryList.length ∧ ¬Buried hasher.doHash2 s.entryList key

theorem probe_bound (valid : Valid hasher s) (clear : ¬Buried hasher.doHash2 s.entryList key)
    (held : Holds s.entryList key v) : ∃ p e, LiveAt s.entryList p e ∧ e.key = key ∧ e.value = v ∧
      probe s.entryList (hasher.doHash2 key) key s.entryList.length
        ((hasher.doHash2 key).toNat % s.entryList.length) = some (p,e) := by
  obtain ⟨p,e,live,rfl,rfl⟩ := held
  exact ⟨p,e,live,rfl,rfl,probe_clear valid.chained live clear⟩

-- A buried key is bound, and the lookup says it is not.
theorem probe_hidden (valid : Valid hasher s) (buried : Buried hasher.doHash2 s.entryList key)
    (known : ∀ v, Holds s.entryList key v ↔ old = some v) : old.isSome = true ∧
      probe s.entryList (hasher.doHash2 key) key s.entryList.length
        ((hasher.doHash2 key).toNat % s.entryList.length) = none := by
  refine ⟨?_,probe_buried valid.chained buried⟩
  obtain ⟨p,e,_,_,live,same,_⟩ := buried
  rw [(known e.value).mp ⟨p,e,live,same,rfl⟩]; rfl

theorem follows_bury (valid : Valid hasher s) (live : LiveAt s.entryList p e) (n : Int) :
    Follows hasher s e.key none ⟨bury s.entryList p,n,false⟩ := by
  have holds := holds_bury valid.chained live
  refine ⟨⟨chained_bury valid.chained live,rfl,fun k v held => valid.hashes k v ((holds k v).mp held).2,?_⟩,?_⟩
  · intro bare
    have length := (bury_parts live).length
    have small := live.lt
    have none_left : (bury s.entryList p).length = 0 := congrArg List.length bare
    omega
  · intro k v
    rw [holds]
    split
    · rename_i same; simp [same]
    · rename_i other; simp [other]

theorem follows_same (valid : Valid hasher s) (known : ∀ v, Holds s.entryList key v ↔ old = some v) :
    Follows hasher s key old s := by
  refine ⟨valid,fun k v => ?_⟩
  split
  · rename_i same; rw [same]; exact known v
  · exact Iff.rfl

theorem remove_fits (useMutex : Bool) (valid : Valid hasher s) (nonneg : 0 ≤ hasher.doHash2 key)
    (known : ∀ v, Holds s.entryList key v ↔ old = some v) (fits : FindFits hasher s key) :
    ∃ s', s.remove hasher useMutex key = .ok (old.isSome,s') ∧ Follows hasher s key none s' := by
  rw [remove_eq valid.opened nonneg fits.1]
  cases old with
  | none =>
      have absent : ¬∃ v, Holds s.entryList key v := fun ⟨v,held⟩ => nomatch (known v).mp held
      rw [probe_absent absent]
      exact ⟨s,rfl,follows_same valid known⟩
  | some v =>
      obtain ⟨p,e,live,rfl,_,found⟩ := probe_bound valid fits.2 ((known v).mpr rfl)
      rw [found]
      exact ⟨_,rfl,follows_bury valid live _⟩

theorem remove_exact (valid : Valid hasher s) (nonneg : 0 ≤ hasher.doHash2 key)
    (known : ∀ v, Holds s.entryList key v ↔ old = some v)
    (moved : s.remove hasher useMutex key = .ok (old.isSome,s')) : FindFits hasher s key := by
  have room : 0 < s.entryList.length := by
    by_contra bare
    rw [remove_bare valid.opened (by omega)] at moved
    cases moved
  refine ⟨room,fun buried => ?_⟩
  obtain ⟨bound,missed⟩ := probe_hidden valid buried known
  rw [remove_eq valid.opened nonneg room,missed,bound] at moved
  cases moved

theorem take_fits (useMutex : Bool) (valid : Valid hasher s) (nonneg : 0 ≤ hasher.doHash2 key)
    (known : ∀ v, Holds s.entryList key v ↔ old = some v) (fits : FindFits hasher s key) (rm : Bool) :
    ∃ s', s.take hasher useMutex key rm = .ok (old,s') ∧ Follows hasher s key (if rm then none else old) s' := by
  rw [take_eq valid.opened nonneg fits.1]
  cases old with
  | none =>
      have absent : ¬∃ v, Holds s.entryList key v := fun ⟨v,held⟩ => nomatch (known v).mp held
      rw [probe_absent absent,ite_self]
      exact ⟨s,rfl,follows_same valid known⟩
  | some v =>
      obtain ⟨p,e,live,rfl,rfl,found⟩ := probe_bound valid fits.2 ((known v).mpr rfl)
      rw [found]
      cases rm with
      | true => exact ⟨_,rfl,follows_bury valid live _⟩
      | false => exact ⟨_,rfl,follows_same valid known⟩

theorem take_exact (valid : Valid hasher s) (nonneg : 0 ≤ hasher.doHash2 key)
    (known : ∀ v, Holds s.entryList key v ↔ old = some v)
    (moved : s.take hasher useMutex key rm = .ok (old,s')) : FindFits hasher s key := by
  have room : 0 < s.entryList.length := by
    by_contra bare
    rw [take_bare valid.opened (by omega)] at moved
    cases moved
  refine ⟨room,fun buried => ?_⟩
  obtain ⟨bound,missed⟩ := probe_hidden valid buried known
  rw [take_eq valid.opened nonneg room,missed] at moved
  cases moved
  cases bound

end lists

section growth

def occupied (entries : List (Slot K V)) : Nat := entries.countP fun s => s matches .entry _

theorem occupied_bare (capacity : Nat) : occupied (List.replicate capacity (Slot.null : Slot K V)) = 0 := by
  simp [occupied,List.countP_replicate]

theorem occupied_set (entries : List (Slot K V)) (q : Nat) (s : Slot K V) :
    occupied (entries.set q s) ≤ occupied entries + 1 := by
  unfold occupied
  by_cases small : q < entries.length
  · rw [List.countP_set small]
    refine Nat.add_le_add (Nat.sub_le _ _) ?_
    by_cases live : (match s with | .entry _ => true | _ => false) = true
    · rw [if_pos live]
    · rw [if_neg live]; exact Nat.zero_le 1
  · rw [List.set_eq_of_length_le (by omega)]; omega

def HasRoom (entries : List (Slot K V)) : Prop := ∃ i, i < entries.length ∧ ∀ e, cell entries i ≠ .entry e

theorem has_room {entries : List (Slot K V)} (room : occupied entries < entries.length) : HasRoom entries := by
  by_contra packed
  have all : ∀ i, i < entries.length → ∃ e, cell entries i = .entry e := fun i small => by
    by_contra free
    exact packed ⟨i,small,fun e here => free ⟨e,here⟩⟩
  have every : occupied entries = entries.length := by
    refine List.countP_eq_length.mpr fun s member => ?_
    obtain ⟨i,small,rfl⟩ := List.mem_iff_getElem.mp member
    obtain ⟨e,here⟩ := all i small
    rw [cell,Nat.mod_eq_of_lt small,List.getD_eq_getElem?_getD,List.getElem?_eq_getElem small] at here
    rw [show entries[i] = .entry e from here]
  omega

theorem mem_iff_live {entries : List (Slot K V)} : .entry e ∈ entries ↔ ∃ p, LiveAt entries p e :=
  List.mem_iff_getElem?

-- What growing has done with the old slots it has seen.
structure Rehashed (hasher : Hasher K) (s : HashList K V) (old : List (Slot K V)) (g : HashList K V) : Prop where
  chained : Chained hasher.doHash2 g.entryList
  opened : g.locked = false
  length : g.entryList.length = s.entryList.length
  clean : ∀ i, cell g.entryList i ≠ .corpse
  room : occupied g.entryList < g.entryList.length
  holds : ∀ k v, Holds g.entryList k v ↔ Holds s.entryList k v ∨ ∃ e, .entry e ∈ old ∧ e.key = k ∧ e.value = v

theorem rehashed_bare {hasher : Hasher K} {old : List (Slot K V)} (step : Nat) (room : 0 < step) (bare : ∀ e, .entry e ∉ old) (locked : Bool) (n : Int) :
    Rehashed hasher (⟨List.replicate step .null,n,locked⟩ : HashList K V) old ⟨List.replicate step .null,n,false⟩ := by
  refine ⟨chained_bare _ _,rfl,rfl,fun i => ?_,?_,fun k v => ?_⟩
  · simp [cell,List.getD_eq_getElem?_getD,List.getElem?_replicate]; split <;> simp
  · dsimp only; rw [occupied_bare,List.length_replicate]; exact room
  · constructor
    · exact fun held => absurd held (holds_bare step)
    · rintro (held | ⟨e,member,_⟩)
      · exact held
      · exact absurd member (bare e)

variable [DecidableEq K] {hasher : Hasher K} {s : HashList K V} {useMutex : Bool}

-- A new key goes into the first slot of its path that is free.
theorem insert_absent (useMutex : Bool) (ent : HashEntry K V) (chained : Chained hasher.doHash2 s.entryList) (opened : s.locked = false)
    (hashed : ent.hash = hasher.doHash2 ent.key) (nonneg : 0 ≤ hasher.doHash2 ent.key)
    (absent : ¬∃ v, Holds s.entryList ent.key v)
    (room : HasRoom s.entryList) :
    ∃ q, s.insertInternal useMutex ent = .ok (true,⟨s.entryList.set q (.entry ent),wrap32 (s.count+1),false⟩) ∧
      q < s.entryList.length ∧ Chained hasher.doHash2 (s.entryList.set q (.entry ent)) ∧
      ∀ k v, Holds (s.entryList.set q (.entry ent)) k v ↔ (k = ent.key ∧ v = ent.value) ∨ Holds s.entryList k v := by
  obtain ⟨i,less,unused⟩ := room
  have inside : 0 < s.entryList.length := by omega
  rcases freeSlot_absent (c:=ent.hash) absent ent.hash.toNat with ⟨all,_⟩ | ⟨d,small,passed,free,found⟩
  · obtain ⟨e,here⟩ := all i less
    exact absurd here (unused e)
  · have place := Nat.mod_lt (ent.hash.toNat+d) inside
    rw [insertInternal_eq opened (hashed ▸ nonneg) inside,found]
    refine ⟨_,rfl,place,?_,holds_fill ent place (fun e => by rw [cell_mod]; exact free e)⟩
    rw [hashed]
    refine chained_fill chained ent hashed absent small fun j less null => ?_
    obtain ⟨e,here,_⟩ := passed j less
    rw [hashed,null] at here
    cases here

theorem rehash_parts (old : List (Slot K V)) (chained : Chained hasher.doHash2 s.entryList) (opened : s.locked = false)
    (clean : ∀ i, cell s.entryList i ≠ .corpse) (room : occupied s.entryList + old.length < s.entryList.length)
    (hashes : ∀ e, .entry e ∈ old → e.hash = hasher.doHash2 e.key ∧ 0 ≤ hasher.doHash2 e.key)
    (absent : ∀ e, .entry e ∈ old → ¬∃ v, Holds s.entryList e.key v)
    (apart : old.Pairwise fun a b => ∀ e f, a = .entry e → b = .entry f → e.key ≠ f.key) :
    ∃ g, rehash false old s = .ok g ∧ Rehashed hasher s old g := by
  induction old generalizing s with
  | nil =>
      refine ⟨s,rfl,chained,opened,rfl,clean,by simpa using room,fun k v => ?_⟩
      simp
  | cons slot rest ih =>
      have later := fun e member => hashes e (List.mem_cons_of_mem slot member)
      rw [List.pairwise_cons] at apart
      rw [List.length_cons] at room
      cases slot with
      | null =>
          obtain ⟨g,done,parts⟩ := ih chained opened clean (by omega) later
            (fun e member => absent e (List.mem_cons_of_mem _ member)) apart.2
          exact ⟨g,done,parts.chained,parts.opened,parts.length,parts.clean,parts.room,by simpa using parts.holds⟩
      | corpse =>
          obtain ⟨g,done,parts⟩ := ih chained opened clean (by omega) later
            (fun e member => absent e (List.mem_cons_of_mem _ member)) apart.2
          exact ⟨g,done,parts.chained,parts.opened,parts.length,parts.clean,parts.room,by simpa using parts.holds⟩
      | entry e =>
          have own := hashes e (List.mem_cons_self ..)
          obtain ⟨q,filled,small,kept,holds⟩ := insert_absent false e chained opened own.1 own.2
            (absent e (List.mem_cons_self ..)) (has_room (by omega))
          have count := occupied_set s.entryList q (.entry e)
          obtain ⟨g,done,parts⟩ := ih (s:=⟨s.entryList.set q (.entry e),wrap32 (s.count+1),false⟩) kept rfl
            (fun i => by
              rw [cell_set small]
              split
              · simp
              · exact clean i)
            (by dsimp only; rw [List.length_set]; omega) later
            (fun f member ⟨v,held⟩ => by
              rcases (holds f.key v).mp held with ⟨same,_⟩ | old
              · exact apart.1 _ member e f rfl rfl same.symm
              · exact absent f (List.mem_cons_of_mem _ member) ⟨v,old⟩)
            apart.2
          refine ⟨g,?_,parts.chained,parts.opened,?_,parts.clean,parts.room,fun k v => ?_⟩
          · rw [rehash,filled]; exact done
          · rw [parts.length,List.length_set]
          · rw [parts.holds,holds]
            constructor
            · rintro ((⟨rfl,rfl⟩ | old) | ⟨f,member,same⟩)
              · exact .inr ⟨e,List.mem_cons_self ..,rfl,rfl⟩
              · exact .inl old
              · exact .inr ⟨f,List.mem_cons_of_mem _ member,same⟩
            · rintro (old | ⟨f,member,rfl,rfl⟩)
              · exact .inl (.inr old)
              · rcases List.mem_cons.mp member with same | member
                · cases same; exact .inl (.inl ⟨rfl,rfl⟩)
                · exact .inr ⟨f,member,rfl,rfl⟩

-- Without a live entry no insertInternal runs, so the mutex held does not matter.
theorem rehash_bare (bare : ∀ e, .entry e ∉ old) : rehash useMutex old s = .ok s := by
  induction old with
  | nil => rfl
  | cons slot rest ih =>
      have later := ih fun e member => bare e (List.mem_cons_of_mem _ member)
      cases slot with
      | null => exact later
      | corpse => exact later
      | entry e => exact absurd (List.mem_cons_self ..) (bare e)

-- With one, insertInternal locks the mutex checkupSpace holds.
theorem rehash_deadlock (locked : s.locked = true) (live : .entry e ∈ old) : rehash true old s = .error .deadlock := by
  induction old with
  | nil => cases live
  | cons slot rest ih =>
      have later : slot ≠ .entry e → rehash true rest s = .error .deadlock := fun other => by
        rcases List.mem_cons.mp live with same | member
        · exact absurd same.symm other
        · exact ih member
      cases slot with
      | null => exact later (by simp)
      | corpse => exact later (by simp)
      | entry f =>
          rw [rehash,HashList.insertInternal,lock_twice locked]; rfl

-- What a full list needs to grow: a larger step and, behind the mutex, no live entry.
def GrowFits (useMutex : Bool) (s : HashList K V) : Prop :=
  (∃ step ∈ stepSize, s.entryList.length < step) ∧ (useMutex = true → ∀ p e, ¬LiveAt s.entryList p e)

theorem checkup_idle (idle : s.full = false) : s.checkupSpace useMutex = .ok s := by
  simp [checkupSpace,idle,pure,Except.pure]

theorem checkup_eq (opened : s.locked = false) (full : s.full = true)
    (larger : stepSize.find? (fun step => s.capacity < step) = some step) :
    s.checkupSpace useMutex = (rehash useMutex s.entryList ⟨List.replicate step .null,0,useMutex⟩).map (·.unlock useMutex) := by
  unfold checkupSpace
  rw [if_pos full,lock_ok opened]
  have larger' : stepSize.find? (fun step => HashList.capacity {s with locked := useMutex} < step) = some step := larger
  simp only [bind,Except.bind,pure,Except.pure,larger']
  cases rehash useMutex s.entryList ⟨List.replicate step .null,0,useMutex⟩ <;> rfl

theorem checkup_stuck (opened : s.locked = false) (full : s.full = true)
    (last : stepSize.find? (fun step => s.capacity < step) = none) :
    s.checkupSpace useMutex = .error .noStep := by
  unfold checkupSpace
  rw [if_pos full,lock_ok opened]
  have last' : stepSize.find? (fun step => HashList.capacity {s with locked := useMutex} < step) = none := last
  simp only [bind,Except.bind,last']

theorem checkup_full (valid : Valid hasher s) (full : s.full = true) (fits : GrowFits useMutex s) :
    ∃ g, s.checkupSpace useMutex = .ok g ∧ Valid hasher g ∧ 0 < g.entryList.length ∧
      (∀ i, cell g.entryList i ≠ .corpse) ∧ HasRoom g.entryList ∧
      ∀ k v, Holds g.entryList k v ↔ Holds s.entryList k v := by
  obtain ⟨⟨larger,member,above⟩,quiet⟩ := fits
  cases found : stepSize.find? (fun step => s.capacity < step) with
  | none =>
      have above : s.capacity < larger := above
      exact absurd (by simpa using above) (List.find?_eq_none.mp found larger member)
  | some step =>
      have grows : s.capacity < step := by simpa using List.find?_some found
      unfold HashList.capacity at grows
      have holds_old : ∀ k v, (∃ e, .entry e ∈ s.entryList ∧ e.key = k ∧ e.value = v) ↔ Holds s.entryList k v := by
        intro k v
        constructor
        · intro ⟨e,member,same⟩
          obtain ⟨p,live⟩ := mem_iff_live.mp member
          exact ⟨p,e,live,same⟩
        · intro ⟨p,e,live,same⟩
          exact ⟨e,mem_iff_live.mpr ⟨p,live⟩,same⟩
      have spare : ∃ g, s.checkupSpace useMutex = .ok g ∧
          Rehashed hasher ⟨List.replicate step .null,0,useMutex⟩ s.entryList g := by
        rw [checkup_eq valid.opened full found]
        cases useMutex with
        | true =>
            have bare : ∀ e, .entry e ∉ s.entryList := fun e member => by
              obtain ⟨p,live⟩ := mem_iff_live.mp member
              exact quiet rfl p e live
            rw [rehash_bare bare]
            exact ⟨_,rfl,rehashed_bare step (by omega) bare true 0⟩
        | false =>
            obtain ⟨g,done,parts⟩ := rehash_parts (s:=⟨List.replicate step .null,0,false⟩) s.entryList
              (chained_bare hasher.doHash2 step) rfl
              (fun i => by simp [cell,List.getD_eq_getElem?_getD,List.getElem?_replicate]; split <;> simp)
              (by dsimp only; rw [occupied_bare,List.length_replicate]; omega)
              (fun e member => by
                obtain ⟨p,live⟩ := mem_iff_live.mp member
                exact ⟨valid.chained.hashed p e live,valid.hashes _ _ ⟨p,e,live,rfl,rfl⟩⟩)
              (fun _ _ ⟨_,held⟩ => holds_bare step held)
              (by
                refine List.pairwise_iff_getElem.mpr fun i j small small' less e f one two same => ?_
                have equal := valid.chained.single i j e f (List.getElem?_eq_some_iff.mpr ⟨small,one⟩)
                  (List.getElem?_eq_some_iff.mpr ⟨small',two⟩) same
                omega)
            rw [done]
            exact ⟨_,rfl,parts⟩
      obtain ⟨g,done,parts⟩ := spare
      have holds : ∀ k v, Holds g.entryList k v ↔ Holds s.entryList k v := fun k v => by
        rw [parts.holds,holds_old,or_iff_right (holds_bare step)]
      have room : 0 < g.entryList.length := Nat.lt_of_le_of_lt (Nat.zero_le _) parts.room
      refine ⟨g,done,⟨parts.chained,parts.opened,fun k v held => valid.hashes k v ((holds k v).mp held),?_⟩,
        room,parts.clean,has_room parts.room,holds⟩
      intro bare
      rw [bare] at room
      cases room

theorem checkup_exact (opened : s.locked = false) (full : s.full = true)
    (moved : s.checkupSpace useMutex = .ok g) : GrowFits useMutex s := by
  cases found : stepSize.find? (fun step => s.capacity < step) with
  | none => rw [checkup_stuck opened full found] at moved; cases moved
  | some step =>
      have grows : s.capacity < step := by simpa using List.find?_some found
      refine ⟨⟨step,List.mem_of_find?_eq_some found,grows⟩,?_⟩
      rintro rfl p e live
      rw [checkup_eq opened full found,rehash_deadlock rfl (mem_iff_live.mpr ⟨p,live⟩)] at moved
      cases moved

-- An insertion that does not grow the list needs its key's path free of
-- corpses, and a free slot for a new key.
def InsertFits (hasher : Hasher K) (useMutex : Bool) (s : HashList K V) (key : K) : Prop :=
  (s.full = true → GrowFits useMutex s) ∧
    (s.full = false → ¬Buried hasher.doHash2 s.entryList key ∧ (¬Bound s key → HasRoom s.entryList))

theorem fill_fits (useMutex : Bool) (valid : Valid hasher s) (nonneg : 0 ≤ hasher.doHash2 key) (room : 0 < s.entryList.length)
    (clear : ¬Buried hasher.doHash2 s.entryList key) (spare : ¬Bound s key → HasRoom s.entryList)
    (known : ∀ v, Holds s.entryList key v ↔ old = some v) (value : V) :
    ∃ s', s.insertInternal useMutex ⟨hasher.doHash2 key,key,value⟩ = .ok (old.isNone,s') ∧
      Follows hasher s key (old.or (some value)) s' := by
  cases old with
  | some v =>
      obtain ⟨p,e,live,rfl,_⟩ := (known v).mpr rfl
      rw [insertInternal_eq valid.opened nonneg room]
      dsimp only
      rw [freeSlot_clear valid.chained live clear]
      exact ⟨s,rfl,follows_same valid known⟩
  | none =>
      have absent : ¬∃ v, Holds s.entryList key v := fun ⟨v,held⟩ => nomatch (known v).mp held
      obtain ⟨q,filled,small,kept,holds⟩ := insert_absent useMutex ⟨hasher.doHash2 key,key,value⟩
        valid.chained valid.opened rfl nonneg absent (spare absent)
      refine ⟨_,filled,⟨kept,rfl,?_,?_⟩,?_⟩
      · intro k v held
        rcases (holds k v).mp held with ⟨rfl,_⟩ | before
        · exact nonneg
        · exact valid.hashes k v before
      · intro bare
        have length : (s.entryList.set q (.entry ⟨hasher.doHash2 key,key,value⟩)).length = 0 := congrArg List.length bare
        rw [List.length_set] at length
        omega
      · intro k v
        rw [holds]
        split
        · rename_i same
          subst same
          rw [or_iff_left fun held => absent ⟨v,held⟩]
          simp [eq_comm]
        · rename_i other; simp [other]

theorem insert_fits (valid : Valid hasher s) (nonneg : 0 ≤ hasher.doHash2 key)
    (known : ∀ v, Holds s.entryList key v ↔ old = some v) (fits : InsertFits hasher useMutex s key) (value : V) :
    ∃ s', s.insert hasher useMutex key value = .ok (old.isNone,s') ∧ Follows hasher s key (old.or (some value)) s' := by
  unfold HashList.insert
  cases full : s.full with
  | false =>
      have room : 0 < s.entryList.length := by
        by_contra bare
        have empty : s.entryList = [] := List.eq_nil_of_length_eq_zero (by omega)
        simp [HashList.full,valid.bare empty,empty,capacity,wrap32] at full
      obtain ⟨clear,spare⟩ := fits.2 full
      rw [checkup_idle full]
      exact fill_fits useMutex valid nonneg room clear spare known value
  | true =>
      obtain ⟨g,grown,kept,room,clean,spare,holds⟩ := checkup_full valid full (fits.1 full)
      rw [grown]
      obtain ⟨s',filled,after⟩ := fill_fits useMutex kept nonneg room
        (fun ⟨_,_,_,_,_,_,_,_,_,corpse⟩ => clean _ corpse) (fun _ => spare)
        (fun v => (holds key v).trans (known v)) value
      refine ⟨s',filled,after.valid,fun k v => ?_⟩
      rw [after.holds,holds]

theorem insert_exact (valid : Valid hasher s) (nonneg : 0 ≤ hasher.doHash2 key)
    (known : ∀ v, Holds s.entryList key v ↔ old = some v)
    (moved : s.insert hasher useMutex key value = .ok (old.isNone,s')) : InsertFits hasher useMutex s key := by
  constructor
  · intro full
    unfold HashList.insert at moved
    cases grown : s.checkupSpace useMutex with
    | error e => rw [grown] at moved; cases moved
    | ok g => exact checkup_exact valid.opened full grown
  · intro idle
    have room : 0 < s.entryList.length := by
      by_contra bare
      have empty : s.entryList = [] := List.eq_nil_of_length_eq_zero (by omega)
      simp [HashList.full,valid.bare empty,empty,capacity,wrap32] at idle
    unfold HashList.insert at moved
    rw [checkup_idle idle] at moved
    have filled : s.insertInternal useMutex ⟨hasher.doHash2 key,key,value⟩ = .ok (old.isNone,s') := moved
    rw [insertInternal_eq valid.opened nonneg room] at filled
    dsimp only at filled
    refine ⟨fun buried => ?_,fun absent => ?_⟩
    · obtain ⟨bound,_⟩ := probe_hidden valid buried known
      obtain ⟨q,found⟩ := freeSlot_buried valid.chained buried
      rw [found] at filled
      cases old with
      | none => cases bound
      | some _ => cases filled
    · have unbound : old = none := by
        cases old with
        | none => rfl
        | some v => exact absurd ⟨v,(known v).mpr rfl⟩ absent
      subst unbound
      rcases freeSlot_absent (c:=hasher.doHash2 key) absent (hasher.doHash2 key).toNat with ⟨_,missed⟩ | ⟨d,_,_,free,_⟩
      · rw [missed] at filled; cases filled
      · exact ⟨_,Nat.mod_lt ((hasher.doHash2 key).toNat+d) room,fun e => by rw [cell_mod]; exact free e⟩

end growth
end GameServer.Common.HashMap
