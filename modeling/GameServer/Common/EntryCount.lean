import GameServer.Common.ListRuns

namespace GameServer.Common.EntryCount
open HashList ProbeChain HashMap ListRuns
open FiniteMap (Op Answer)
variable {K V : Type _}

-- What holds between the operations of a history in which _count is right: before
-- the last insertion the list was not full.
structure Balanced (s : HashList K V) : Prop where
  opened : s.locked = false
  counted : s.count = occupied s.entryList
  spare : occupied s.entryList = 0 ∨ occupied s.entryList-1 + (occupied s.entryList-1)/4 < s.entryList.length
  sized : s.entryList.length = 0 ∨ s.entryList.length ∈ stepSize

theorem steps_small : ∀ n ∈ stepSize, 0 < n ∧ n ≤ 2147483647 := by decide

-- Every step but the last has the next one at least two slots larger.
theorem steps_apart : ∀ n ∈ 0 :: stepSize, ∀ m ∈ stepSize, n < m → n+2 ≤ m := by decide

theorem wrap32_ok (low : -2147483648 ≤ n) (high : n ≤ 2147483647) : wrap32 n = n := by
  unfold wrap32
  rw [Int.bmod_def]
  split <;> omega

theorem Balanced.small {s : HashList K V} (balanced : Balanced s) : s.entryList.length ≤ 2147483647 := by
  rcases balanced.sized with bare | member
  · omega
  · exact (steps_small _ member).2

theorem balanced_empty : Balanced ({} : HashList K V) := ⟨rfl,rfl,.inl rfl,.inl rfl⟩

theorem occupied_le (entries : List (Slot K V)) : occupied entries ≤ entries.length := List.countP_le_length

theorem occupied_eq_zero {entries : List (Slot K V)} : occupied entries = 0 ↔ ∀ p e, ¬LiveAt entries p e := by
  unfold occupied
  rw [List.countP_eq_zero]
  constructor
  · intro none p e live
    exact none _ (mem_iff_live.mpr ⟨p,live⟩) rfl
  · intro quiet slot member
    cases slot with
    | null => simp
    | corpse => simp
    | entry e =>
        obtain ⟨p,live⟩ := mem_iff_live.mp member
        exact absurd live (quiet p e)

theorem occupied_fill {entries : List (Slot K V)} (ent : HashEntry K V) (small : q < entries.length) (free : ∀ e, cell entries q ≠ .entry e) :
    occupied (entries.set q (.entry ent)) = occupied entries + 1 := by
  unfold occupied
  rw [List.countP_set small]
  cases here : entries[q] with
  | null => rfl
  | corpse => rfl
  | entry e => exact absurd (cell_eq (List.getElem?_eq_some_iff.mpr ⟨small,here⟩)) (free e)

theorem occupied_unused {entries : List (Slot K V)} (here : entries[q]? = some .corpse) : occupied (entries.set q .null) = occupied entries := by
  obtain ⟨small,same⟩ := List.getElem?_eq_some_iff.mp here
  unfold occupied
  rw [List.countP_set small,same]
  rfl

theorem occupied_drop {entries : List (Slot K V)} (live : LiveAt entries q e) (unused : ∀ f, s ≠ .entry f) :
    occupied (entries.set q s) + 1 = occupied entries := by
  obtain ⟨small,same⟩ := List.getElem?_eq_some_iff.mp live
  have some : 0 < occupied entries := List.countP_pos_iff.mpr ⟨_,List.mem_of_getElem? live,rfl⟩
  unfold occupied at some ⊢
  rw [List.countP_set small,same]
  cases s with
  | null => exact Nat.sub_add_cancel some
  | corpse => exact Nat.sub_add_cancel some
  | entry f => exact absurd rfl (unused f)

theorem occupied_sweep (rounds : Nat) (entries : List (Slot K V)) (pos : Nat) : occupied (sweep rounds entries pos) = occupied entries := by
  induction rounds generalizing entries pos with
  | zero => rfl
  | succ rounds ih =>
      unfold sweep
      split
      · rename_i corpse
        rw [ih]
        apply occupied_unused
        rw [List.getD_eq_getElem?_getD] at corpse
        cases here : entries[pos]? with
        | none => rw [here] at corpse; cases corpse
        | some s => rw [here] at corpse; cases corpse; rfl
      · rfl

theorem occupied_bury {entries : List (Slot K V)} (live : LiveAt entries pos e) : occupied (bury entries pos) + 1 = occupied entries := by
  unfold bury
  split
  · rw [occupied_sweep]
    exact occupied_drop live fun _ same => by cases same
  · exact occupied_drop live fun _ same => by cases same

-- The test of checkupSpace computes without overflow.
theorem full_iff {s : HashList K V} (balanced : Balanced s) :
    s.full = true ↔ s.entryList.length ≤ occupied s.entryList + occupied s.entryList/4 := by
  have small := balanced.small
  have spare := balanced.spare
  have quarter : s.count >>> 2 = ((occupied s.entryList/4 : Nat) : Int) := by
    rw [balanced.counted]
    exact (Int.shiftRight_natCast _ 2).trans (congrArg _ (Nat.shiftRight_eq_div_pow _ 2))
  unfold HashList.full
  rw [quarter,balanced.counted,wrap32_ok (by omega) (by omega),decide_eq_true_iff,capacity]
  omega

theorem bury_balanced {s : HashList K V} (balanced : Balanced s) (live : LiveAt s.entryList p e) {n : Int} (counted : n = occupied s.entryList - 1) :
    Balanced ⟨bury s.entryList p,n,false⟩ := by
  have length := (bury_parts live).length
  have less := occupied_bury live
  have spare := balanced.spare
  refine ⟨rfl,?_,?_,by rw [length]; exact balanced.sized⟩
  · dsimp only; omega
  · dsimp only; omega

-- What a checkupSpace that comes back leaves.
structure Checked (s g : HashList K V) : Prop where
  balanced : Balanced g
  spare : occupied g.entryList + occupied g.entryList/4 < g.entryList.length
  bound : ∀ key, Bound g key → Bound s key

theorem Checked.room {s g : HashList K V} (checked : Checked s g) : HasRoom g.entryList := has_room (by have := checked.spare; omega)

section runs
variable [DecidableEq K] {hasher : Hasher K} {useMutex : Bool} {s : HashList K V}

theorem put_free (home : homeSlot code s.entryList.length = .ok pos)
    (found : freeSlot s.entryList code key s.entryList.length pos = some q) :
    q < s.entryList.length ∧ ∀ e, cell s.entryList q ≠ .entry e := by
  have small := homeSlot_lt home
  rw [← Nat.mod_eq_of_lt small] at found
  obtain ⟨d,_,rfl,_,free⟩ := freeSlot_path found
  exact ⟨Nat.mod_lt _ (by omega),fun e => by rw [cell_mod]; exact free e⟩

theorem put_occupied (done : Put s ent b next) : next.entryList.length = s.entryList.length ∧
    occupied next.entryList = occupied s.entryList + b.toNat := by
  cases done with
  | turned => exact ⟨rfl,rfl⟩
  | filled home free =>
      obtain ⟨small,unused⟩ := put_free home free
      exact ⟨List.length_set,occupied_fill ent small unused⟩

theorem put_counted (small : s.entryList.length ≤ 2147483647) (counted : s.count = occupied s.entryList) (done : Put s ent b next) :
    next.count = occupied next.entryList := by
  obtain ⟨length,more⟩ := put_occupied done
  cases done with
  | turned => exact counted
  | @filled pos q home free =>
      have within := occupied_le (s.entryList.set q (.entry ent))
      dsimp only at length more ⊢
      rw [length,more] at within
      rw [more,counted]
      exact wrap32_ok (by omega) (by simp only [Bool.toNat_true] at within; omega)

theorem put_bound (done : Put s ent b next) (bound : Bound next key) : Bound s key ∨ key = ent.key := by
  cases done with
  | turned => exact .inl bound
  | filled home free =>
      obtain ⟨v,held⟩ := bound
      obtain ⟨small,unused⟩ := put_free home free
      rcases (holds_fill ent small unused key v).mp held with ⟨same,_⟩ | old
      · exact .inr same
      · exact .inl ⟨v,old⟩

-- Growing puts no more than the old live entries into the new list: an entry
-- whose key is there already is dropped.
theorem rehash_occupied {old : List (Slot K V)} (opened : s.locked = false) (moved : rehash false old s = .ok g) :
    occupied g.entryList ≤ occupied s.entryList + occupied old := by
  have kept := rehash_walk (I := fun rest t => t.locked = false ∧
    occupied t.entryList + occupied rest ≤ occupied s.entryList + occupied old) ⟨opened,Nat.le_refl _⟩ ?_ ?_ moved
  · exact Nat.le_of_add_right_le kept.2
  · intro t slot rest unused ⟨free,bound⟩
    have same : occupied (slot :: rest) = occupied rest := by
      cases slot with
      | null => rfl
      | corpse => rfl
      | entry e => exact absurd rfl (unused e)
    exact ⟨free,by omega⟩
  · intro t e rest b next ⟨free,bound⟩ filled
    have done := put free filled
    have more := (put_occupied done).2
    have one : b.toNat ≤ 1 := Bool.toNat_le b
    have counted : occupied (.entry e :: rest) = occupied rest + 1 := by
      unfold occupied
      rw [List.countP_cons_of_pos rfl]
    exact ⟨put_opened free done,by omega⟩

theorem grown_checked (balanced : Balanced s) (grown : Grown useMutex s g step) : Checked s g := by
  have member := List.mem_of_find?_eq_some grown.larger
  have above : s.capacity < step := by simpa using List.find?_some grown.larger
  have apart := steps_apart s.entryList.length (List.mem_cons.mpr balanced.sized) step member above
  have small := (steps_small step member).2
  have kept := rehash_inv (I := fun t => t.locked = false ∧ t.entryList.length = step ∧ t.count = occupied t.entryList ∧
      ∀ key, Bound t key → Bound s key) ⟨rfl,List.length_replicate,by rw [occupied_bare]; rfl,?_⟩ ?_ grown.rehashed
  · obtain ⟨opened,length,counted,bound⟩ := kept
    have fewer := rehash_occupied (by rfl) grown.rehashed
    rw [occupied_bare,Nat.zero_add] at fewer
    have spare := balanced.spare
    have room : occupied g.entryList + occupied g.entryList/4 < g.entryList.length := by omega
    exact ⟨⟨opened,counted,by omega,.inr (length ▸ member)⟩,room,bound⟩
  · intro key ⟨v,held⟩
    exact absurd held (holds_bare step)
  · intro t e b next ⟨opened,length,counted,bound⟩ old filled
    have done := put opened filled
    refine ⟨put_opened opened done,(put_occupied done).1.trans length,put_counted (by omega) counted done,?_⟩
    intro key held
    rcases put_bound done held with before | rfl
    · exact bound key before
    · obtain ⟨p,live⟩ := mem_iff_live.mp old
      exact ⟨e.value,p,e,live,rfl,rfl⟩

theorem checkup_checked (balanced : Balanced s) (moved : s.checkupSpace useMutex = .ok g) : Checked s g := by
  rcases checkup_parts balanced.opened moved with ⟨idle,rfl⟩ | ⟨step,grown⟩
  · refine ⟨balanced,?_,fun _ bound => bound⟩
    have free := (full_iff balanced).not.mp (by rw [idle]; exact Bool.false_ne_true)
    omega
  · exact grown_checked balanced grown

theorem put_balanced (checked : Checked s g) (done : Put g ent b next) : Balanced next := by
  have balanced := checked.balanced
  have spare := checked.spare
  obtain ⟨length,more⟩ := put_occupied done
  refine ⟨put_opened balanced.opened done,put_counted balanced.small balanced.counted done,.inr ?_,by rw [length]; exact balanced.sized⟩
  have one : b.toNat ≤ 1 := Bool.toNat_le b
  omega

-- With a slot to use, only the key itself turns an entry away.
theorem turned_bound (room : HasRoom s.entryList) (done : Put s ent false next) : Bound s ent.key := by
  cases done with
  | turned home taken =>
      by_contra absent
      have small := homeSlot_lt home
      obtain ⟨i,less,unused⟩ := room
      rw [← Nat.mod_eq_of_lt small] at taken
      rcases freeSlot_absent (c:=ent.hash) absent _ with ⟨all,_⟩ | ⟨d,_,_,_,found⟩
      · obtain ⟨e,here⟩ := all i less
        exact unused e here
      · cases taken.symm.trans found

-- A take that finds its entry to remove takes it from the count twice; a reset
-- leaves the count of the entries it deletes.
def Plain (hasher : Hasher K) (s : HashList K V) : Op K V → Prop
  | .take key true => ∀ pos p e, homeSlot (hasher.doHash2 key) s.entryList.length = .ok pos →
      ¬Meets s.entryList (hasher.doHash2 key) key s.entryList.length pos p e
  | .reset => ∀ p e, ¬LiveAt s.entryList p e
  | _ => True

def CountsEntries (hasher : Hasher K) (useMutex : Bool) (s : HashList K V) (op : Op K V) : Prop :=
  ∀ answer next, listStep hasher useMutex s op = some (answer,next) → next.count = occupied next.entryList

def LeavesRoom (hasher : Hasher K) (useMutex : Bool) (s : HashList K V) (op : Op K V) : Prop :=
  ∀ key value, op = .insert key value → (∀ g, s.checkupSpace useMutex = .ok g → HasRoom g.entryList) ∧
    ∀ next, listStep hasher useMutex s op = some (.flag false,next) → Bound s key

theorem leaves_room (balanced : Balanced s) (op : Op K V) : LeavesRoom hasher useMutex s op := by
  rintro key value rfl
  refine ⟨fun g checked => (checkup_checked balanced checked).room,fun next moved => ?_⟩
  cases stepped balanced.opened moved with
  | missed looks => rcases looks with wrong | ⟨_,wrong⟩ <;> cases wrong
  | inserted checked done =>
      have parts := checkup_checked balanced checked
      exact parts.bound key (turned_bound parts.room done)

theorem step_balanced (balanced : Balanced s) (plain : Plain hasher s op) (moved : listStep hasher useMutex s op = some (answer,next)) :
    Balanced next := by
  cases stepped balanced.opened moved with
  | missed => exact balanced
  | peeked => exact balanced
  | removed home found =>
      have live := live_of_probe found
      have some := occupied_bury live
      have small := balanced.small
      have within := occupied_le s.entryList
      refine bury_balanced balanced live ?_
      rw [balanced.counted]
      exact wrap32_ok (by omega) (by omega)
  | taken home found =>
      rw [← Nat.mod_eq_of_lt (homeSlot_lt home),probe_meets] at found
      exact absurd found (plain _ _ _ home)
  | inserted checked done => exact put_balanced (checkup_checked balanced checked) done
  | reset =>
      have none := occupied_eq_zero.mpr plain
      refine ⟨rfl,?_,.inl (occupied_bare _),by rw [emptied,List.length_replicate]; exact balanced.sized⟩
      rw [emptied,occupied_bare,balanced.counted,none]

theorem plain_of_counts (balanced : Balanced s) (counts : CountsEntries hasher useMutex s op) : Plain hasher s op := by
  cases op with
  | insert => trivial
  | remove => trivial
  | take key rm =>
      cases rm with
      | false => trivial
      | true =>
          intro pos p e home meets
          rw [← probe_meets,Nat.mod_eq_of_lt (homeSlot_lt home)] at meets
          have live := live_of_probe meets
          have less := occupied_bury live
          have small := balanced.small
          have within := occupied_le s.entryList
          have counted := counts _ _ (by rw [listStep,listTry,take_home balanced.opened home,meets]; rfl)
          rw [if_pos rfl] at counted
          dsimp only at counted
          rw [balanced.counted,wrap32_ok (n := (occupied s.entryList : Int)-1) (by omega) (by omega),
            wrap32_ok (by omega) (by omega)] at counted
          omega
  | reset =>
      have counted := counts _ _ (by rw [listStep,listTry,reset_eq balanced.opened]; rfl)
      rw [emptied,occupied_bare,balanced.counted] at counted
      exact occupied_eq_zero.mp (by omega)

-- Count and room hold throughout exactly the histories without a removing take
-- that finds its entry and without a reset of live entries.
theorem counts_iff (hasher : Hasher K) (useMutex : Bool) (history : List (Op K V)) :
    History.Guarded (listStep hasher useMutex) (fun s op => CountsEntries hasher useMutex s op ∧ LeavesRoom hasher useMutex s op) {} history ↔
      History.Guarded (listStep hasher useMutex) (Plain hasher) {} history := by
  have every : ∀ op ∈ history, True := fun _ _ => trivial
  refine History.guarded_congr balanced_empty ?_ ?_ every
  · intro s op balanced _
    constructor
    · intro ⟨counts,_⟩
      exact plain_of_counts balanced counts
    · intro plain
      exact ⟨fun answer next moved => (step_balanced balanced plain moved).counted,leaves_room balanced op⟩
  · exact fun s op answer next balanced _ plain moved => step_balanced balanced plain moved

end runs

-- One entry in, one entry taken out: the count says minus one.
theorem taken_twice : ¬History.Guarded (listStep FiniteMap.intHasher true)
    (fun s op => CountsEntries FiniteMap.intHasher true s op ∧ LeavesRoom FiniteMap.intHasher true s op) {}
    [.insert 0 10,.take 0 true] := by
  let one : HashList Int Nat := ⟨(List.replicate 17 .null).set 0 (.entry ⟨0,0,10⟩),1,false⟩
  have first : listStep FiniteMap.intHasher true ({} : HashList Int Nat) (.insert 0 10) = some (.flag true,one) := by decide +kernel
  intro guarded
  rw [History.guarded_cons first] at guarded
  obtain ⟨_,⟨counts,_⟩,_⟩ := guarded
  have wrong := counts (.found (some 10)) ⟨List.replicate 17 .null,-1,false⟩ (by decide +kernel)
  cases wrong

end GameServer.Common.EntryCount
