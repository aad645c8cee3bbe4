import GameServer.Common.HashMap

namespace GameServer.Common.FiniteMap
open ProbeChain HashMap
variable {K V : Type _}

inductive Op (K V : Type _) where
  | insert (key : K) (value : V)
  | remove (key : K)
  | take (key : K) (remove : Bool)
  | reset

inductive Answer (V : Type _) where
  | flag (b : Bool)
  | found (value : Option V)
  | done
  deriving DecidableEq

-- A fault leaves the table without a next state.
def tableStep [DecidableEq K] (hasher : Hasher K) (useMutex : Bool) (t : HashTable K V) :
    Op K V → Option (Answer V × HashTable K V)
  | .insert key value => (t.insert hasher useMutex key value).toOption.map fun (b,t) => (.flag b,t)
  | .remove key => (t.remove hasher useMutex key).toOption.map fun (b,t) => (.flag b,t)
  | .take key remove => (t.take hasher useMutex key remove).toOption.map fun (v,t) => (.found v,t)
  | .reset => (t.reset useMutex).toOption.map fun t => (.done,t)

-- What the same operation does to a finite map.
def mapStep [DecidableEq K] (m : K → Option V) : Op K V → Answer V × (K → Option V)
  | .insert key value => (.flag (m key).isNone,Function.update m key ((m key).or (some value)))
  | .remove key => (.flag (m key).isSome,Function.update m key none)
  | .take key remove => (.found (m key),Function.update m key (if remove then none else m key))
  | .reset => (.done,fun _ => none)

def ListAt (t : HashTable K V) (i : Nat) (l : HashList K V) : Prop := t.hashLists[i]? = some l

def TableHolds (t : HashTable K V) (key : K) (value : V) : Prop :=
  ∃ i l, ListAt t i l ∧ Holds l.entryList key value

-- The table holds the bindings of the map, and no key in two slots.
structure Represents (t : HashTable K V) (m : K → Option V) : Prop where
  binds : ∀ k v, TableHolds t k v ↔ m k = some v
  once : ∀ i j l l' p q e f, ListAt t i l → ListAt t j l' → LiveAt l.entryList p e → LiveAt l'.entryList q f →
    e.key = f.key → i = j ∧ p = q

def home (hasher : Hasher K) (t : HashTable K V) (key : K) : Nat :=
  (hasher.doHash1 key).toNat % t.hashLists.length

structure TableValid (hasher : Hasher K) (t : HashTable K V) : Prop where
  lists : ∀ i l, ListAt t i l → Valid hasher l
  homes : ∀ i l k v, ListAt t i l → Holds l.entryList k v → home hasher t k = i

-- The keys whose hashes are not negative.
def Usable (hasher : Hasher K) : Op K V → Prop
  | .insert key _ => 0 ≤ hasher.doHash1 key ∧ 0 ≤ hasher.doHash2 key
  | .remove key => 0 ≤ hasher.doHash1 key ∧ 0 ≤ hasher.doHash2 key
  | .take key _ => 0 ≤ hasher.doHash1 key ∧ 0 ≤ hasher.doHash2 key
  | .reset => True

-- The list of the key lets the operation do its work; a reset always does.
def Fits (hasher : Hasher K) (useMutex : Bool) (t : HashTable K V) : Op K V → Prop
  | .insert key _ => ∃ l, ListAt t (home hasher t key) l ∧ InsertFits hasher useMutex l key
  | .remove key => ∃ l, ListAt t (home hasher t key) l ∧ FindFits hasher l key
  | .take key _ => ∃ l, ListAt t (home hasher t key) l ∧ FindFits hasher l key
  | .reset => True

theorem empty_lists (found : ListAt (HashTable.empty capacity : HashTable K V) i l) : l = {} := by
  unfold ListAt HashTable.empty at found
  rw [List.getElem?_replicate] at found
  split at found
  · exact (Option.some.inj found).symm
  · cases found

theorem valid_table_empty (hasher : Hasher K) : TableValid hasher (HashTable.empty capacity : HashTable K V) := by
  refine ⟨fun i l found => ?_,fun i l k v found held => ?_⟩
  · rw [empty_lists found]; exact valid_empty hasher
  · rw [empty_lists found] at held
    exact absurd held (holds_bare 0)

section keyed
variable {hasher : Hasher K} {t : HashTable K V} {m : K → Option V} {key : K}

-- A key has one list, and one slot in it.
theorem represents_of_binds (valid : TableValid hasher t) (binds : ∀ k v, TableHolds t k v ↔ m k = some v) :
    Represents t m := by
  refine ⟨binds,fun i j l l' p q e f one two live live' same => ?_⟩
  have here := valid.homes i l e.key e.value one ⟨p,e,live,rfl,rfl⟩
  have there := valid.homes j l' f.key f.value two ⟨q,f,live',rfl,rfl⟩
  obtain rfl : i = j := by rw [←here,←there,same]
  cases Option.some.inj (one.symm.trans two)
  exact ⟨rfl,(valid.lists i l one).chained.single p q e f live live' same⟩

theorem represents_empty : Represents (HashTable.empty capacity : HashTable K V) fun _ => none := by
  refine represents_of_binds (valid_table_empty ⟨fun _ => 0,fun _ => 0⟩) fun k v => ⟨?_,nofun⟩
  intro ⟨i,l,found,held⟩
  rw [empty_lists found] at held
  exact absurd held (holds_bare 0)

-- In its own list a key has the binding the map gives it.
theorem known_in_list (valid : TableValid hasher t) (represents : Represents t m)
    (found : ListAt t (home hasher t key) l) (v : V) : Holds l.entryList key v ↔ m key = some v := by
  rw [←represents.binds]
  constructor
  · exact fun held => ⟨_,l,found,held⟩
  · intro ⟨i,l',found',held⟩
    obtain rfl := valid.homes i l' key v found' held
    cases Option.some.inj (found.symm.trans found')
    exact held

theorem onList_home (home : homeSlot (hasher.doHash1 key) t.hashLists.length = .ok i) (found : ListAt t i l)
    (op : HashList K V → Except Fault (α × HashList K V)) :
    t.onList hasher key op = (op l).map fun (a,l') => (a,⟨t.hashLists.set i l'⟩) := by
  have here : t.hashLists.getD i {} = l := by
    rw [List.getD_eq_getElem?_getD,show t.hashLists[i]? = some l from found]
    rfl
  unfold HashTable.onList
  rw [home]
  simp only [bind,Except.bind,pure,Except.pure,here]
  cases op l <;> rfl

theorem onList_ok {op : HashList K V → Except Fault (α × HashList K V)} (nonneg : 0 ≤ hasher.doHash1 key)
    (found : ListAt t (home hasher t key) l) :
    t.onList hasher key op = (op l).map fun (a,l') => (a,⟨t.hashLists.set (home hasher t key) l'⟩) := by
  have small := (List.getElem?_eq_some_iff.mp found).1
  exact onList_home (homeSlot_ok nonneg (by omega)) found op

theorem onList_parts {op : HashList K V → Except Fault (α × HashList K V)} (nonneg : 0 ≤ hasher.doHash1 key)
    (moved : t.onList hasher key op = .ok (a,t')) :
    ∃ l l', ListAt t (home hasher t key) l ∧ op l = .ok (a,l') ∧ t' = ⟨t.hashLists.set (home hasher t key) l'⟩ := by
  have room : 0 < t.hashLists.length := by
    unfold HashTable.onList at moved
    cases index : homeSlot (hasher.doHash1 key) t.hashLists.length with
    | error e => rw [index] at moved; cases moved
    | ok i => exact homeSlot_parts index
  obtain ⟨l,found⟩ : ∃ l, ListAt t (home hasher t key) l :=
    ⟨_,List.getElem?_eq_getElem (Nat.mod_lt (hasher.doHash1 key).toNat room)⟩
  rw [onList_ok nonneg found] at moved
  cases result : op l with
  | error e => rw [result] at moved; cases moved
  | ok pair =>
      obtain ⟨b,l'⟩ := pair
      rw [result] at moved
      cases moved
      exact ⟨l,l',found,result,rfl⟩

-- A step of the table that answers runs its operation on the key's list.
theorem onList_answer {op : HashList K V → Except Fault (α × HashList K V)} {answer : α → Answer V} (nonneg : 0 ≤ hasher.doHash1 key)
    (moved : ((t.onList hasher key op).toOption.map fun (a,t) => (answer a,t)) = some (r,t')) :
    ∃ l l' a, ListAt t (home hasher t key) l ∧ op l = .ok (a,l') ∧ answer a = r := by
  cases result : t.onList hasher key op with
  | error e => rw [result] at moved; cases moved
  | ok pair =>
      obtain ⟨a,t''⟩ := pair
      rw [result] at moved
      cases moved
      obtain ⟨l,l',found,done,_⟩ := onList_parts nonneg result
      exact ⟨l,l',a,found,done,rfl⟩

theorem list_set (found : ListAt t j l) (l' : HashList K V) :
    ListAt ⟨t.hashLists.set j l'⟩ i x ↔ (i = j ∧ x = l') ∨ (i ≠ j ∧ ListAt t i x) := by
  have small := (List.getElem?_eq_some_iff.mp found).1
  unfold ListAt
  rw [List.getElem?_set]
  by_cases equal : j = i
  · subst equal; simp [small,eq_comm]
  · simp [equal,Ne.symm equal]

-- A list operation that follows its key makes the table follow the map.
theorem follows_table [DecidableEq K] (valid : TableValid hasher t) (represents : Represents t m)
    (found : ListAt t (home hasher t key) l) (follows : Follows hasher l key new l') :
    Represents ⟨t.hashLists.set (home hasher t key) l'⟩ (Function.update m key new) ∧
      TableValid hasher ⟨t.hashLists.set (home hasher t key) l'⟩ := by
  have same_home : ∀ k, home hasher ⟨t.hashLists.set (home hasher t key) l'⟩ k = home hasher t k := fun k => by
    simp [home]
  have kept : TableValid hasher ⟨t.hashLists.set (home hasher t key) l'⟩ := by
    refine ⟨fun i x at_ => ?_,fun i x k v at_ held => ?_⟩
    · rcases (list_set found l').mp at_ with ⟨_,rfl⟩ | ⟨_,old⟩
      · exact follows.valid
      · exact valid.lists i x old
    · rw [same_home]
      rcases (list_set found l').mp at_ with ⟨rfl,rfl⟩ | ⟨_,old⟩
      · rw [follows.holds] at held
        split at held
        · rename_i same; rw [same]
        · exact valid.homes _ l k v found held
      · exact valid.homes i x k v old held
  refine ⟨represents_of_binds kept fun k v => ?_,kept⟩
  by_cases same : k = key
  · subst same
    rw [Function.update_self]
    constructor
    · intro ⟨i,x,at_,held⟩
      rcases (list_set found l').mp at_ with ⟨_,rfl⟩ | ⟨other,old⟩
      · rwa [follows.holds,if_pos rfl] at held
      · exact absurd (valid.homes i x k v old held).symm other
    · intro bound
      exact ⟨_,l',(list_set found l').mpr (.inl ⟨rfl,rfl⟩),by rw [follows.holds,if_pos rfl]; exact bound⟩
  · rw [Function.update_of_ne same,←represents.binds]
    constructor
    · intro ⟨i,x,at_,held⟩
      rcases (list_set found l').mp at_ with ⟨_,rfl⟩ | ⟨_,old⟩
      · rw [follows.holds,if_neg same] at held
        exact ⟨_,l,found,held⟩
      · exact ⟨i,x,old,held⟩
    · intro ⟨i,x,old,held⟩
      by_cases there : i = home hasher t key
      · subst there
        cases Option.some.inj (found.symm.trans old)
        exact ⟨_,l',(list_set found l').mpr (.inl ⟨rfl,rfl⟩),by rw [follows.holds,if_neg same]; exact held⟩
      · exact ⟨i,x,(list_set found l').mpr (.inr ⟨there,old⟩),held⟩

end keyed

theorem mapM_reset (useMutex : Bool) (lists : List (HashList K V)) (opened : ∀ l ∈ lists, l.locked = false) :
    lists.mapM (·.reset useMutex) = .ok (lists.map emptied) := by
  induction lists with
  | nil => rfl
  | cons l rest ih =>
      rw [List.mapM_cons,reset_eq (opened l (List.mem_cons_self ..)),
        ih fun x member => opened x (List.mem_cons_of_mem _ member)]
      rfl

theorem list_emptied {t : HashTable K V} : ListAt ⟨t.hashLists.map emptied⟩ i x ↔ ∃ l, ListAt t i l ∧ emptied l = x := by
  unfold ListAt
  rw [List.getElem?_map,Option.map_eq_some_iff]

theorem reset_table {hasher : Hasher K} {t : HashTable K V} (valid : TableValid hasher t) (useMutex : Bool) :
    ∃ t', t.reset useMutex = .ok t' ∧ Represents t' (fun _ => none) ∧ TableValid hasher t' := by
  have opened : ∀ l ∈ t.hashLists, l.locked = false := fun l member => by
    obtain ⟨i,found⟩ := List.mem_iff_getElem?.mp member
    exact (valid.lists i l found).opened
  have kept : TableValid hasher ⟨t.hashLists.map emptied⟩ := by
    refine ⟨fun i x found => ?_,fun i x k v found held => ?_⟩
    · obtain ⟨l,old,rfl⟩ := list_emptied.mp found
      exact valid_emptied (valid.lists i l old)
    · obtain ⟨l,_,rfl⟩ := list_emptied.mp found
      exact absurd held (holds_bare _)
  refine ⟨⟨t.hashLists.map emptied⟩,?_,represents_of_binds kept fun k v => ⟨?_,nofun⟩,kept⟩
  · unfold HashTable.reset
    rw [mapM_reset useMutex _ opened]; rfl
  · intro ⟨i,x,found,held⟩
    obtain ⟨l,_,rfl⟩ := list_emptied.mp found
    exact absurd held (holds_bare _)

section steps
variable [DecidableEq K] {hasher : Hasher K} {useMutex : Bool} {t : HashTable K V} {m : K → Option V}

-- Each operation whose guard holds follows the map.
theorem step_fits (valid : TableValid hasher t) (represents : Represents t m) (usable : Usable hasher op)
    (fits : Fits hasher useMutex t op) : ∃ t', tableStep hasher useMutex t op = some ((mapStep m op).1,t') ∧
      Represents t' (mapStep m op).2 ∧ TableValid hasher t' := by
  cases op with
  | insert key value =>
      obtain ⟨l,found,allowed⟩ := fits
      obtain ⟨l',moved,follows⟩ := insert_fits (valid.lists _ l found) usable.2
        (known_in_list valid represents found) allowed value
      refine ⟨_,?_,follows_table valid represents found follows⟩
      rw [tableStep,HashTable.insert,onList_ok usable.1 found,moved]; rfl
  | remove key =>
      obtain ⟨l,found,allowed⟩ := fits
      obtain ⟨l',moved,follows⟩ := remove_fits useMutex (valid.lists _ l found) usable.2
        (known_in_list valid represents found) allowed
      refine ⟨_,?_,follows_table valid represents found follows⟩
      rw [tableStep,HashTable.remove,onList_ok usable.1 found,moved]; rfl
  | take key rm =>
      obtain ⟨l,found,allowed⟩ := fits
      obtain ⟨l',moved,follows⟩ := take_fits useMutex (valid.lists _ l found) usable.2
        (known_in_list valid represents found) allowed rm
      refine ⟨_,?_,follows_table valid represents found follows⟩
      rw [tableStep,HashTable.take,onList_ok usable.1 found,moved]; rfl
  | reset =>
      obtain ⟨t',done,emptied⟩ := reset_table valid useMutex
      refine ⟨t',?_,emptied⟩
      rw [tableStep,done]; rfl

theorem step_exact (valid : TableValid hasher t) (represents : Represents t m) (usable : Usable hasher op)
    (moved : tableStep hasher useMutex t op = some ((mapStep m op).1,t')) : Fits hasher useMutex t op := by
  cases op with
  | insert key value =>
      obtain ⟨l,l',b,found,done,same⟩ := onList_answer usable.1 moved
      cases same
      exact ⟨l,found,insert_exact (valid.lists _ l found) usable.2 (known_in_list valid represents found) done⟩
  | remove key =>
      obtain ⟨l,l',b,found,done,same⟩ := onList_answer usable.1 moved
      cases same
      exact ⟨l,found,remove_exact (valid.lists _ l found) usable.2 (known_in_list valid represents found) done⟩
  | take key rm =>
      obtain ⟨l,l',b,found,done,same⟩ := onList_answer usable.1 moved
      cases same
      exact ⟨l,found,take_exact (valid.lists _ l found) usable.2 (known_in_list valid represents found) done⟩
  | reset => trivial

end steps

-- From an empty table: through a history of operations on keys whose hashes are
-- not negative the table answers as the map does and keeps its bindings.
def Refines [DecidableEq K] (hasher : Hasher K) (useMutex : Bool) (capacity : Nat) (history : List (Op K V)) : Prop :=
  History.Simulates (tableStep hasher useMutex) mapStep Represents (HashTable.empty capacity) (fun _ => none) history

-- It does exactly while every operation meets its guard where it starts.
theorem refines_iff_fits [DecidableEq K] (hasher : Hasher K) (useMutex : Bool) (capacity : Nat)
    (history : List (Op K V)) (used : ∀ op ∈ history, Usable hasher op) :
    Refines hasher useMutex capacity history ↔
      History.Guarded (tableStep hasher useMutex) (Fits hasher useMutex) (HashTable.empty capacity) history :=
  History.simulates_iff_guarded (valid_table_empty hasher) represents_empty
    (fun _ _ _ valid represents usable fits => step_fits valid represents usable fits)
    (fun _ _ _ _ valid represents usable moved _ => step_exact valid represents usable moved) used

-- HashTableHasher<int>.
def intHasher : Hasher Int := ⟨id,id⟩

-- 0 and 4369 share a list and a home slot: the corpse of 0 hides the binding of 4369.
theorem hidden_by_corpse : ¬Refines intHasher true 257
    [.insert 0 10,.insert 4369 20,.remove 0,.take 4369 false] := by
  intro refines
  have same := History.simulates_answers refines
  revert same
  decide +kernel

theorem not_buried {code : K → Int} {entries : List (Slot K V)} (clean : .corpse ∉ entries) (key : K) : ¬Buried code entries key := by
  intro ⟨_,_,d,j,_,_,small,_,_,corpse⟩
  have room : ((code key).toNat+j) % entries.length < entries.length := Nat.mod_lt _ (by omega)
  rw [cell,List.getD_eq_getElem?_getD,List.getElem?_eq_getElem room,Option.getD_some] at corpse
  exact clean (corpse ▸ List.getElem_mem room)

-- The other way round the two keys do not get in each other's way.
theorem refines_two_keys : Refines intHasher true 257 [.insert 0 10,.insert 4369 20,.remove 4369,.take 0 false,.take 4369 false] := by
  let first : HashList Int Nat := ⟨(List.replicate 17 .null).set 0 (.entry ⟨0,0,10⟩),1,false⟩
  let both : HashList Int Nat := ⟨first.entryList.set 1 (.entry ⟨4369,4369,20⟩),2,false⟩
  let table (l : HashList Int Nat) : HashTable Int Nat := ⟨(List.replicate 257 {}).set 0 l⟩
  have one : tableStep intHasher true (HashTable.empty 257) (.insert 0 10) = some (.flag true,table first) := by decide +kernel
  have two : tableStep intHasher true (table first) (.insert 4369 20) = some (.flag true,table both) := by decide +kernel
  have three : tableStep intHasher true (table both) (.remove 4369) = some (.flag true,table first) := by decide +kernel
  have four : tableStep intHasher true (table first) (.take 0 false) = some (.found (some 10),table first) := by decide +kernel
  have finds : ∀ key l, home intHasher (table l) key = 0 → 0 < l.entryList.length → .corpse ∉ l.entryList →
      ∃ l', ListAt (table l) (home intHasher (table l) key) l' ∧ FindFits intHasher l' key := by
    intro key l here room clean
    rw [here]
    exact ⟨l,rfl,room,not_buried clean key⟩
  refine (refines_iff_fits intHasher true 257 _ (by simp [Usable,intHasher])).mpr ?_
  rw [History.guarded_cons one,History.guarded_cons two,History.guarded_cons three,History.guarded_cons four]
  have bare : (HashTable.empty 257 : HashTable Int Nat).hashLists[home intHasher (HashTable.empty 257 : HashTable Int Nat) 0]? = some {} := by
    decide +kernel
  have shared : (table first).hashLists[home intHasher (table first) 4369]? = some first := by decide +kernel
  refine ⟨⟨{},bare,?_⟩,⟨first,shared,?_⟩,?_,?_,?_,fun _ _ _ => trivial⟩
  · exact ⟨fun _ => ⟨⟨17,by decide,by decide⟩,fun _ _ _ live => live_bare 0 live⟩,fun idle => nomatch idle⟩
  · refine ⟨fun full => absurd full (by decide),fun _ => ⟨not_buried (by decide) 4369,fun _ => ⟨16,by decide,?_⟩⟩⟩
    intro e wrong
    cases show Slot.null = Slot.entry e from wrong
  · exact finds 4369 both (by decide +kernel) (by decide) (by decide)
  · exact finds 0 first (by decide +kernel) (by decide) (by decide)
  · exact finds 4369 first (by decide +kernel) (by decide) (by decide)

end GameServer.Common.FiniteMap
