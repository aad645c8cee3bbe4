import GameServer.Common.ListRuns

namespace GameServer.Common.Tombstones
open HashList ProbeChain HashMap ListRuns
open FiniteMap (Op Answer)
variable {K V : Type _}

-- From the slot a hash leads to, no NULL stands before the entry of that hash.
def Unbroken (entries : List (Slot K V)) : Prop :=
  ∀ p e, LiveAt entries p e → 0 ≤ e.hash ∧ ∃ d, d < entries.length ∧ (e.hash.toNat+d) % entries.length = p ∧
    ∀ j, j < d → cell entries (e.hash.toNat+j) ≠ .null

-- The keys whose hash is not negative.
def Keyed (hasher : Hasher K) : Op K V → Prop
  | .insert key _ => 0 ≤ hasher.doHash2 key
  | .remove key => 0 ≤ hasher.doHash2 key
  | .take key _ => 0 ≤ hasher.doHash2 key
  | .reset => True

structure Sound (hasher : Hasher K) (s : HashList K V) : Prop where
  opened : s.locked = false
  linked : Linked hasher.doHash2 s.entryList
  hashes : ∀ p e, LiveAt s.entryList p e → 0 ≤ hasher.doHash2 e.key

-- Only live entries of other keys stand between the home slot of an entry and
-- the entry.
def Clear (code : K → Int) (entries : List (Slot K V)) (p : Nat) (f : HashEntry K V) : Prop :=
  LiveAt entries p f ∧ ∃ d, d < entries.length ∧ ((code f.key).toNat+d) % entries.length = p ∧
    ∀ j, j < d → Passed entries f.key ((code f.key).toNat+j)

-- The way of an entry's key to its slot p leads over another slot.
def Crosses (code : K → Int) (n : Nat) (f : HashEntry K V) (p pos : Nat) : Prop :=
  ∃ d j, j < d ∧ d < n ∧ ((code f.key).toNat+d) % n = p ∧ ((code f.key).toNat+j) % n = pos

theorem unbroken_of_sound {hasher : Hasher K} {s : HashList K V} (sound : Sound hasher s) : Unbroken s.entryList := by
  intro p e live
  have hashed := sound.linked.hashed p e live
  rw [hashed]
  exact ⟨sound.hashes p e live,sound.linked.reach p e live⟩

theorem sound_bare (hasher : Hasher K) (capacity : Nat) (n : Int) : Sound hasher (⟨List.replicate capacity .null,n,false⟩ : HashList K V) :=
  ⟨rfl,(chained_bare _ _).linked,fun _ _ live => absurd live (live_bare capacity)⟩

theorem sound_empty (hasher : Hasher K) : Sound hasher ({} : HashList K V) := sound_bare hasher 0 0

theorem sound_bury {hasher : Hasher K} {s : HashList K V} (sound : Sound hasher s) (live : LiveAt s.entryList p e) (n : Int) :
    Sound hasher ⟨bury s.entryList p,n,false⟩ :=
  ⟨rfl,linked_bury sound.linked live,fun q f found => sound.hashes q f ((live_bury live q f).mp found).2⟩

theorem not_crosses_self (code : K → Int) (n : Nat) (f : HashEntry K V) (p : Nat) : ¬Crosses code n f p p := by
  intro ⟨d,j,less,small,at_,there⟩
  exact distinct_steps less small (there.trans at_.symm)

-- Removing an entry leaves the way of another clear exactly if it is not on it.
theorem clear_bury {code : K → Int} {entries : List (Slot K V)} (live : LiveAt entries pos e) (clear : Clear code entries p f) :
    Clear code (bury entries pos) p f ↔ p ≠ pos ∧ ¬Crosses code entries.length f p pos := by
  have length := (bury_parts live).length
  obtain ⟨here,d,small,at_,passed⟩ := clear
  constructor
  · intro ⟨kept,d',small',at',passed'⟩
    refine ⟨((live_bury live p f).mp kept).1,?_⟩
    intro ⟨k,j,less,below,there,hit⟩
    rw [length] at small' at'
    obtain rfl := same_steps small' below (at'.trans there.symm)
    obtain ⟨g,found,_⟩ := passed' j less
    have seat := live_of_cell found
    rw [length,hit] at seat
    exact ((live_bury live pos g).mp seat).1 rfl
  · intro ⟨apart,free⟩
    refine ⟨(live_bury live p f).mpr ⟨apart,here⟩,d,by rw [length]; exact small,by rw [length]; exact at_,?_⟩
    intro j less
    obtain ⟨g,found,other⟩ := passed j less
    have away : ((code f.key).toNat+j) % entries.length ≠ pos := fun hit => free ⟨d,j,less,small,at_,hit⟩
    refine ⟨g,?_,other⟩
    rw [← cell_mod,length]
    exact ((live_bury live _ g).mpr ⟨away,live_of_cell found⟩).cell

theorem meets_iff_clear {hasher : Hasher K} {s : HashList K V} (sound : Sound hasher s) :
    Meets s.entryList (hasher.doHash2 f.key) f.key s.entryList.length (hasher.doHash2 f.key).toNat p f ↔
      Clear hasher.doHash2 s.entryList p f := by
  constructor
  · rintro ⟨d,small,rfl,here,_,passed⟩
    refine ⟨live_of_cell here,d,small,rfl,?_⟩
    intro j less
    obtain ⟨g,seat,other⟩ := passed j less
    exact ⟨g,seat,fun same => other ⟨by rw [sound.linked.hashed _ g (live_of_cell seat),same],same⟩⟩
  · rintro ⟨live,d,small,rfl,passed⟩
    have here := live.cell
    rw [cell_mod] at here
    refine ⟨d,small,rfl,here,⟨sound.linked.hashed _ f live,rfl⟩,?_⟩
    intro j less
    obtain ⟨g,seat,other⟩ := passed j less
    exact ⟨g,seat,fun same => other same.2⟩

section runs
variable [DecidableEq K] {hasher : Hasher K} {useMutex : Bool} {s : HashList K V}

def Found (hasher : Hasher K) (s : HashList K V) (p : Nat) (f : HashEntry K V) : Prop :=
  ∃ pos, homeSlot (hasher.doHash2 f.key) s.entryList.length = .ok pos ∧
    probe s.entryList (hasher.doHash2 f.key) f.key s.entryList.length pos = some (p,f)

theorem found_iff_clear (sound : Sound hasher s) : Found hasher s p f ↔ Clear hasher.doHash2 s.entryList p f := by
  rw [← meets_iff_clear sound,← probe_meets]
  constructor
  · intro ⟨pos,home,found⟩
    rw [homeSlot_ok (sound.hashes p f (live_of_probe found)) (homeSlot_parts home)] at home
    cases home
    exact found
  · intro found
    have live := live_of_probe found
    exact ⟨_,homeSlot_ok (sound.hashes p f live) (by have := live.lt; omega),found⟩

theorem put_sound (sound : Sound hasher s) (ent : HashEntry K V) (hashed : ent.hash = hasher.doHash2 ent.key) (nonneg : 0 ≤ hasher.doHash2 ent.key)
    (done : Put s ent b next) : Sound hasher next := by
  cases done with
  | turned => exact sound
  | @filled pos q home free =>
      have room := homeSlot_parts home
      rw [hashed,homeSlot_ok nonneg room] at home
      cases home
      obtain ⟨d,small,rfl,used,_⟩ := freeSlot_path free
      refine ⟨rfl,linked_fill sound.linked ent hashed small ?_,?_⟩
      · intro j less null
        obtain ⟨e,here⟩ := used j less
        cases null.symm.trans here
      · intro p e live
        rcases (live_set (Nat.mod_lt _ room) _).mp live with ⟨_,same⟩ | ⟨_,old⟩
        · cases same; exact nonneg
        · exact sound.hashes p e old

theorem checkup_sound (sound : Sound hasher s) (moved : s.checkupSpace useMutex = .ok g) : Sound hasher g := by
  rcases checkup_parts sound.opened moved with ⟨_,rfl⟩ | ⟨step,grown⟩
  · exact sound
  · refine rehash_inv (sound_bare hasher step 0) ?_ grown.rehashed
    intro s' e b next valid member filled
    obtain ⟨p,live⟩ := mem_iff_live.mp member
    exact put_sound valid e (sound.linked.hashed p e live) (sound.hashes p e live) (put valid.opened filled)

theorem step_sound (sound : Sound hasher s) (keyed : Keyed hasher op) (moved : listStep hasher useMutex s op = some (answer,next)) :
    Sound hasher next := by
  cases stepped sound.opened moved with
  | missed => exact sound
  | peeked => exact sound
  | removed _ found => exact sound_bury sound (live_of_probe found) _
  | taken _ found => exact sound_bury sound (live_of_probe found) _
  | @inserted _ key value _ _ checked done => exact put_sound (checkup_sound sound checked) ⟨hasher.doHash2 key,key,value⟩ rfl keyed done
  | reset => exact sound_bare hasher _ _

-- A step does its part: it leaves the chains whole, and a removal leaves every
-- other entry that lookups found within their reach.
def ChainsWhole (hasher : Hasher K) (useMutex : Bool) (s : HashList K V) (op : Op K V) : Prop :=
  ∀ answer next, listStep hasher useMutex s op = some (answer,next) → Unbroken next.entryList

def Removes (op : Op K V) (key : K) : Prop := op = .remove key ∨ op = .take key true

def OthersStay (hasher : Hasher K) (useMutex : Bool) (s : HashList K V) (op : Op K V) : Prop :=
  ∀ key answer next, Removes op key → listStep hasher useMutex s op = some (answer,next) →
    ∀ p f, LiveAt next.entryList p f → Found hasher s p f → Found hasher next p f

-- A removal does not take its entry from the way to another one.
def Spares (hasher : Hasher K) (s : HashList K V) (op : Op K V) : Prop :=
  ∀ key pos e, Removes op key → Clear hasher.doHash2 s.entryList pos e → e.key = key →
    ∀ p f, Clear hasher.doHash2 s.entryList p f → ¬Crosses hasher.doHash2 s.entryList.length f p pos

theorem removal_buries (sound : Sound hasher s) (clear : Clear hasher.doHash2 s.entryList pos e) (removes : Removes op e.key) :
    ∃ answer n, listStep hasher useMutex s op = some (answer,⟨bury s.entryList pos,n,false⟩) := by
  obtain ⟨home,at_,found⟩ := (found_iff_clear sound).mpr clear
  rcases removes with rfl | rfl
  · exact ⟨_,_,by rw [listStep,listTry,remove_home sound.opened at_,found]; rfl⟩
  · exact ⟨_,_,by rw [listStep,listTry,take_home sound.opened at_,found]; rfl⟩

theorem buried_of_removal (sound : Sound hasher s) (removes : Removes op key)
    (moved : listStep hasher useMutex s op = some (answer,next)) :
    next = s ∨ ∃ pos e n, Clear hasher.doHash2 s.entryList pos e ∧ e.key = key ∧ next = ⟨bury s.entryList pos,n,false⟩ := by
  have named : ∀ {pos p e key}, homeSlot (hasher.doHash2 key) s.entryList.length = .ok pos →
      probe s.entryList (hasher.doHash2 key) key s.entryList.length pos = some (p,e) →
      Clear hasher.doHash2 s.entryList p e ∧ e.key = key := by
    intro pos p e key home found
    obtain ⟨same,_⟩ := probe_sound found
    subst same
    exact ⟨(found_iff_clear sound).mp ⟨pos,home,found⟩,rfl⟩
  cases stepped sound.opened moved with
  | missed => exact .inl rfl
  | peeked => exact .inl rfl
  | removed home found =>
      obtain same | wrong := removes
      · cases same
        obtain ⟨clear,named⟩ := named home found
        exact .inr ⟨_,_,_,clear,named,rfl⟩
      · cases wrong
  | taken home found =>
      obtain wrong | same := removes
      · cases wrong
      · cases same
        obtain ⟨clear,named⟩ := named home found
        exact .inr ⟨_,_,_,clear,named,rfl⟩
  | inserted => rcases removes with wrong | wrong <;> cases wrong
  | reset => rcases removes with wrong | wrong <;> cases wrong

theorem stay_iff_spares (sound : Sound hasher s) : OthersStay hasher useMutex s op ↔ Spares hasher s op := by
  constructor
  · rintro stay _ pos e removes here rfl p f there crosses
    obtain ⟨answer,n,moved⟩ : ∃ answer n, listStep hasher useMutex s op = some (answer,⟨bury s.entryList pos,n,false⟩) :=
      removal_buries sound here removes
    have apart : p ≠ pos := by
      rintro rfl
      exact not_crosses_self _ _ f p crosses
    have kept := stay e.key answer _ removes moved p f ((live_bury here.1 p f).mpr ⟨apart,there.1⟩)
      ((found_iff_clear sound).mpr there)
    have clear := (found_iff_clear (sound_bury sound here.1 n)).mp kept
    exact ((clear_bury here.1 there).mp clear).2 crosses
  · intro spares key answer next removes moved p f live found
    rcases buried_of_removal sound removes moved with rfl | ⟨pos,e,n,here,named,rfl⟩
    · exact found
    · have there := (found_iff_clear sound).mp found
      have free := spares key pos e removes here named p f there
      exact (found_iff_clear (sound_bury sound here.1 n)).mpr
        ((clear_bury here.1 there).mpr ⟨((live_bury here.1 p f).mp live).1,free⟩)

-- The chains are whole after every history; every removal leaves the others in
-- reach exactly in the histories in which no removal takes an entry from the way
-- to another one.
theorem chains_iff (hasher : Hasher K) (useMutex : Bool) (history : List (Op K V)) (used : ∀ op ∈ history, Keyed hasher op) :
    History.Guarded (listStep hasher useMutex) (ChainsWhole hasher useMutex) {} history ∧
      (History.Guarded (listStep hasher useMutex) (fun s op => ChainsWhole hasher useMutex s op ∧ OthersStay hasher useMutex s op) {} history ↔
        History.Guarded (listStep hasher useMutex) (Spares hasher) {} history) := by
  have whole : ∀ s op, Sound hasher s → Keyed hasher op → ChainsWhole (V := V) hasher useMutex s op :=
    fun s op sound keyed answer next moved => unbroken_of_sound (step_sound sound keyed moved)
  constructor
  · exact History.guarded_of_inv (sound_empty hasher) whole (fun s op answer next sound keyed moved => step_sound sound keyed moved) used
  · refine History.guarded_congr (sound_empty hasher) ?_ ?_ used
    · intro s op sound keyed
      rw [stay_iff_spares sound]
      exact and_iff_right (whole s op sound keyed)
    · exact fun s op answer next sound keyed _ moved => step_sound sound keyed moved

end runs

-- 0 and 17 share a home slot; 17, behind 0, is on nobody's way.
theorem chains_two : History.Guarded (listStep FiniteMap.intHasher true)
    (fun s op => ChainsWhole FiniteMap.intHasher true s op ∧ OthersStay FiniteMap.intHasher true s op) {}
    [.insert 0 10,.insert 17 20,.remove 17] := by
  let one : HashList Int Nat := ⟨(List.replicate 17 .null).set 0 (.entry ⟨0,0,10⟩),1,false⟩
  let two : HashList Int Nat := ⟨one.entryList.set 1 (.entry ⟨17,17,20⟩),2,false⟩
  have first : listStep FiniteMap.intHasher true ({} : HashList Int Nat) (.insert 0 10) = some (.flag true,one) := by decide +kernel
  have second : listStep FiniteMap.intHasher true one (.insert 17 20) = some (.flag true,two) := by decide +kernel
  have live : ∀ p e, LiveAt two.entryList p e → (p = 1 ∧ e = ⟨17,17,20⟩) ∨ (p = 0 ∧ e = ⟨0,0,10⟩) := by
    intro p e seat
    rcases (live_set (by decide) _).mp seat with ⟨rfl,same⟩ | ⟨_,seat⟩
    · cases same; exact .inl ⟨rfl,rfl⟩
    · rcases (live_set (by decide) _).mp seat with ⟨rfl,same⟩ | ⟨_,none⟩
      · cases same; exact .inr ⟨rfl,rfl⟩
      · exact absurd none (live_bare 17)
  refine ((chains_iff FiniteMap.intHasher true [.insert 0 10,.insert 17 20,.remove 17] (by simp [Keyed,FiniteMap.intHasher])).2).mpr ?_
  rw [History.guarded_cons first,History.guarded_cons second]
  refine ⟨fun key pos e removes => ?_,fun key pos e removes => ?_,fun key pos e removes here named p f there => ?_,fun _ _ _ => trivial⟩
  · rcases removes with wrong | wrong <;> cases wrong
  · rcases removes with wrong | wrong <;> cases wrong
  · rcases removes with same | wrong
    · cases same
      rcases live pos e here.1 with ⟨rfl,_⟩ | ⟨_,rfl⟩
      · rintro ⟨d,j,less,small,at_,hit⟩
        change d < 17 at small
        rcases live p f there.1 with ⟨rfl,rfl⟩ | ⟨rfl,rfl⟩
        · change (17+d) % 17 = 1 at at_
          change (17+j) % 17 = 1 at hit
          omega
        · change (0+d) % 17 = 0 at at_
          omega
      · cases named
    · cases wrong

-- 0 and 17 share a home slot: the tombstone of 0 keeps lookups from 17.
theorem tombstone_hides : ¬History.Guarded (listStep FiniteMap.intHasher true)
    (fun s op => ChainsWhole FiniteMap.intHasher true s op ∧ OthersStay FiniteMap.intHasher true s op) {}
    [.insert 0 10,.insert 17 20,.remove 0] := by
  let one : HashList Int Nat := ⟨(List.replicate 17 .null).set 0 (.entry ⟨0,0,10⟩),1,false⟩
  let two : HashList Int Nat := ⟨one.entryList.set 1 (.entry ⟨17,17,20⟩),2,false⟩
  let three : HashList Int Nat := ⟨two.entryList.set 0 .corpse,1,false⟩
  have first : listStep FiniteMap.intHasher true ({} : HashList Int Nat) (.insert 0 10) = some (.flag true,one) := by decide +kernel
  have second : listStep FiniteMap.intHasher true one (.insert 17 20) = some (.flag true,two) := by decide +kernel
  have third : listStep FiniteMap.intHasher true two (.remove 0) = some (.flag true,three) := by decide +kernel
  intro guarded
  rw [History.guarded_cons first,History.guarded_cons second] at guarded
  obtain ⟨_,_,⟨_,stay⟩,_⟩ := guarded
  obtain ⟨pos,home,found⟩ := stay 0 _ three (.inl rfl) third 1 ⟨17,17,20⟩ rfl ⟨0,by decide +kernel,by decide +kernel⟩
  have zero : homeSlot 17 three.entryList.length = .ok 0 := by decide +kernel
  cases zero.symm.trans home
  have missed : probe three.entryList 17 17 three.entryList.length 0 = none := by decide +kernel
  cases missed.symm.trans found

end GameServer.Common.Tombstones
