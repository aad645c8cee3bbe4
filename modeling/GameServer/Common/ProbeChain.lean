import Mathlib.Order.Nat
import Mathlib.Order.Basic
import Mathlib.Data.Nat.Find
import Mathlib.Data.Int.ModEq
import GameServer.Common.HashList

namespace GameServer.Common.ProbeChain
open HashList
variable {K V : Type _}

-- The slot i steps from slot 0, around the list.
def cell (entries : List (Slot K V)) (i : Nat) : Slot K V := entries.getD (i % entries.length) .null

def LiveAt (entries : List (Slot K V)) (p : Nat) (e : HashEntry K V) : Prop :=
  entries[p]? = some (.entry e)

-- A live entry another key's probe steps over.
def Passed (entries : List (Slot K V)) (key : K) (i : Nat) : Prop :=
  ∃ e, cell entries i = .entry e ∧ e.key ≠ key

theorem cell_mod (entries : List (Slot K V)) (i : Nat) : cell entries (i % entries.length) = cell entries i := by
  simp [cell]

theorem cell_eq {entries : List (Slot K V)} (found : entries[p]? = some s) : cell entries p = s := by
  have small := (List.getElem?_eq_some_iff.mp found).1
  rw [cell,Nat.mod_eq_of_lt small,List.getD_eq_getElem?_getD,found]; rfl

theorem LiveAt.cell {entries : List (Slot K V)} (live : LiveAt entries p e) : cell entries p = .entry e :=
  cell_eq live

theorem LiveAt.lt {entries : List (Slot K V)} (live : LiveAt entries p e) : p < entries.length :=
  (List.getElem?_eq_some_iff.mp live).1

theorem live_of_cell {entries : List (Slot K V)} (live : cell entries i = .entry e) :
    LiveAt entries (i % entries.length) e := by
  unfold LiveAt
  rw [ProbeChain.cell,List.getD_eq_getElem?_getD] at live
  cases found : entries[i % entries.length]? with
  | none => simp [found] at live
  | some s => simpa [found] using live

theorem cell_set {entries : List (Slot K V)} (small : q < entries.length) (s : Slot K V) (i : Nat) :
    cell (entries.set q s) i = if i % entries.length = q then s else cell entries i := by
  simp only [cell,List.length_set,List.getD_eq_getElem?_getD,List.getElem?_set]
  by_cases equal : i % entries.length = q
  · simp [equal,small]
  · simp [equal,Ne.symm equal]

theorem corpse_of_set {entries : List (Slot K V)} (small : pos < entries.length) (corpse : cell (entries.set pos .null) q = .corpse) :
    cell entries q = .corpse := by
  rw [cell_set small] at corpse
  split at corpse
  · cases corpse
  · exact corpse

-- Every live entry sits behind an unbroken run of used slots from its home,
-- and no key has two slots.
structure Chained (code : K → Int) (entries : List (Slot K V)) : Prop where
  hashed : ∀ p e, LiveAt entries p e → e.hash = code e.key
  reach : ∀ p e, LiveAt entries p e → ∃ d, d < entries.length ∧
    ((code e.key).toNat+d) % entries.length = p ∧ ∀ j, j < d → cell entries ((code e.key).toNat+j) ≠ .null
  single : ∀ p q e f, LiveAt entries p e → LiveAt entries q f → e.key = f.key → p = q

-- What is left of it where a key may have two slots.
structure Linked (code : K → Int) (entries : List (Slot K V)) : Prop where
  hashed : ∀ p e, LiveAt entries p e → e.hash = code e.key
  reach : ∀ p e, LiveAt entries p e → ∃ d, d < entries.length ∧
    ((code e.key).toNat+d) % entries.length = p ∧ ∀ j, j < d → cell entries ((code e.key).toNat+j) ≠ .null

theorem Chained.linked {code : K → Int} {entries : List (Slot K V)} (valid : Chained code entries) : Linked code entries :=
  ⟨valid.hashed,valid.reach⟩

theorem live_bare (capacity : Nat) : ¬LiveAt (List.replicate capacity (Slot.null : Slot K V)) p e := by
  intro live
  unfold LiveAt at live
  rw [List.getElem?_replicate] at live
  split at live <;> cases live

theorem chained_bare (code : K → Int) (capacity : Nat) :
    Chained code (List.replicate capacity (Slot.null : Slot K V)) :=
  ⟨fun _ _ live => absurd live (live_bare capacity),fun _ _ live => absurd live (live_bare capacity),
    fun _ _ _ _ live => absurd live (live_bare capacity)⟩

theorem mod_succ (home n : Nat) : (home % n + 1) % n = (home+1) % n := by rw [Nat.mod_add_mod]

theorem passed_next {entries : List (Slot K V)} (passed : ∀ j, j < d+1 → Passed entries key (home+j)) :
    ∀ j, j < d → Passed entries key (home+1+j) := by
  intro j less
  have later := passed (j+1) (Nat.succ_lt_succ less)
  rwa [show home+(j+1) = home+1+j by omega] at later

section loops
variable [DecidableEq K]

-- Both probe loops step over the slots their key passes.
theorem probe_skip {entries : List (Slot K V)} (code : Int) (rounds : Nat) (passed : ∀ j, j < d → Passed entries key (home+j)) :
    probe entries code key (rounds+d) (home % entries.length) =
      probe entries code key rounds ((home+d) % entries.length) := by
  induction d generalizing home with
  | zero => rfl
  | succ d ih =>
      obtain ⟨e,live,other⟩ := passed 0 (Nat.succ_pos d)
      have here : entries.getD (home % entries.length) .null = .entry e := live
      rw [←Nat.add_assoc,probe,here]
      dsimp only
      rw [if_neg (fun same => other same.2),mod_succ]
      rw [@ih (home+1) (passed_next passed),show home+1+d = home+(d+1) by omega]

theorem freeSlot_skip {entries : List (Slot K V)} (code : Int) (rounds : Nat) (passed : ∀ j, j < d → Passed entries key (home+j)) :
    freeSlot entries code key (rounds+d) (home % entries.length) =
      freeSlot entries code key rounds ((home+d) % entries.length) := by
  induction d generalizing home with
  | zero => rfl
  | succ d ih =>
      obtain ⟨e,live,other⟩ := passed 0 (Nat.succ_pos d)
      have here : entries.getD (home % entries.length) .null = .entry e := live
      rw [←Nat.add_assoc,freeSlot,here]
      dsimp only
      rw [if_neg (fun same => other same.2),mod_succ]
      rw [@ih (home+1) (passed_next passed),show home+1+d = home+(d+1) by omega]

-- A corpse holds the lookup loop in place until its rounds are gone.
theorem probe_corpse {entries : List (Slot K V)} (corpse : entries.getD pos .null = .corpse) :
    probe entries code key rounds pos = none := by
  induction rounds with
  | zero => rfl
  | succ rounds ih => rw [probe,corpse]; exact ih

end loops

-- The first slot the key does not pass, if the walk meets one.
theorem first_stop (entries : List (Slot K V)) (key : K) (home n : Nat) :
    (∀ j, j < n → Passed entries key (home+j)) ∨
      ∃ d, d < n ∧ (∀ j, j < d → Passed entries key (home+j)) ∧ ¬Passed entries key (home+d) := by
  classical
  by_cases all : ∀ j, j < n → Passed entries key (home+j)
  · exact .inl all
  · have some : ∃ d, d < n ∧ ¬Passed entries key (home+d) := by
      simpa only [not_forall,exists_prop] using all
    have found := Nat.find_spec some
    refine .inr ⟨Nat.find some,found.1,?_,found.2⟩
    intro j less
    by_contra stop
    exact Nat.find_min some less ⟨Nat.lt_trans less found.1,stop⟩

theorem distinct_steps {n d j home : Nat} (less : j < d) (small : d < n) : (home+j) % n ≠ (home+d) % n := by
  intro equal
  have divides : n ∣ home+d-(home+j) := (Nat.modEq_iff_dvd' (by omega)).mp equal
  rw [show home+d-(home+j) = d-j by omega] at divides
  exact absurd (Nat.le_of_dvd (by omega) divides) (by omega)

def Holds (entries : List (Slot K V)) (key : K) (value : V) : Prop :=
  ∃ p e, LiveAt entries p e ∧ e.key = key ∧ e.value = value

-- The entry of the key lies past a corpse of its own probe path.
def Buried (code : K → Int) (entries : List (Slot K V)) (key : K) : Prop :=
  ∃ p e d j, LiveAt entries p e ∧ e.key = key ∧ d < entries.length ∧
    ((code key).toNat+d) % entries.length = p ∧ j < d ∧ cell entries ((code key).toNat+j) = .corpse

theorem holds_iff_live (entries : List (Slot K V)) (key : K) :
    (∃ v, Holds entries key v) ↔ ∃ p e, LiveAt entries p e ∧ e.key = key :=
  ⟨fun ⟨_,p,e,live,same,_⟩ => ⟨p,e,live,same⟩,fun ⟨p,e,live,same⟩ => ⟨e.value,p,e,live,same,rfl⟩⟩

section lookup
variable {code : K → Int} {entries : List (Slot K V)} {key : K}

theorem probe_sound [DecidableEq K] (found : probe entries c key rounds pos = some (p,e)) :
    e.key = key ∧ entries.getD p .null = .entry e := by
  induction rounds generalizing pos with
  | zero => cases found
  | succ rounds ih =>
      rw [probe] at found
      split at found
      · cases found
      · exact ih found
      · rename_i f here
        split at found
        · rename_i same
          cases found
          exact ⟨same.2,here⟩
        · exact ih found

-- Before the slot of a live entry its key meets only other live entries and corpses.
theorem passed_before (valid : Chained code entries) (live : LiveAt entries p e) (small : d < entries.length)
    (at_ : ((code e.key).toNat+d) % entries.length = p) (less : j < d)
    (used : cell entries ((code e.key).toNat+j) ≠ .null)
    (clear : cell entries ((code e.key).toNat+j) ≠ .corpse) :
    Passed entries e.key ((code e.key).toNat+j) := by
  cases here : cell entries ((code e.key).toNat+j) with
  | null => exact absurd here used
  | corpse => exact absurd here clear
  | entry f =>
      refine ⟨f,here,fun same => ?_⟩
      have equal := valid.single _ _ _ _ (live_of_cell here) live same
      exact distinct_steps less small (equal.trans at_.symm)

theorem probe_absent [DecidableEq K] (absent : ¬∃ v, Holds entries key v) : probe entries c key rounds pos = none := by
  cases found : probe entries c key rounds pos with
  | none => rfl
  | some result =>
      obtain ⟨p,e⟩ := result
      obtain ⟨same,here⟩ := probe_sound found
      refine absurd ((holds_iff_live _ _).mpr ⟨p,e,?_,same⟩) absent
      unfold LiveAt
      rw [List.getD_eq_getElem?_getD] at here
      cases slot : entries[p]? with
      | none => simp [slot] at here
      | some s => simpa [slot] using here

theorem same_steps {n d d' home : Nat} (small : d < n) (small' : d' < n)
    (equal : (home+d) % n = (home+d') % n) : d = d' := by
  rcases Nat.lt_trichotomy d d' with below | same | above
  · exact absurd equal (distinct_steps below small')
  · exact same
  · exact absurd equal.symm (distinct_steps above small)

-- The walk to a buried key comes to a corpse first, past other keys only.
theorem buried_walk (valid : Chained code entries) (buried : Buried code entries key) :
    ∃ k, k < entries.length ∧ (∀ j, j < k → Passed entries key ((code key).toNat+j)) ∧
      cell entries ((code key).toNat+k) = .corpse := by
  obtain ⟨p,e,d,j,live,rfl,small,at_,less,corpse⟩ := buried
  obtain ⟨d',small',at',used⟩ := valid.reach p e live
  obtain rfl := same_steps small small' (at_.trans at'.symm)
  rcases first_stop entries e.key (code e.key).toNat d with all | ⟨k,below,passed,stop⟩
  · obtain ⟨f,here,_⟩ := all j less
    rw [corpse] at here; cases here
  · refine ⟨k,Nat.lt_trans below small,passed,?_⟩
    by_contra clear
    exact stop (passed_before valid live small at_ below (used k below) clear)

-- The walk to a key with no corpse before it ends at its own slot.
theorem clear_walk (valid : Chained code entries) (live : LiveAt entries p e) (clear : ¬Buried code entries e.key) :
    ∃ d, d < entries.length ∧ (∀ j, j < d → Passed entries e.key ((code e.key).toNat+j)) ∧
      ((code e.key).toNat+d) % entries.length = p ∧ entries.getD p .null = .entry e := by
  obtain ⟨d,small,at_,used⟩ := valid.reach p e live
  refine ⟨d,small,?_,at_,?_⟩
  · intro j less
    exact passed_before valid live small at_ less (used j less)
      (fun corpse => clear ⟨p,e,d,j,live,rfl,small,at_,less,corpse⟩)
  · have here := live.cell
    rwa [cell,Nat.mod_eq_of_lt live.lt] at here

-- A lookup stops at the first corpse before the key's slot and reports the key
-- missing.
theorem probe_buried [DecidableEq K] (valid : Chained code entries) (buried : Buried code entries key) :
    probe entries (code key) key entries.length ((code key).toNat % entries.length) = none := by
  obtain ⟨k,below,passed,stuck⟩ := buried_walk valid buried
  have skip := probe_skip (code key) (entries.length-k) passed
  rw [show entries.length-k+k = entries.length by omega] at skip
  rw [skip]
  exact probe_corpse stuck

theorem probe_clear [DecidableEq K] (valid : Chained code entries) (live : LiveAt entries p e)
    (clear : ¬Buried code entries e.key) :
    probe entries (code e.key) e.key entries.length ((code e.key).toNat % entries.length) = some (p,e) := by
  obtain ⟨d,small,passed,at_,here⟩ := clear_walk valid live clear
  have skip := probe_skip (code e.key) (entries.length-d) passed
  rw [show entries.length-d+d = entries.length by omega] at skip
  rw [skip,show entries.length-d = (entries.length-d-1)+1 by omega,at_,probe,here]
  dsimp only
  rw [if_pos ⟨valid.hashed p e live,rfl⟩]

-- An insertion of a bound key is turned away by the key's own slot, or takes
-- the corpse before it.
theorem freeSlot_clear [DecidableEq K] (valid : Chained code entries) (live : LiveAt entries p e)
    (clear : ¬Buried code entries e.key) :
    freeSlot entries (code e.key) e.key entries.length ((code e.key).toNat % entries.length) = none := by
  obtain ⟨d,small,passed,at_,here⟩ := clear_walk valid live clear
  have skip := freeSlot_skip (code e.key) (entries.length-d) passed
  rw [show entries.length-d+d = entries.length by omega] at skip
  rw [skip,show entries.length-d = (entries.length-d-1)+1 by omega,at_,freeSlot,here]
  dsimp only
  rw [if_pos ⟨valid.hashed p e live,rfl⟩]

theorem freeSlot_buried [DecidableEq K] (valid : Chained code entries) (buried : Buried code entries key) :
    ∃ q, freeSlot entries (code key) key entries.length ((code key).toNat % entries.length) = some q := by
  obtain ⟨k,below,passed,stuck⟩ := buried_walk valid buried
  have skip := freeSlot_skip (code key) (entries.length-k) passed
  rw [show entries.length-k+k = entries.length by omega] at skip
  refine ⟨((code key).toNat+k) % entries.length,?_⟩
  unfold cell at stuck
  rw [skip,show entries.length-k = (entries.length-k-1)+1 by omega,freeSlot,stuck]

-- An absent key gets the first slot of its path that holds no live entry.
theorem freeSlot_absent [DecidableEq K] (absent : ¬∃ v, Holds entries key v) (home : Nat) :
    ((∀ i, i < entries.length → ∃ e, cell entries i = .entry e) ∧
      freeSlot entries c key entries.length (home % entries.length) = none) ∨
    ∃ d, d < entries.length ∧ (∀ j, j < d → Passed entries key (home+j)) ∧
      (∀ e, cell entries (home+d) ≠ .entry e) ∧
      freeSlot entries c key entries.length (home % entries.length) = some ((home+d) % entries.length) := by
  rcases first_stop entries key home entries.length with all | ⟨d,small,passed,stop⟩
  · refine .inl ⟨?_,?_⟩
    · intro i less
      -- the walk has gone once round, so every slot is one of its steps
      have around : (home + (i + (entries.length - home % entries.length)) % entries.length) % entries.length = i := by
        have := Nat.mod_lt home (by omega : 0 < entries.length)
        rw [Nat.add_mod_mod,←Nat.mod_add_mod]
        rw [show home % entries.length + (i + (entries.length - home % entries.length)) = i + entries.length by omega]
        rw [Nat.add_mod_right,Nat.mod_eq_of_lt less]
      obtain ⟨e,here,_⟩ := all _ (Nat.mod_lt (i + (entries.length - home % entries.length)) (by omega))
      rw [←cell_mod,around] at here
      exact ⟨e,here⟩
    · have skip := freeSlot_skip c 0 all
      rw [Nat.zero_add] at skip
      exact skip
  · refine .inr ⟨d,small,passed,?_,?_⟩
    · intro e here
      refine stop ⟨e,here,fun same => absent ((holds_iff_live _ _).mpr ⟨_,e,live_of_cell here,same⟩)⟩
    · have skip := freeSlot_skip c (entries.length-d) passed
      rw [show entries.length-d+d = entries.length by omega] at skip
      rw [skip,show entries.length-d = (entries.length-d-1)+1 by omega,freeSlot]
      cases here : entries.getD ((home+d) % entries.length) .null with
      | null => rfl
      | corpse => rfl
      | entry e =>
          refine absurd ?_ stop
          exact ⟨e,here,fun same => absent ((holds_iff_live _ _).mpr ⟨_,e,live_of_cell here,same⟩)⟩

end lookup

theorem live_set {entries : List (Slot K V)} (small : q < entries.length) (s : Slot K V) :
    LiveAt (entries.set q s) p e ↔ (p = q ∧ s = .entry e) ∨ (p ≠ q ∧ LiveAt entries p e) := by
  unfold LiveAt
  rw [List.getElem?_set]
  by_cases equal : q = p
  · subst equal; simp [small]
  · simp [equal,Ne.symm equal]

section update
variable {code : K → Int} {entries : List (Slot K V)}

-- An entry put into a slot at the end of a used run of its path.
theorem linked_fill (valid : Linked code entries) (ent : HashEntry K V) (hashed : ent.hash = code ent.key) (small : d < entries.length)
    (used : ∀ j, j < d → cell entries ((code ent.key).toNat+j) ≠ .null) :
    Linked code (entries.set (((code ent.key).toNat+d) % entries.length) (.entry ent)) := by
  have inside : ((code ent.key).toNat+d) % entries.length < entries.length := Nat.mod_lt _ (by omega)
  have keeps : ∀ i, cell entries i ≠ .null →
      cell (entries.set (((code ent.key).toNat+d) % entries.length) (.entry ent)) i ≠ .null := by
    intro i full
    rw [cell_set inside]
    split
    · simp
    · exact full
  refine ⟨?_,?_⟩
  · intro p e live
    rcases (live_set inside _).mp live with ⟨_,same⟩ | ⟨_,old⟩
    · cases same; exact hashed
    · exact valid.hashed p e old
  · intro p e live
    rw [List.length_set]
    rcases (live_set inside _).mp live with ⟨rfl,same⟩ | ⟨_,old⟩
    · cases same
      exact ⟨d,small,rfl,fun j less => keeps _ (used j less)⟩
    · obtain ⟨d',small',at',used'⟩ := valid.reach p e old
      exact ⟨d',small',at',fun j less => keeps _ (used' j less)⟩

-- A new key put there is the only entry of its key.
theorem chained_fill (valid : Chained code entries) (ent : HashEntry K V) (hashed : ent.hash = code ent.key)
    (absent : ¬∃ v, Holds entries ent.key v) (small : d < entries.length)
    (used : ∀ j, j < d → cell entries ((code ent.key).toNat+j) ≠ .null) :
    Chained code (entries.set (((code ent.key).toNat+d) % entries.length) (.entry ent)) := by
  have inside : ((code ent.key).toNat+d) % entries.length < entries.length := Nat.mod_lt _ (by omega)
  have other : ∀ p e, LiveAt entries p e → e.key ≠ ent.key :=
    fun p e live same => absent ((holds_iff_live _ _).mpr ⟨p,e,live,same⟩)
  have linked := linked_fill valid.linked ent hashed small used
  refine ⟨linked.hashed,linked.reach,?_⟩
  intro p q e f one two same
  rcases (live_set inside _).mp one with ⟨rfl,equal⟩ | ⟨apart,oldOne⟩ <;>
    rcases (live_set inside _).mp two with ⟨rfl,equal'⟩ | ⟨apart',oldTwo⟩
  · rfl
  · cases equal; exact absurd same.symm (other q f oldTwo)
  · cases equal'; exact absurd same (other p e oldOne)
  · exact valid.single p q e f oldOne oldTwo same

theorem holds_fill (ent : HashEntry K V) (small : q < entries.length) (free : ∀ e, cell entries q ≠ .entry e)
    (k : K) (v : V) : Holds (entries.set q (.entry ent)) k v ↔ (k = ent.key ∧ v = ent.value) ∨ Holds entries k v := by
  constructor
  · rintro ⟨p,e,live,rfl,rfl⟩
    rcases (live_set small _).mp live with ⟨_,same⟩ | ⟨_,old⟩
    · cases same; exact .inl ⟨rfl,rfl⟩
    · exact .inr ⟨p,e,old,rfl,rfl⟩
  · rintro (⟨rfl,rfl⟩ | ⟨p,e,live,rfl,rfl⟩)
    · exact ⟨q,ent,(live_set small _).mpr (.inl ⟨rfl,rfl⟩),rfl,rfl⟩
    · refine ⟨p,e,(live_set small _).mpr (.inr ⟨?_,live⟩),rfl,rfl⟩
      rintro rfl
      exact free e live.cell

-- What the backward sweep from a slot has done: some corpses are NULL now, and
-- each such slot reaches the start through corpses only.
structure Swept (entries after : List (Slot K V)) (pos : Nat) : Prop where
  length : after.length = entries.length
  kept : ∀ p, p < entries.length → after[p]? = entries[p]? ∨
    (cell entries p = .corpse ∧ after[p]? = some .null ∧
      ∃ i, (p+i) % entries.length = pos ∧ ∀ j, j ≤ i → cell entries (p+j) = .corpse)

theorem before_succ {pos n : Nat} (small : pos < n) : (before pos n + 1) % n = pos := by
  unfold before
  split
  · rename_i zero; subst zero; rw [show n-1+1 = n by omega,Nat.mod_self]
  · rw [show pos-1+1 = pos by omega,Nat.mod_eq_of_lt small]

theorem before_lt {pos n : Nat} (small : pos < n) : before pos n < n := by
  unfold before; split <;> omega

theorem sweep_swept (rounds : Nat) (entries : List (Slot K V)) (small : pos < entries.length) :
    Swept entries (sweep rounds entries pos) pos := by
  induction rounds generalizing entries pos with
  | zero => exact ⟨rfl,fun _ _ => .inl rfl⟩
  | succ rounds ih =>
      rw [sweep]
      split
      · rename_i corpse
        have here : cell entries pos = .corpse := by rwa [cell,Nat.mod_eq_of_lt small]
        have later := ih (entries.set pos .null)
          (show before pos entries.length < _ by rw [List.length_set]; exact before_lt small)
        refine ⟨by rw [later.length,List.length_set],?_⟩
        intro p inside
        have length : (entries.set pos .null).length = entries.length := List.length_set
        rcases later.kept p (by rwa [length]) with same | ⟨old,null,i,at_,run⟩
        · by_cases equal : p = pos
          · subst equal
            refine .inr ⟨here,?_,0,by rw [Nat.add_zero,Nat.mod_eq_of_lt inside],?_⟩
            · rw [same,List.getElem?_set_self small]
            · intro j less
              obtain rfl : j = 0 := by omega
              exact here
          · rw [List.getElem?_set_ne (Ne.symm equal)] at same
            exact .inl same
        · rw [length] at at_
          refine .inr ⟨corpse_of_set small (q:=p+0) old,null,i+1,?_,?_⟩
          · rw [←Nat.add_assoc,←Nat.mod_add_mod,at_,before_succ small]
          · intro j less
            by_cases last : j = i+1
            · subst last
              rw [←cell_mod,←Nat.add_assoc,←Nat.mod_add_mod,at_,before_succ small]
              exact here
            · exact corpse_of_set small (run j (by omega))
      · exact ⟨rfl,fun _ _ => .inl rfl⟩

-- A deleted slot, or a corpse swept after it: NULL now, and only corpses lead
-- from it to the deleted slot, behind which the run of used slots ends.
def Cleared (entries : List (Slot K V)) (pos p : Nat) : Prop :=
  cell entries (pos+1) = .null ∧
    ∃ i, (p+i) % entries.length = pos ∧ ∀ j, j < i → cell entries (p+j) = .corpse

structure BuriedAt (entries after : List (Slot K V)) (pos : Nat) : Prop where
  length : after.length = entries.length
  gone : after[pos]? = some .corpse ∨ (after[pos]? = some .null ∧ Cleared entries pos pos)
  kept : ∀ p, p < entries.length → p ≠ pos → after[p]? = entries[p]? ∨
    (cell entries p = .corpse ∧ after[p]? = some .null ∧ Cleared entries pos p)

theorem bury_parts (live : LiveAt entries pos e) : BuriedAt entries (bury entries pos) pos := by
  have small := live.lt
  unfold bury
  split
  · rename_i next
    have swept := sweep_swept entries.length (entries.set pos .null)
      (show before pos entries.length < _ by rw [List.length_set]; exact before_lt small)
    refine ⟨by rw [swept.length,List.length_set],.inr ⟨?_,next,0,by rw [Nat.add_zero,Nat.mod_eq_of_lt small],by omega⟩,?_⟩
    · rcases swept.kept pos (by rwa [List.length_set]) with same | ⟨corpse,_,_⟩
      · rw [same,List.getElem?_set_self small]
      · rw [cell_set small,if_pos (Nat.mod_eq_of_lt small)] at corpse; cases corpse
    · intro p inside apart
      rcases swept.kept p (by rwa [List.length_set]) with same | ⟨corpse,null,i,at_,run⟩
      · rw [List.getElem?_set_ne (Ne.symm apart)] at same
        exact .inl same
      · rw [List.length_set] at at_
        refine .inr ⟨corpse_of_set small (q:=p+0) corpse,null,next,i+1,?_,fun j less => corpse_of_set small (run j (by omega))⟩
        rw [←Nat.add_assoc,←Nat.mod_add_mod,at_,before_succ small]
  · exact ⟨List.length_set,.inl (List.getElem?_set_self small),fun p _ apart => .inl (List.getElem?_set_ne (Ne.symm apart))⟩

theorem live_bury (live : LiveAt entries pos e) (p : Nat) (f : HashEntry K V) :
    LiveAt (bury entries pos) p f ↔ p ≠ pos ∧ LiveAt entries p f := by
  have parts := bury_parts live
  unfold LiveAt
  constructor
  · intro found
    have apart : p ≠ pos := by
      rintro rfl
      rcases parts.gone with gone | ⟨gone,_⟩ <;> rw [gone] at found <;> cases found
    have small : p < entries.length := by
      have := (List.getElem?_eq_some_iff.mp found).1
      rwa [parts.length] at this
    rcases parts.kept p small apart with same | ⟨_,null,_⟩
    · exact ⟨apart,same ▸ found⟩
    · rw [null] at found; cases found
  · intro ⟨apart,old⟩
    have small := (List.getElem?_eq_some_iff.mp old).1
    rcases parts.kept p small apart with same | ⟨corpse,_,_⟩
    · rw [same]; exact old
    · rw [cell_eq old] at corpse; cases corpse

theorem cleared_of_null (valid : ∀ p, p < entries.length → p ≠ pos → after[p]? = entries[p]? ∨
      (cell entries p = .corpse ∧ after[p]? = some .null ∧ Cleared entries pos p))
    (gone : after[pos]? = some .corpse ∨ (after[pos]? = some .null ∧ Cleared entries pos pos))
    (length : after.length = entries.length) (inside : 0 < entries.length)
    (null : cell after i = .null) (used : cell entries i ≠ .null) :
    Cleared entries pos (i % entries.length) := by
  have small := Nat.mod_lt i inside
  have here : after[i % entries.length]? = some .null := by
    rw [cell,length,List.getD_eq_getElem?_getD] at null
    rw [List.getElem?_eq_getElem (by rw [length]; exact small)] at null ⊢
    exact congrArg some null
  by_cases equal : i % entries.length = pos
  · rcases gone with corpse | ⟨_,cleared⟩
    · rw [equal,corpse] at here; cases here
    · rw [equal]; exact cleared
  · rcases valid _ small equal with same | ⟨_,_,cleared⟩
    · rw [same] at here
      exact absurd (by rw [←cell_mod]; exact cell_eq here) used
    · exact cleared

-- Deleting keeps every other entry within reach: a path through a cleared slot
-- would have to run into the NULL behind the deleted one.
theorem linked_bury (valid : Linked code entries) (live : LiveAt entries pos e) : Linked code (bury entries pos) := by
  have parts := bury_parts live
  have inside : 0 < entries.length := by have := live.lt; omega
  refine ⟨?_,?_⟩
  · intro p f found
    exact valid.hashed p f ((live_bury live p f).mp found).2
  · intro p f found
    obtain ⟨apart,old⟩ := (live_bury live p f).mp found
    obtain ⟨d,small,at_,used⟩ := valid.reach p f old
    refine ⟨d,by rw [parts.length]; exact small,by rw [parts.length]; exact at_,?_⟩
    intro j less null
    obtain ⟨next,i,arrive,run⟩ := cleared_of_null parts.kept parts.gone parts.length inside null (used j less)
    have walk : ∀ k, cell entries (((code f.key).toNat+j) % entries.length + k) = cell entries ((code f.key).toNat+(j+k)) := by
      intro k
      rw [←cell_mod entries (_ + k),Nat.mod_add_mod,cell_mod,Nat.add_assoc]
    have end_ : cell entries ((code f.key).toNat+(j+(i+1))) = .null := by
      rw [←walk,←Nat.add_assoc,←cell_mod,←Nat.mod_add_mod,arrive,cell_mod]; exact next
    have target : cell entries ((code f.key).toNat+d) = .entry f := by
      rw [←cell_mod,at_]; exact old.cell
    rcases Nat.lt_trichotomy d (j+(i+1)) with short | same | long
    · rcases Nat.lt_or_ge d (j+i) with inRun | atEnd
      · have corpse := run (d-j) (by omega)
        rw [walk,show j+(d-j) = d by omega,target] at corpse
        cases corpse
      · have equal : d = j+i := by omega
        rw [Nat.mod_add_mod,Nat.add_assoc,←equal,at_] at arrive
        exact apart arrive
    · rw [←same,target] at end_; cases end_
    · exact used (j+(i+1)) long end_

theorem chained_bury (valid : Chained code entries) (live : LiveAt entries pos e) : Chained code (bury entries pos) := by
  have linked := linked_bury valid.linked live
  refine ⟨linked.hashed,linked.reach,?_⟩
  intro p q f g one two same
  exact valid.single p q f g ((live_bury live p f).mp one).2 ((live_bury live q g).mp two).2 same

theorem holds_bury (valid : Chained code entries) (live : LiveAt entries pos e) (k : K) (v : V) :
    Holds (bury entries pos) k v ↔ k ≠ e.key ∧ Holds entries k v := by
  constructor
  · rintro ⟨p,f,found,rfl,rfl⟩
    obtain ⟨apart,old⟩ := (live_bury live p f).mp found
    exact ⟨fun same => apart (valid.single p pos f e old live same),p,f,old,rfl,rfl⟩
  · rintro ⟨other,p,f,old,rfl,rfl⟩
    refine ⟨p,f,(live_bury live p f).mpr ⟨?_,old⟩,rfl,rfl⟩
    rintro rfl
    unfold LiveAt at old live
    rw [old] at live
    cases live
    exact other rfl

end update

end GameServer.Common.ProbeChain
