import Mathlib.Data.Finmap

namespace GameServer.GObject

structure MOData where
  m_ID : UInt32
  m_Name : String
  m_Spot : UInt16
  m_Type : UInt8
  m_ActionType : UInt32
  m_Hide : Bool
  deriving DecidableEq, Repr

abbrev MOMap := Finmap fun _ : UInt32 => MOData

namespace MOMap

-- An id goes up until it stops, so many times at most: how often it went up,
-- and the id.
def advance (stop : UInt32 → Bool) : Nat → UInt32 → Nat × UInt32
  | 0,id => (0,id)
  | tries+1,id => if stop id then (0,id) else ((advance stop tries (id+1)).1+1,(advance stop tries (id+1)).2)

-- The answer and mo, whose m_ID is written, and the map. `memory`: whether new
-- gives an object.
def AddObject (m : MOMap) (mo : MOData) (memory : Bool) : Bool × MOData × MOMap :=
  let (full,id) :=
    if mo.m_ID = 4257 then
      let (i,id) := advance (fun id => id ∉ m) 20 mo.m_ID
      (decide (i = 20),id)
    else if mo.m_ID = 4247 then
      let (i,id) := advance (fun id => id ∉ m) 10 mo.m_ID
      (decide (i = 10),id)
    else (decide (mo.m_ID ∈ m),mo.m_ID)
  let mo := {mo with m_ID := id}
  if full || !memory then (false,mo,m) else (true,mo,m.insert id mo)

def stands (m : MOMap) (spot : UInt16) (id : UInt32) : Bool := (m.lookup id).any fun mo => mo.m_Spot = spot

-- The object that is deleted is the one of the last id, tested or not.
def DelObject (m : MOMap) (id : UInt32) (spot : UInt16) : UInt32 × MOMap :=
  let id := if id = 4257 then (advance (m.stands spot) 20 id).2 else id
  let id := if id = 4247 then (advance (m.stands spot) 10 id).2 else id
  (id,if id ∈ m then m.erase id else m)

end MOMap

-- The ids that stand for several: 4257 for those to 4276, 4247 for those to 4256.
inductive Family where
  | of4257
  | of4247

namespace Family

def id : Family → UInt32
  | of4257 => 4257
  | of4247 => 4247

def tries : Family → Nat
  | of4257 => 20
  | of4247 => 10

def nth (f : Family) (j : Nat) : UInt32 := f.id+UInt32.ofNat j

theorem nth_toNat (f : Family) {j : Nat} (few : j ≤ f.tries) : (f.nth j).toNat = f.id.toNat+j := by
  have small : f.id.toNat ≤ 4257 ∧ f.tries ≤ 20 := by cases f <;> decide
  rw [nth,UInt32.toNat_add,UInt32.toNat_ofNat',Nat.mod_eq_of_lt (by omega : j < 2^32)]
  exact Nat.mod_eq_of_lt (by omega)

theorem nth_inj (f : Family) {i j : Nat} (few : i ≤ f.tries) (few' : j ≤ f.tries) (same : f.nth i = f.nth j) : i = j := by
  have equal := congrArg UInt32.toNat same
  rw [f.nth_toNat few,f.nth_toNat few'] at equal
  omega

end Family

namespace MOMap
variable {m : MOMap} {f : Family} {spot : UInt16}

theorem erase_absent {id : UInt32} (absent : id ∉ m) : m.erase id = m := by
  refine Finmap.ext_lookup fun other => ?_
  by_cases same : other = id
  · rw [same,Finmap.lookup_erase,Finmap.lookup_eq_none.mpr absent]
  · rw [Finmap.lookup_erase_ne same]

theorem advance_spec (stop : UInt32 → Bool) (tries : Nat) (id : UInt32) :
    ∃ j ≤ tries, advance stop tries id = (j,id+UInt32.ofNat j) ∧ (∀ i < j, stop (id+UInt32.ofNat i) = false) ∧
      (j < tries → stop (id+UInt32.ofNat j) = true) := by
  induction tries generalizing id with
  | zero => exact ⟨0,Nat.le_refl 0,by simp [advance],nofun,nofun⟩
  | succ tries ih =>
      have next (i : Nat) : id+1+UInt32.ofNat i = id+UInt32.ofNat (i+1) := by
        rw [UInt32.ofNat_add,UInt32.add_comm (UInt32.ofNat i),UInt32.add_assoc]
        rfl
      cases here : stop id with
      | true => exact ⟨0,Nat.zero_le _,by simp [advance,here],nofun,fun _ => by simpa using here⟩
      | false =>
          obtain ⟨j,few,last,passed,stopped⟩ := ih (id+1)
          refine ⟨j+1,Nat.succ_le_succ few,by simp [advance,here,last,next],?_,?_⟩
          · intro i before
            cases i with
            | zero => simpa using here
            | succ i =>
                rw [← next]
                exact passed i (Nat.lt_of_succ_lt_succ before)
          · intro more
            rw [← next]
            exact stopped (Nat.lt_of_succ_lt_succ more)

-- The first of a family on the spot, or one behind the family.
theorem del_spec (m : MOMap) (f : Family) (spot : UInt16) :
    ∃ j ≤ f.tries, m.DelObject f.id spot = (f.nth j,m.erase (f.nth j)) ∧ (∀ i < j, m.stands spot (f.nth i) = false) ∧
      (j < f.tries → m.stands spot (f.nth j) = true) := by
  have gone (id : UInt32) : (if id ∈ m then m.erase id else m) = m.erase id := by
    split
    · rfl
    · rename_i absent
      exact (erase_absent absent).symm
  obtain ⟨j,few,last,passed,stopped⟩ := advance_spec (m.stands spot) f.tries f.id
  refine ⟨j,few,?_,passed,stopped⟩
  have far := f.nth_toNat few
  have deleted : m.DelObject f.id spot = (f.nth j,if f.nth j ∈ m then m.erase (f.nth j) else m) := by
    cases f with
    | of4257 =>
        have other : Family.of4257.nth j ≠ 4247 := by
          intro same
          have less : (4247 : UInt32).toNat < Family.of4257.id.toNat := by decide
          rw [same] at far
          omega
        have sought : (advance (m.stands spot) 20 4257).2 = Family.of4257.nth j := congrArg Prod.snd last
        simp [DelObject,Family.id,sought,other]
    | of4247 =>
        have sought : (advance (m.stands spot) 10 4247).2 = Family.of4247.nth j := congrArg Prod.snd last
        simp [DelObject,Family.id,sought]
  rw [deleted,gone]

-- The first free id of a family, or none and no object.
theorem add_spec (m : MOMap) (f : Family) (mo : MOData) (memory : Bool) (named : mo.m_ID = f.id) :
    ∃ j ≤ f.tries, (∀ i < j, f.nth i ∈ m) ∧ (j < f.tries → f.nth j ∉ m) ∧
      m.AddObject mo memory = if j = f.tries ∨ memory = false then (false,{mo with m_ID := f.nth j},m)
        else (true,{mo with m_ID := f.nth j},m.insert (f.nth j) {mo with m_ID := f.nth j}) := by
  obtain ⟨j,few,last,passed,stopped⟩ := advance_spec (fun id => id ∉ m) f.tries f.id
  refine ⟨j,few,?_,?_,?_⟩
  · intro i before
    exact Decidable.not_not.mp (of_decide_eq_false (passed i before))
  · intro more
    exact of_decide_eq_true (stopped more)
  · unfold AddObject
    cases f with
    | of4257 =>
        have sought : advance (fun id => decide (id ∉ m)) 20 4257 = (j,Family.of4257.nth j) := last
        rw [named,if_pos (by decide),show Family.of4257.id = 4257 from rfl,sought]
        simp only [Bool.or_eq_true,decide_eq_true_eq,Bool.not_eq_true']
        exact ite_congr rfl (fun _ => rfl) fun _ => rfl
    | of4247 =>
        have sought : advance (fun id => decide (id ∉ m)) 10 4247 = (j,Family.of4247.nth j) := last
        rw [named,if_neg (by decide),if_pos (by decide),show Family.of4247.id = 4247 from rfl,sought]
        simp only [Bool.or_eq_true,decide_eq_true_eq,Bool.not_eq_true']
        exact ite_congr rfl (fun _ => rfl) fun _ => rfl

-- DelObject deletes the one of the smallest id on the spot, or nothing.
def Deletes (m : MOMap) (f : Family) (spot : UInt16) : Prop :=
  (∀ j < f.tries, m.stands spot (f.nth j) = true → (∀ i < j, m.stands spot (f.nth i) = false) →
    m.DelObject f.id spot = (f.nth j,m.erase (f.nth j))) ∧
  ((∀ j < f.tries, m.stands spot (f.nth j) = false) → (m.DelObject f.id spot).2 = m)

-- What is added is what is deleted by its spot.
def Restores (m : MOMap) (f : Family) (spot : UInt16) : Prop :=
  ∀ mo memory added next, mo.m_ID = f.id → mo.m_Spot = spot → m.AddObject mo memory = (true,added,next) → (next.DelObject f.id spot).2 = m

theorem deletes_iff (m : MOMap) (f : Family) (spot : UInt16) :
    Deletes m f spot ↔ (∃ j < f.tries, m.stands spot (f.nth j) = true) ∨ f.nth f.tries ∉ m := by
  obtain ⟨k,few,deleted,passed,stopped⟩ := m.del_spec f spot
  obtain inside | past := Nat.lt_or_eq_of_le few
  · have here := stopped inside
    refine iff_of_true ⟨?_,?_⟩ (Or.inl ⟨k,inside,here⟩)
    · intro j less stands before
      have same : k = j := by
        obtain lower | same | higher := Nat.lt_trichotomy j k
        · exact absurd (passed j lower) (by simp [stands])
        · exact same.symm
        · exact absurd (before k higher) (by simp [here])
      exact same ▸ deleted
    · intro nobody
      exact absurd (nobody k inside) (by simp [here])
  · subst past
    have nobody : ¬ ∃ j < f.tries, m.stands spot (f.nth j) = true := fun ⟨j,less,stands⟩ => absurd (passed j less) (by simp [stands])
    constructor
    · intro ⟨_,still⟩
      refine Or.inr fun there => ?_
      have same := still passed
      rw [deleted] at same
      rw [← same] at there
      exact Finmap.notMem_erase_self there
    · intro free
      have absent := free.resolve_left nobody
      refine ⟨fun j less stands => absurd ⟨j,less,stands⟩ nobody,fun _ => ?_⟩
      rw [deleted]
      exact erase_absent absent

theorem stands_insert (m : MOMap) (mo : MOData) (id other : UInt32) :
    stands (m.insert id mo) spot other = if other = id then decide (mo.m_Spot = spot) else m.stands spot other := by
  unfold stands
  split
  · rename_i same
    rw [same,Finmap.lookup_insert]
    rfl
  · rename_i apart
    rw [Finmap.lookup_insert_of_ne _ apart]

-- Adding to the k-th place of a family and deleting on the same spot.
theorem restored_iff {k : Nat} {mo : MOData} (few : k < f.tries) (free : f.nth k ∉ m) (placed : mo.m_Spot = spot) :
    (DelObject (m.insert (f.nth k) mo) f.id spot).2 = m ↔ ∀ i < k, m.stands spot (f.nth i) = false := by
  have others {i : Nat} (less : i < f.tries) (apart : i ≠ k) :
      stands (m.insert (f.nth k) mo) spot (f.nth i) = m.stands spot (f.nth i) := by
    rw [stands_insert,if_neg fun same => apart (f.nth_inj (Nat.le_of_lt less) (Nat.le_of_lt few) same)]
  have own : stands (m.insert (f.nth k) mo) spot (f.nth k) = true := by
    rw [stands_insert,if_pos rfl]
    exact decide_eq_true placed
  obtain ⟨j,within,deleted,passed,stopped⟩ := del_spec (m.insert (f.nth k) mo) f spot
  have most : j ≤ k := by
    by_contra beyond
    exact absurd (passed k (Nat.not_le.mp beyond)) (by simp [own])
  rw [deleted]
  obtain lower | same := Nat.lt_or_eq_of_le most
  · have here := stopped (Nat.lt_trans lower few)
    rw [others (Nat.lt_trans lower few) (Nat.ne_of_lt lower)] at here
    refine iff_of_false ?_ fun nobody => absurd (nobody j lower) (by simp [here])
    intro restored
    have gone := Finmap.lookup_erase (f.nth j) (m.insert (f.nth k) mo)
    dsimp only at restored
    rw [restored] at gone
    simp [stands,gone] at here
  · subst same
    refine iff_of_true ?_ fun i less => ?_
    · refine Finmap.ext_lookup fun other => ?_
      by_cases same : other = f.nth j
      · rw [same,Finmap.lookup_erase,Finmap.lookup_eq_none.mpr free]
      · rw [Finmap.lookup_erase_ne same,Finmap.lookup_insert_of_ne _ same]
    · rw [← others (Nat.lt_trans less few) (Nat.ne_of_lt less)]
      exact passed i less

theorem restores_iff (m : MOMap) (f : Family) (spot : UInt16) :
    Restores m f spot ↔ ∀ k < f.tries, f.nth k ∉ m → (∀ i < k, f.nth i ∈ m) → ∀ i < k, m.stands spot (f.nth i) = false := by
  constructor
  · intro restores k few free taken
    obtain ⟨j,within,before,vacant,added⟩ := m.add_spec f ⟨f.id,"",spot,0,0,false⟩ true rfl
    have same : j = k := by
      obtain lower | same | higher := Nat.lt_trichotomy j k
      · exact absurd (taken j lower) (vacant (Nat.lt_trans lower few))
      · exact same
      · exact absurd (before k higher) free
    subst same
    rw [if_neg (by simp [Nat.ne_of_lt few])] at added
    have restored := restores ⟨f.id,"",spot,0,0,false⟩ true _ _ rfl rfl added
    exact (restored_iff few free rfl).mp restored
  · intro lower mo memory added next named placed ran
    obtain ⟨j,within,before,vacant,adds⟩ := m.add_spec f mo memory named
    rw [adds] at ran
    split at ran
    · cases ran
    · rename_i found
      cases ran
      have few : j < f.tries := Nat.lt_of_le_of_ne within (not_or.mp found).1
      exact (restored_iff few (vacant few) (by exact placed)).mpr (lower j few (vacant few) before)

theorem objects_iff (m : MOMap) (f : Family) (spot : UInt16) :
    Deletes m f spot ∧ Restores m f spot ↔
      ((∃ j < f.tries, m.stands spot (f.nth j) = true) ∨ f.nth f.tries ∉ m) ∧
      ∀ k < f.tries, f.nth k ∉ m → (∀ i < k, f.nth i ∈ m) → ∀ i < k, m.stands spot (f.nth i) = false :=
  and_congr (deletes_iff m f spot) (restores_iff m f spot)

-- 4257 on a spot where nobody is: object 4277 of another spot is deleted.
theorem stranger_deleted : ¬ ∀ (m : MOMap) (f : Family) (spot : UInt16), Deletes m f spot ∧ Restores m f spot := by
  intro every
  have still := (every (Finmap.singleton 4277 ⟨4277,"",7,0,0,false⟩) .of4257 9).1.2
  have nobody : ∀ j < Family.of4257.tries, stands (Finmap.singleton 4277 ⟨4277,"",7,0,0,false⟩) 9 (Family.of4257.nth j) = false := by
    decide +kernel
  have gone := congrArg (Finmap.lookup 4277) (still nobody)
  revert gone
  decide +kernel

end MOMap

end GameServer.GObject
