import GameServer.Library.History
import GameServer.Library.Nodes
import Mathlib.Data.List.Perm.Basic

namespace GameServer.GObject
open History Nodes

def COUNTRY_MAX : UInt8 := 3

-- Of a spot only m_Players is kept; _playerList[country][status] is a multiset
-- ordered by PlayerLevelCmp.
structure Map (ρ : Type _) where
  m_Spots : UInt16 → Option (List ρ)
  _playerList : UInt8 → UInt8 → Container ρ

namespace Map
variable {ρ : Type _}

def getIndexbyPK (_ : ρ) : UInt8 := 1

-- `none`: an index behind the end of _playerList[COUNTRY_MAX][2].
def list (m : Map ρ) (country status : UInt8) : Option (Container ρ) :=
  if country < COUNTRY_MAX ∧ status < 2 then some (m._playerList country status) else none

def setList (m : Map ρ) (country status : UInt8) (l : Container ρ) : Map ρ :=
  {m with _playerList := fun c s => if c = country ∧ s = status then l else m._playerList c s}

def setSpot (m : Map ρ) (location : UInt16) (change : List ρ → List ρ) : Map ρ :=
  {m with m_Spots := fun spot => if spot = location then (m.m_Spots spot).map change else m.m_Spots spot}

theorem list_parts {m : Map ρ} (found : m.list country 1 = some l) : country < COUNTRY_MAX ∧ l = m._playerList country 1 := by
  unfold list at found
  split at found
  · rename_i within
    cases found
    exact ⟨within.1,rfl⟩
  · cases found

theorem list_some {m : Map ρ} (few : country < COUNTRY_MAX) : m.list country 1 = some (m._playerList country 1) :=
  if_pos ⟨few,by decide⟩

variable [DecidableEq ρ]

-- `place`: where the comparator leads the insertion. The levels it compares
-- change while their players are in the tree.
def PlayerEnter (m : Map ρ) (pl : ρ) (threadId : UInt8) (location : UInt16) (place : Nat) (notify : Bool) : Option (Map ρ) :=
  if notify then
    (m.list threadId (getIndexbyPK pl)).map fun l =>
      let l := if l.find pl = .past then l.insert place pl else l
      (m.setList threadId (getIndexbyPK pl) l).setSpot location (List.insert pl)
  else some (m.setSpot location (List.insert pl))

def PlayerLeave (m : Map ρ) (pl : ρ) (threadId : UInt8) (location : UInt16) (notify : Bool) : Option (Map ρ) :=
  if notify then
    (m.list threadId (getIndexbyPK pl)).bind fun l =>
      let left := if l.find pl = .past then some l else (l.erase (l.find pl)).map (·.2)
      left.map fun l => (m.setList threadId (getIndexbyPK pl) l).setSpot location (·.erase pl)
  else some (m.setSpot location (·.erase pl))

-- The guard erases: it compares the iterator with what erasing it gives.
def OnPlayerLevUp (m : Map ρ) (pl : ρ) (threadId : UInt8) (place : Nat) : Option (Map ρ) :=
  (m.list threadId (getIndexbyPK pl)).bind fun l =>
    let it := l.find pl
    (l.erase it).bind fun (next,l) => (l.differ it next).bind fun differ =>
      let left := if differ then (l.erase it).map (·.2) else some l
      left.map fun l => m.setList threadId (getIndexbyPK pl) (l.insert place pl)

end Map

-- A map with what it reads of its players. `entered` stands beside it for the
-- statements: who has entered and not left since.
structure City (ρ : Type _) where
  map : Map ρ
  threadId : ρ → UInt8
  location : ρ → UInt16
  entered : ρ → Bool

inductive Movement (ρ : Type _) where
  | PlayerEnter (pl : ρ) (place : Nat)
  | PlayerLeave (pl : ρ)
  | OnPlayerLevUp (pl : ρ) (place : Nat)
  | relocated (pl : ρ) (threadId : UInt8) (location : UInt16)

variable {ρ : Type _} [DecidableEq ρ]

-- All calls notify. Thread and location of a player change only while he is out.
def cityStep (s : City ρ) : Movement ρ → Option (Unit × City ρ)
  | .PlayerEnter pl place =>
    (s.map.PlayerEnter pl (s.threadId pl) (s.location pl) place true).map fun map =>
      ((),{s with map := map,entered := Function.update s.entered pl true})
  | .PlayerLeave pl =>
    (s.map.PlayerLeave pl (s.threadId pl) (s.location pl) true).map fun map =>
      ((),{s with map := map,entered := Function.update s.entered pl false})
  | .OnPlayerLevUp pl place => (s.map.OnPlayerLevUp pl (s.threadId pl) place).map fun map => ((),{s with map := map})
  | .relocated pl threadId location =>
    if s.entered pl then some ((),s)
    else some ((),{s with threadId := Function.update s.threadId pl threadId,location := Function.update s.location pl location})

def City.opening (spots : UInt16 → Option (List ρ)) (threadId : ρ → UInt8) (location : ρ → UInt16) : City ρ :=
  ⟨⟨spots,fun _ _ => Container.empty⟩,threadId,location,fun _ => false⟩

def City.copies (s : City ρ) (country status : UInt8) (pl : ρ) : Nat := (s.map._playerList country status).values.count pl

-- Every player is in _playerList once while entered, in the list of his thread,
-- and in no list otherwise.
def Belongs (s : City ρ) : Prop :=
  ∀ pl country status, s.copies country status pl = if s.entered pl ∧ country = s.threadId pl ∧ status = 1 then 1 else 0

def Movement.mover : Movement ρ → ρ
  | .PlayerEnter pl _ | .PlayerLeave pl | .OnPlayerLevUp pl _ | .relocated pl _ _ => pl

def Kept (s : City ρ) (movement : Movement ρ) (_ : Unit) (next : City ρ) : Prop :=
  Belongs next ∧ ∀ pl ≠ movement.mover, ∀ country status, next.copies country status pl = s.copies country status pl

def Steady (s : City ρ) : Movement ρ → Prop
  | .PlayerEnter pl _ | .PlayerLeave pl => s.threadId pl < COUNTRY_MAX
  | .OnPlayerLevUp _ _ => False
  | .relocated _ _ _ => True

namespace Map

-- Whatever the map holds, the call erases an iterator and then uses it.
theorem levUp_invalid (m : Map ρ) (pl : ρ) (threadId : UInt8) (place : Nat) : m.OnPlayerLevUp pl threadId place = none := by
  unfold OnPlayerLevUp
  cases m.list threadId (getIndexbyPK pl) with
  | none => rfl
  | some l =>
      by_cases present : pl ∈ l.values
      · obtain ⟨next,left,erased,_,gone⟩ := erase_find present
        simp [erased,differ_gone left gone]
      · simp [find_past.mpr present,Container.erase]

theorem enter_parts (m : Map ρ) (pl : ρ) (location : UInt16) (place : Nat) (few : threadId < COUNTRY_MAX) :
    ∃ l, m.PlayerEnter pl threadId location place true = some ((m.setList threadId 1 l).setSpot location (List.insert pl)) ∧
      ∀ q, l.values.count q = if q = pl then max 1 ((m._playerList threadId 1).values.count q) else (m._playerList threadId 1).values.count q := by
  refine ⟨_,by simp [PlayerEnter,getIndexbyPK,list_some few]; rfl,?_⟩
  intro q
  by_cases absent : (m._playerList threadId 1).find pl = .past
  · have none := List.count_eq_zero.mpr (find_past.mp absent)
    rw [if_pos absent,(values_insert _ _ _).count_eq q,List.count_cons]
    by_cases self : q = pl <;> simp [self,none,Ne.symm]
  · rw [if_neg absent]
    split
    · rename_i self
      subst self
      have some := List.count_pos_iff.mpr (not_not.mp (mt find_past.mpr absent))
      omega
    · rfl

theorem leave_parts (m : Map ρ) (pl : ρ) (location : UInt16) (few : threadId < COUNTRY_MAX) :
    ∃ l, m.PlayerLeave pl threadId location true = some ((m.setList threadId 1 l).setSpot location (·.erase pl)) ∧
      ∀ q, l.values.count q = (m._playerList threadId 1).values.count q - if q = pl then 1 else 0 := by
  by_cases absent : (m._playerList threadId 1).find pl = .past
  · refine ⟨_,by simp [PlayerLeave,getIndexbyPK,list_some few,absent]; rfl,?_⟩
    intro q
    split
    · rename_i self
      subst self
      simp [List.count_eq_zero.mpr (find_past.mp absent)]
    · rfl
  · obtain ⟨next,left,erased,same,_⟩ := erase_find (not_not.mp (mt find_past.mpr absent))
    refine ⟨left,by simp [PlayerLeave,getIndexbyPK,list_some few,absent,erased],?_⟩
    intro q
    rw [same.count_eq q,List.count_cons]
    by_cases self : q = pl <;> simp [self,Ne.symm]

theorem enter_few {m : Map ρ} (moved : m.PlayerEnter pl threadId location place true = some next) : threadId < COUNTRY_MAX := by
  obtain ⟨l,found,_⟩ := Option.map_eq_some_iff.mp (by simpa [PlayerEnter] using moved)
  exact (list_parts found).1

theorem leave_few {m : Map ρ} (moved : m.PlayerLeave pl threadId location true = some next) : threadId < COUNTRY_MAX := by
  obtain ⟨l,found,_⟩ := Option.bind_eq_some_iff.mp (by simpa [PlayerLeave] using moved)
  exact (list_parts found).1

end Map

-- The state after a player came or left with `l` as the list of his thread.
def City.after (s : City ρ) (pl : ρ) (inside : Bool) (l : Container ρ) (change : List ρ → List ρ) : City ρ :=
  {s with map := (s.map.setList (s.threadId pl) 1 l).setSpot (s.location pl) change,entered := Function.update s.entered pl inside}

theorem after_belongs {s : City ρ} (belongs : Belongs s) {l : Container ρ} (change : List ρ → List ρ)
    (own : l.values.count pl = if inside then 1 else 0) (others : ∀ q ≠ pl, l.values.count q = s.copies (s.threadId pl) 1 q) :
    Belongs (s.after pl inside l change) ∧
      ∀ q ≠ pl, ∀ country status, (s.after pl inside l change).copies country status q = s.copies country status q := by
  have copies : ∀ country status q, (s.after pl inside l change).copies country status q =
      if country = s.threadId pl ∧ status = 1 then l.values.count q else s.copies country status q := by
    intro country status q
    simp only [City.copies,City.after,Map.setSpot,Map.setList]
    split <;> rfl
  have rest : ∀ q ≠ pl, ∀ country status, (s.after pl inside l change).copies country status q = s.copies country status q := by
    intro q other country status
    rw [copies]
    split
    · rename_i here
      rw [others q other,here.1,here.2]
    · rfl
  refine ⟨?_,rest⟩
  intro q country status
  by_cases self : q = pl
  · subst self
    rw [copies]
    by_cases here : country = s.threadId q ∧ status = 1
    · simp [here,own,City.after]
    · rw [if_neg here,belongs q country status,if_neg (fun held => here held.2),if_neg (fun held => here held.2)]
  · rw [rest q self,belongs q country status]
    simp [City.after,Function.update_of_ne self]

theorem belongs_opening (spots : UInt16 → Option (List ρ)) (threadId : ρ → UInt8) (location : ρ → UInt16) :
    Belongs (City.opening spots threadId location) := by
  intro pl country status
  simp [City.opening,City.copies,Container.empty,Container.values]

theorem kept_step {s : City ρ} {movement : Movement ρ} (belongs : Belongs s) (steady : Steady s movement) :
    ∃ answer next, cityStep s movement = some (answer,next) ∧ Kept s movement answer next ∧ Belongs next := by
  cases movement with
  | PlayerEnter pl place =>
      obtain ⟨l,entered,counts⟩ := s.map.enter_parts pl (s.location pl) place steady
      have own : s.copies (s.threadId pl) 1 pl ≤ 1 := by
        rw [belongs pl (s.threadId pl) 1]
        split <;> decide
      have kept : Kept s (.PlayerEnter pl place) () (s.after pl true l (List.insert pl)) := by
        apply after_belongs belongs
        · simpa [counts pl,City.copies] using Nat.max_eq_left own
        · intro q other
          simp [counts q,other,City.copies]
      exact ⟨(),_,by rw [cityStep,entered]; rfl,kept,kept.1⟩
  | PlayerLeave pl =>
      obtain ⟨l,left,counts⟩ := s.map.leave_parts pl (s.location pl) steady
      have own : s.copies (s.threadId pl) 1 pl ≤ 1 := by
        rw [belongs pl (s.threadId pl) 1]
        split <;> decide
      have kept : Kept s (.PlayerLeave pl) () (s.after pl false l (·.erase pl)) := by
        apply after_belongs belongs
        · simpa [counts pl,City.copies,Nat.sub_eq_zero_iff_le] using own
        · intro q other
          simp [counts q,other,City.copies]
      exact ⟨(),_,by rw [cityStep,left]; rfl,kept,kept.1⟩
  | OnPlayerLevUp pl place => exact absurd steady id
  | relocated pl threadId location =>
      simp only [cityStep]
      split
      · exact ⟨(),s,rfl,⟨belongs,fun _ _ _ _ => rfl⟩,belongs⟩
      · rename_i out
        have same : Belongs {s with threadId := Function.update s.threadId pl threadId,location := Function.update s.location pl location} := by
          intro q country status
          refine (belongs q country status).trans ?_
          by_cases self : q = pl
          · subst self
            simp [out]
          · simp [Function.update_of_ne self]
        exact ⟨(),_,rfl,⟨same,fun _ _ _ _ => rfl⟩,same⟩

theorem steady_step {s next : City ρ} {movement : Movement ρ} (moved : cityStep s movement = some (answer,next)) : Steady s movement := by
  cases movement with
  | PlayerEnter pl place =>
      obtain ⟨map,entered,_⟩ := Option.map_eq_some_iff.mp moved
      exact Map.enter_few entered
  | PlayerLeave pl =>
      obtain ⟨map,left,_⟩ := Option.map_eq_some_iff.mp moved
      exact Map.leave_few left
  | OnPlayerLevUp pl place => simp [cityStep,Map.levUp_invalid] at moved
  | relocated pl threadId location => trivial

theorem players_kept_iff (spots : UInt16 → Option (List ρ)) (threadId : ρ → UInt8) (location : ρ → UInt16)
    (history : List (Movement ρ)) :
    Along cityStep Kept (City.opening spots threadId location) history ↔
      Guarded cityStep Steady (City.opening spots threadId location) history := by
  apply along_iff_guarded (belongs_opening spots threadId location)
  · intro s movement belongs steady
    exact kept_step belongs steady
  · intro s movement answer next _ moved _
    exact steady_step moved

-- The player enters and gains a level.
theorem level_gained :
    ¬ Along cityStep Kept (City.opening (fun _ => none) (fun _ => 0) (fun _ => 0)) [Movement.PlayerEnter 7 0,Movement.OnPlayerLevUp 7 0] := by
  intro along
  obtain ⟨_,_,_,_,_,_,gained,_⟩ := along
  simp [cityStep,Map.levUp_invalid] at gained

end GameServer.GObject
