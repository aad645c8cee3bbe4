import GameServer.Library.Ladder

namespace GameServer.Scripts.DayTask
open Ladder

-- The bounds and the faces for a colour: white, green, blue and purple.
def Task_Quality_Bound : Nat → List Nat
  | 1 => [1]
  | 2 => [1,1,1,1,1]
  | 3 => [1,1,1,1,1,2,2,2,2,2,3,3,3,3,3]
  | 4 => [1,1,1,1,2,2,2,5,5,5,5,5,5,5,10,10,10,10,15,20,20,20,15,10,10,1,1,1,1,1]
  | _ => []

def Task_Quality_Faces : Nat → List Nat
  | 1 => [1]
  | 2 => [5,4,3,2,1]
  | 3 => [30,29,28,27,26,25,23,21,19,17,15,12,9,6,3]
  | 4 => [200,199,198,197,196,194,192,190,185,180,175,170,165,160,155,145,135,125,115,100,80,60,40,25,15,5,4,3,2,1]
  | _ => []

-- math.random(1, faces), from a number for the draw
def random (faces draw : Nat) : Nat := 1 + draw % faces

-- `none`: the script raises an error, as for a colour without tables.
def GetRandLoopTaskManualQuality (preColor : Nat) (useGold : Bool) (oldCount draw : Nat) : Option Nat :=
  if oldCount = 0 ∧ preColor = 4 ∧ ¬useGold then some preColor
  else if preColor = 5 then some 5
  else
    let bound := Task_Quality_Bound preColor
    let faces := Task_Quality_Faces preColor
    let oldCount := min (oldCount+1) bound.length
    match faces[oldCount-1]?,bound[oldCount-1]? with
    | some most,some limit => if random most draw ≤ limit then some (preColor+1) else some preColor
    | _,_ => none

structure Flush where
  flush_color : Nat
  total_count : Nat
  flush_count : Nat

-- The loop from some result on, and beside its result the flushes that it makes,
-- each by the colour before and after it.
def flushes (color count : Nat) (draws : Nat → Nat) (result : Flush) : Option (Flush × List Try) :=
  if result.total_count < count then
    match GetRandLoopTaskManualQuality result.flush_color true result.flush_count (draws result.total_count) with
    | none => none
    | some newColor =>
      let made := (result.flush_color,newColor)
      let total := result.total_count+1
      if newColor ≠ result.flush_color then
        if newColor ≥ color then some (⟨newColor,total,0⟩,[made])
        else (flushes color count draws ⟨newColor,total,0⟩).map fun more => (more.1,made :: more.2)
      else (flushes color count draws ⟨result.flush_color,total,result.flush_count+1⟩).map fun more => (more.1,made :: more.2)
  else some (result,[])
termination_by count - result.total_count

def FlushLoopTask (preColor color count oldCount : Nat) (draws : Nat → Nat) : Option Flush :=
  (flushes color count draws ⟨preColor,0,oldCount⟩).map Prod.fst

def limit (preColor : Nat) : Nat := (Task_Quality_Bound preColor).length

-- Two tables that go together and end with a certain success.
structure Tables (bound faces : List Nat) : Prop where
  together : faces.length = bound.length
  filled : 0 < bound.length
  faced : ∀ most ∈ faces, 0 < most
  certain : faces[bound.length-1]?.getD 0 ≤ bound[bound.length-1]?.getD 0

theorem tables {preColor : Nat} (first : 1 ≤ preColor) (last : preColor ≤ 4) :
    Tables (Task_Quality_Bound preColor) (Task_Quality_Faces preColor) := by
  obtain rfl | rfl | rfl | rfl : preColor = 1 ∨ preColor = 2 ∨ preColor = 3 ∨ preColor = 4 := by omega
  all_goals exact ⟨by decide,by decide,by decide,by decide⟩

theorem limit_pos {preColor : Nat} (first : 1 ≤ preColor) (last : preColor ≤ 4) : 0 < limit preColor := (tables first last).filled

-- What one flush for gold does below orange: the next colour, or the same one
-- before its table ends.
theorem flush_below {preColor : Nat} (first : 1 ≤ preColor) (last : preColor ≤ 4) (oldCount draw : Nat) :
    GetRandLoopTaskManualQuality preColor true oldCount draw = some (preColor+1) ∨
      GetRandLoopTaskManualQuality preColor true oldCount draw = some preColor ∧ oldCount+1 < limit preColor := by
  obtain ⟨together,filled,faced,certain⟩ := tables first last
  rw [GetRandLoopTaskManualQuality,if_neg (by simp),if_neg (by omega)]
  dsimp only
  have inside : min (oldCount+1) (Task_Quality_Bound preColor).length-1 < (Task_Quality_Bound preColor).length := by omega
  have inside' : min (oldCount+1) (Task_Quality_Bound preColor).length-1 < (Task_Quality_Faces preColor).length := by
    rw [together]
    exact inside
  rw [List.getElem?_eq_getElem inside,List.getElem?_eq_getElem inside']
  dsimp only
  split
  · exact .inl rfl
  · rename_i missed
    refine .inr ⟨rfl,Nat.lt_of_not_le fun ended => missed ?_⟩
    have place : min (oldCount+1) (Task_Quality_Bound preColor).length-1 = (Task_Quality_Bound preColor).length-1 := by
      rw [Nat.min_eq_right (show (Task_Quality_Bound preColor).length ≤ oldCount+1 from ended)]
    rw [←place,List.getElem?_eq_getElem inside,List.getElem?_eq_getElem inside',Option.getD_some,Option.getD_some] at certain
    have thrown := Nat.mod_lt draw (faced _ (List.getElem_mem inside'))
    exact Nat.le_trans (by rw [random]; omega) certain

theorem flush_orange (oldCount draw : Nat) : GetRandLoopTaskManualQuality 5 true oldCount draw = some 5 := by
  rw [GetRandLoopTaskManualQuality,if_neg (by simp),if_pos rfl]

-- What the loop makes of a state below the target.
structure Ran (color count : Nat) (s result : Flush) (tries : List Try) : Prop where
  counted : result.total_count = s.total_count + tries.length
  paid : result.total_count ≤ count
  climbing : Climbs s.flush_color tries result.flush_color
  stopped : ∀ t ∈ tries, t.1 < color
  failing : result.flush_count = misses tries s.flush_count
  reached : owed limit s.flush_color s.flush_count color ≤ count - s.total_count → color ≤ result.flush_color

section steps
variable {color count : Nat} {s result : Flush} {tries : List Try}

theorem ran_out (out : s.total_count = count) : Ran color count s s [] where
  counted := rfl
  paid := Nat.le_of_eq out
  climbing := rfl
  stopped := fun _ member => absurd member List.not_mem_nil
  failing := misses_nil.symm
  reached := fun enough => by
    have positive : 0 < owed limit s.flush_color s.flush_count color := owed_pos
    omega

theorem ran_reached (more : s.total_count < count) (below : s.flush_color < color) (there : color ≤ s.flush_color+1) :
    Ran color count s ⟨s.flush_color+1,s.total_count+1,0⟩ [(s.flush_color,s.flush_color+1)] where
  counted := rfl
  paid := more
  climbing := ⟨rfl,.inr rfl,rfl⟩
  stopped := fun t member => by rwa [List.mem_singleton.mp member]
  failing := (misses_rise.trans misses_nil).symm
  reached := fun _ => there

theorem ran_rise (below : s.flush_color+1 < color) (positive : 0 < limit (s.flush_color+1))
    (ran : Ran color count ⟨s.flush_color+1,s.total_count+1,0⟩ result tries) :
    Ran color count s result ((s.flush_color,s.flush_color+1) :: tries) where
  counted := by rw [ran.counted,List.length_cons]; dsimp only; omega
  paid := ran.paid
  climbing := ⟨rfl,.inr rfl,ran.climbing⟩
  stopped := List.forall_mem_cons.mpr ⟨Nat.lt_of_succ_lt below,ran.stopped⟩
  failing := ran.failing.trans misses_rise.symm
  reached := fun enough => ran.reached (by
    have fewer : owed limit (s.flush_color+1) 0 color + 1 ≤ owed limit s.flush_color s.flush_count color := owed_rise below positive
    dsimp only
    omega)

theorem ran_miss (below : s.flush_color < color) (patient : s.flush_count+1 < limit s.flush_color)
    (ran : Ran color count ⟨s.flush_color,s.total_count+1,s.flush_count+1⟩ result tries) :
    Ran color count s result ((s.flush_color,s.flush_color) :: tries) where
  counted := by rw [ran.counted,List.length_cons]; dsimp only; omega
  paid := ran.paid
  climbing := ⟨rfl,.inl rfl,ran.climbing⟩
  stopped := List.forall_mem_cons.mpr ⟨below,ran.stopped⟩
  failing := ran.failing.trans misses_stay.symm
  reached := fun enough => ran.reached (by
    have fewer : owed limit s.flush_color (s.flush_count+1) color + 1 ≤ owed limit s.flush_color s.flush_count color := owed_miss patient
    dsimp only
    omega)

end steps

-- The loop from every state below the target, by the flushes left.
theorem flushes_ran {color count : Nat} (draws : Nat → Nat) (orange : color ≤ 5) (s : Flush) (first : 1 ≤ s.flush_color)
    (below : s.flush_color < color) (paid : s.total_count ≤ count) :
    ∃ result tries, flushes color count draws s = some (result,tries) ∧ Ran color count s result tries := by
  obtain ⟨left,leftAt⟩ : ∃ left, left = count - s.total_count := ⟨_,rfl⟩
  induction left generalizing s with
  | zero =>
      rw [flushes,if_neg (by omega)]
      exact ⟨s,[],rfl,ran_out (by omega)⟩
  | succ left ih =>
      have more : s.total_count < count := by omega
      have last : s.flush_color ≤ 4 := by omega
      rw [flushes,if_pos more]
      rcases flush_below first last s.flush_count (draws s.total_count) with rose | ⟨missed,patient⟩
      · rw [rose]
        dsimp only
        rw [if_pos (Nat.succ_ne_self _)]
        by_cases there : s.flush_color+1 ≥ color
        · rw [if_pos there]
          exact ⟨_,_,rfl,ran_reached more below there⟩
        · have next : s.flush_color+1 < color := Nat.lt_of_not_le there
          obtain ⟨result,tries,got,ran⟩ := ih ⟨s.flush_color+1,s.total_count+1,0⟩ (Nat.le_add_left ..) next more (by dsimp only; omega)
          rw [if_neg there,got]
          exact ⟨result,_,rfl,ran_rise next (limit_pos (Nat.le_add_left ..) (by omega)) ran⟩
      · obtain ⟨result,tries,got,ran⟩ := ih ⟨s.flush_color,s.total_count+1,s.flush_count+1⟩ first below more (by dsimp only; omega)
        rw [missed]
        dsimp only
        rw [if_neg (fun risen => risen rfl),got]
        exact ⟨result,_,rfl,ran_miss below patient ran⟩

-- With a flush to pay the loop makes one, whatever the colour.
theorem flushes_made {color count : Nat} {draws : Nat → Nat} {s result : Flush} {tries : List Try} (more : s.total_count < count)
    (got : flushes color count draws s = some (result,tries)) : ∃ t ∈ tries, t.1 = s.flush_color := by
  rw [flushes,if_pos more] at got
  split at got
  · cases got
  · dsimp only at got
    split at got
    · split at got
      · cases got
        exact ⟨_,List.mem_singleton_self _,rfl⟩
      · obtain ⟨_,_,equal⟩ := Option.map_eq_some_iff.mp got
        cases equal
        exact ⟨_,List.mem_cons_self,rfl⟩
    · obtain ⟨_,_,equal⟩ := Option.map_eq_some_iff.mp got
      cases equal
      exact ⟨_,List.mem_cons_self,rfl⟩

-- What a player asks for.
structure Flushing where
  preColor : Nat
  color : Nat
  count : Nat
  oldCount : Nat
  start : 1 ≤ preColor ∧ preColor ≤ 5
  aim : 2 ≤ color ∧ color ≤ 5

structure Flushed (f : Flushing) (result : Flush) (tries : List Try) : Prop where
  counted : result.total_count = tries.length
  paid : result.total_count ≤ f.count
  climbing : Climbs f.preColor tries result.flush_color
  stopped : ∀ t ∈ tries, t.1 < f.color
  idle : f.color ≤ f.preColor → result.total_count = 0
  failing : result.flush_count = misses tries f.oldCount
  reached : rungs limit f.preColor f.color ≤ f.count → f.color ≤ result.flush_color

-- The call returns, and its flushes are as they should be.
def Lawful (f : Flushing) (draws : Nat → Nat) : Prop :=
  ∃ result tries, FlushLoopTask f.preColor f.color f.count f.oldCount draws = some result ∧
    flushes f.color f.count draws ⟨f.preColor,0,f.oldCount⟩ = some (result,tries) ∧ Flushed f result tries

theorem flush_iff (f : Flushing) (draws : Nat → Nat) : Lawful f draws ↔ f.count = 0 ∨ f.preColor < f.color := by
  constructor
  · rintro ⟨result,tries,_,got,flushed⟩
    by_contra neither
    obtain ⟨some_,there⟩ := not_or.mp neither
    obtain ⟨t,member,colour⟩ := flushes_made (Nat.pos_of_ne_zero some_) got
    have before := flushed.stopped t member
    rw [colour] at before
    exact there before
  · intro either
    by_cases below : f.preColor < f.color
    · obtain ⟨result,tries,got,ran⟩ := flushes_ran draws f.aim.2 ⟨f.preColor,0,f.oldCount⟩ f.start.1 below (Nat.zero_le f.count)
      refine ⟨result,tries,by rw [FlushLoopTask,got]; rfl,got,?_⟩
      exact {
        counted := ran.counted.trans (Nat.zero_add _)
        paid := ran.paid
        climbing := ran.climbing
        stopped := ran.stopped
        idle := fun there => absurd below (Nat.not_lt.mpr there)
        failing := ran.failing
        reached := fun enough => ran.reached
          (Nat.le_trans (owed_start below (limit_pos f.start.1 (Nat.le_of_lt_succ (Nat.lt_of_lt_of_le below f.aim.2)))) enough) }
    · have none : f.count = 0 := either.resolve_right below
      have got : flushes f.color f.count draws ⟨f.preColor,0,f.oldCount⟩ = some (⟨f.preColor,0,f.oldCount⟩,[]) := by
        rw [flushes,if_neg (by rw [none]; exact Nat.not_lt_zero _)]
      refine ⟨_,[],by rw [FlushLoopTask,got]; rfl,got,?_⟩
      exact {
        counted := rfl
        paid := Nat.zero_le _
        climbing := rfl
        stopped := fun _ member => absurd member List.not_mem_nil
        idle := fun _ => rfl
        failing := misses_nil.symm
        reached := fun _ => Nat.le_of_not_lt below }

-- An orange task, one flush paid for orange.
theorem orange_charged : ¬Lawful ⟨5,5,1,0,by decide,by decide⟩ fun _ => 0 := by
  rintro ⟨result,tries,got,_,flushed⟩
  have idle : result.total_count = 0 := flushed.idle (Nat.le_refl 5)
  rw [FlushLoopTask,flushes,if_pos (Nat.one_pos),flush_orange] at got
  dsimp only at got
  rw [if_neg (fun risen => risen rfl),flushes,if_neg (Nat.lt_irrefl 1)] at got
  cases got
  cases idle

end GameServer.Scripts.DayTask
