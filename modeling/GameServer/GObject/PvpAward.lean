import GameServer.GObject.PvpRank
import Mathlib.Algebra.Group.Nat.Defs
import Mathlib.Data.List.Range

namespace GameServer.GObject.Ranking

variable {ρ : Type _}

-- The thresholds for a place that does not wrap.
def awardTable (pos : Nat) : Option UInt8 :=
  if pos = 1 then some 1
  else if pos = 2 then some 2
  else if pos = 3 then some 3
  else if pos ≤ 10 then some 4
  else if pos ≤ 20 then some 5
  else if pos ≤ 50 then some 6
  else if pos ≤ 100 then some 7
  else if pos ≤ 200 then some 8
  else if pos ≤ 300 then some 9
  else if pos ≤ 1000 then some 10
  else if pos ≤ 3000 then some 11
  else none

-- Everybody's mail if the place p gets the level of p.
def awarded (level : Nat → Option UInt8) (first : Nat) (l : List (RCSort ρ)) : List (ρ × UInt8) :=
  (l.zipIdx first).filterMap fun place => (level place.2).map (place.1.player,·)

structure Lawful (l : List (RCSort ρ)) (mailed : List (ρ × UInt8)) : Prop where
  given : mailed = awarded awardTable 1 l
  rising : (mailed.map Prod.snd).Pairwise (· ≤ ·)
  once : ∀ lvl, 1 ≤ lvl → lvl ≤ 3 → (mailed.map Prod.snd).count lvl = if lvl.toNat ≤ l.length then 1 else 0
  beyond : mailed.map Prod.fst = (l.take 3000).map RCSort.player

theorem awarded_cons (level : Nat → Option UInt8) (first : Nat) (entry : RCSort ρ) (l : List (RCSort ρ)) :
    awarded level first (entry :: l) = ((level first).map (entry.player,·)).toList++awarded level (first+1) l := by
  unfold awarded
  rw [List.zipIdx_cons,List.filterMap_cons]
  dsimp only
  cases level first <;> rfl

theorem awarded_append (level : Nat → Option UInt8) (first : Nat) (front back : List (RCSort ρ)) :
    awarded level first (front++back) = awarded level first front++awarded level (first+front.length) back := by
  rw [awarded,List.zipIdx_append,List.filterMap_append]
  rfl

theorem awarded_congr {level : Nat → Option UInt8} (other : Nat → Option UInt8) {first : Nat} {l : List (RCSort ρ)}
    (same : ∀ pos, first ≤ pos → pos < first+l.length → level pos = other pos) : awarded level first l = awarded other first l := by
  refine List.filterMap_congr ?_
  intro (entry,pos) member
  obtain ⟨least,most,_⟩ := List.mem_zipIdx member
  dsimp only
  rw [same pos least most]

theorem levels_awarded (level : Nat → Option UInt8) (first : Nat) (l : List (RCSort ρ)) :
    (awarded level first l).map Prod.snd = (List.range' first l.length).filterMap level := by
  rw [awarded,List.map_filterMap,← List.zipIdx_map_snd first l,List.filterMap_map]
  refine List.filterMap_congr ?_
  intro (entry,pos) _
  dsimp only [Function.comp_apply]
  cases level pos <;> rfl

theorem awarded_all {level : Nat → Option UInt8} {first : Nat} {l : List (RCSort ρ)}
    (all : ∀ pos, first ≤ pos → pos < first+l.length → (level pos).isSome) : (awarded level first l).map Prod.fst = l.map RCSort.player := by
  induction l generalizing first with
  | nil => rfl
  | cons entry rest ih =>
      rw [List.length_cons] at all
      obtain ⟨lvl,here⟩ := Option.isSome_iff_exists.mp (all first (Nat.le_refl _) (by omega))
      rw [awarded_cons,here,List.map_append,ih fun pos least most => all pos (by omega) (by omega)]
      rfl

theorem awarded_none {level : Nat → Option UInt8} {first : Nat} (l : List (RCSort ρ)) (nobody : ∀ pos, first ≤ pos → level pos = none) :
    awarded level first l = [] := by
  induction l generalizing first with
  | nil => rfl
  | cons entry rest ih =>
      rw [awarded_cons,nobody first (Nat.le_refl _),ih fun pos least => nobody pos (Nat.le_of_succ_le least)]
      rfl

-- The place of the code is the one of the list modulo 256, and no such place
-- is without an award.
theorem mails_wrap (pos : UInt8) (first : Nat) (l : List (RCSort ρ)) (here : (pos+1).toNat = first%256) :
    mails pos l = awarded (fun pos => awardTable (pos%256)) first l := by
  induction l generalizing pos first with
  | nil => rfl
  | cons entry rest ih =>
      have next : (pos+1+1).toNat = (first+1)%256 := by
        rw [UInt8.toNat_add,here]
        exact (Nat.mod_add_mod ..)
      rw [mails,awarded_cons,← here,ih (pos+1) (first+1) next]
      rfl

def stepUp (pos : Nat) : List (Nat × UInt8) → Option UInt8
  | [] => none
  | (last,lvl) :: steps => if pos ≤ last then some lvl else stepUp pos steps

def awardSteps : List (Nat × UInt8) := [(1,1),(2,2),(3,3),(10,4),(20,5),(50,6),(100,7),(200,8),(300,9),(1000,10),(3000,11)]

theorem mem_of_stepUp {pos : Nat} {steps : List (Nat × UInt8)} (up : stepUp pos steps = some lvl) : ∃ last, (last,lvl) ∈ steps := by
  induction steps with
  | nil => cases up
  | cons step steps ih =>
      rw [stepUp] at up
      split at up
      · cases up
        exact ⟨_,List.mem_cons_self⟩
      · obtain ⟨last,member⟩ := ih up
        exact ⟨last,List.mem_cons_of_mem _ member⟩

theorem stepUp_mono {p q : Nat} (less : p ≤ q) {steps : List (Nat × UInt8)} (sorted : (steps.map Prod.snd).Pairwise (· ≤ ·))
    (low : stepUp p steps = some a) (high : stepUp q steps = some b) : a ≤ b := by
  induction steps with
  | nil => cases low
  | cons step steps ih =>
      obtain ⟨least,sorted⟩ := List.pairwise_cons.mp sorted
      rw [stepUp] at low high
      split at low
      · cases low
        split at high
        · cases high
          exact UInt8.le_refl _
        · obtain ⟨last,member⟩ := mem_of_stepUp high
          exact least _ (List.mem_map_of_mem member)
      · rename_i above
        rw [if_neg fun within => above (Nat.le_trans less within)] at high
        exact ih sorted low high

theorem table_steps {p : Nat} (some : 0 < p) : awardTable p = stepUp p awardSteps := by
  unfold awardTable
  simp only [awardSteps,stepUp]
  by_cases first : p = 1
  · rw [if_pos first,if_pos (Nat.le_of_eq first)]
  by_cases second : p = 2
  · rw [if_neg first,if_pos second,if_neg (by omega),if_pos (Nat.le_of_eq second)]
  by_cases third : p = 3
  · rw [if_neg first,if_neg second,if_pos third,if_neg (by omega),if_neg (by omega),if_pos (Nat.le_of_eq third)]
  rw [if_neg first,if_neg second,if_neg third,if_neg (show ¬ p ≤ 1 by omega),if_neg (show ¬ p ≤ 2 by omega),if_neg (show ¬ p ≤ 3 by omega)]

theorem table_mono {p q : Nat} (less : p ≤ q) (some : 0 < p) (low : awardTable p = .some a) (high : awardTable q = .some b) : a ≤ b := by
  rw [table_steps some] at low
  rw [table_steps (Nat.lt_of_lt_of_le some less)] at high
  exact stepUp_mono less (by decide) low high

theorem table_first {p : Nat} (some : 0 < p) {lvl : UInt8} (least : 1 ≤ lvl) (most : lvl ≤ 3) : awardTable p = .some lvl ↔ p = lvl.toNat := by
  have three : (3 : UInt8).toNat = 3 := rfl
  have few : lvl.toNat ≤ 3 := UInt8.le_iff_toNat_le.mp most
  have own : awardTable lvl.toNat = .some lvl := by
    rw [UInt8.le_iff_toNat_le] at least most
    obtain same | same | same : lvl = 1 ∨ lvl = 2 ∨ lvl = 3 := by
      have one : (1 : UInt8).toNat = 1 := rfl
      have two : (2 : UInt8).toNat = 2 := rfl
      simp only [← UInt8.toNat_inj]
      omega
    all_goals
      rw [same]
      rfl
  constructor
  · intro given
    by_cases small : p ≤ 3
    · obtain same | same | same : p = 1 ∨ p = 2 ∨ p = 3 := by omega
      all_goals
        subst same
        cases given
        rfl
    · have fourth := table_mono (Nat.not_le.mp small) (by decide) rfl given
      rw [UInt8.le_iff_toNat_le] at fourth
      have four : (4 : UInt8).toNat = 4 := rfl
      omega
  · intro here
    rw [here]
    exact own

theorem stepUp_some {pos : Nat} {steps : List (Nat × UInt8)} : (stepUp pos steps).isSome ↔ ∃ last ∈ steps.map Prod.fst, pos ≤ last := by
  induction steps with
  | nil => simp [stepUp]
  | cons step steps ih =>
      rw [stepUp]
      split
      · rename_i within
        simp [within]
      · rename_i above
        simp [ih,above]

theorem table_some {p : Nat} (some : 0 < p) : (awardTable p).isSome ↔ p ≤ 3000 := by
  rw [table_steps some,stepUp_some]
  constructor
  · intro ⟨last,member,within⟩
    have most : ∀ last ∈ awardSteps.map Prod.fst, last ≤ 3000 := by decide
    exact Nat.le_trans within (most last member)
  · intro few
    exact ⟨3000,by decide,few⟩

theorem awarded_lawful (l : List (RCSort ρ)) : Lawful l (awarded awardTable 1 l) := by
  refine ⟨rfl,?_,?_,?_⟩
  · rw [levels_awarded,List.pairwise_filterMap]
    refine (List.pairwise_lt_range' 1 (by decide)).imp_of_mem ?_
    intro p q member _ less a low b high
    exact table_mono (Nat.le_of_lt less) (List.mem_range'_1.mp member).1 low high
  · intro lvl least most
    rw [levels_awarded,List.count_filterMap]
    have place : (List.range' 1 l.length).countP (fun p => awardTable p == some lvl) = (List.range' 1 l.length).count lvl.toNat := by
      refine List.countP_congr ?_
      intro p member
      simpa using table_first (List.mem_range'_1.mp member).1 least most
    rw [place,List.Nodup.count (List.nodup_range')]
    refine if_congr ?_ rfl rfl
    rw [List.mem_range'_1]
    have one : 1 ≤ lvl.toNat := UInt8.le_iff_toNat_le.mp least
    omega
  · have front : (awarded awardTable 1 (l.take 3000)).map Prod.fst = (l.take 3000).map RCSort.player := by
      refine awarded_all ?_
      intro pos least most
      rw [List.length_take] at most
      exact (table_some least).mpr (by omega)
    have back : awarded awardTable (1+(l.take 3000).length) (l.drop 3000) = [] := by
      obtain short | long := Nat.le_total l.length 3000
      · rw [List.drop_eq_nil_of_le short]
        rfl
      · refine awarded_none _ ?_
        intro pos least
        rw [List.length_take,Nat.min_eq_left long] at least
        refine Option.not_isSome_iff_eq_none.mp fun some => ?_
        have few := (table_some (by omega)).mp some
        omega
    have both := awarded_append awardTable 1 (l.take 3000) (l.drop 3000)
    rw [List.take_append_drop,back,List.append_nil] at both
    rw [both,front]

theorem award_lawful_iff [DecidableEq ρ] (s : Ranking ρ) (players : Players ρ) :
    Lawful (s.InitRank players).pvpAwardSort (s.World_pvp_award players).1 ↔ (s.InitRank players).pvpAwardSort.length ≤ 255 := by
  have wraps : (s.World_pvp_award players).1 = _ := mails_wrap 0 1 (s.InitRank players).pvpAwardSort rfl
  rw [wraps]
  generalize (s.InitRank players).pvpAwardSort = l
  constructor
  · intro lawful
    by_contra long
    have inside : 255 < l.length := by omega
    have cut := List.take_append_drop 255 l
    rw [List.drop_eq_getElem_cons inside] at cut
    have few : (l.take 255).length = 255 := by
      rw [List.length_take]
      omega
    have given := lawful.given
    rw [← cut,awarded_append,awarded_append,awarded_congr awardTable,few,awarded_cons,awarded_cons] at given
    · have levels := List.append_cancel_left given
      have place := congrArg (fun mailed => (mailed.head?.map Prod.snd)) levels
      simp [awardTable] at place
    · intro pos _ last
      rw [Nat.mod_eq_of_lt (by omega)]
  · intro short
    rw [awarded_congr awardTable]
    · exact awarded_lawful l
    · intro pos _ last
      rw [Nat.mod_eq_of_lt (by omega)]

-- With 257 players there are two first places.
theorem second_first : ¬ ∀ (s : Ranking (Fin 257)) (players : Players (Fin 257)),
    Lawful (s.InitRank players).pvpAwardSort (s.World_pvp_award players).1 := by
  intro every
  have lawful := every ⟨fun _ => 1,(List.finRange 257).map (⟨·,1,0⟩),true⟩ ⟨List.finRange 257,List.mem_finRange,List.nodup_finRange 257⟩
  have single := lawful.once 1 (by decide) (by decide)
  revert single
  decide +kernel

end GameServer.GObject.Ranking
