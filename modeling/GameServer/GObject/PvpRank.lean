import GameServer.Library.History
import Mathlib.Data.List.Nodup
import Mathlib.Data.List.TakeWhile

namespace GameServer.GObject
open History

structure RCSort (ρ : Type _) where
  player : ρ
  total : UInt32
  time : UInt32
  deriving DecidableEq

variable {ρ : Type _}

def lt_rcsort (a b : RCSort ρ) : Bool := a.total < b.total && a.time < b.time

-- globalPlayers, in the order in which enumerate goes through it.
structure Players (ρ : Type _) where
  order : List ρ
  all : ∀ pl, pl ∈ order
  once : order.Nodup

-- pvpAwardSort in iteration order, and VAR_PVP_GOAL of every player.
structure Ranking (ρ : Type _) where
  goal : ρ → UInt32
  pvpAwardSort : List (RCSort ρ)
  init : Bool

namespace Ranking

-- multiset::insert: behind everything the new entry is not smaller than.
def insert (entry : RCSort ρ) (l : List (RCSort ρ)) : List (RCSort ρ) :=
  l.takeWhile (fun other => !lt_rcsort entry other) ++ entry :: l.dropWhile fun other => !lt_rcsort entry other

-- `time` keeps the 0 of the constructor.
def entry (s : Ranking ρ) (pl : ρ) : RCSort ρ := ⟨pl,s.goal pl,0⟩

-- player_enum_rc
def enumerate (s : Ranking ρ) (pl : ρ) : Ranking ρ :=
  if s.goal pl ≠ 0 then {s with pvpAwardSort := insert (s.entry pl) s.pvpAwardSort} else s

def InitRank (s : Ranking ρ) (players : Players ρ) : Ranking ρ :=
  if s.init then s else {players.order.foldl enumerate s with init := true}

-- Entries without a time are equivalent, so a new one goes to the end.
theorem lt_timeless {a b : RCSort ρ} (timeless : b.time = 0) : lt_rcsort a b = false := by
  simp [lt_rcsort,timeless]

theorem insert_last (entry : RCSort ρ) {l : List (RCSort ρ)} (timeless : ∀ other ∈ l, other.time = 0) :
    insert entry l = l ++ [entry] := by
  have never : ∀ other ∈ l, (!lt_rcsort entry other) = true := by
    intro other member
    simp [lt_timeless (timeless other member)]
  rw [insert,List.takeWhile_eq_self_iff.mpr never,List.dropWhile_eq_nil_iff.mpr never]

theorem fold_enumerate (s : Ranking ρ) (order : List ρ) (timeless : ∀ entry ∈ s.pvpAwardSort, entry.time = 0) :
    order.foldl enumerate s = {s with pvpAwardSort := s.pvpAwardSort ++ (order.filter fun pl => s.goal pl ≠ 0).map s.entry} := by
  induction order generalizing s with
  | nil => simp
  | cons pl rest ih =>
      by_cases goal : s.goal pl = 0
      · simp [enumerate,goal,ih s timeless]
      · rw [List.foldl_cons,enumerate,if_pos goal,insert_last _ timeless,ih]
        · simp [goal,entry]
        · intro entry member
          rcases List.mem_append.mp member with old | new
          · exact timeless entry old
          · simp only [List.mem_singleton] at new
            subst new
            rfl

theorem init_eq {s : Ranking ρ} (players : Players ρ) (first : s.init = false) (timeless : ∀ entry ∈ s.pvpAwardSort, entry.time = 0) :
    s.InitRank players = ⟨s.goal,s.pvpAwardSort ++ (players.order.filter fun pl => s.goal pl ≠ 0).map s.entry,true⟩ := by
  simp [InitRank,first,fold_enumerate s players.order timeless]

theorem listed_enumerated (s : Ranking ρ) (order : List ρ) : (order.map s.entry).map RCSort.player = order := by
  simp [entry,Function.comp_def]

def listed (s : Ranking ρ) : List ρ := s.pvpAwardSort.map RCSort.player

theorem init_listed {s : Ranking ρ} (players : Players ρ) (first : s.init = false) (timeless : ∀ entry ∈ s.pvpAwardSort, entry.time = 0) :
    (s.InitRank players).listed = s.listed ++ players.order.filter fun pl => s.goal pl ≠ 0 := by
  simp only [init_eq players first timeless,listed,List.map_append,listed_enumerated]

variable [DecidableEq ρ]

def erase (pl : ρ) (l : List (RCSort ρ)) : List (RCSort ρ) := l.eraseP fun entry => decide (entry.player = pl)

def UpdatePvpRank (s : Ranking ρ) (pl : ρ) (goal : UInt32) : Ranking ρ :=
  let s := {s with goal := Function.update s.goal pl (s.goal pl+goal)}
  {s with pvpAwardSort := insert (s.entry pl) (erase pl s.pvpAwardSort)}

-- A place is a UInt8, so the 256th counts as 0; `none` is `continue`.
def awardLvl (pos : UInt8) : Option UInt8 :=
  let pos := pos.toNat
  if pos = 1 then some 1
  else if pos = 2 then some 2
  else if pos = 3 then some 3
  else if pos ≤ 10 then some 4
  else if pos ≤ 20 then some 5
  else if pos ≤ 50 then some 6
  else if pos ≤ 100 then some 7
  else if pos ≤ 200 then some 8
  else if pos ≤ 300 then some 9
  else if pos ≤ 1000 then some 10
  else if pos ≤ 3000 then some 11
  else none

def mails : UInt8 → List (RCSort ρ) → List (ρ × UInt8)
  | _,[] => []
  | pos,entry :: rest => ((awardLvl (pos+1)).map (entry.player,·)).toList ++ mails (pos+1) rest

def World_pvp_award (s : Ranking ρ) (players : Players ρ) : List (ρ × UInt8) × Ranking ρ :=
  let s := s.InitRank players
  (mails 0 s.pvpAwardSort,
    ⟨fun pl => if pl ∈ s.pvpAwardSort.map RCSort.player then 0 else s.goal pl,[],s.init⟩)

def opening (goal : ρ → UInt32) : Ranking ρ := ⟨goal,[],false⟩

end Ranking

variable [DecidableEq ρ]

inductive Contest (ρ : Type _) where
  | InitRank
  | UpdatePvpRank (pl : ρ) (goal : UInt32)
  | World_pvp_award

def contestStep (players : Players ρ) (s : Ranking ρ) : Contest ρ → Option (List (ρ × UInt8) × Ranking ρ)
  | .InitRank => some ([],s.InitRank players)
  | .UpdatePvpRank pl goal => some ([],s.UpdatePvpRank pl goal)
  | .World_pvp_award => some (s.World_pvp_award players)

def Descending (goal : ρ → UInt32) (l : List ρ) : Prop := l.Pairwise fun a b => goal b ≤ goal a

-- Every player with a goal is in the list once, and it goes down by the goal.
def Ranked (s : Ranking ρ) : Prop := (∀ pl, s.goal pl ≠ 0 → s.listed.count pl = 1) ∧ Descending s.goal s.listed

-- The first InitRank finds nobody with a goal in the list and the players in
-- descending order. A new total exceeds no goal in the list, and nobody else
-- with a goal is missing there.
def Ordered (players : Players ρ) (s : Ranking ρ) : Contest ρ → Prop
  | .InitRank => s.init = true ∨
      (∀ pl ∈ s.listed, s.goal pl = 0) ∧ Descending s.goal (s.listed ++ players.order.filter fun pl => s.goal pl ≠ 0)
  | .UpdatePvpRank pl goal => ∀ other ≠ pl, (s.goal other ≠ 0 → other ∈ s.listed) ∧
      (other ∈ s.listed → s.goal pl+goal ≤ s.goal other)
  | .World_pvp_award => True

structure Tidy (s : Ranking ρ) : Prop where
  timeless : ∀ entry ∈ s.pvpAwardSort, entry.time = 0
  once : s.listed.Nodup
  ready : Ranked s ∨ s.pvpAwardSort = [] ∧ s.init = false

namespace Ranking

theorem erase_listed (pl : ρ) (l : List (RCSort ρ)) : (erase pl l).map RCSort.player = (l.map RCSort.player).erase pl := by
  induction l with
  | nil => rfl
  | cons entry rest ih =>
      unfold erase at ih ⊢
      by_cases here : entry.player = pl
      · simp [here]
      · simp [here,ih]

theorem update_eq {s : Ranking ρ} (pl : ρ) (goal : UInt32) (timeless : ∀ entry ∈ s.pvpAwardSort, entry.time = 0) :
    (s.UpdatePvpRank pl goal).pvpAwardSort = erase pl s.pvpAwardSort ++ [⟨pl,s.goal pl+goal,0⟩] := by
  simp only [UpdatePvpRank,entry,Function.update_self]
  apply insert_last
  intro other member
  exact timeless other (List.mem_of_mem_eraseP member)

theorem update_listed {s : Ranking ρ} (pl : ρ) (goal : UInt32) (timeless : ∀ entry ∈ s.pvpAwardSort, entry.time = 0) :
    (s.UpdatePvpRank pl goal).listed = s.listed.erase pl ++ [pl] := by
  simp [listed,update_eq pl goal timeless,erase_listed]

-- After InitRank nobody with a goal is missing.
theorem init_complete {s : Ranking ρ} (players : Players ρ) (tidy : Tidy s) (goal : s.goal pl ≠ 0) :
    pl ∈ (s.InitRank players).listed := by
  by_cases done : s.init = true
  · rcases tidy.ready with ranked | fresh
    · have once := ranked.1 pl goal
      rw [InitRank,if_pos done]
      exact List.count_pos_iff.mp (by omega)
    · exact absurd (done.symm.trans fresh.2) (by decide)
  · rw [init_listed players (Bool.not_eq_true _ ▸ done) tidy.timeless]
    apply List.mem_append_right
    simp [players.all pl,goal]

theorem descending_of_tidy {s : Ranking ρ} (tidy : Tidy s) : Descending s.goal s.listed := by
  rcases tidy.ready with ranked | fresh
  · exact ranked.2
  · simp [Descending,listed,fresh.1]

end Ranking

open Ranking

theorem tidy_init {s : Ranking ρ} (players : Players ρ) (tidy : Tidy s) (ordered : Ordered players s .InitRank) :
    Ranked (s.InitRank players) ∧ Tidy (s.InitRank players) := by
  by_cases done : s.init = true
  · rw [InitRank,if_pos done]
    rcases tidy.ready with ranked | fresh
    · exact ⟨ranked,tidy⟩
    · exact absurd (done.symm.trans fresh.2) (by decide)
  obtain ⟨unplaced,descending⟩ := ordered.resolve_left done
  have first := Bool.not_eq_true _ ▸ done
  have whole := init_listed players first tidy.timeless
  have goals : (s.InitRank players).goal = s.goal := by rw [init_eq players first tidy.timeless]
  have distinct : (s.InitRank players).listed.Nodup := by
    rw [whole]
    apply List.Nodup.append tidy.once (players.once.filter _)
    intro pl old new
    simp [unplaced pl old] at new
  have ranked : Ranked (s.InitRank players) := by
    refine ⟨?_,by rw [goals,whole]; exact descending⟩
    intro pl goal
    apply List.count_eq_one_of_mem distinct
    exact init_complete players tidy (goals ▸ goal)
  refine ⟨ranked,⟨?_,distinct,Or.inl ranked⟩⟩
  intro entry member
  rw [init_eq players first tidy.timeless] at member
  rcases List.mem_append.mp member with old | new
  · exact tidy.timeless entry old
  · obtain ⟨pl,_,made⟩ := List.mem_map.mp new
    subst made
    rfl

theorem tidy_update {s : Ranking ρ} {pl : ρ} {goal : UInt32} (players : Players ρ) (tidy : Tidy s) (ordered : Ordered players s (.UpdatePvpRank pl goal)) :
    Ranked (s.UpdatePvpRank pl goal) ∧ Tidy (s.UpdatePvpRank pl goal) := by
  have whole := update_listed pl goal tidy.timeless
  have own : (s.UpdatePvpRank pl goal).goal pl = s.goal pl+goal := Function.update_self ..
  have others : ∀ other ≠ pl, (s.UpdatePvpRank pl goal).goal other = s.goal other := fun other apart => Function.update_of_ne apart ..
  have apart : ∀ other ∈ s.listed.erase pl, other ≠ pl := fun other member => (tidy.once.mem_erase_iff.mp member).1
  have distinct : (s.UpdatePvpRank pl goal).listed.Nodup := by
    rw [whole]
    apply List.Nodup.append (tidy.once.erase pl) (List.nodup_singleton pl)
    intro other old new
    exact apart other old (List.mem_singleton.mp new)
  have ranked : Ranked (s.UpdatePvpRank pl goal) := by
    constructor
    · intro other some
      apply List.count_eq_one_of_mem distinct
      rw [whole]
      by_cases self : other = pl
      · simp [self]
      · rw [others other self] at some
        exact List.mem_append_left _ (tidy.once.mem_erase_iff.mpr ⟨self,(ordered other self).1 some⟩)
    · rw [Descending,whole,List.pairwise_append]
      refine ⟨?_,List.pairwise_singleton _ _,?_⟩
      · apply ((descending_of_tidy tidy).sublist List.erase_sublist).imp_of_mem
        intro a b first second less
        rwa [others a (apart a first),others b (apart b second)]
      · intro other member last new
        rw [List.mem_singleton.mp new,own,others other (apart other member)]
        exact (ordered other (apart other member)).2 (List.mem_of_mem_erase member)
  refine ⟨ranked,⟨?_,distinct,Or.inl ranked⟩⟩
  intro entry member
  rw [update_eq pl goal tidy.timeless] at member
  rcases List.mem_append.mp member with old | new
  · exact tidy.timeless entry (List.mem_of_mem_eraseP old)
  · rw [List.mem_singleton.mp new]

-- The award takes the goal of everybody in the list, which is everybody who has one.
theorem tidy_award {s : Ranking ρ} (players : Players ρ) (tidy : Tidy s) :
    Ranked (s.World_pvp_award players).2 ∧ Tidy (s.World_pvp_award players).2 := by
  have ranked : Ranked (s.World_pvp_award players).2 := by
    refine ⟨?_,by simp [World_pvp_award,listed,Descending]⟩
    intro pl goal
    have listed : pl ∈ (s.InitRank players).listed := by
      apply init_complete players tidy
      intro none
      apply goal
      have same : (s.InitRank players).goal pl = s.goal pl := by
        unfold InitRank
        split
        · rfl
        · rw [fold_enumerate s _ tidy.timeless]
      simp [World_pvp_award,same,none]
    exact absurd (if_pos listed) goal
  exact ⟨ranked,⟨by simp [World_pvp_award],by simp [World_pvp_award,listed],Or.inl ranked⟩⟩

theorem ordered_init {s : Ranking ρ} (players : Players ρ) (tidy : Tidy s) (ranked : Ranked (s.InitRank players)) :
    Ordered players s .InitRank := by
  by_cases done : s.init = true
  · exact Or.inl done
  have first := Bool.not_eq_true _ ▸ done
  have goals : (s.InitRank players).goal = s.goal := by rw [init_eq players first tidy.timeless]
  have once := ranked.1
  have descending := ranked.2
  rw [goals,init_listed players first tidy.timeless] at once descending
  refine Or.inr ⟨?_,descending⟩
  intro pl member
  by_contra goal
  have twice := once pl goal
  rw [List.count_append] at twice
  have old := List.count_pos_iff.mpr member
  have new : 0 < (players.order.filter fun pl => s.goal pl ≠ 0).count pl := List.count_pos_iff.mpr (by simp [players.all pl,goal])
  omega

theorem ordered_update {s : Ranking ρ} {pl : ρ} {goal : UInt32} (players : Players ρ) (tidy : Tidy s) (ranked : Ranked (s.UpdatePvpRank pl goal)) :
    Ordered players s (.UpdatePvpRank pl goal) := by
  obtain ⟨once,descending⟩ := ranked
  rw [update_listed pl goal tidy.timeless] at once descending
  have own : (s.UpdatePvpRank pl goal).goal pl = s.goal pl+goal := Function.update_self ..
  intro other apart
  have same : (s.UpdatePvpRank pl goal).goal other = s.goal other := Function.update_of_ne apart ..
  constructor
  · intro some
    have placed := once other (same.symm ▸ some)
    have member := List.count_pos_iff.mp (Nat.lt_of_lt_of_eq Nat.one_pos placed.symm)
    rcases List.mem_append.mp member with old | new
    · exact List.mem_of_mem_erase old
    · exact absurd (List.mem_singleton.mp new) apart
  · intro member
    have less := (List.pairwise_append.mp descending).2.2 other (tidy.once.mem_erase_iff.mpr ⟨apart,member⟩) pl (List.mem_singleton_self pl)
    rwa [own,same] at less

theorem tidy_opening (goal : ρ → UInt32) : Tidy (Ranking.opening goal) :=
  ⟨by simp [Ranking.opening],by simp [Ranking.opening,listed],Or.inr ⟨rfl,rfl⟩⟩

-- The comparator agrees with the goals on two entries of the code unless the
-- first one has more.
theorem rank_kept_iff (players : Players ρ) (goal : ρ → UInt32) (history : List (Contest ρ)) :
    (Along (contestStep players) (fun _ _ _ next => Ranked next) (Ranking.opening goal) history ↔
      Guarded (contestStep players) (Ordered players) (Ranking.opening goal) history) ∧
    ∀ (s : Ranking ρ) (a b : ρ), (lt_rcsort (s.entry a) (s.entry b) = true ↔ s.goal b < s.goal a) ↔ s.goal a ≤ s.goal b := by
  constructor
  · apply along_iff_guarded (tidy_opening goal)
    · intro s command tidy ordered
      cases command with
      | InitRank => exact ⟨_,_,rfl,tidy_init players tidy ordered⟩
      | UpdatePvpRank pl goal => exact ⟨_,_,rfl,tidy_update players tidy ordered⟩
      | World_pvp_award => exact ⟨_,_,rfl,tidy_award players tidy⟩
    · intro s command answer next tidy moved ranked
      cases command with
      | InitRank =>
          cases Option.some.inj moved
          exact ordered_init players tidy ranked
      | UpdatePvpRank pl goal =>
          cases Option.some.inj moved
          exact ordered_update players tidy ranked
      | World_pvp_award => trivial
  · intro s a b
    rw [lt_timeless rfl]
    simp

-- Two players with goals 3 and 5 in the order in which they earn them.
theorem rank_ascends :
    ¬ Along (contestStep ⟨[false,true],by decide,by decide⟩) (fun _ _ _ next => Ranked next) (Ranking.opening fun _ => 0)
      [.InitRank,.UpdatePvpRank false 3,.UpdatePvpRank true 5] := by
  intro along
  obtain ⟨_,_,started,_,_,_,first,_,_,_,second,ranked,_⟩ := along
  cases Option.some.inj started
  cases Option.some.inj first
  cases Option.some.inj second
  exact absurd ranked.2 (by unfold Descending; decide)

end GameServer.GObject
