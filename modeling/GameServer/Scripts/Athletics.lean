import GameServer.Library.History
import GameServer.Library.Scripting
import Mathlib.Data.List.Nodup
import Mathlib.Logic.Function.Basic

namespace GameServer.Scripts.Athletics
open History Scripting

-- AddAthleticsEvent: the row, the two fighters, the packed condition, the count and the item.
structure Notice (ρ : Type) where
  row : Int
  atker : ρ
  defer : ρ
  cond : Nat
  itemCount : Nat
  itemId : Nat

-- What the arena keeps of the players of a day and what the script gave out.
-- `asked` are the arguments of the rank functions in the call that runs, with
-- none for nil, and `granted` the first-time awards, by player and bit.
structure State (ρ : Type) where
  first4Rank : ρ → Nat → Bool
  extraChallenge : ρ → Nat
  items : List (ρ × Nat × Nat)
  events : List (Notice ρ)
  asked : List (Option ρ)
  granted : List (ρ × Nat)

-- A call with the standing of the players at that time and its random draw.
structure Event (ρ : Type) where
  row : Int
  atker : ρ
  defer : ρ
  win : Int
  rank : ρ → Nat
  winStreak : ρ → Nat
  failStreak : ρ → Nat
  beWinStreak : ρ → Nat
  rankUpADay : ρ → Nat
  random : Nat

-- The rank of nil, or the error that asking for it is, and the part of a rank.
structure ActionLua where
  rankOfNil : Option Nat
  share : Nat → Nat → Nat

abbrev Lua (ρ : Type) := Script (State ρ)

section script
variable {ρ : Type} [DecidableEq ρ]

def ask (who : Option ρ) : Lua ρ Unit := modify fun s => {s with asked := s.asked ++ [who]}

def asking (who : ρ) (f : State ρ → α) : Lua ρ α := do
  ask (some who)
  return f (← get)

def getAthleticsFirst4Rank (who : ρ) (bit : Nat) : Lua ρ Bool := asking who fun s => s.first4Rank who bit

def setAthleticsFirst4Rank (who : ρ) (bit : Nat) : Lua ρ Unit := do
  ask (some who)
  modify fun s => {s with first4Rank := Function.update s.first4Rank who (Function.update (s.first4Rank who) bit true)}

def getAthleticsExtraChallenge (who : ρ) : Lua ρ Nat := asking who fun s => s.extraChallenge who

def setAthleticsExtraChallenge (who : ρ) (value : Nat) : Lua ρ Unit := do
  ask (some who)
  modify fun s => {s with extraChallenge := Function.update s.extraChallenge who value}

def AddItem (owner : ρ) (itemId itemCount : Nat) : Lua ρ Unit :=
  modify fun s => {s with items := s.items ++ [(owner,itemId,itemCount)]}

def AddAthleticsEvent (notice : Notice ρ) : Lua ρ Unit := modify fun s => {s with events := s.events ++ [notice]}

def grantFirst (who : ρ) (first : Option Nat) : Lua ρ Unit :=
  modify fun s => {s with granted := s.granted ++ first.toList.map (who,·)}

-- The local variables a branch sets; `first` is the bit of a first-time award.
structure Prize where
  cond : Nat
  color : Nat := 0
  value : Nat := 0
  itemId : Nat := 0
  itemCount : Nat := 0
  first : Option Nat := none

variable (lua : ActionLua) (e : Event ρ)

def getAthleticsRank (who : ρ) : Lua ρ Nat := asking who fun _ => e.rank who
def getAthleticsWinStreak (who : ρ) : Lua ρ Nat := asking who fun _ => e.winStreak who
def getAthleticsFailStreak (who : ρ) : Lua ρ Nat := asking who fun _ => e.failStreak who
def getAthleticsBeWinStreak (who : ρ) : Lua ρ Nat := asking who fun _ => e.beWinStreak who
def getAthleticsRankUpADay (who : ρ) : Lua ρ Nat := asking who fun _ => e.rankUpADay who

-- The script asks for the rank of `atk`, a name it never binds.
def getAthleticsRankOfAtk : Lua ρ Nat := do
  ask none
  match lua.rankOfNil with
  | some rank => return rank
  | none => failure

-- The special challenge that follows a rise in the ranks is won.
def specialChallenge (bit color itemId itemCount : Nat) : Branch (State ρ) Prize where
  test := both (pure (e.row == 1)) (getAthleticsFirst4Rank e.atker bit)
  body := do
    let value ← getAthleticsExtraChallenge e.atker
    setAthleticsExtraChallenge e.atker 0
    return {cond := 16,color,value,itemId,itemCount}

def firstRank (reached : Nat → Bool) (bit cond itemCount : Nat) : Branch (State ρ) Prize where
  test := both (do return reached (← getAthleticsRank e e.atker)) (pure (e.row == 1))
  body := do
    if !(← getAthleticsFirst4Rank e.atker bit) then
      setAthleticsFirst4Rank e.atker bit
      return {cond,itemId := 25,itemCount,first := some bit}
    else
      return {cond := cond + 1}

def firstBelow (value bit itemId itemCount : Nat) : Branch (State ρ) Prize where
  test := both (both (do return decide (value + 1 > (← getAthleticsRank e e.atker))) (pure (e.row == 1)))
    (do return !(← getAthleticsFirst4Rank e.atker bit))
  body := do
    setAthleticsFirst4Rank e.atker bit
    return {cond := 9,value,itemId,itemCount,first := some bit}

def winStreak (count itemId : Nat) : Branch (State ρ) Prize where
  test := do return (← getAthleticsWinStreak e e.atker) == count
  body := do
    let value ← getAthleticsWinStreak e e.atker
    return {cond := 12,value,itemId,itemCount := 1}

def endedStreak (loser : ρ) (count cond itemId itemCount : Nat) : Branch (State ρ) Prize where
  test := do return decide ((← getAthleticsWinStreak e loser) > count)
  body := do
    let value ← getAthleticsWinStreak e loser
    return {cond,value,itemId,itemCount}

def failStreak : Branch (State ρ) Prize where
  test := do return (← getAthleticsFailStreak e e.atker) == 25
  body := return {cond := 14,itemId := 23,itemCount := 1}

-- `rowed` rises count only in row 1; the bit that is tested and the one that is set.
def rankUp (count : Nat) (rowed : Bool) (tested set color percent itemId : Nat) : Branch (State ρ) Prize where
  test :=
    let rise := do return decide ((← getAthleticsRankUpADay e e.atker) > count)
    both (if rowed then both rise (pure (e.row == 1)) else rise) (do return !(← getAthleticsFirst4Rank e.atker tested))
  body := do
    let value ← getAthleticsRankUpADay e e.atker
    let rank ← getAthleticsRankOfAtk lua
    setAthleticsExtraChallenge e.atker (lua.share rank percent)
    setAthleticsFirst4Rank e.atker set
    return {cond := 15,color,value,itemId,itemCount := 1,first := some tested}

def surprise : Branch (State ρ) Prize where
  test := pure (decide (e.random < 8))
  body := return {cond := 17,itemId := 22,itemCount := 1}

def earlyBranches : List (Branch (State ρ) Prize) :=
  [specialChallenge e 0x100 5 25 3,
    specialChallenge e 0x200 4 25 1,
    specialChallenge e 0x400 3 24 1,
    specialChallenge e 0x800 2 23 1,
    firstRank e (1 == ·) 0x1 1 5,
    firstRank e (2 == ·) 0x2 3 3,
    firstRank e (3 == ·) 0x4 5 2,
    firstRank e (11 > ·) 0x8 7 1,
    firstBelow e 100 0x10 24 2,
    firstBelow e 200 0x20 24 1,
    firstBelow e 300 0x40 23 1,
    winStreak e 5 22,
    winStreak e 10 23,
    winStreak e 20 24,
    winStreak e 50 25,
    endedStreak e e.defer 19 11 24 1,
    endedStreak e e.defer 9 11 23 2,
    endedStreak e e.defer 4 11 23 1,
    endedStreak e e.defer 3 11 22 1,
    failStreak e]

def rankUpBranches : List (Branch (State ρ) Prize) :=
  [rankUp lua e 199 true 0x100 0x100 5 50 25,
    rankUp lua e 99 true 0x200 0x200 4 70 24,
    rankUp lua e 49 false 0x400 0x400 3 90 23,
    rankUp lua e 19 false 0x800 0x400 2 95 22]

-- The special challenge is lost.
def challengeLost : Branch (State ρ) Prize where
  test := both (pure (e.row == 1)) (do return (← getAthleticsExtraChallenge e.atker) != 0)
  body := do
    setAthleticsExtraChallenge e.atker 0
    return {cond := 0}

def beWinStreak (count value itemId : Nat) : Branch (State ρ) Prize where
  test := do return (← getAthleticsBeWinStreak e e.defer) == count
  body := return {cond := 13,value,itemId,itemCount := 1}

def lostBranches : List (Branch (State ρ) Prize) :=
  [challengeLost e,
    endedStreak e e.atker 19 11 24 1,
    endedStreak e e.atker 9 11 23 2,
    endedStreak e e.atker 4 11 23 1,
    endedStreak e e.atker 3 13 22 1,
    beWinStreak e 10 10 22,
    beWinStreak e 20 20 23,
    beWinStreak e 100 20 24]

def nothing : Lua ρ Prize := return {cond := 0}

def award (winner : ρ) (prize : Prize) : Lua ρ Unit := do
  if prize.cond ≠ 0 then
    AddItem winner prize.itemId prize.itemCount
    grantFirst winner prize.first
    AddAthleticsEvent ⟨e.row,e.atker,e.defer,prize.cond + prize.color*256 + prize.value*65536,prize.itemCount,prize.itemId⟩

-- The event after the test for the first challenge.
def outcome : Lua ρ Unit := do
  if e.win = 2 then
    if ← (challengeLost e).test then setAthleticsExtraChallenge e.atker 0
  else if e.win = 1 then
    award e e.atker (← chain (chain (chain nothing [surprise e]) (rankUpBranches lua e)) (earlyBranches e))
  else
    award e e.defer (← chain nothing (lostBranches e))

def RunAthleticsEvent : Lua ρ Unit := do
  if ← getAthleticsFirst4Rank e.atker 0x80 then
    AddItem e.atker 22 1
    grantFirst e.atker (some 0x80)
    AddAthleticsEvent ⟨e.row,e.atker,e.defer,10,1,22⟩
    setAthleticsFirst4Rank e.atker 0x80
  else
    outcome lua e

-- A call answers whether it ended without an error, and who was asked for.
structure Answer (ρ : Type) where
  ended : Option Unit
  asked : List (Option ρ)

def step (s : State ρ) (e : Event ρ) : Option (Answer ρ × State ρ) :=
  let (ended,next) := ends (RunAthleticsEvent lua e) s
  some (⟨ended,next.asked⟩,{next with asked := []})

end script

section conditions
variable {ρ : Type} (e : Event ρ)

-- The conditions of the branches, read off the state and the event.
def Challenging (bit : Nat) (s : State ρ) : Prop := e.row = 1 ∧ s.first4Rank e.atker bit = true
def Reaches (reached : Nat → Bool) (_ : State ρ) : Prop := reached (e.rank e.atker) = true ∧ e.row = 1
def Below (value bit : Nat) (s : State ρ) : Prop := (e.rank e.atker ≤ value ∧ e.row = 1) ∧ s.first4Rank e.atker bit = false
def Streak (streak : ρ → Nat) (who : ρ) (count : Nat) (_ : State ρ) : Prop := streak who = count
def Ended (loser : ρ) (count : Nat) (_ : State ρ) : Prop := e.winStreak loser > count
def Rose (count : Nat) (rowed : Bool) (bit : Nat) (s : State ρ) : Prop :=
  (e.rankUpADay e.atker > count ∧ (rowed = true → e.row = 1)) ∧ s.first4Rank e.atker bit = false

def earlyConds : List (State ρ → Prop) :=
  [Challenging e 0x100,Challenging e 0x200,Challenging e 0x400,Challenging e 0x800,
    Reaches e (1 == ·),Reaches e (2 == ·),Reaches e (3 == ·),Reaches e (11 > ·),
    Below e 100 0x10,Below e 200 0x20,Below e 300 0x40,
    Streak e.winStreak e.atker 5,Streak e.winStreak e.atker 10,Streak e.winStreak e.atker 20,Streak e.winStreak e.atker 50,
    Ended e e.defer 19,Ended e e.defer 9,Ended e e.defer 4,Ended e e.defer 3,
    Streak e.failStreak e.atker 25]

def rankUpConds : List (State ρ → Prop) :=
  [Rose e 199 true 0x100,Rose e 99 true 0x200,Rose e 49 false 0x400,Rose e 19 false 0x800]

-- Nobody has set the bit of the first challenge, and the event does not come
-- to the awards for a rise within a day.
def Unrisen (s : State ρ) (e : Event ρ) : Prop :=
  s.first4Rank e.atker 0x80 = false ∧ (e.win = 1 → (∃ cond ∈ earlyConds e, cond s) ∨ ¬ ∃ cond ∈ rankUpConds e, cond s)

def Fine (s : State ρ) (e : Event ρ) (answer : Answer ρ) (next : State ρ) : Prop :=
  (∀ who ∈ answer.asked, who = some e.atker ∨ who = some e.defer) ∧ next.granted.Nodup ∧
    ∃ given, next.granted = s.granted ++ given ∧ (∀ award ∈ given, s.first4Rank award.1 award.2 = false) ∧
      ∀ who bit, next.first4Rank who bit = true ↔ s.first4Rank who bit = true ∨ (who,bit) ∈ given

structure Kept (s : State ρ) : Prop where
  idle : s.asked = []
  once : s.granted.Nodup
  marked : ∀ award ∈ s.granted, s.first4Rank award.1 award.2 = true

def start (first4Rank : ρ → Nat → Bool) (extraChallenge : ρ → Nat) : State ρ := ⟨first4Rank,extraChallenge,[],[],[],[]⟩

end conditions

section tests
variable {ρ : Type} {e : Event ρ} {s s' s'' : State ρ} {who : ρ}

def Fighters (e : Event ρ) (asked : List (Option ρ)) : Prop := ∀ who ∈ asked, who = some e.atker ∨ who = some e.defer

theorem fighters_append {first second : List (Option ρ)} (left : Fighters e first) (right : Fighters e second) : Fighters e (first ++ second) := by
  intro who member
  rcases List.mem_append.mp member with early | late
  · exact left who early
  · exact right who late

-- Looking at the state asks for the fighters and nothing else.
def Looked (e : Event ρ) (s s' : State ρ) : Prop := ∃ more, Fighters e more ∧ s' = {s with asked := s.asked ++ more}

theorem looking (e : Event ρ) : Looking (Looked e) := by
  constructor
  · intro s
    refine ⟨[],?_,?_⟩
    · intro who member
      cases member
    · rw [List.append_nil]
  · intro s s' s'' ⟨first,fighters,same⟩ ⟨second,others,same'⟩
    subst same same'
    exact ⟨first ++ second,fighters_append fighters others,by simp⟩

theorem ends_asking (who : ρ) (f : State ρ → α) :
    ends (asking who f) s = (some (f {s with asked := s.asked ++ [some who]}),{s with asked := s.asked ++ [some who]}) := by
  unfold asking ask
  rw [ends_bind_some (ends_modify ..),ends_bind_some (ends_get _)]
  rfl

theorem fighters_one (fighter : who = e.atker ∨ who = e.defer) : Fighters e [some who] := by
  intro one member
  rw [List.mem_singleton.mp member]
  simpa using fighter

-- A test that asks one rank function, with a condition that does not depend on
-- what was asked.
theorem tests_looks (fighter : who = e.atker ∨ who = e.defer) {test : Lua ρ Bool} (hit : State ρ → Bool) {cond : State ρ → Prop}
    (ran : ∀ s, ends test s = (some (hit s),{s with asked := s.asked ++ [some who]})) (answers : ∀ s : State ρ, hit s = true ↔ cond s)
    (still : ∀ (s : State ρ) asked, cond {s with asked} ↔ cond s) : Tests (Looked e) test cond := by
  constructor
  · intro s
    exact ⟨_,_,ran s,⟨_,fighters_one fighter,rfl⟩,answers s⟩
  · intro s s' ⟨more,_,same⟩
    subst same
    exact still s _

theorem tests_pure {hit : Bool} {cond : Prop} (answers : hit = true ↔ cond) : Tests (Looked e) (pure hit) (fun _ => cond) := by
  constructor
  · intro s
    exact ⟨hit,s,rfl,(looking e).none s,answers⟩
  · intro _ _ _
    exact Iff.rfl

theorem tests_row : Tests (Looked e) (pure (e.row == 1)) (fun _ => e.row = 1) := tests_pure (by simp)

theorem tests_bit (bit : Nat) : Tests (Looked e) (getAthleticsFirst4Rank e.atker bit) (fun s => s.first4Rank e.atker bit = true) := by
  apply tests_looks (Or.inl rfl) (fun s => s.first4Rank e.atker bit)
  · intro s; exact ends_asking ..
  · intro s; exact Iff.rfl
  · intro s asked; exact Iff.rfl

theorem tests_unset (bit : Nat) : Tests (Looked e) (do return !(← getAthleticsFirst4Rank e.atker bit)) (fun s => s.first4Rank e.atker bit = false) := by
  apply tests_looks (Or.inl rfl) (fun s => !s.first4Rank e.atker bit)
  · intro s; exact ends_bind_some (ends_asking ..) _
  · intro s; simp
  · intro s asked; exact Iff.rfl

-- A test of what the arena says of a fighter, which no event changes.
theorem tests_standing (fighter : who = e.atker ∨ who = e.defer) (standing : Nat) (check : Nat → Bool) {cond : Prop} (answers : check standing = true ↔ cond) :
    Tests (Looked e) (do return check (← asking who fun _ => standing)) (fun _ => cond) := by
  apply tests_looks fighter (fun _ => check standing)
  · intro s; exact ends_bind_some (ends_asking ..) _
  · intro s; exact answers
  · intro s asked; exact Iff.rfl

end tests

section branches
variable {ρ : Type} [DecidableEq ρ] {lua : ActionLua} {e : Event ρ} {s s' : State ρ} {who winner : ρ}

def setBit (bits : ρ → Nat → Bool) (who : ρ) (bit : Nat) : ρ → Nat → Bool := Function.update bits who (Function.update (bits who) bit true)

theorem setBit_true (bits : ρ → Nat → Bool) (who one : ρ) (bit other : Nat) :
    setBit bits who bit one other = true ↔ bits one other = true ∨ (one,other) = (who,bit) := by
  unfold setBit
  by_cases same : one = who
  · subst same
    by_cases here : other = bit
    · simp [here]
    · simp [here]
  · simp [same]

-- What a branch leaves: the fighters asked for, no award yet, and the bits as
-- they were except that of the first-time award the winner is going to get.
def Outcome (e : Event ρ) (winner : ρ) (s : State ρ) (result : Option Prize × State ρ) : Prop :=
  ∃ prize more, result.1 = some prize ∧ Fighters e more ∧ result.2.asked = s.asked ++ more ∧ result.2.granted = s.granted ∧
    match prize.first with
    | none => result.2.first4Rank = s.first4Rank
    | some bit => prize.cond ≠ 0 ∧ s.first4Rank winner bit = false ∧ result.2.first4Rank = setBit s.first4Rank winner bit

theorem outcome_looked {result : Option Prize × State ρ} (seen : Looked e s s') (outcome : Outcome e winner s' result) : Outcome e winner s result := by
  obtain ⟨more,fighters,same⟩ := seen
  subst same
  obtain ⟨prize,others,answered,rest,asked,granted,bits⟩ := outcome
  refine ⟨prize,more ++ others,answered,fighters_append fighters rest,?_,granted,bits⟩
  rw [asked,List.append_assoc]

-- A branch that gives no first-time award leaves the bits alone.
theorem outcome_plain {prize : Prize} {result : Option Prize × State ρ} (more : List (Option ρ)) (fighters : Fighters e more)
    (answered : result.1 = some prize) (plain : prize.first = none) (asked : result.2.asked = s.asked ++ more)
    (granted : result.2.granted = s.granted) (bits : result.2.first4Rank = s.first4Rank) : Outcome e winner s result := by
  refine ⟨prize,more,answered,fighters,asked,granted,?_⟩
  rw [plain]
  exact bits

def Safe (e : Event ρ) (winner : ρ) (branch : Branch (State ρ) Prize) (cond : State ρ → Prop) : Prop := ∀ s, cond s → Outcome e winner s (ends branch.body s)

def SafeBranch (e : Event ρ) (winner : ρ) (branch : Branch (State ρ) Prize) (cond : State ρ → Prop) : Prop :=
  Tests (Looked e) branch.test cond ∧ Safe e winner branch cond

theorem special_safe (bit color itemId itemCount : Nat) : SafeBranch e winner (specialChallenge e bit color itemId itemCount) (Challenging e bit) := by
  constructor
  · exact tests_both (looking e) tests_row (tests_bit bit)
  · intro s _
    refine outcome_plain _ (fighters_append (fighters_one (Or.inl rfl)) (fighters_one (Or.inl rfl))) rfl rfl ?_ rfl rfl
    exact List.append_assoc ..

theorem firstRank_safe (reached : Nat → Bool) (bit cond itemCount : Nat) (given : cond ≠ 0) :
    SafeBranch e e.atker (firstRank e reached bit cond itemCount) (Reaches e reached) := by
  constructor
  · exact tests_both (looking e) (tests_standing (Or.inl rfl) _ reached Iff.rfl) tests_row
  · intro s _
    have asked := ends_asking (s := s) e.atker fun s => s.first4Rank e.atker bit
    unfold firstRank getAthleticsFirst4Rank
    dsimp only
    rw [ends_bind_some asked]
    cases clear : s.first4Rank e.atker bit with
    | true =>
        exact outcome_plain _ (fighters_one (Or.inl rfl)) rfl rfl rfl rfl rfl
    | false =>
        refine ⟨_,_,rfl,fighters_append (fighters_one (Or.inl rfl)) (fighters_one (Or.inl rfl)),?_,rfl,given,clear,rfl⟩
        exact List.append_assoc ..

theorem firstBelow_safe (value bit itemId itemCount : Nat) : SafeBranch e e.atker (firstBelow e value bit itemId itemCount) (Below e value bit) := by
  constructor
  · refine tests_both (looking e) (tests_both (looking e) ?_ tests_row) (tests_unset bit)
    exact tests_standing (Or.inl rfl) _ (fun rank => decide (value + 1 > rank)) (decide_eq_true_iff.trans Nat.lt_succ_iff)
  · intro s holds
    exact ⟨_,_,rfl,fighters_one (Or.inl rfl),rfl,rfl,Nat.succ_ne_zero 8,holds.2,rfl⟩

theorem winStreak_safe (count itemId : Nat) : SafeBranch e winner (winStreak e count itemId) (Streak e.winStreak e.atker count) := by
  constructor
  · exact tests_standing (Or.inl rfl) _ (· == count) beq_iff_eq
  · intro s _
    exact outcome_plain _ (fighters_one (Or.inl rfl)) rfl rfl rfl rfl rfl

theorem endedStreak_safe (fighter : who = e.atker ∨ who = e.defer) (count cond itemId itemCount : Nat) :
    SafeBranch e winner (endedStreak e who count cond itemId itemCount) (Ended e who count) := by
  constructor
  · exact tests_standing fighter _ (fun streak => decide (streak > count)) decide_eq_true_iff
  · intro s _
    exact outcome_plain _ (fighters_one fighter) rfl rfl rfl rfl rfl

theorem failStreak_safe : SafeBranch e winner (failStreak e) (Streak e.failStreak e.atker 25) := by
  constructor
  · exact tests_standing (Or.inl rfl) _ (· == 25) beq_iff_eq
  · intro s _
    exact outcome_plain [] (by simp [Fighters]) rfl rfl (List.append_nil _).symm rfl rfl

theorem early_safe (e : Event ρ) : Tested (Looked e) (Safe e e.atker) (earlyBranches e) (earlyConds e) := by
  have ended : ∀ count cond itemId itemCount, SafeBranch e e.atker (endedStreak e e.defer count cond itemId itemCount) (Ended e e.defer count) :=
    endedStreak_safe (Or.inr rfl)
  unfold earlyBranches earlyConds
  refine .cons (special_safe ..) (.cons (special_safe ..) (.cons (special_safe ..) (.cons (special_safe ..) ?_)))
  refine .cons (firstRank_safe _ _ 1 _ ?_) (.cons (firstRank_safe _ _ 3 _ ?_) (.cons (firstRank_safe _ _ 5 _ ?_) (.cons (firstRank_safe _ _ 7 _ ?_) ?_)))
  rotate_right
  · refine .cons (firstBelow_safe ..) (.cons (firstBelow_safe ..) (.cons (firstBelow_safe ..) ?_))
    refine .cons (winStreak_safe ..) (.cons (winStreak_safe ..) (.cons (winStreak_safe ..) (.cons (winStreak_safe ..) ?_)))
    exact .cons (ended ..) (.cons (ended ..) (.cons (ended ..) (.cons (ended ..) (.cons failStreak_safe .nil))))
  all_goals decide

-- Every award for a rise within a day asks for the rank of nil.
def Rises (branch : Branch (State ρ) Prize) (_ : State ρ → Prop) : Prop := ∀ s, none ∈ (ends branch.body s).2.asked

theorem rankUp_rises (count : Nat) (rowed : Bool) (tested set color percent itemId : Nat) :
    Tests (Looked e) (rankUp lua e count rowed tested set color percent itemId).test (Rose e count rowed tested) ∧
      Rises (rankUp lua e count rowed tested set color percent itemId) (Rose e count rowed tested) := by
  have rise : Tests (Looked e) (do return decide ((← getAthleticsRankUpADay e e.atker) > count)) (fun _ => e.rankUpADay e.atker > count) :=
    tests_standing (Or.inl rfl) _ (fun rise => decide (rise > count)) decide_eq_true_iff
  constructor
  · refine tests_both (looking e) ?_ (tests_unset tested)
    cases rowed with
    | true => simpa using tests_both (looking e) rise tests_row
    | false => simpa using rise
  · intro s
    unfold rankUp getAthleticsRankUpADay getAthleticsRankOfAtk
    dsimp only
    rw [ends_bind_some (ends_asking ..)]
    have member : none ∈ s.asked ++ [some e.atker] ++ [none] := List.mem_append_right _ (List.mem_singleton_self _)
    cases lua.rankOfNil with
    | none => exact member
    | some rank => exact List.mem_append_left _ (List.mem_append_left _ member)

theorem rankUp_tested (lua : ActionLua) (e : Event ρ) : Tested (Looked e) Rises (rankUpBranches lua e) (rankUpConds e) :=
  .cons (rankUp_rises ..) (.cons (rankUp_rises ..) (.cons (rankUp_rises ..) (.cons (rankUp_rises ..) .nil)))

theorem surprise_safe (e : Event ρ) (winner : ρ) : Tested (Looked e) (Safe e winner) [surprise e] [fun _ => e.random < 8] := by
  refine .cons ⟨tests_pure decide_eq_true_iff,?_⟩ .nil
  intro s _
  exact outcome_plain [] (by simp [Fighters]) rfl rfl (List.append_nil _).symm rfl rfl

theorem nothing_safe (e : Event ρ) (winner : ρ) (s : State ρ) : Outcome e winner s (ends nothing s) :=
  outcome_plain [] (by simp [Fighters]) rfl rfl (List.append_nil _).symm rfl rfl

def Challenged (e : Event ρ) (s : State ρ) : Prop := e.row = 1 ∧ s.extraChallenge e.atker ≠ 0

theorem tests_challenge : Tests (Looked e) (challengeLost e).test (Challenged e) := by
  refine tests_both (looking e) tests_row ?_
  apply tests_looks (Or.inl rfl) (fun s => s.extraChallenge e.atker != 0)
  · intro s; exact ends_bind_some (ends_asking ..) _
  · intro s; exact bne_iff_ne
  · intro s asked; exact Iff.rfl

theorem challengeLost_safe : SafeBranch e winner (challengeLost e) (Challenged e) := by
  refine ⟨tests_challenge,?_⟩
  intro s _
  exact outcome_plain _ (fighters_one (Or.inl rfl)) rfl rfl rfl rfl rfl

theorem beWinStreak_safe (count value itemId : Nat) : SafeBranch e winner (beWinStreak e count value itemId) (Streak e.beWinStreak e.defer count) := by
  constructor
  · exact tests_standing (Or.inr rfl) _ (· == count) beq_iff_eq
  · intro s _
    exact outcome_plain [] (by simp [Fighters]) rfl rfl (List.append_nil _).symm rfl rfl

theorem lost_safe (e : Event ρ) (winner : ρ) : Tested (Looked e) (Safe e winner) (lostBranches e)
    [Challenged e,Ended e e.atker 19,Ended e e.atker 9,Ended e e.atker 4,Ended e e.atker 3,
      Streak e.beWinStreak e.defer 10,Streak e.beWinStreak e.defer 20,Streak e.beWinStreak e.defer 100] := by
  have ended : ∀ count cond itemId itemCount, SafeBranch e winner (endedStreak e e.atker count cond itemId itemCount) (Ended e e.atker count) :=
    endedStreak_safe (Or.inl rfl)
  refine .cons challengeLost_safe (.cons (ended ..) (.cons (ended ..) (.cons (ended ..) (.cons (ended ..) ?_))))
  exact .cons (beWinStreak_safe ..) (.cons (beWinStreak_safe ..) (.cons (beWinStreak_safe ..) .nil))

-- A chain of safe branches with a safe rest is safe.
theorem chain_safe {branches : List (Branch (State ρ) Prize)} {conds : List (State ρ → Prop)} {rest : Lua ρ Prize}
    (safe : Tested (Looked e) (Safe e winner) branches conds) (last : ∀ s', Looked e s s' → Outcome e winner s' (ends rest s')) :
    Outcome e winner s (ends (chain rest branches) s) := by
  rcases chain_from (looking e) safe rest ((looking e).none s) with ⟨branch,cond,s',fits,holds,_,seen,same⟩ | ⟨s',_,seen,same⟩
  · rw [same]
    exact outcome_looked seen (fits s' holds)
  · rw [same]
    exact outcome_looked seen (last s' seen)

-- The chain of the won events, past the awards for a rise within a day.
theorem won_safe (lua : ActionLua) (unrisen : (∃ cond ∈ earlyConds e, cond s) ∨ ¬ ∃ cond ∈ rankUpConds e, cond s) :
    Outcome e e.atker s (ends (chain (chain (chain nothing [surprise e]) (rankUpBranches lua e)) (earlyBranches e)) s) := by
  have surprised : ∀ s', Outcome e e.atker s' (ends (chain nothing [surprise e]) s') := fun s' => chain_safe (surprise_safe e _) fun _ _ => nothing_safe e _ _
  rcases unrisen with taken | fails
  · obtain ⟨branch,cond,s',fits,holds,seen,same⟩ :=
      chain_takes (looking e) (early_safe e) (chain (chain nothing [surprise e]) (rankUpBranches lua e)) taken
    rw [same]
    exact outcome_looked seen (fits s' holds)
  · apply chain_safe (early_safe e)
    intro s' seen
    rw [← tested_any (rankUp_tested lua e) seen] at fails
    obtain ⟨s'',seen',same⟩ := chain_passes (looking e) (rankUp_tested lua e) (chain nothing [surprise e]) fails
    rw [same]
    exact outcome_looked seen' (surprised s'')

theorem won_rises (lua : ActionLua) (fails : ¬ ∃ cond ∈ earlyConds e, cond s) (rises : ∃ cond ∈ rankUpConds e, cond s) (rest : Lua ρ Prize) :
    none ∈ (ends (chain (chain rest (rankUpBranches lua e)) (earlyBranches e)) s).2.asked := by
  obtain ⟨s',seen,same⟩ := chain_passes (looking e) (early_safe e) (chain rest (rankUpBranches lua e)) fails
  rw [← tested_any (rankUp_tested lua e) seen] at rises
  obtain ⟨branch,cond,s'',fits,_,_,same'⟩ := chain_takes (looking e) (rankUp_tested lua e) rest rises
  rw [same,same']
  exact fits s''

end branches

section events
variable {ρ : Type} {lua : ActionLua} {e : Event ρ} {s s' s'' : State ρ}

-- Giving out a prize asks for nobody and leaves the bits.
theorem award_leaves (winner : ρ) (prize : Prize) (s : State ρ) :
    (ends (award e winner prize) s).2.asked = s.asked ∧ (ends (award e winner prize) s).2.first4Rank = s.first4Rank ∧
      (ends (award e winner prize) s).2.granted = s.granted ++ if prize.cond ≠ 0 then prize.first.toList.map (winner,·) else [] := by
  unfold award
  by_cases given : prize.cond ≠ 0
  · rw [if_pos given,if_pos given]
    exact ⟨rfl,rfl,rfl⟩
  · rw [if_neg given,if_neg given]
    exact ⟨rfl,rfl,(List.append_nil _).symm⟩

-- What one event may leave: the fighters asked for, and the new awards marked
-- with bits that were clear.
structure Granted (e : Event ρ) (s s' : State ρ) (given : List (ρ × Nat)) : Prop where
  asked : Fighters e s'.asked
  granted : s'.granted = s.granted ++ given
  once : given.Nodup
  clear : ∀ award ∈ given, s.first4Rank award.1 award.2 = false
  marked : ∀ who bit, s'.first4Rank who bit = true ↔ s.first4Rank who bit = true ∨ (who,bit) ∈ given

theorem granted_nothing (asked : Fighters e s'.asked) (granted : s'.granted = s.granted) (bits : s'.first4Rank = s.first4Rank) : Granted e s s' [] := by
  refine ⟨asked,?_,List.nodup_nil,by simp,?_⟩
  · rw [granted,List.append_nil]
  · intro who bit
    rw [bits]
    simp

theorem granted_looked {given : List (ρ × Nat)} (seen : Looked e s s') (later : Granted e s' s'' given) : Granted e s s'' given := by
  obtain ⟨more,_,same⟩ := seen
  subst same
  exact ⟨later.asked,later.granted,later.once,later.clear,later.marked⟩

theorem fighters_looked (fighters : Fighters e s.asked) (seen : Looked e s s') : Fighters e s'.asked := by
  obtain ⟨more,others,same⟩ := seen
  rw [same]
  exact fighters_append fighters others

theorem granted_kept {given : List (ρ × Nat)} (kept : Kept s) (granted : Granted e s s' given) : Kept {s' with asked := []} := by
  constructor
  · rfl
  · dsimp only
    rw [granted.granted]
    apply List.Nodup.append kept.once granted.once
    intro award old new
    exact Bool.noConfusion ((kept.marked award old).symm.trans (granted.clear award new))
  · intro award member
    dsimp only at member ⊢
    rw [granted.marked]
    rw [granted.granted] at member
    rcases List.mem_append.mp member with old | new
    · exact Or.inl (kept.marked award old)
    · exact Or.inr new

theorem fine_iff (ended : Option Unit) (kept : Kept s) :
    Fine s e ⟨ended,s'.asked⟩ {s' with asked := []} ↔ ∃ given, Granted e s s' given := by
  constructor
  · intro ⟨asked,once,given,granted,clear,marked⟩
    dsimp only at once granted
    rw [granted] at once
    exact ⟨given,asked,granted,once.of_append_right,clear,marked⟩
  · intro ⟨given,granted⟩
    exact ⟨granted.asked,(granted_kept kept granted).once,given,granted.granted,granted.clear,granted.marked⟩

variable [DecidableEq ρ]

theorem granted_one {winner : ρ} {bit : Nat} (asked : Fighters e s'.asked) (granted : s'.granted = s.granted ++ [(winner,bit)])
    (clear : s.first4Rank winner bit = false) (bits : s'.first4Rank = setBit s.first4Rank winner bit) : Granted e s s' [(winner,bit)] := by
  refine ⟨asked,granted,List.nodup_singleton _,?_,?_⟩
  · intro award member
    rw [List.mem_singleton.mp member]
    exact clear
  · intro who other
    rw [bits,setBit_true,List.mem_singleton]

theorem granted_award {chosen : Lua ρ Prize} {winner : ρ} (fighters : Fighters e s.asked) (outcome : Outcome e winner s (ends chosen s)) :
    ∃ given, Granted e s (ends (do award e winner (← chosen)) s).2 given := by
  obtain ⟨prize,more,answered,others,asked,granted,bits⟩ := outcome
  rcases ran : ends chosen s with ⟨answer,s'⟩
  rw [ran] at answered asked granted bits
  dsimp only at answered asked granted bits
  subst answered
  rw [ends_bind_some ran]
  obtain ⟨asked',bits',granted'⟩ := award_leaves (e := e) winner prize s'
  have allowed : Fighters e (ends (award e winner prize) s').2.asked := by
    rw [asked',asked]
    exact fighters_append fighters others
  cases first : prize.first with
  | none =>
      rw [first] at bits granted'
      refine ⟨[],granted_nothing allowed ?_ (bits'.trans bits)⟩
      rw [granted',granted]
      simp
  | some bit =>
      rw [first] at bits granted'
      obtain ⟨given,clear,marked⟩ := bits
      refine ⟨[(winner,bit)],granted_one allowed ?_ clear (bits'.trans marked)⟩
      rw [granted',granted,if_pos given]
      rfl

-- With the bit of the first challenge clear that test only looks.
theorem event_first (lua : ActionLua) (clear : s.first4Rank e.atker 0x80 = false) :
    ∃ s', Looked e s s' ∧ ends (RunAthleticsEvent lua e) s = ends (outcome lua e) s' := by
  refine ⟨{s with asked := s.asked ++ [some e.atker]},⟨_,fighters_one (Or.inl rfl),rfl⟩,?_⟩
  have asked := ends_asking (s := s) e.atker fun s => s.first4Rank e.atker 0x80
  unfold RunAthleticsEvent getAthleticsFirst4Rank
  rw [ends_bind_some asked]
  dsimp only
  rw [clear]
  rfl

theorem abandoned_granted (fighters : Fighters e s.asked) :
    Granted e s (ends (do if ← (challengeLost e).test then setAthleticsExtraChallenge e.atker 0) s).2 [] := by
  obtain ⟨hit,s',ran,seen,_⟩ := (tests_challenge (e := e)).answers s
  apply granted_looked seen
  rw [ends_bind_some ran]
  cases hit with
  | false => exact granted_nothing (fighters_looked fighters seen) rfl rfl
  | true => exact granted_nothing (fighters_append (fighters_looked fighters seen) (fighters_one (Or.inl rfl))) rfl rfl

theorem event_granted (lua : ActionLua) (unrisen : Unrisen s e) (fighters : Fighters e s.asked) :
    ∃ given, Granted e s (ends (RunAthleticsEvent lua e) s).2 given := by
  obtain ⟨s',seen,same⟩ := event_first lua unrisen.1
  have later := fighters_looked fighters seen
  suffices ∃ given, Granted e s' (ends (outcome lua e) s').2 given by
    obtain ⟨given,granted⟩ := this
    rw [same]
    exact ⟨given,granted_looked seen granted⟩
  unfold outcome
  by_cases abandoned : e.win = 2
  · rw [if_pos abandoned]
    exact ⟨[],abandoned_granted later⟩
  · rw [if_neg abandoned]
    by_cases won : e.win = 1
    · rw [if_pos won]
      have passes := unrisen.2 won
      rw [← tested_any (early_safe e) seen,← tested_any (rankUp_tested lua e) seen] at passes
      exact granted_award later (won_safe lua passes)
    · rw [if_neg won]
      exact granted_award later (chain_safe (lost_safe e e.defer) fun _ _ => nothing_safe e _ _)

-- An event that came to an award for a rise, or to the first challenge with
-- its bit set, is told by what it asked for and what it gave.
theorem event_unrisen {given : List (ρ × Nat)} (lua : ActionLua) (granted : Granted e s (ends (RunAthleticsEvent lua e) s).2 given) : Unrisen s e := by
  have clear : s.first4Rank e.atker 0x80 = false := by
    by_contra marked
    have set : s.first4Rank e.atker 0x80 = true := by simpa using marked
    have asked := ends_asking (s := s) e.atker fun s => s.first4Rank e.atker 0x80
    unfold RunAthleticsEvent getAthleticsFirst4Rank at granted
    rw [ends_bind_some asked] at granted
    dsimp only at granted
    rw [set] at granted
    have same := List.append_cancel_left (granted.granted : s.granted ++ [(e.atker,0x80)] = s.granted ++ given)
    have first := granted.clear (e.atker,0x80) (by rw [← same]; exact List.mem_singleton_self _)
    exact Bool.noConfusion (set.symm.trans first)
  refine ⟨clear,?_⟩
  intro won
  by_contra risen
  obtain ⟨fails,rises⟩ := not_or.mp risen
  obtain ⟨s',seen,same⟩ := event_first lua clear
  rw [← tested_any (early_safe e) seen] at fails
  rw [← tested_any (rankUp_tested lua e) seen,not_not] at rises
  have asked := won_rises lua fails rises (chain nothing [surprise e])
  suffices none ∈ (ends (outcome lua e) s').2.asked by
    rw [same] at granted
    rcases granted.asked none this with impossible | impossible
    · cases impossible
    · cases impossible
  have lost : ¬ e.win = 2 := by rw [won]; decide
  unfold outcome
  rw [if_neg lost,if_pos won,ends_bind]
  split
  · rename_i prize s'' ran
    rw [ran] at asked
    rw [(award_leaves e.atker prize s'').1]
    exact asked
  · rename_i s'' ran
    rw [ran] at asked
    exact asked

end events

-- The events of a day are fine as long as none comes to an award for a rise
-- within the day: those ask for the rank of nobody, and that for twenty ranks
-- sets the bit of the one for fifty.
theorem first_awards_iff {ρ : Type} [DecidableEq ρ] (lua : ActionLua) (first4Rank : ρ → Nat → Bool) (extraChallenge : ρ → Nat)
    (history : List (Event ρ)) :
    Along (step lua) Fine (start first4Rank extraChallenge) history ↔ Guarded (step lua) Unrisen (start first4Rank extraChallenge) history := by
  have init : Kept (start first4Rank extraChallenge) := ⟨rfl,List.nodup_nil,by simp [start]⟩
  refine along_iff_guarded init ?_ ?_
  · intro s e kept unrisen
    have fighters : Fighters e s.asked := by simp [Fighters,kept.idle]
    obtain ⟨given,granted⟩ := event_granted lua unrisen fighters
    exact ⟨_,_,rfl,(fine_iff _ kept).mpr ⟨given,granted⟩,granted_kept kept granted⟩
  · intro s e answer next kept moved fine
    obtain ⟨called,after⟩ := Prod.mk.inj (Option.some.inj moved)
    subst called after
    obtain ⟨given,granted⟩ := (fine_iff _ kept).mp fine
    exact event_unrisen lua granted

-- A win of somebody who has risen by twenty ranks, twice on one day.
def risenByTwenty : Event Nat :=
  ⟨0,1,2,1,fun _ => 500,fun _ => 0,fun _ => 0,fun _ => 0,fun _ => 20,50⟩

theorem twenty_ranks_twice :
    ∃ a s a' s', step ⟨some 0,fun rank percent => rank*percent/100⟩ (start (fun _ _ => false) fun _ => 0) risenByTwenty = some (a,s) ∧
      step ⟨some 0,fun rank percent => rank*percent/100⟩ s risenByTwenty = some (a',s') ∧ s'.granted = [(1,0x800),(1,0x800)] ∧
      ¬ Along (step ⟨some 0,fun rank percent => rank*percent/100⟩) Fine (start (fun _ _ => false) fun _ => 0) [risenByTwenty,risenByTwenty] := by
  refine ⟨_,_,_,_,rfl,rfl,rfl,?_⟩
  intro ⟨_,_,moved,fine,_⟩
  cases moved
  rcases fine.1 none (by decide) with impossible | impossible
  · cases impossible
  · cases impossible

end GameServer.Scripts.Athletics
