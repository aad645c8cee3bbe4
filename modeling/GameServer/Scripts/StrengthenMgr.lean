import GameServer.Library.History
import GameServer.Library.Quotas
import Mathlib.Algebra.Ring.Int.Defs

namespace GameServer.Scripts.StrengthenMgr
open History Quotas

-- How often an item counts, and how many souls it gives. Item 13 is to give
-- souls once and grades ten times.
def checkFlags : List Nat :=
  [5,1,1,24,6,2,1,1,1,12,7,1,5,10,8,6,1,7,1,1,14,1,1,1,1,1,1,1,1,1,1,1,1,1,1,1,1,1,1,1,1,5,1,1,1,1,1,1,1,1,1,1,1,1,1,1,1,1,1,1,1,1,5,
    1,1,1,1,1,1,1,1,1,1,1,1,1,1,1]

def souls : List Nat :=
  [1,3,1,1,5,5,3,3,1,1,5,3,1,1,3,1,1,5,1,3,1,1,1,1,1,1,1,1,1,1,1,1,1,1,1,1,1,1,1,1,5,1,5,1,1,3,1,1,1,1,1,1,1,1,1,1,1,1,1,1,1,5,3,
    1,1,3,1,5,1,1,1,1,1,1,1,1,1,1]

def checkFlag (id : Nat) : Option Nat := checkFlags[id]?
def addSouls (id : Nat) : Option Nat := souls[id]?

-- The items of each day, from day 1.
def grade11 (day : Int) : Option (List (Nat × Nat)) :=
  if day < 1 then none
  else
    [[(10,5),(17,5),(4,4),(19,1),(13,10),(5,1)],[(10,5),(17,5),(4,4),(37,1),(5,1),(19,1)],
      [(10,5),(17,5),(4,4),(16,3),(12,5),(14,3)],[(10,5),(17,5),(4,4),(19,1),(13,10),(5,1)],
      [(10,5),(17,5),(4,6),(18,5),(5,1),(19,1)],[(13,10),(37,1),(41,1),(11,1),(10,5),(4,4)],
      [(10,5),(13,10),(14,3),(4,6),(19,1),(17,5)],[(10,7),(5,2),(20,6),(4,4),(42,1),(40,1)],
      [(18,1),(12,1),(17,7),(42,1),(40,1),(11,1)],[(14,3),(20,6),(37,1),(16,3),(13,10),(5,2)],
      [(14,3),(17,5),(10,5),(6,1),(20,6),(12,1)]][(day-1).toNat]?

def GetGradeCheckFlag (idx : Nat) (day : Int) : Option Nat :=
  if day > 5 then some 0
  else match grade11 day with
    | none => some 0
    | some max => (max.find? (·.1 = idx)).map (·.2)

-- The methods of a player and of its StrengthenMgr. Flags are bytes at least,
-- CheckTimeOver clears them when another day has begun, and then only; nothing
-- else than UpdateFlag sets them.
structure Players (μ : Type _) where
  GetFlag : μ → Nat → Nat
  UpdateFlag : μ → Nat → Nat → μ
  AddSouls : μ → Nat → μ
  CheckTimeOver : μ → μ
  UpdateToDB : μ → μ
  Add11grade : μ → Nat → μ
  Today : μ → Prop
  flag_update : ∀ m id value, value < 256 → GetFlag (UpdateFlag m id value) = Function.update (GetFlag m) id value
  flag_souls : ∀ m souls, GetFlag (AddSouls m souls) = GetFlag m
  flag_db : ∀ m, GetFlag (UpdateToDB m) = GetFlag m
  flag_grade : ∀ m grade, GetFlag (Add11grade m grade) = GetFlag m
  today_over : ∀ m, Today (CheckTimeOver m)
  today_update : ∀ m id value, Today m → Today (UpdateFlag m id value)
  today_souls : ∀ m souls, Today m → Today (AddSouls m souls)
  today_db : ∀ m, Today m → Today (UpdateToDB m)
  today_grade : ∀ m grade, Today m → Today (Add11grade m grade)
  over_today : ∀ m, Today m → CheckTimeOver m = m
  over_reset : ∀ m, ¬ Today m → ∀ id, GetFlag (CheckTimeOver m) id = 0

-- The table as it is now and the players. `souls` and `grades` are the calls of
-- AddSouls and Add11grade that were made, by player and item.
structure State (ρ μ : Type _) where
  checkFlag : Nat → Option Nat
  player : ρ → μ
  souls : List (ρ × Nat)
  grades : List (ρ × Nat)

-- The entries that a call may write, of which it writes that of its item.
def rewrites (num : Int) : List (Nat × Nat) :=
  if num > 0 ∧ num < 6 then [(16,3),(37,2),(18,5),(12,5)] else [(16,1),(37,1),(18,1),(12,1)]

def rewritten (num : Int) (id : Nat) (table : Nat → Option Nat) : Nat → Option Nat :=
  (rewrites num).foldl (fun table entry => if id = entry.1 then Function.update table id (some entry.2) else table) table

section script
variable {ρ μ : Type _} [DecidableEq ρ] (P : Players μ) (num : Int)

def on (who : ρ) (method : μ → μ) (s : State ρ μ) : State ρ μ :=
  {s with player := Function.update s.player who (method (s.player who))}

-- `none`: nil is compared with a number.
def do11Grade (who : ρ) (id : Nat) (s : State ρ μ) : Option (State ρ μ) :=
  if num > 5 ∨ num = 0 then some s
  else match addSouls id,grade11 num with
    | some _,some dayTask =>
      let s := on who P.CheckTimeOver s
      let curflag := P.GetFlag (s.player who) id
      match dayTask.find? (·.1 = id) with
      | none => some s
      | some task =>
        if curflag ≥ task.2 then some s
        else match s.checkFlag id with
          | none => none
          | some most =>
            if curflag ≥ most then some s
            else some {on who (P.Add11grade · 10) s with grades := s.grades++[(who,id)]}
    | _,_ => some s

-- The part of doStrong that follows on the table.
def flagUp (who : ρ) (id : Nat) (s : State ρ μ) : State ρ μ :=
  match addSouls id,s.checkFlag id with
  | some as,some needflag =>
    let s := on who P.CheckTimeOver s
    let curflag := P.GetFlag (s.player who) id
    if curflag ≥ needflag then s
    else
      let s := on who (P.UpdateFlag · id (curflag+1)) s
      if id = 13 ∧ curflag > 1 then on who P.UpdateToDB s
      else on who P.UpdateToDB {on who (P.AddSouls · as) s with souls := s.souls++[(who,id)]}
  | _,_ => s

-- A call, by player and item; there is no answer.
def doStrong (s : State ρ μ) (call : ρ × Nat) : Option (Unit × State ρ μ) :=
  let s := {s with checkFlag := rewritten num call.2 s.checkFlag}
  (if num > 0 ∧ num < 6 then do11Grade P num call.1 call.2 s else some s).map fun s => ((),flagUp P call.1 call.2 s)

-- What a state of the day has to keep; a flag is read as the script reads it.
structure Kept (s : State ρ μ) : Prop where
  flags : ∀ who id most, s.checkFlag id = some most → P.GetFlag (P.CheckTimeOver (s.player who)) id ≤ most
  souls : ∀ who id most, s.checkFlag id = some most → s.souls.count (who,id) ≤ most
  athletics : ∀ who, s.souls.count (who,13) ≤ 1
  grades : ∀ who id most, s.checkFlag id = some most → s.grades.count (who,id) ≤ min most ((GetGradeCheckFlag id num).getD 0)

end script

-- A day begins: the table as the calls of earlier days left it, and players
-- whose flags are those of another day or not raised.
structure Dawn (P : Players μ) (ρ : Type _) where
  checkFlag : Nat → Option Nat
  player : ρ → μ
  left : ∃ calls : List (Int × Nat), checkFlag = calls.foldl (fun table call => rewritten call.1 call.2 table) StrengthenMgr.checkFlag
  stale : ∀ who, P.Today (player who) → ∀ id, P.GetFlag (player who) id = 0

def Dawn.state {P : Players μ} (d : Dawn P ρ) : State ρ μ := ⟨d.checkFlag,d.player,[],[]⟩

def dayFlag (num : Int) (id : Nat) : Option Nat := rewritten num id checkFlag id

section tables
variable {num : Int} {id other : Nat} {table : Nat → Option Nat}

theorem rewritten_other (num : Int) (table : Nat → Option Nat) (differ : other ≠ id) : rewritten num id table other = table other := by
  unfold rewritten
  generalize rewrites num = entries
  induction entries generalizing table with
  | nil => rfl
  | cons entry entries ih =>
      rw [List.foldl_cons,ih]
      split
      · exact Function.update_of_ne differ ..
      · rfl

-- Of what was there nothing is left, or nothing is written there.
theorem rewritten_self (num : Int) (id : Nat) :
    (∃ value, (id,value) ∈ rewrites num ∧ ∀ table, rewritten num id table id = some value) ∨
      (∀ value, (id,value) ∉ rewrites num) ∧ ∀ table, rewritten num id table id = table id := by
  unfold rewritten
  generalize rewrites num = entries
  induction entries with
  | nil => exact .inr ⟨by simp,fun _ => rfl⟩
  | cons entry entries ih =>
      simp only [List.foldl_cons]
      obtain ⟨value,member,all⟩ | ⟨absent,never⟩ := ih
      · exact .inl ⟨value,List.mem_cons_of_mem _ member,fun table => all _⟩
      · by_cases here : id = entry.1
        · refine .inl ⟨entry.2,by simp [here],?_⟩
          intro table
          rw [never,if_pos here,Function.update_self]
        · refine .inr ⟨?_,?_⟩
          · intro value member
            obtain same | later := List.mem_cons.mp member
            · exact here (congrArg Prod.fst same)
            · exact absent value later
          · intro table
            rw [never,if_neg here]

theorem rewrites_items (num : Int) (id : Nat) : (∃ value, (id,value) ∈ rewrites num) ↔ id ∈ [16,37,18,12] := by
  have items : (rewrites num).map Prod.fst = [16,37,18,12] := by
    unfold rewrites
    split
    · rfl
    · rfl
  rw [←items]
  simp

theorem rewrites_small (num : Int) : ∀ entry ∈ rewrites num, entry.2 < 256 := by
  unfold rewrites
  split
  · decide
  · decide

theorem rewritten_again (first second : Int) (id : Nat) (table : Nat → Option Nat) :
    rewritten second id (rewritten first id table) id = rewritten second id table id := by
  obtain ⟨value,_,all⟩ | ⟨absent,never⟩ := rewritten_self second id
  · rw [all,all]
  · obtain ⟨value,member,_⟩ | ⟨_,neither⟩ := rewritten_self first id
    · obtain ⟨other,here⟩ := (rewrites_items second id).mpr ((rewrites_items first id).mp ⟨value,member⟩)
      exact absurd here (absent other)
    · rw [never,never,neither]

theorem rewritten_congr (num : Int) {one another : Nat → Option Nat} (same : one id = another id) :
    rewritten num id one id = rewritten num id another id := by
  obtain ⟨value,_,all⟩ | ⟨_,never⟩ := rewritten_self num id
  · rw [all,all]
  · rw [never,never,same]

-- Whatever earlier days left in the table, a call finds the entry of its day.
theorem left_day (num : Int) (id : Nat) (calls : List (Int × Nat)) :
    rewritten num id (calls.foldl (fun table call => rewritten call.1 call.2 table) checkFlag) id = dayFlag num id := by
  generalize begin : checkFlag = table
  have same : rewritten num id table id = dayFlag num id := by rw [←begin]; rfl
  clear begin
  induction calls generalizing table with
  | nil => exact same
  | cons call calls ih =>
      refine ih _ ?_
      by_cases own : call.2 = id
      · subst own
        rw [rewritten_again,same]
      · rw [rewritten_congr num (rewritten_other call.1 table (Ne.symm own)),same]

theorem checkFlags_small : ∀ most ∈ checkFlags, most < 256 := by decide

theorem dayFlag_some (num : Int) (id : Nat) : ((dayFlag num id).isSome ↔ (addSouls id).isSome) ∧ ∀ most, dayFlag num id = some most → most < 256 := by
  have size : (addSouls id).isSome ↔ id < 78 := by
    rw [addSouls,isSome_getElem?]
    rfl
  rw [size]
  obtain ⟨value,member,all⟩ | ⟨_,never⟩ := rewritten_self num id
  · have items : ∀ item ∈ [16,37,18,12], item < 78 := by decide
    rw [dayFlag,all]
    refine ⟨iff_of_true rfl (items id ((rewrites_items num id).mp ⟨value,member⟩)),?_⟩
    intro most same
    cases same
    exact rewrites_small num _ member
  · rw [dayFlag,never,checkFlag]
    refine ⟨?_,?_⟩
    · rw [isSome_getElem?]
      rfl
    · intro most entry
      exact checkFlags_small most (List.mem_of_getElem? entry)

end tables

section reading
variable {ρ μ : Type _} {P : Players μ} {num : Int} {s : State ρ μ} {who : ρ} {id : Nat}

-- What the script reads of a player's flags that day, by player and item.
def seen (P : Players μ) (s : State ρ μ) (key : ρ × Nat) : Nat := P.GetFlag (P.CheckTimeOver (s.player key.1)) key.2

-- The limits of an item whose table entry is `most`.
def soulLimit (id most : Nat) : Nat := if id = 13 then min most 2 else most
def gradeLimit (num : Int) (id most : Nat) : Nat := min most ((GetGradeCheckFlag id num).getD 0)

theorem soulLimit_le (id most : Nat) : soulLimit id most ≤ most := by
  unfold soulLimit
  split
  · exact Nat.min_le_left ..
  · exact Nat.le_refl _

theorem gradeLimit_out (out : ¬(num > 0 ∧ num < 6)) (id most : Nat) : gradeLimit num id most = 0 := by
  have flag : GetGradeCheckFlag id num = some 0 := by
    unfold GetGradeCheckFlag
    split
    · rfl
    · have before : num < 1 := by omega
      rw [grade11,if_pos before]
  rw [gradeLimit,flag,Option.getD_some,Nat.min_zero]

-- The cap of a key is the entry that its calls find in the table.
def cap (num : Int) (key : ρ × Nat) : Nat := (dayFlag num key.2).getD 0

theorem athletics_limit (num : Int) (who : ρ) : soulLimit 13 (cap num (who,13)) = 2 := by
  have entry : dayFlag num 13 = some 10 := by
    obtain ⟨value,member,_⟩ | ⟨_,never⟩ := rewritten_self num 13
    · exact absurd ((rewrites_items num 13).mp ⟨value,member⟩) (by decide)
    · exact never checkFlag
  rw [cap,entry]
  rfl

structure Graded (P : Players μ) (num : Int) (who : ρ) (id most : Nat) (s s' : State ρ μ) : Prop where
  table : s'.checkFlag = s.checkFlag
  flags : seen P s' = seen P s
  souls : s'.souls = s.souls
  grades : s'.grades = s.grades++if seen P s (who,id) < gradeLimit num id most then [(who,id)] else []

theorem graded_still {most : Nat} {s' : State ρ μ} (past : gradeLimit num id most ≤ seen P s (who,id)) (flags : seen P s' = seen P s)
    (table : s'.checkFlag = s.checkFlag) (souls : s'.souls = s.souls) (grades : s'.grades = s.grades) : Graded P num who id most s s' := by
  refine ⟨table,flags,souls,?_⟩
  rw [if_neg (Nat.not_lt.mpr past),List.append_nil,grades]

end reading

section calls
variable {ρ μ : Type _} [DecidableEq ρ] {P : Players μ} {num : Int} {s : State ρ μ} {who : ρ} {id : Nat}

theorem player_on (who : ρ) (method : μ → μ) (s : State ρ μ) : (on who method s).player who = method (s.player who) := Function.update_self ..

theorem today_on {method : μ → μ} (today : P.Today (method (s.player who))) : P.Today ((on who method s).player who) := by
  rwa [player_on]

theorem player_other {other : ρ} (method : μ → μ) (s : State ρ μ) (differ : other ≠ who) : (on who method s).player other = s.player other :=
  Function.update_of_ne differ ..

theorem seen_on {method : μ → μ} (same : P.GetFlag (P.CheckTimeOver (method (s.player who))) = P.GetFlag (P.CheckTimeOver (s.player who))) :
    seen P (on who method s) = seen P s := by
  funext key
  rw [seen,seen]
  by_cases own : key.1 = who
  · rw [own,player_on,same]
  · rw [player_other _ _ own]

theorem seen_over (who : ρ) (s : State ρ μ) : seen P (on who P.CheckTimeOver s) = seen P s :=
  seen_on (by rw [P.over_today _ (P.today_over _)])

-- A method that leaves the flags leaves them as read, on the day.
theorem seen_method {method : μ → μ} (now : P.Today (s.player who)) (flags : ∀ m, P.GetFlag (method m) = P.GetFlag m)
    (today : ∀ m, P.Today m → P.Today (method m)) : seen P (on who method s) = seen P s := by
  refine seen_on ?_
  rw [P.over_today _ (today _ now),P.over_today _ now,flags]

theorem seen_update {value : Nat} (now : P.Today (s.player who)) (small : value < 256) :
    seen P (on who (P.UpdateFlag · id value) s) = Function.update (seen P s) (who,id) value := by
  funext key
  by_cases own : key.1 = who
  · rw [seen,own,player_on,P.over_today _ (P.today_update _ _ _ now),P.flag_update _ _ _ small]
    by_cases item : key.2 = id
    · rw [show key = (who,id) from Prod.ext own item,Function.update_self,Function.update_self]
    · rw [Function.update_of_ne item,Function.update_of_ne (fun same => item (congrArg Prod.snd same)),seen,own,P.over_today _ now]
  · rw [seen,player_other _ _ own,Function.update_of_ne (fun same => own (congrArg Prod.fst same)),seen]

theorem flag_over (who : ρ) (id : Nat) (s : State ρ μ) : P.GetFlag ((on who P.CheckTimeOver s).player who) id = seen P s (who,id) := by
  rw [player_on,seen]

theorem do11Grade_spec (day : num > 0 ∧ num < 6) (listed : (s.checkFlag id).isSome ↔ (addSouls id).isSome) :
    ∃ s', do11Grade P num who id s = some s' ∧ Graded P num who id ((s.checkFlag id).getD 0) s s' := by
  have early : ¬(num > 5 ∨ num = 0) := by omega
  have late : ¬num > 5 := by omega
  unfold do11Grade
  rw [if_neg early]
  cases as : addSouls id with
  | none =>
      refine ⟨s,rfl,graded_still ?_ rfl rfl rfl rfl⟩
      have absent : s.checkFlag id = none := by
        rw [as] at listed
        simpa using listed
      rw [absent,Option.getD_none,gradeLimit,Nat.zero_min]
      exact Nat.zero_le _
  | some as =>
      obtain ⟨most,table⟩ : ∃ most, s.checkFlag id = some most := Option.isSome_iff_exists.mp (listed.mpr (by rw [as]; rfl))
      rw [table,Option.getD_some]
      cases tasks : grade11 num with
      | none =>
          refine ⟨s,rfl,graded_still ?_ rfl rfl rfl rfl⟩
          rw [gradeLimit,GetGradeCheckFlag,if_neg late,tasks]
          exact Nat.le_trans (Nat.min_le_right ..) (Nat.zero_le _)
      | some dayTask =>
          have limit : gradeLimit num id most = min most (((dayTask.find? (·.1 = id)).map (·.2)).getD 0) := by
            rw [gradeLimit,GetGradeCheckFlag,if_neg late,tasks]
          dsimp only
          rw [flag_over]
          cases found : dayTask.find? (·.1 = id) with
          | none =>
              refine ⟨_,rfl,graded_still ?_ (seen_over ..) rfl rfl rfl⟩
              rw [limit,found]
              exact Nat.le_trans (Nat.min_le_right ..) (Nat.zero_le _)
          | some task =>
              rw [found,Option.map_some,Option.getD_some] at limit
              dsimp only
              by_cases done : seen P s (who,id) ≥ task.2
              · rw [if_pos done]
                exact ⟨_,rfl,graded_still (limit ▸ Nat.le_trans (Nat.min_le_right ..) done) (seen_over ..) rfl rfl rfl⟩
              · rw [if_neg done,show (on who P.CheckTimeOver s).checkFlag id = some most from table]
                dsimp only
                by_cases full : seen P s (who,id) ≥ most
                · rw [if_pos full]
                  exact ⟨_,rfl,graded_still (limit ▸ Nat.le_trans (Nat.min_le_left ..) full) (seen_over ..) rfl rfl rfl⟩
                · rw [if_neg full]
                  refine ⟨_,rfl,rfl,?_,rfl,?_⟩
                  · have now : P.Today ((on who P.CheckTimeOver s).player who) := today_on (P.today_over _)
                    exact (seen_method now (P.flag_grade · 10) (P.today_grade · 10)).trans (seen_over ..)
                  · have below : seen P s (who,id) < gradeLimit num id most := by
                      rw [limit]
                      omega
                    rw [if_pos below]
                    rfl

structure Flagged (P : Players μ) (who : ρ) (id most : Nat) (s s' : State ρ μ) : Prop where
  table : s'.checkFlag = s.checkFlag
  flags : seen P s' = Function.update (seen P s) (who,id) (if seen P s (who,id) < most then seen P s (who,id)+1 else seen P s (who,id))
  souls : s'.souls = s.souls++if seen P s (who,id) < soulLimit id most then [(who,id)] else []
  grades : s'.grades = s.grades

theorem flagged_still {most : Nat} {s' : State ρ μ} (past : most ≤ seen P s (who,id)) (flags : seen P s' = seen P s)
    (table : s'.checkFlag = s.checkFlag) (souls : s'.souls = s.souls) (grades : s'.grades = s.grades) : Flagged P who id most s s' := by
  refine ⟨table,?_,?_,grades⟩
  · rw [if_neg (Nat.not_lt.mpr past),Function.update_eq_self,flags]
  · rw [if_neg (Nat.not_lt.mpr (Nat.le_trans (soulLimit_le ..) past)),List.append_nil,souls]

theorem flagUp_spec (listed : (s.checkFlag id).isSome ↔ (addSouls id).isSome) (small : ∀ most, s.checkFlag id = some most → most < 256) :
    Flagged P who id ((s.checkFlag id).getD 0) s (flagUp P who id s) := by
  unfold flagUp
  cases table : s.checkFlag id with
  | none =>
      have absent : addSouls id = none := by
        rw [table] at listed
        simpa using listed.symm
      rw [absent]
      exact flagged_still (Nat.zero_le _) rfl rfl rfl rfl
  | some most =>
      obtain ⟨as,souls⟩ : ∃ as, addSouls id = some as := Option.isSome_iff_exists.mp (listed.mp (by rw [table]; rfl))
      rw [souls,Option.getD_some]
      dsimp only
      rw [flag_over]
      by_cases full : seen P s (who,id) ≥ most
      · rw [if_pos full]
        exact flagged_still full (seen_over ..) rfl rfl rfl
      · rw [if_neg full]
        have bound := small most table
        have now : P.Today ((on who P.CheckTimeOver s).player who) := today_on (P.today_over _)
        have up : seen P (on who (P.UpdateFlag · id (seen P s (who,id)+1)) (on who P.CheckTimeOver s)) =
            Function.update (seen P s) (who,id) (if seen P s (who,id) < most then seen P s (who,id)+1 else seen P s (who,id)) := by
          rw [if_pos (Nat.lt_of_not_le full),seen_update now (by omega),seen_over]
        have later : P.Today ((on who (P.UpdateFlag · id (seen P s (who,id)+1)) (on who P.CheckTimeOver s)).player who) :=
          today_on (P.today_update _ _ _ now)
        by_cases athletics : id = 13 ∧ seen P s (who,id) > 1
        · rw [if_pos athletics]
          refine ⟨rfl,?_,?_,rfl⟩
          · rw [seen_method later P.flag_db P.today_db,up]
          · have beyond : ¬seen P s (who,id) < soulLimit id most := by
              rw [soulLimit,if_pos athletics.1]
              omega
            rw [if_neg beyond,List.append_nil]
            rfl
        · rw [if_neg athletics]
          refine ⟨rfl,?_,?_,rfl⟩
          · have paid : P.Today ((on who (P.AddSouls · as) (on who (P.UpdateFlag · id (seen P s (who,id)+1)) (on who P.CheckTimeOver s))).player who) :=
              today_on (P.today_souls _ _ later)
            exact (seen_method paid P.flag_db P.today_db).trans ((seen_method later (P.flag_souls · as) (P.today_souls · as)).trans up)
          · have below : seen P s (who,id) < soulLimit id most := by
              unfold soulLimit
              split
              · omega
              · omega
            rw [if_pos below]
            rfl

structure Day (P : Players μ) (num : Int) (made : List (ρ × Nat)) (s : State ρ μ) : Prop where
  left : ∃ calls : List (Int × Nat), s.checkFlag = calls.foldl (fun table call => rewritten call.1 call.2 table) checkFlag
  called : ∀ key ∈ made, s.checkFlag key.2 = dayFlag num key.2
  flags : seen P s = used (cap num) made
  souls : Paid (fun key => soulLimit key.2 (cap num key)) made s.souls
  grades : Paid (fun key => gradeLimit num key.2 (cap num key)) made s.grades

theorem doStrong_day {made : List (ρ × Nat)} (day : Day P num made s) (call : ρ × Nat) :
    ∃ next, doStrong P num s call = some ((),next) ∧ Day P num (made++[call]) next := by
  obtain ⟨who,id⟩ := call
  obtain ⟨calls,left⟩ := day.left
  obtain ⟨listed,small⟩ := dayFlag_some num id
  let begun : State ρ μ := {s with checkFlag := rewritten num id s.checkFlag}
  have entry : begun.checkFlag id = dayFlag num id := by
    rw [show begun.checkFlag = rewritten num id s.checkFlag from rfl,left,left_day]
  obtain ⟨graded,ran,grading⟩ : ∃ graded, (if num > 0 ∧ num < 6 then do11Grade P num who id begun else some begun) = some graded ∧
      Graded P num who id (cap num (who,id)) begun graded := by
    by_cases within : num > 0 ∧ num < 6
    · rw [if_pos within,cap,←entry]
      exact do11Grade_spec within (entry ▸ listed)
    · rw [if_neg within]
      refine ⟨begun,rfl,graded_still ?_ rfl rfl rfl rfl⟩
      rw [gradeLimit_out within]
      exact Nat.zero_le _
  have entry' : graded.checkFlag id = dayFlag num id := by rw [grading.table,entry]
  have flagging : Flagged P who id (cap num (who,id)) graded (flagUp P who id graded) := by
    rw [cap,←entry']
    exact flagUp_spec (entry' ▸ listed) (entry' ▸ small)
  have flags : seen P begun = used (cap num) made := day.flags
  refine ⟨flagUp P who id graded,?_,?_⟩
  · rw [doStrong,ran]
    rfl
  · constructor
    · refine ⟨calls++[(num,id)],?_⟩
      rw [flagging.table,grading.table,List.foldl_append,←left]
      rfl
    · intro key member
      rw [flagging.table,grading.table]
      by_cases own : key.2 = id
      · rw [own,entry]
      · obtain earlier | now := List.mem_append.mp member
        · exact (rewritten_other num s.checkFlag own).trans (day.called key earlier)
        · exact absurd (congrArg Prod.snd (List.mem_singleton.mp now)) own
    · rw [flagging.flags,grading.flags,flags,used_next]
    · rw [flagging.souls,grading.souls,grading.flags,flags]
      exact paid_next (soulLimit_le ..) day.souls
    · rw [flagging.grades,grading.grades,flags]
      exact paid_next (Nat.min_le_left ..) day.grades

theorem day_after {P : Players μ} (num : Int) (d : Dawn P ρ) (calls : List (ρ × Nat)) :
    ∃ s, after (doStrong P num) d.state calls = some s ∧ Day P num calls s := by
  refine after_inv ?_ (fun made s call day => ?_) calls
  · refine ⟨d.left,by simp,?_,paid_nil _,paid_nil _⟩
    funext key
    rw [used_nil,seen]
    by_cases now : P.Today (d.player key.1)
    · exact (congrFun (congrArg P.GetFlag (P.over_today _ now)) key.2).trans (d.stale _ now key.2)
    · exact P.over_reset _ now key.2
  · obtain ⟨next,ran,kept⟩ := doStrong_day day call
    exact ⟨(),next,ran,kept⟩

-- A key that was called for has the cap that the table shows, and nothing is
-- used of another.
theorem used_entry {made : List (ρ × Nat)} {most : Nat} (day : Day P num made s) (limit : Nat → Nat → Nat) (key : ρ × Nat)
    (entry : s.checkFlag key.2 = some most) : used (fun key => limit key.2 (cap num key)) made key ≤ limit key.2 most := by
  by_cases member : key ∈ made
  · have same : cap num key = most := by rw [cap,←day.called key member,entry,Option.getD_some]
    rw [←same]
    exact used_le (fun key => limit key.2 (cap num key)) made key
  · rw [used_unmade member]
    exact Nat.zero_le _

-- Everything is kept but the souls for item 13, which may be given twice.
theorem kept_iff {made : List (ρ × Nat)} (day : Day P num made s) : Kept P num s ↔ ∀ who, made.count (who,13) ≤ 1 := by
  have athletics (who : ρ) : s.souls.count (who,13) = min 2 (made.count (who,13)) := by
    rw [day.souls (who,13),used,athletics_limit]
  constructor
  · intro kept who
    have once := kept.athletics who
    rw [athletics] at once
    omega
  · intro once
    constructor
    · intro who id most entry
      have read : P.GetFlag (P.CheckTimeOver (s.player who)) id = used (cap num) made (who,id) := congrFun day.flags (who,id)
      rw [read]
      exact used_entry day (fun _ most => most) (who,id) entry
    · intro who id most entry
      rw [day.souls (who,id)]
      exact Nat.le_trans (used_entry day soulLimit (who,id) entry) (soulLimit_le ..)
    · intro who
      rw [athletics]
      exact Nat.le_trans (Nat.min_le_right ..) (once who)
    · intro who id most entry
      rw [day.grades (who,id)]
      exact used_entry day (gradeLimit num) (who,id) entry

theorem strong_iff (P : Players μ) (num : Int) (d : Dawn P ρ) (calls : List (ρ × Nat)) :
    (∀ before, before <+: calls → ∃ s, after (doStrong P num) d.state before = some s ∧ Kept P num s) ↔
      ∀ who, calls.count (who,13) ≤ 1 := by
  constructor
  · intro every who
    obtain ⟨s,ran,kept⟩ := every calls List.prefix_rfl
    obtain ⟨_,same,day⟩ := day_after num d calls
    cases Option.some.inj (ran.symm.trans same)
    exact (kept_iff day).mp kept who
  · intro once before begins
    obtain ⟨s,ran,day⟩ := day_after num d before
    refine ⟨s,ran,(kept_iff day).mpr ?_⟩
    intro who
    exact Nat.le_trans (begins.sublist.count_le _) (once who)

end calls

-- A manager whose flags are bytes.
structure Desk where
  today : Bool
  flag : Nat → Nat
  souls : Nat
  grade : Nat

def desks : Players Desk where
  GetFlag m id := m.flag id
  UpdateFlag m id value := {m with flag := Function.update m.flag id (value%256)}
  AddSouls m as := {m with souls := m.souls+as}
  CheckTimeOver m := if m.today then m else {m with today := true,flag := fun _ => 0}
  UpdateToDB m := m
  Add11grade m grade := {m with grade := m.grade+grade}
  Today m := m.today
  flag_update m id value small := by simp only [Nat.mod_eq_of_lt small]
  flag_souls _ _ := rfl
  flag_db _ := rfl
  flag_grade _ _ := rfl
  today_over m := by
    by_cases now : m.today
    · simp [now]
    · simp [now]
  today_update _ _ _ now := now
  today_souls _ _ now := now
  today_db _ now := now
  today_grade _ _ now := now
  over_today m now := if_pos now
  over_reset m other id := by rw [if_neg other]

def monday : Dawn desks Unit where
  checkFlag := checkFlag
  player _ := ⟨false,fun _ => 0,0,0⟩
  left := ⟨[],rfl⟩
  stale _ now := nomatch now

-- The second of two calls finds the flag at 1, which is not over 1.
theorem athletics_twice : ¬∀ before, before <+: [((),13),((),13)] →
    ∃ s, after (doStrong desks 0) monday.state before = some s ∧ Kept desks 0 s := by
  intro every
  obtain ⟨s,ran,kept⟩ := every _ List.prefix_rfl
  have once := kept.athletics ()
  have twice : (after (doStrong desks 0) monday.state [((),13),((),13)]).map (·.souls) = some [((),13),((),13)] := by decide
  rw [ran] at twice
  rw [Option.map_some,Option.some.injEq] at twice
  rw [twice] at once
  cases once with
  | step less => cases less

end GameServer.Scripts.StrengthenMgr
