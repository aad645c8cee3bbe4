import GameServer.Common.TimeUtil
import Mathlib.Data.Set.Defs

namespace GameServer.TimeUtil
open Calendar

section zone
variable (offset : Int32)

-- tm_yday stays as it was on the stack; mktime does not read it.
def MkTime (y m d hh mm ss : UInt32) : UInt32 :=
  let t_tm : tm :=
    {tm_year := if y < 1900 then 0 else (y-1900).toInt32.toInt
     tm_mon := if m%13 ≠ 0 then (m%13).toNat-1 else 0
     tm_mday := if d%32 ≠ 0 then (d%32).toNat else 1
     tm_hour := if hh%25 ≠ 0 then (hh%24).toNat-1 else 0
     tm_min := if mm%61 ≠ 0 then (mm%61).toNat-1 else 0
     tm_sec := if ss%61 ≠ 0 then (ss%61).toNat-1 else 0
     tm_yday := 0}
  UInt32.ofInt (mktime offset t_tm)

-- MkTime of the calendar fields of a time, with its time of day or that of the
-- default arguments.
def remade (t : UInt32) : UInt32 :=
  let l := localtime_r offset t.toNat
  MkTime offset (UInt32.ofInt (l.tm_year+1900)) (UInt32.ofInt (l.tm_mon+1)) (UInt32.ofInt l.tm_mday)
    (UInt32.ofInt l.tm_hour) (UInt32.ofInt l.tm_min) (UInt32.ofInt l.tm_sec)

def remadeDay (t : UInt32) : UInt32 :=
  let l := localtime_r offset t.toNat
  MkTime offset (UInt32.ofInt (l.tm_year+1900)) (UInt32.ofInt (l.tm_mon+1)) (UInt32.ofInt l.tm_mday) 0 0 0

-- MkTime takes the fields of these times back to them.
structure Inverse (times : Set UInt32) : Prop where
  back : ∀ t ∈ times, remade offset t = t
  injective : ∀ a ∈ times, ∀ b ∈ times, remade offset a = remade offset b → a = b
  sharp : ∀ t ∈ times, remadeDay offset t = SharpDayT offset 0 t

def Midnight (t : UInt32) : Prop :=
  let l := localtime_r offset t.toNat
  l.tm_hour = 0 ∧ l.tm_min = 0 ∧ l.tm_sec = 0

end zone

-- An hour, a minute or a second but 0 counts as the one before.
def before (field : Nat) : Int := if field ≠ 0 then field-1 else 0

theorem hour_before {h : Nat} (few : h < 24) :
    (if UInt32.ofInt h%25 ≠ 0 then ((UInt32.ofInt h%24).toNat : Int)-1 else 0) = before h := by
  revert h
  decide

theorem sixtieth_before {n : Nat} (few : n < 60) :
    (if UInt32.ofInt n%61 ≠ 0 then ((UInt32.ofInt n%61).toNat : Int)-1 else 0) = before n := by
  revert n
  decide

theorem month_read {m : Nat} (few : m ≤ 11) :
    (if UInt32.ofInt (m+1)%13 ≠ 0 then ((UInt32.ofInt (m+1)%13).toNat : Int)-1 else 0) = m := by
  revert m
  decide

theorem date_read {d : Nat} (some : 1 ≤ d) (few : d ≤ 31) :
    (if UInt32.ofInt d%32 ≠ 0 then ((UInt32.ofInt d%32).toNat : Int) else 1) = d := by
  revert d
  decide

theorem year_read {y : Nat} (late : 1900 ≤ y) (early : y ≤ 9999) :
    (if UInt32.ofInt y < 1900 then 0 else (UInt32.ofInt y-1900).toInt32.toInt) = y-1900 := by
  have value : (UInt32.ofInt y).toNat = y := by
    rw [UInt32.ofInt,UInt32.toNat_ofNat']
    omega
  have since : (UInt32.ofInt y-1900).toNat = y-1900 := by
    rw [UInt32.toNat_sub,value]
    change (2^32-1900+y)%2^32 = y-1900
    omega
  rw [if_neg (by rw [UInt32.lt_iff_toNat_lt,value]; exact Nat.not_lt.mpr late)]
  change (UInt32.ofInt y-1900).toBitVec.toInt = _
  rw [BitVec.toInt_eq_toNat_of_lt (by rw [UInt32.toNat_toBitVec,since]; omega),UInt32.toNat_toBitVec,since,Int.ofNat_sub late]
  rfl

-- MkTime for the date of a time and any time of day.
theorem mkTime_value (offset : Int32) (t : UInt32) {h m s : Nat} (hours : h < 24) (minutes : m < 60) (seconds : s < 60) :
    MkTime offset (UInt32.ofInt (yearOf (number offset t))) (UInt32.ofInt (monthOf (number offset t)+1))
        (UInt32.ofInt (dayOfMonth (number offset t))) (UInt32.ofInt h) (UInt32.ofInt m) (UInt32.ofInt s) =
      UInt32.ofInt (day offset t*86400+before h*3600+before m*60+before s-offset.toInt) := by
  have here := number_eq offset t
  have years := year_bounds offset t
  have recent : 1900 ≤ yearOf (number offset t) := by
    have bounds := day_bounds offset t
    have first : yearStart 1900 = 693595 := by decide
    have last : yearStart (9999+1) = 3652059 := by decide
    unfold epoch at here
    have range : 1900 ≤ yearOf (number offset t) ∧ yearOf (number offset t) ≤ 9999 := yearOf_bounds (by omega) (by omega)
    exact range.1
  have dates : 1 ≤ dayOfMonth (number offset t) := Nat.succ_le_succ (Nat.zero_le _)
  have back := dayNumber_date (number offset t)
  rw [MkTime,mktime]
  dsimp only
  rw [year_read recent years.2,month_read (monthOf_le _),date_read dates (dayOfMonth_le _),
    hour_before hours,sixtieth_before minutes,sixtieth_before seconds,Int.sub_add_cancel,Int.toNat_natCast,Int.toNat_natCast,
    Int.toNat_natCast,back,here,Int.add_sub_cancel]

-- The time of day of a time, and the time from its day and it.
theorem time_of_day (offset : Int32) (t : UInt32) : ∃ h m s : Nat, h < 24 ∧ m < 60 ∧ s < 60 ∧
    (localtime_r offset t.toNat).tm_hour = h ∧ (localtime_r offset t.toNat).tm_min = m ∧ (localtime_r offset t.toNat).tm_sec = s ∧
    (t.toNat : Int) = day offset t*86400+h*3600+m*60+s-offset.toInt := by
  have parts : ((t.toNat : Int)+offset.toInt)/3600%24 < 24 ∧ ((t.toNat : Int)+offset.toInt)/60%60 < 60 ∧
      ((t.toNat : Int)+offset.toInt)%60 < 60 := by omega
  refine ⟨(((t.toNat : Int)+offset.toInt)/3600%24).toNat,(((t.toNat : Int)+offset.toInt)/60%60).toNat,
    (((t.toNat : Int)+offset.toInt)%60).toNat,by omega,by omega,by omega,?_,?_,?_,?_⟩
  · exact (Int.toNat_of_nonneg (Int.emod_nonneg _ (by decide))).symm
  · exact (Int.toNat_of_nonneg (Int.emod_nonneg _ (by decide))).symm
  · exact (Int.toNat_of_nonneg (Int.emod_nonneg _ (by decide))).symm
  · unfold day
    omega

theorem before_same {n : Nat} : (n : Int)-1 ≤ before n ∧ (before n = n ↔ n = 0) ∧ before n ≤ n := by
  unfold before
  split <;> omega

theorem remade_iff (offset : Int32) (t : UInt32) : remade offset t = t ↔ Midnight offset t := by
  obtain ⟨h,m,s,hours,minutes,seconds,hourAt,minuteAt,secondAt,whole⟩ := time_of_day offset t
  have self : UInt32.ofInt t.toNat = t := by
    rw [← UInt32.toNat_inj,UInt32.ofInt,UInt32.toNat_ofNat']
    have few := t.toNat_lt
    omega
  have made : remade offset t = UInt32.ofInt (day offset t*86400+before h*3600+before m*60+before s-offset.toInt) := by
    rw [remade,hourAt,minuteAt,secondAt,localtime_date]
    simp only [Int.sub_add_cancel]
    exact mkTime_value offset t hours minutes seconds
  have hour := @before_same h
  have minute := @before_same m
  have second := @before_same s
  -- What is lost is one hour, one minute and one second at most.
  have lost : ∃ short : Int, (t.toNat : Int) = day offset t*86400+before h*3600+before m*60+before s-offset.toInt+short ∧
      (0 ≤ short ∧ short ≤ 3661) ∧ (short = 0 ↔ h = 0 ∧ m = 0 ∧ s = 0) :=
    ⟨(h-before h)*3600+(m-before m)*60+(s-before s),by omega,by omega,by omega⟩
  obtain ⟨short,total,⟨least,most⟩,none_lost⟩ := lost
  rw [made,Midnight,hourAt,minuteAt,secondAt]
  conv_lhs => rhs; rw [← self]
  rw [ofInt_inj,total]
  clear total whole made
  generalize day offset t*86400+before h*3600+before m*60+before s-offset.toInt = kept
  omega

-- For midnight it is the start of the day at any time.
theorem remadeDay_sharp (offset : Int32) (t : UInt32) : remadeDay offset t = SharpDayT offset 0 t := by
  have made := mkTime_value offset t (h := 0) (m := 0) (s := 0) (by decide) (by decide) (by decide)
  rw [remadeDay,localtime_date,sharp_day]
  simp only [Int.sub_add_cancel]
  refine made.trans (congrArg UInt32.ofInt ?_)
  change day offset t*86400+0*3600+0*60+0-offset.toInt = _
  omega

theorem inverse_iff (offset : Int32) (times : Set UInt32) : Inverse offset times ↔ ∀ t ∈ times, Midnight offset t := by
  constructor
  · intro inverse t member
    exact (remade_iff offset t).mp (inverse.back t member)
  · intro midnights
    have back (t : UInt32) (member : t ∈ times) : remade offset t = t := (remade_iff offset t).mpr (midnights t member)
    refine ⟨back,fun a first b second same => ?_,fun t _ => remadeDay_sharp offset t⟩
    rw [← back a first,← back b second,same]

-- One second past midnight and midnight are made the same.
theorem second_lost : ¬ ∀ (offset : Int32) (times : Set UInt32), Inverse offset times := by
  intro every
  have back := (every 0 Set.univ).back 1 trivial
  revert back
  decide +kernel

end GameServer.TimeUtil
