import GameServer.Common.MkTime

namespace GameServer.TimeUtil
open Calendar

-- Months out of range go over to the years; the other fields count as they are.
def normalized (t_tm : tm) : tm := {t_tm with tm_mon := t_tm.tm_mon%12,tm_year := t_tm.tm_year+t_tm.tm_mon/12}

-- The field of localtime_r that `tm` does not have. The epoch is a Thursday.
def tm_wday (offset : Int32) (t : Int) : Int := ((t+offset.toInt)/86400+4)%7

section zone
variable (offset : Int32)

-- The int product wraps around.
def SharpWeek (c : Int) (cur : UInt32) : UInt32 :=
  let wday := tm_wday offset cur.toNat
  let wday := if wday = 0 then 7 else wday
  let t := cur.toNat+((7*c+1-wday)*86400).bmod (2^32)
  SharpDayT offset 0 (UInt32.ofInt t)

def SharpMonth (c : Int) (cur : UInt32) : UInt32 :=
  let t_tm := localtime_r offset cur.toNat
  let mon := t_tm.tm_mon+c
  let t_tm := {t_tm with tm_year := t_tm.tm_year+mon.tdiv 12,tm_mon := mon.tmod 12,tm_mday := 1,tm_hour := 0,tm_min := 0,tm_sec := 0}
  UInt32.ofInt (mktime offset (normalized t_tm))

-- Months are counted from January of the year 0 on.
def month (t : UInt32) : Int := 12*((localtime_r offset t.toNat).tm_year+1900)+(localtime_r offset t.toNat).tm_mon

-- The day of the Monday of the week of a time.
def monday (t : UInt32) : Int := day offset t-(day offset t+3)%7

def dayInstant (n : Int) : Int := n*86400-offset.toInt

def monthInstant (k : Int) : Int := dayInstant offset ((dayNumber (k/12).toNat (k%12).toNat 1 : Int)-epoch)

def Fits (instant : Int) : Prop := 0 ≤ instant ∧ instant < 2^32

-- No zone is farther than 17 hours from Greenwich. If it were, the new Monday
-- at the old time of day would have to fit as well.
def WeekFits (cur : UInt32) (c : Int) : Prop :=
  Fits (dayInstant offset (monday offset cur+7*c)) ∧
    (-61200 ≤ offset.toInt ∧ offset.toInt ≤ 61200 ∨
      Fits (dayInstant offset (monday offset cur+7*c)+(cur.toNat+offset.toInt)%86400))

structure Laws (cur : UInt32) : Prop where
  first : ∀ a, Fits (monthInstant offset (month offset cur+a)) →
    month offset (SharpMonth offset a cur) = month offset cur+a ∧
      (localtime_r offset (SharpMonth offset a cur).toNat).tm_mday = 1 ∧ Midnight offset (SharpMonth offset a cur)
  months : ∀ a b, Fits (monthInstant offset (month offset cur+a)) →
    SharpMonth offset (a+b) cur = SharpMonth offset b (SharpMonth offset a cur)
  mondays : ∀ a, WeekFits offset cur a →
    day offset (SharpWeek offset a cur) = monday offset cur+7*a ∧ tm_wday offset (SharpWeek offset a cur).toNat = 1 ∧
      Midnight offset (SharpWeek offset a cur)
  weeks : ∀ a b, WeekFits offset cur a → WeekFits offset cur (a+b) →
    SharpWeek offset (a+b) cur = SharpWeek offset b (SharpWeek offset a cur)

end zone

section instants
variable {offset : Int32}

theorem fits_toNat {x : Int} (fits : Fits x) : ((UInt32.ofInt x).toNat : Int) = x := by
  obtain ⟨least,most⟩ := fits
  rw [UInt32.ofInt,UInt32.toNat_ofNat']
  omega

-- The instant of a day is its first.
theorem instant_day {n : Int} (fits : Fits (dayInstant offset n)) :
    day offset (UInt32.ofInt (dayInstant offset n)) = n ∧ Midnight offset (UInt32.ofInt (dayInstant offset n)) := by
  have whole : dayInstant offset n+offset.toInt = n*86400 := by unfold dayInstant; omega
  refine ⟨?_,?_,?_,?_⟩
  · rw [day,fits_toNat fits,whole]
    omega
  all_goals rw [fits_toNat fits,localtime_r,whole]
  all_goals dsimp only
  all_goals omega

end instants

section months
variable (offset : Int32) (cur : UInt32)

theorem truncated (y x : Int) : y+x.tdiv 12+x.tmod 12/12 = y+x/12 ∧ x.tmod 12%12 = x%12 := by
  have parts := Int.mul_tdiv_add_tmod x 12
  omega

theorem sharpMonth_instant (c : Int) : SharpMonth offset c cur = UInt32.ofInt (monthInstant offset (month offset cur+c)) := by
  obtain ⟨years,months⟩ := truncated (localtime_r offset cur.toNat).tm_year ((localtime_r offset cur.toNat).tm_mon+c)
  have year : (month offset cur+c)/12 =
      (localtime_r offset cur.toNat).tm_year+((localtime_r offset cur.toNat).tm_mon+c)/12+1900 := by
    unfold month
    omega
  have place : (month offset cur+c)%12 = ((localtime_r offset cur.toNat).tm_mon+c)%12 := by
    unfold month
    omega
  rw [SharpMonth,mktime,normalized,monthInstant,dayInstant,year,place]
  dsimp only
  rw [years,months,Int.toNat_one]
  congr 1
  omega

variable {offset cur}

theorem month_positive {k : Int} (fits : Fits (monthInstant offset k)) : 0 < k/12 := by
  by_contra none
  have low := offset.le_toInt
  have early : ∀ month ≤ 11, dayNumber 0 month 1 ≤ 366 := by decide
  have day_ := early (k%12).toNat (by omega)
  have least := fits.1
  rw [monthInstant,dayInstant,Int.toNat_of_nonpos (Int.not_lt.mp none)] at least
  unfold epoch at least
  omega

theorem instant_month {k : Int} (fits : Fits (monthInstant offset k)) :
    month offset (UInt32.ofInt (monthInstant offset k)) = k ∧
      (localtime_r offset (UInt32.ofInt (monthInstant offset k)).toNat).tm_mday = 1 ∧
        Midnight offset (UInt32.ofInt (monthInstant offset k)) := by
  have positive := month_positive fits
  obtain ⟨here,midnight⟩ := instant_day fits
  have numbered : number offset (UInt32.ofInt (monthInstant offset k)) = dayNumber (k/12).toNat (k%12).toNat 1 := by
    rw [number,monthInstant,here,Int.sub_add_cancel,Int.toNat_natCast]
  have late : 0 < (k/12).toNat := by omega
  have most : (k%12).toNat ≤ 11 := by omega
  obtain ⟨year,place,date⟩ := date_first late most
  refine ⟨?_,?_,midnight⟩
  · rw [month,localtime_date,numbered,year,place]
    dsimp only
    omega
  · rw [localtime_date,numbered,date]
    rfl

end months

section weeks
variable (offset : Int32) (cur : UInt32)

theorem monday_weekday (c : Int) : (monday offset cur+7*c)%7 = 4 := by
  unfold monday
  omega

-- The new Monday at the old time of day.
theorem sharpWeek_moment (c : Int) : SharpWeek offset c cur =
    SharpDayT offset 0 (UInt32.ofInt (dayInstant offset (monday offset cur+7*c)+(cur.toNat+offset.toInt)%86400)) := by
  rw [SharpWeek]
  refine congrArg _ ((ofInt_inj _ _).mpr ?_)
  have exact_ : (cur.toNat : Int)+(7*c+1-(if tm_wday offset cur.toNat = 0 then 7 else tm_wday offset cur.toNat))*86400 =
      dayInstant offset (monday offset cur+7*c)+(cur.toNat+offset.toInt)%86400 := by
    unfold dayInstant monday day tm_wday
    split <;> omega
  generalize (7*c+1-(if tm_wday offset cur.toNat = 0 then 7 else tm_wday offset cur.toNat))*86400 = shift at *
  have wrapped : shift.bmod (2^32)%2^32 = shift%2^32 := Int.bmod_emod
  omega

variable {offset cur}

theorem week_moment {c : Int} (fits : WeekFits offset cur c) :
    Fits (dayInstant offset (monday offset cur+7*c)+(cur.toNat+offset.toInt)%86400) := by
  obtain ⟨⟨least,most⟩,⟨west,east⟩ | moment⟩ := fits
  · have weekday := monday_weekday offset cur c
    unfold dayInstant at *
    generalize monday offset cur+7*c = n at *
    constructor <;> omega
  · exact moment

theorem sharpWeek_instant {c : Int} (fits : WeekFits offset cur c) :
    SharpWeek offset c cur = UInt32.ofInt (dayInstant offset (monday offset cur+7*c)) := by
  rw [sharpWeek_moment,sharp_day]
  have here : day offset (UInt32.ofInt (dayInstant offset (monday offset cur+7*c)+(cur.toNat+offset.toInt)%86400)) =
      monday offset cur+7*c := by
    rw [day,fits_toNat (week_moment fits)]
    unfold dayInstant
    omega
  rw [here,dayInstant]

end weeks

-- From an instant of a Monday the time of day is none.
theorem sharpWeek_again {offset : Int32} {n : Int} (fits : Fits (dayInstant offset n)) (weekday : n%7 = 4) (c : Int)
    (next : Fits (dayInstant offset (n+7*c))) :
    SharpWeek offset c (UInt32.ofInt (dayInstant offset n)) = UInt32.ofInt (dayInstant offset (n+7*c)) := by
  obtain ⟨here,_⟩ := instant_day fits
  have again : monday offset (UInt32.ofInt (dayInstant offset n)) = n := by
    rw [monday,here]
    omega
  have start : ((UInt32.ofInt (dayInstant offset n)).toNat+offset.toInt)%86400 = 0 := by
    rw [fits_toNat fits]
    unfold dayInstant
    omega
  have whole : WeekFits offset (UInt32.ofInt (dayInstant offset n)) c := by
    rw [WeekFits,again,start,Int.add_zero]
    exact ⟨next,.inr next⟩
  rw [sharpWeek_instant whole,again]

theorem sharp_laws (offset : Int32) (cur : UInt32) : Laws offset cur where
  first a fits := by
    rw [sharpMonth_instant]
    exact instant_month fits
  months a b fits := by
    rw [sharpMonth_instant offset cur a,sharpMonth_instant,sharpMonth_instant,(instant_month fits).1,Int.add_assoc]
  mondays a fits := by
    obtain ⟨here,midnight⟩ := instant_day fits.1
    have weekday := monday_weekday offset cur a
    rw [sharpWeek_instant fits]
    refine ⟨here,?_,midnight⟩
    rw [tm_wday]
    rw [day] at here
    omega
  weeks a b fits next := by
    have sum : monday offset cur+7*(a+b) = monday offset cur+7*a+7*b := by omega
    have later := next.1
    rw [sharpWeek_instant fits,sharpWeek_instant next]
    rw [sum] at later ⊢
    exact (sharpWeek_again fits.1 (monday_weekday offset cur a) b later).symm

end GameServer.TimeUtil
