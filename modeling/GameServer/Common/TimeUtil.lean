import GameServer.Library.Calendar
import GameServer.Common.StringTokenizer

namespace GameServer.TimeUtil
open Calendar

-- struct tm without tm_wday.
structure tm where
  tm_sec : Int
  tm_min : Int
  tm_hour : Int
  tm_mday : Int
  tm_mon : Int
  tm_year : Int
  tm_yday : Int
  deriving DecidableEq, Repr

def epoch : Int := 719162

section zone
variable (offset : Int32)

-- The seconds east of Greenwich have 32 bits in the data of a zone.
def localtime_r (t : Int) : tm :=
  let s := t+offset.toInt
  let n := (s/86400+epoch).toNat
  ⟨s%60,s/60%60,s/3600%24,dayOfMonth n,monthOf n,(yearOf n : Int)-1900,dayOfYear n⟩

-- For fields in their ranges.
def mktime (t_tm : tm) : Int :=
  ((dayNumber (t_tm.tm_year+1900).toNat t_tm.tm_mon.toNat t_tm.tm_mday.toNat : Int)-epoch)*86400+
    t_tm.tm_hour*3600+t_tm.tm_min*60+t_tm.tm_sec-offset.toInt

def SharpDayT (c : Int) (cur : UInt32) : UInt32 :=
  let t_tm := localtime_r offset cur.toNat
  let t2 := mktime offset {t_tm with tm_hour := 0,tm_min := 0,tm_sec := 0}
  UInt32.ofInt (t2+c*24*60*60)

def SameDay (a b : UInt32) : Bool := (localtime_r offset a.toNat).tm_yday == (localtime_r offset b.toNat).tm_yday

def printed (n : Int) : List Char := if n < 0 then '-' :: Nat.toDigits 10 n.natAbs else Nat.toDigits 10 n.natAbs

def GetYYMMDD (now : UInt32) : Int :=
  let t_tm := localtime_r offset now.toNat
  atoi (printed (t_tm.tm_year+1900)++printed (t_tm.tm_mon+1)++printed t_tm.tm_mday)

def day (t : UInt32) : Int := (t.toNat+offset.toInt)/86400

-- The three ways to ask for the same day.
def Agree (a b : UInt32) : Prop :=
  (SameDay offset a b = true ↔ day offset a = day offset b) ∧
  (SameDay offset a b = true ↔ SharpDayT offset 0 a = SharpDayT offset 0 b) ∧
  (SameDay offset a b = true ↔ GetYYMMDD offset a = GetYYMMDD offset b)

end zone

-- 11 to 19 January are written like 1 to 9 November, 21 to 29 January like 1
-- to 9 December.
def Alike (a b : tm) : Prop :=
  a.tm_mon = 0 ∧ (b.tm_mon = 10 ∧ a.tm_mday = 10+b.tm_mday ∨ b.tm_mon = 11 ∧ a.tm_mday = 20+b.tm_mday) ∧ b.tm_mday ≤ 9

variable {offset : Int32}

-- The day from 1 January of the year 1 on.
def number (offset : Int32) (t : UInt32) : Nat := (day offset t+epoch).toNat

-- The date of a local time is that of its day.
theorem localtime_date (offset : Int32) (t : UInt32) : localtime_r offset t.toNat =
    {localtime_r offset t.toNat with
      tm_mday := dayOfMonth (number offset t),tm_mon := monthOf (number offset t),
      tm_year := (yearOf (number offset t) : Int)-1900,tm_yday := dayOfYear (number offset t)} := rfl

theorem day_bounds (offset : Int32) (t : UInt32) : -24856 ≤ day offset t ∧ day offset t ≤ 74565 := by
  have most := t.toNat_lt
  have low := offset.le_toInt
  have high := offset.toInt_lt
  unfold day
  omega

theorem number_eq (offset : Int32) (t : UInt32) : (number offset t : Int) = day offset t+epoch := by
  have bounds := day_bounds offset t
  unfold number epoch
  omega

theorem year_bounds (offset : Int32) (t : UInt32) : 1000 ≤ yearOf (number offset t) ∧ yearOf (number offset t) ≤ 9999 := by
  have bounds := day_bounds offset t
  have here := number_eq offset t
  have first : yearStart 1000 = 364877 := by decide
  have last : yearStart (9999+1) = 3652059 := by decide
  unfold epoch at here
  exact yearOf_bounds (by omega) (by omega)

theorem number_inj {a b : UInt32} : number offset a = number offset b ↔ day offset a = day offset b := by
  have left := number_eq offset a
  have right := number_eq offset b
  omega

theorem date_inj {a b : Nat} (year : yearOf a = yearOf b) (month : monthOf a = monthOf b) (date : dayOfMonth a = dayOfMonth b) : a = b := by
  rw [← dayNumber_date a,← dayNumber_date b,year,month,date]

theorem sharp_day (offset : Int32) (cur : UInt32) : SharpDayT offset 0 cur = UInt32.ofInt (day offset cur*86400-offset.toInt) := by
  have here := number_eq offset cur
  have back := dayNumber_date (number offset cur)
  unfold SharpDayT mktime
  rw [localtime_date]
  simp only [Int.sub_add_cancel,Int.toNat_natCast,back,here]
  congr 1
  omega

theorem ofInt_inj (x y : Int) : UInt32.ofInt x = UInt32.ofInt y ↔ (x-y)%2^32 = 0 := by
  rw [← UInt32.toNat_inj,UInt32.ofInt,UInt32.ofInt,UInt32.toNat_ofNat',UInt32.toNat_ofNat']
  omega

-- 2^32 divides no number of days between two times but 0.
theorem sharp_inj (offset : Int32) (a b : UInt32) : SharpDayT offset 0 a = SharpDayT offset 0 b ↔ day offset a = day offset b := by
  have left := day_bounds offset a
  have right := day_bounds offset b
  rw [sharp_day,sharp_day,ofInt_inj]
  generalize day offset a = first at *
  generalize day offset b = second at *
  have apart : first*86400-offset.toInt-(second*86400-offset.toInt) = (first-second)*86400 := by
    rw [Int.sub_mul]
    omega
  rw [apart]
  omega

theorem printed_nat (n : Nat) : printed n = Nat.toDigits 10 n := by
  simp [printed]

-- The number of a date: how it reads when month and day take the digits they have.
def width (n : Nat) : Nat := if n < 10 then 10 else 100

def written (year month date : Nat) : Nat := (year*width month+month)*width date+date

theorem read_digits (before : Nat) {n : Nat} (few : n < 100) : Nat.ofDigitChars 10 (Nat.toDigits 10 n) before = before*width n+n := by
  have long : ∀ n < 100, 10^(Nat.toDigits 10 n).length = width n := by decide
  rw [Nat.ofDigitChars_eq_ofDigitChars_zero,long n few,Nat.ofDigitChars_ten_toDigits,Nat.mul_comm]

theorem yymmdd_written (offset : Int32) (t : UInt32) : GetYYMMDD offset t =
    written (yearOf (number offset t)) (monthOf (number offset t)+1) (dayOfMonth (number offset t)) := by
  have years := year_bounds offset t
  have months := monthOf_le (number offset t)
  have dates := dayOfMonth_le (number offset t)
  unfold GetYYMMDD
  rw [localtime_date]
  simp only [Int.sub_add_cancel]
  generalize yearOf (number offset t) = year at *
  generalize monthOf (number offset t) = month at *
  generalize dayOfMonth (number offset t) = date at *
  rw [printed_nat,printed_nat,show ((month : Int)+1) = ((month+1 : Nat) : Int) from rfl,printed_nat]
  have value : Nat.ofDigitChars 10 (Nat.toDigits 10 year++Nat.toDigits 10 (month+1)++Nat.toDigits 10 date) 0 = written year (month+1) date := by
    rw [Nat.ofDigitChars_append,Nat.ofDigitChars_append,Nat.ofDigitChars_ten_toDigits,read_digits _ (by omega),read_digits _ (by omega)]
    rfl
  have small : written year (month+1) date < 2^31 := by
    unfold written width
    split <;> split <;> omega
  have digits : ∀ c ∈ Nat.toDigits 10 year++Nat.toDigits 10 (month+1)++Nat.toDigits 10 date, c.isDigit = true := by
    intro c member
    simp only [List.mem_append] at member
    obtain (first | second) | third := member
    · exact Nat.isDigit_of_mem_toDigits (by decide) (by decide) first
    · exact Nat.isDigit_of_mem_toDigits (by decide) (by decide) second
    · exact Nat.isDigit_of_mem_toDigits (by decide) (by decide) third
  rw [atoi,strtoll_digits (by simp [Nat.toDigits_ne_nil]) digits (by omega),value,Int.bmod_eq_of_le (by omega) (by omega)]

-- The year is read off first, by the number of digits behind it.
theorem year_first {k k' year year' back back' : Nat} (long : k = 100 ∨ k = 1000 ∨ k = 10000) (long' : k' = 100 ∨ k' = 1000 ∨ k' = 10000)
    (years : 1000 ≤ year ∧ year ≤ 9999 ∧ 1000 ≤ year' ∧ year' ≤ 9999) (few : back < k) (few' : back' < k')
    (same : year*k+back = year'*k'+back') : year = year' ∧ back = back' := by
  obtain rfl | rfl | rfl := long <;> obtain rfl | rfl | rfl := long' <;> omega

theorem written_year (year : Nat) (month date : Nat) (months : month ≤ 12) (dates : date ≤ 31) :
    ∃ k, (k = 100 ∨ k = 1000 ∨ k = 10000) ∧ month*width date+date < k ∧ written year month date = year*k+(month*width date+date) := by
  refine ⟨width month*width date,?_,?_,?_⟩
  · unfold width
    split <;> split <;> decide
  · unfold width
    split <;> split <;> omega
  · rw [written,Nat.add_mul,Nat.mul_assoc,Nat.add_assoc]

theorem written_alike (year ten : Nat) (some : ten = 1 ∨ ten = 2) {date : Nat} (small : date ≤ 9) :
    written year 1 (10*ten+date) = written year (10+ten) date := by
  have long : width (10*ten+date) = 100 ∧ width (10+ten) = 100 := ⟨if_neg (by omega),if_neg (by omega)⟩
  have short : width date = 10 ∧ width 1 = 10 := ⟨if_pos (by omega),rfl⟩
  rw [written,written,long.1,long.2,short.1,short.2]
  omega

-- Two dates are written alike when they are the same, or when the second digit
-- of a month goes for the first of a date.
theorem written_inj {year month date year' month' date' : Nat} (years : 1000 ≤ year ∧ year ≤ 9999 ∧ 1000 ≤ year' ∧ year' ≤ 9999)
    (months : 1 ≤ month ∧ month ≤ 12 ∧ 1 ≤ month' ∧ month' ≤ 12) (dates : 1 ≤ date ∧ date ≤ 31 ∧ 1 ≤ date' ∧ date' ≤ 31) :
    written year month date = written year' month' date' ↔ year = year' ∧
      (month = month' ∧ date = date' ∨
        month = 1 ∧ (month' = 11 ∧ date = 10+date' ∨ month' = 12 ∧ date = 20+date') ∧ date' ≤ 9 ∨
        month' = 1 ∧ (month = 11 ∧ date' = 10+date ∨ month = 12 ∧ date' = 20+date) ∧ date ≤ 9) := by
  obtain ⟨k,long,few,front⟩ := written_year year month date (by omega) (by omega)
  obtain ⟨k',long',few',front'⟩ := written_year year' month' date' (by omega) (by omega)
  constructor
  · intro same
    rw [front,front'] at same
    obtain ⟨here,back⟩ := year_first long long' years few few' same
    refine ⟨here,?_⟩
    clear front front' few few' same
    unfold width at back
    split at back <;> split at back <;> omega
  · rintro ⟨rfl,⟨rfl,rfl⟩ | ⟨rfl,⟨rfl,rfl⟩ | ⟨rfl,rfl⟩,small⟩ | ⟨rfl,⟨rfl,rfl⟩ | ⟨rfl,rfl⟩,small⟩⟩
    · rfl
    · exact written_alike year 1 (by decide) small
    · exact written_alike year 2 (by decide) small
    · exact (written_alike year 1 (by decide) small).symm
    · exact (written_alike year 2 (by decide) small).symm

theorem yymmdd_inj (offset : Int32) (a b : UInt32) : GetYYMMDD offset a = GetYYMMDD offset b ↔
    day offset a = day offset b ∨ (localtime_r offset a.toNat).tm_year = (localtime_r offset b.toNat).tm_year ∧
      (Alike (localtime_r offset a.toNat) (localtime_r offset b.toNat) ∨ Alike (localtime_r offset b.toNat) (localtime_r offset a.toNat)) := by
  have inj : number offset a = number offset b ↔ day offset a = day offset b := number_inj
  have years := year_bounds offset a
  have years' := year_bounds offset b
  have months := monthOf_le (number offset a)
  have months' := monthOf_le (number offset b)
  have dates := dayOfMonth_le (number offset a)
  have dates' := dayOfMonth_le (number offset b)
  have least : 1 ≤ dayOfMonth (number offset a) := Nat.succ_le_succ (Nat.zero_le _)
  have least' : 1 ≤ dayOfMonth (number offset b) := Nat.succ_le_succ (Nat.zero_le _)
  rw [yymmdd_written,yymmdd_written,Int.natCast_inj,written_inj (by omega) (by omega) (by omega),← inj,localtime_date offset a,localtime_date offset b]
  simp only [Alike]
  constructor
  · intro ⟨year,dates⟩
    obtain ⟨month,date⟩ | first | second := dates
    · exact Or.inl (date_inj year (by omega) date)
    · exact Or.inr ⟨by omega,Or.inl (by omega)⟩
    · exact Or.inr ⟨by omega,Or.inr (by omega)⟩
  · rintro (same | ⟨year,first | second⟩)
    · rw [same]
      exact ⟨rfl,Or.inl ⟨rfl,rfl⟩⟩
    · exact ⟨by omega,Or.inr (Or.inl (by omega))⟩
    · exact ⟨by omega,Or.inr (Or.inr (by omega))⟩

-- A day is its year and its place in it.
theorem day_iff (offset : Int32) (a b : UInt32) : day offset a = day offset b ↔
    (localtime_r offset a.toNat).tm_year = (localtime_r offset b.toNat).tm_year ∧
      (localtime_r offset a.toNat).tm_yday = (localtime_r offset b.toNat).tm_yday := by
  rw [← number_inj,localtime_date offset a,localtime_date offset b]
  dsimp only
  constructor
  · intro same
    rw [same]
    exact ⟨rfl,rfl⟩
  · intro ⟨year,place⟩
    have years : yearOf (number offset a) = yearOf (number offset b) := by omega
    have first := yearStart_le (number offset a)
    have second := yearStart_le (number offset b)
    unfold dayOfYear at place
    rw [years] at first place
    omega

theorem alike_apart {s t : tm} (alike : Alike s t) : s.tm_mon ≠ t.tm_mon := by
  obtain ⟨first,other,_⟩ := alike
  omega

theorem sameDay_iff (offset : Int32) (a b : UInt32) :
    Agree offset a b ↔
      ((localtime_r offset a.toNat).tm_year = (localtime_r offset b.toNat).tm_year ∨
        (localtime_r offset a.toNat).tm_yday ≠ (localtime_r offset b.toNat).tm_yday) ∧
      ((localtime_r offset a.toNat).tm_year = (localtime_r offset b.toNat).tm_year →
        ¬ Alike (localtime_r offset a.toNat) (localtime_r offset b.toNat) ∧ ¬ Alike (localtime_r offset b.toNat) (localtime_r offset a.toNat)) := by
  have months : day offset a = day offset b → (localtime_r offset a.toNat).tm_mon = (localtime_r offset b.toNat).tm_mon := by
    intro same
    simp only [localtime_r,show ((a.toNat : Int)+offset.toInt)/86400 = ((b.toNat : Int)+offset.toInt)/86400 from same]
  have apart := alike_apart (s := localtime_r offset a.toNat) (t := localtime_r offset b.toNat)
  have apart' := alike_apart (s := localtime_r offset b.toNat) (t := localtime_r offset a.toNat)
  unfold Agree
  rw [sharp_inj,yymmdd_inj,day_iff offset a b] at *
  simp only [SameDay,beq_iff_eq]
  grind

-- 1 January of 1970 and of 1971.
theorem years_apart : ¬ ∀ (offset : Int32) (a b : UInt32), Agree offset a b := by
  intro every
  have same := (every 0 0 31536000).1
  revert same
  decide +kernel

end GameServer.TimeUtil
