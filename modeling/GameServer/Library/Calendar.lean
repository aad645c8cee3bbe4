import Mathlib.Algebra.GroupWithZero.Nat
import Mathlib.Data.Nat.Find

namespace GameServer.Calendar

-- The proleptic Gregorian calendar. Years count from 1, months from 0, days of
-- the month from 1, and a day is the number of days from 1 January of the year
-- 1 to it.
def isLeap (year : Nat) : Bool := year%4 = 0 && (year%100 ≠ 0 || year%400 = 0)

def yearLength (year : Nat) : Nat := if isLeap year then 366 else 365

def yearStart (year : Nat) : Nat := 365*(year-1)+(year-1)/4-(year-1)/100+(year-1)/400

def monthLengths (leap : Bool) : List Nat := [31,if leap then 29 else 28,31,30,31,30,31,31,30,31,30,31]

def monthStart (leap : Bool) (month : Nat) : Nat := ((monthLengths leap).take month).sum

def yearOf (n : Nat) : Nat := Nat.findGreatest (fun year => yearStart year ≤ n) (n/365+1)

def dayOfYear (n : Nat) : Nat := n-yearStart (yearOf n)

def monthOf (n : Nat) : Nat := Nat.findGreatest (fun month => monthStart (isLeap (yearOf n)) month ≤ dayOfYear n) 11

def dayOfMonth (n : Nat) : Nat := dayOfYear n-monthStart (isLeap (yearOf n)) (monthOf n)+1

def dayNumber (year month day : Nat) : Nat := yearStart year+monthStart (isLeap year) month+(day-1)

example : yearOf 719162 = 1970 ∧ monthOf 719162 = 0 ∧ dayOfMonth 719162 = 1 := by decide +kernel

theorem div_succ (p k : Nat) : (p+1)/k = p/k+if (p+1)%k = 0 then 1 else 0 := by
  rw [Nat.succ_div]
  exact congrArg _ (if_congr (Nat.dvd_iff_mod_eq_zero) rfl rfl)

theorem yearStart_succ {year : Nat} (some : 0 < year) : yearStart (year+1) = yearStart year+yearLength year := by
  obtain ⟨p,rfl⟩ : ∃ p, year = p+1 := ⟨year-1,by omega⟩
  have fewer : p/100 ≤ p/4 := Nat.div_le_div_left (by decide) (by decide)
  simp only [yearStart,yearLength,isLeap,Nat.add_sub_cancel,div_succ p,Bool.and_eq_true,Bool.or_eq_true,decide_eq_true_eq]
  by_cases fourth : (p+1)%4 = 0
  · by_cases century : (p+1)%100 = 0
    · by_cases cycle : (p+1)%400 = 0
      · simp only [fourth,century,cycle,if_true,ne_eq,not_true_eq_false,or_true,and_self]
        omega
      · simp only [fourth,century,cycle,if_true,if_false,ne_eq,not_true_eq_false,or_self,and_false]
        omega
    · have other : (p+1)%400 ≠ 0 := by omega
      simp only [fourth,century,other,if_true,if_false,ne_eq,not_false_eq_true,true_or,and_self]
      omega
  · have century : (p+1)%100 ≠ 0 := by omega
    have other : (p+1)%400 ≠ 0 := by omega
    simp only [fourth,century,other,if_false,false_and]
    omega

theorem yearStart_mono {a b : Nat} (less : a ≤ b) : yearStart a ≤ yearStart b := by
  induction less with
  | refl => exact Nat.le_refl _
  | @step b _ ih =>
      refine Nat.le_trans ih ?_
      obtain zero | some := Nat.eq_zero_or_pos b
      · rw [zero]
        exact Nat.zero_le _
      · rw [yearStart_succ some]
        exact Nat.le_add_right _ _

theorem yearOf_pos (n : Nat) : 0 < yearOf n := Nat.le_findGreatest (Nat.succ_le_succ (Nat.zero_le _)) (Nat.zero_le n)

theorem yearStart_le (n : Nat) : yearStart (yearOf n) ≤ n :=
  Nat.findGreatest_of_ne_zero (P := fun year => yearStart year ≤ n) rfl (Nat.ne_of_gt (yearOf_pos n))

theorem lt_next (n : Nat) : n < yearStart (yearOf n+1) := by
  by_cases within : yearOf n+1 ≤ n/365+1
  · exact Nat.not_le.mp (Nat.findGreatest_is_greatest (P := fun year => yearStart year ≤ n) (Nat.lt_succ_self _) within)
  · have mono : yearStart (n/365+1+1) ≤ yearStart (yearOf n+1) := yearStart_mono (Nat.not_le.mp within)
    have late : 365*(n/365+1) ≤ yearStart (n/365+1+1) := by
      have fewer : (n/365+1)/100 ≤ (n/365+1)/4 := Nat.div_le_div_left (by decide) (by decide)
      simp only [yearStart,Nat.add_sub_cancel]
      omega
    omega

theorem yearOf_bounds {n first last : Nat} (above : yearStart first ≤ n) (below : n < yearStart (last+1)) :
    first ≤ yearOf n ∧ yearOf n ≤ last := by
  constructor
  · by_contra early
    have next : yearStart (yearOf n+1) ≤ yearStart first := yearStart_mono (Nat.not_le.mp early)
    exact absurd (lt_next n) (by omega)
  · by_contra late
    have start : yearStart (last+1) ≤ yearStart (yearOf n) := yearStart_mono (Nat.not_le.mp late)
    exact absurd (yearStart_le n) (by omega)

theorem dayOfYear_lt (n : Nat) : dayOfYear n < yearLength (yearOf n) := by
  have last := lt_next n
  have first := yearStart_le n
  rw [yearStart_succ (yearOf_pos n)] at last
  unfold dayOfYear
  omega

theorem monthOf_le (n : Nat) : monthOf n ≤ 11 := Nat.findGreatest_le 11

theorem monthStart_le (n : Nat) : monthStart (isLeap (yearOf n)) (monthOf n) ≤ dayOfYear n :=
  Nat.findGreatest_spec (P := fun month => monthStart (isLeap (yearOf n)) month ≤ dayOfYear n) (Nat.zero_le 11) (Nat.zero_le _)

theorem dayOfYear_lt_month (n : Nat) : dayOfYear n < monthStart (isLeap (yearOf n)) (monthOf n+1) := by
  by_cases last : monthOf n = 11
  · rw [last]
    have year := dayOfYear_lt n
    have whole : monthStart (isLeap (yearOf n)) 12 = yearLength (yearOf n) := by
      unfold yearLength
      cases isLeap (yearOf n) <;> rfl
    rwa [whole]
  · have most := monthOf_le n
    exact Nat.not_le.mp (Nat.findGreatest_is_greatest (P := fun month => monthStart (isLeap (yearOf n)) month ≤ dayOfYear n)
      (Nat.lt_succ_self _) (by omega))

theorem dayOfMonth_le (n : Nat) : dayOfMonth n ≤ 31 := by
  have long : ∀ leap, ∀ month ≤ 11, monthStart leap (month+1) ≤ monthStart leap month+31 := by decide
  have next := dayOfYear_lt_month n
  have most := long (isLeap (yearOf n)) (monthOf n) (monthOf_le n)
  unfold dayOfMonth
  omega

theorem dayNumber_date (n : Nat) : dayNumber (yearOf n) (monthOf n) (dayOfMonth n) = n := by
  have first := yearStart_le n
  have month := monthStart_le n
  unfold dayNumber dayOfMonth dayOfYear at *
  omega

theorem monthStart_mono (leap : Bool) {a b : Nat} (less : a ≤ b) : monthStart leap a ≤ monthStart leap b := by
  unfold monthStart
  rw [←List.take_append_drop a ((monthLengths leap).take b),List.take_take,Nat.min_eq_left less,List.sum_append]
  exact Nat.le_add_right _ _

-- The first of a month is read back as that.
theorem date_first {year month : Nat} (some : 0 < year) (most : month ≤ 11) :
    yearOf (dayNumber year month 1) = year ∧ monthOf (dayNumber year month 1) = month ∧ dayOfMonth (dayNumber year month 1) = 1 := by
  have inside : ∀ leap, ∀ month ≤ 11, monthStart leap month < (if leap then 366 else 365) ∧ monthStart leap month < monthStart leap (month+1) := by
    decide
  obtain ⟨early,next⟩ := inside (isLeap year) month most
  have start : dayNumber year month 1 = yearStart year+monthStart (isLeap year) month := rfl
  have year_ : yearOf (dayNumber year month 1) = year := by
    have bounds : year ≤ yearOf (dayNumber year month 1) ∧ yearOf (dayNumber year month 1) ≤ year :=
      yearOf_bounds (by omega) (by rw [yearStart_succ some,yearLength]; omega)
    omega
  have place : dayOfYear (dayNumber year month 1) = monthStart (isLeap year) month := by
    rw [dayOfYear,year_,start,Nat.add_sub_cancel_left]
  have month_ : monthOf (dayNumber year month 1) = month := by
    have low := monthStart_le (dayNumber year month 1)
    have high := dayOfYear_lt_month (dayNumber year month 1)
    rw [year_,place] at low high
    refine Nat.le_antisymm (Nat.not_lt.mp fun later => ?_) (Nat.not_lt.mp fun sooner => ?_)
    · have above : monthStart (isLeap year) (month+1) ≤ monthStart (isLeap year) (monthOf (dayNumber year month 1)) :=
        monthStart_mono (isLeap year) later
      omega
    · have under : monthStart (isLeap year) (monthOf (dayNumber year month 1)+1) ≤ monthStart (isLeap year) month :=
        monthStart_mono (isLeap year) sooner
      omega
  exact ⟨year_,month_,by rw [dayOfMonth,place,year_,month_,Nat.sub_self]⟩

end GameServer.Calendar
