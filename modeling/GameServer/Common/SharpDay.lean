import Mathlib.Algebra.Group.Nat.Defs
import Mathlib.Algebra.Ring.Int.Defs
import Mathlib.Data.Set.Defs

namespace GameServer.TimeUtil

-- `timezone` is a long with the seconds west of Greenwich, cur+timezone a long.
-- c*86400 is an int product, here without overflow.
def SharpDay (timezone c : Int) (cur : UInt32) : UInt32 :=
  let tmptm := UInt32.ofInt ((cur.toNat+timezone).tdiv 86400*86400+timezone)
  let tmptm := if tmptm > cur then tmptm-86400 else if tmptm+86400 ≤ cur then tmptm+86400 else tmptm
  tmptm+UInt32.ofInt (c*86400)

-- From UTC+14 to UTC-12.
structure Zone where
  timezone : Int
  east : -50400 ≤ timezone
  west : timezone ≤ 43200

structure Time where
  now : UInt32
  settled : 86400 ≤ now.toNat
  early : now.toNat < 2^32-2*86400

def Time.seconds (t : Time) : Int := t.now.toNat

-- The last local midnight before a time or at it.
def floor (timezone now : Int) : Int := now-(now-timezone)%86400

structure Sharp (z : Zone) (times : Set Time) : Prop where
  midnight : ∀ cur ∈ times, ∀ t : Int, t ≤ cur.seconds ∧ cur.seconds < t+86400 ∧ (t-z.timezone)%86400 = 0 ↔ t = (SharpDay z.timezone 0 cur.now).toNat
  shifted : ∀ cur ∈ times, ∀ c, SharpDay z.timezone c cur.now = SharpDay z.timezone 0 cur.now+UInt32.ofInt (c*86400)
  monotone : ∀ a ∈ times, ∀ b ∈ times, a.now ≤ b.now → SharpDay z.timezone 0 a.now ≤ SharpDay z.timezone 0 b.now
  idempotent : ∀ cur ∈ times, SharpDay z.timezone 0 (SharpDay z.timezone 0 cur.now) = SharpDay z.timezone 0 cur.now

theorem floor_unique (timezone now t : Int) : t ≤ now ∧ now < t+86400 ∧ (t-timezone)%86400 = 0 ↔ t = floor timezone now := by
  unfold floor
  omega

theorem floor_mono {timezone a b : Int} (less : a ≤ b) : floor timezone a ≤ floor timezone b := by
  unfold floor
  omega

def corrected (tmptm now : Int) : Int :=
  if now < tmptm then (tmptm-86400)%2^32 else if (tmptm+86400)%2^32 ≤ now then (tmptm+86400)%2^32 else tmptm

theorem sharp_value (timezone : Int) (cur : UInt32) :
    ((SharpDay timezone 0 cur).toNat : Int) = corrected (((cur.toNat+timezone).tdiv 86400*86400+timezone)%2^32) cur.toNat := by
  have day : (86400 : UInt32).toNat = 86400 := rfl
  unfold SharpDay corrected
  generalize ((cur.toNat : Int)+timezone).tdiv 86400*86400+timezone = raw
  have narrow : ((UInt32.ofInt raw).toNat : Int) = raw%2^32 := by
    rw [UInt32.ofInt,UInt32.toNat_ofNat']
    omega
  have zero : UInt32.ofInt (0*86400) = 0 := rfl
  simp only [zero,UInt32.add_zero,gt_iff_lt,UInt32.lt_iff_toNat_lt,UInt32.le_iff_toNat_le,← narrow,Int.ofNat_lt]
  generalize UInt32.ofInt raw = tmptm
  have more : ((tmptm+86400).toNat : Int) = ((tmptm.toNat : Int)+86400)%2^32 := by
    rw [UInt32.toNat_add,day]
    omega
  have less : ((tmptm-86400).toNat : Int) = ((tmptm.toNat : Int)-86400)%2^32 := by
    have few := tmptm.toNat_lt
    rw [UInt32.toNat_sub,day]
    omega
  rw [← more,← less]
  simp only [Int.ofNat_le]
  split
  · rfl
  · split <;> rfl

-- The quotient is 0 for the day around the epoch on either side.
theorem tdiv_day {x : Int} (least : -86400 < x) : x.tdiv 86400 = if 0 ≤ x then x/86400 else 0 := by
  split
  · rename_i positive
    exact Int.tdiv_eq_ediv_of_nonneg positive
  · rename_i negative
    obtain ⟨y,rfl⟩ : ∃ y, x = -y := ⟨-x,by omega⟩
    rw [Int.neg_tdiv,Int.tdiv_eq_zero_of_lt (by omega) (by omega)]
    rfl

section correction
variable {timezone : Int} {cur : UInt32}

-- What is taken from the time: the remainder less twice the zone, corrected
-- by a day.
def taken (timezone now : Int) : Int :=
  if (now+timezone)%86400 < 2*timezone then (now+timezone)%86400-2*timezone+86400
  else if 86400+2*timezone ≤ (now+timezone)%86400 then (now+timezone)%86400-2*timezone-86400
  else (now+timezone)%86400-2*timezone

theorem sharp_late (west : timezone ≤ 43200) (early : (cur.toNat : Int) < 2^32-2*86400) (positive : 0 ≤ (cur.toNat : Int)+timezone)
    (first : 0 ≤ ((cur.toNat : Int)+timezone)/86400*86400+timezone) (left : 0 ≤ (cur.toNat : Int)-taken timezone cur.toNat) :
    ((SharpDay timezone 0 cur).toNat : Int) = cur.toNat-taken timezone cur.toNat := by
  rw [sharp_value,Int.tdiv_eq_ediv_of_nonneg positive]
  generalize (cur.toNat : Int) = now at *
  have parts := Int.emod_add_mul_ediv (now+timezone) 86400
  have least := Int.emod_nonneg (now+timezone) (by decide : (86400 : Int) ≠ 0)
  have most := Int.emod_lt_of_pos (now+timezone) (by decide : (0 : Int) < 86400)
  unfold corrected taken at *
  generalize (now+timezone)/86400 = q at *
  generalize (now+timezone)%86400 = r at *
  have raw : (q*86400+timezone)%2^32 = now-r+2*timezone := by
    rw [Int.emod_eq_of_lt first (by omega)]
    omega
  have more : (now-r+2*timezone+86400)%2^32 = now-r+2*timezone+86400 := Int.emod_eq_of_lt (by omega) (by omega)
  rw [raw,more]
  by_cases above : r < 2*timezone
  · rw [if_pos above] at left ⊢
    rw [if_pos (by omega),Int.emod_eq_of_lt (by omega) (by omega)]
    omega
  · rw [if_neg above,if_neg (show ¬ now < now-r+2*timezone by omega)]
    by_cases behind : 86400+2*timezone ≤ r
    · rw [if_pos behind,if_pos (by omega)]
      omega
    · rw [if_neg behind,if_neg (by omega)]
      omega

-- A first quotient of 0 and a zone in the east make a time before the epoch.
theorem sharp_soon (cur : UInt32) (west : timezone < 0) (east : -50400 ≤ timezone) (early : (cur.toNat : Int) < 2^32-2*86400)
    (soon : (cur.toNat : Int)+timezone < 86400) : (cur.toNat : Int) < (SharpDay timezone 0 cur).toNat := by
  rw [sharp_value,tdiv_day (by omega)]
  have none : (if 0 ≤ (cur.toNat : Int)+timezone then ((cur.toNat : Int)+timezone)/86400 else 0) = 0 := by
    split
    · rename_i positive
      exact Int.ediv_eq_zero_of_lt positive soon
    · rfl
  have raw : (0*86400+timezone)%2^32 = timezone+2^32 := by
    rw [← Int.add_emod_right,Int.emod_eq_of_lt (by omega) (by omega)]
    omega
  rw [none,raw,corrected,if_pos (by omega),Int.emod_eq_of_lt (by omega) (by omega)]
  omega

end correction

-- The first quotient has to be that of a whole day, and the correction has to
-- be enough.
theorem midnight_iff (z : Zone) (cur : Time) :
    ((SharpDay z.timezone 0 cur.now).toNat : Int) = floor z.timezone cur.seconds ↔
      0 ≤ z.timezone ∨ 86400 ≤ cur.seconds+z.timezone ∧ (cur.seconds+z.timezone)%86400 < 172800+2*z.timezone := by
  obtain ⟨timezone,east,west⟩ := z
  obtain ⟨now,settled,early⟩ := cur
  simp only [Time.seconds]
  by_cases late : 0 ≤ timezone ∨ 86400 ≤ (now.toNat : Int)+timezone
  · have left : 0 ≤ (now.toNat : Int)-taken timezone now.toNat := by
      unfold taken
      split
      · omega
      · split <;> omega
    rw [sharp_late west (by omega) (by omega) (by omega) left]
    unfold floor taken
    split
    · omega
    · split <;> omega
  · have beyond := sharp_soon now (by omega) east (by omega) (by omega)
    refine iff_of_false ?_ (by omega)
    unfold floor
    omega

-- A midnight is in turn its own if it is late enough and not more than twelve
-- hours away from that of Greenwich.
theorem again_iff {z : Zone} {t : UInt32} (early : (t.toNat : Int) < 2^32-2*86400) (sharp : ((t.toNat : Int)-z.timezone)%86400 = 0) :
    SharpDay z.timezone 0 t = t ↔ 0 ≤ z.timezone ∨ -43200 ≤ z.timezone ∧ 86400 ≤ t.toNat+z.timezone := by
  obtain ⟨timezone,east,west⟩ := z
  dsimp only at sharp ⊢
  rw [← UInt32.toNat_inj,← Int.natCast_inj]
  by_cases late : 0 ≤ timezone ∨ 86400 ≤ (t.toNat : Int)+timezone
  · have left : 0 ≤ (t.toNat : Int)-taken timezone t.toNat := by
      unfold taken
      split
      · omega
      · split <;> omega
    rw [sharp_late west early (by omega) (by omega) left]
    unfold taken
    split
    · omega
    · split <;> omega
  · have beyond := sharp_soon t (by omega) east early (by omega)
    exact iff_of_false (by omega) (by omega)

-- For a midnight that is right the two conditions are one on the time.
theorem idempotent_iff (z : Zone) (cur : Time) (right : ((SharpDay z.timezone 0 cur.now).toNat : Int) = floor z.timezone cur.seconds) :
    SharpDay z.timezone 0 (SharpDay z.timezone 0 cur.now) = SharpDay z.timezone 0 cur.now ↔
      0 ≤ z.timezone ∨ -43200 ≤ z.timezone ∧ 172800+z.timezone ≤ cur.seconds := by
  obtain ⟨here,_,sharp⟩ := (floor_unique z.timezone cur.seconds _).mpr right
  have early := cur.early
  have west := z.west
  rw [again_iff (by simp only [Time.seconds] at here; omega) sharp,right]
  unfold floor
  omega

theorem sharpDay_iff (z : Zone) (times : Set Time) :
    Sharp z times ↔ ∀ cur ∈ times, 0 ≤ z.timezone ∨ -43200 ≤ z.timezone ∧ 172800+z.timezone ≤ cur.seconds := by
  constructor
  · intro sharp cur member
    have right := (sharp.midnight cur member _).mpr rfl
    exact (idempotent_iff z cur ((floor_unique _ _ _).mp right)).mp (sharp.idempotent cur member)
  · intro every
    have right (cur : Time) (member : cur ∈ times) : ((SharpDay z.timezone 0 cur.now).toNat : Int) = floor z.timezone cur.seconds := by
      refine (midnight_iff z cur).mpr ?_
      have place := every cur member
      omega
    refine ⟨?_,?_,?_,?_⟩
    · intro cur member t
      rw [right cur member]
      exact floor_unique _ _ _
    · intro cur _ c
      have zero : UInt32.ofInt (0*86400) = 0 := rfl
      simp only [SharpDay,zero,UInt32.add_zero]
    · intro a first b second less
      rw [UInt32.le_iff_toNat_le] at less ⊢
      have floors : floor z.timezone (a.now.toNat : Int) ≤ floor z.timezone (b.now.toNat : Int) := floor_mono (Int.ofNat_le.mpr less)
      have low := right a first
      have high := right b second
      simp only [Time.seconds] at low high
      omega
    · intro cur member
      exact (idempotent_iff z cur (right cur member)).mpr (every cur member)

-- Half past midnight at UTC+13 is taken for the day before.
theorem yesterday : ¬ ∀ (z : Zone) (times : Set Time), Sharp z times := by
  intro every
  have right := ((every ⟨-46800,by decide,by decide⟩ Set.univ).midnight ⟨864000-46800+1800,by decide,by decide⟩ trivial _).mpr rfl
  revert right
  decide +kernel

end GameServer.TimeUtil
