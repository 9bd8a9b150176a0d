import Mathlib.Tactic

/-!
# The proleptic Gregorian calendar

Days are counted from 1 January of year 1, and a date is a year, a month `1 … 12` and
a day of the month.  The calendar is unbounded in both directions.
-/

namespace Szarp
namespace Gregorian

def IsLeap (y : ℤ) : Prop := y % 4 = 0 ∧ (y % 100 ≠ 0 ∨ y % 400 = 0)

instance : DecidablePred IsLeap := fun y =>
  inferInstanceAs (Decidable (y % 4 = 0 ∧ (y % 100 ≠ 0 ∨ y % 400 = 0)))

/-- The length of the leap day of year `y`: one or zero. -/
def leapDay (y : ℤ) : ℤ := if IsLeap y then 1 else 0

/-- Days from the origin to 1 January of year `y`. -/
def daysBeforeYear (y : ℤ) : ℤ := 365 * (y - 1) + (y - 1) / 4 - (y - 1) / 100 + (y - 1) / 400

def monthLength (y : ℤ) : ℕ → ℤ
  | 2 => 28 + leapDay y
  | 4 | 6 | 9 | 11 => 30
  | _ => 31

/-- Days from 1 January of year `y` to the first day of month `m`. -/
def daysBeforeMonth (y : ℤ) : ℕ → ℤ
  | 0 | 1 => 0
  | m + 2 => daysBeforeMonth y (m + 1) + monthLength y (m + 1)

def dayNumber (y : ℤ) (m : ℕ) (d : ℤ) : ℤ := daysBeforeYear y + daysBeforeMonth y m + (d - 1)

def yearOfDay (z : ℤ) : ℤ :=
  let y := 400 * z / 146097 + 1
  if z < daysBeforeYear y then y - 1
  else if daysBeforeYear (y + 1) ≤ z then y + 1 else y

/-- The last of the months `1 … n` that starts no later than day `z` of the year. -/
def monthOfDay (y z : ℤ) : ℕ → ℕ
  | 0 => 0
  | n + 1 => if daysBeforeMonth y (n + 1) ≤ z then n + 1 else monthOfDay y z n

/-! ## Years -/

theorem leapDay_cases (y : ℤ) :
    (leapDay y = 1 ∧ y % 4 = 0 ∧ (y % 100 ≠ 0 ∨ y % 400 = 0)) ∨
      (leapDay y = 0 ∧ (y % 4 ≠ 0 ∨ y % 100 = 0 ∧ y % 400 ≠ 0)) := by
  unfold leapDay
  by_cases h : IsLeap y
  · exact Or.inl ⟨if_pos h, h⟩
  · refine Or.inr ⟨if_neg h, ?_⟩
    unfold IsLeap at h
    omega

theorem daysBeforeYear_succ (y : ℤ) :
    daysBeforeYear (y + 1) = daysBeforeYear y + 365 + leapDay y := by
  unfold daysBeforeYear
  rcases leapDay_cases y with h | h <;> omega

theorem daysBeforeYear_mono {y y' : ℤ} (h : y ≤ y') : daysBeforeYear y ≤ daysBeforeYear y' := by
  unfold daysBeforeYear
  omega

/-- The day count stays within a day and a half of the mean year. -/
theorem daysBeforeYear_near (y : ℤ) :
    146097 * (y - 1) - 600 ≤ 400 * daysBeforeYear y ∧
      400 * daysBeforeYear y ≤ 146097 * (y - 1) + 300 := by
  unfold daysBeforeYear
  omega

theorem yearOfDay_spec (z : ℤ) :
    daysBeforeYear (yearOfDay z) ≤ z ∧ z < daysBeforeYear (yearOfDay z + 1) := by
  unfold yearOfDay
  generalize hy : 400 * z / 146097 + 1 = y
  have h0 := daysBeforeYear_near (y - 1)
  have h1 := daysBeforeYear_near (y + 1 + 1)
  dsimp only
  by_cases h : z < daysBeforeYear y
  · rw [if_pos h, sub_add_cancel]
    exact ⟨by omega, h⟩
  · rw [if_neg h]
    by_cases h' : daysBeforeYear (y + 1) ≤ z
    · rw [if_pos h']
      exact ⟨h', by omega⟩
    · rw [if_neg h']
      exact ⟨not_lt.mp h, not_le.mp h'⟩

/-- Years are disjoint intervals of days, so the year found is the only one. -/
theorem yearOfDay_eq {y z : ℤ} (h : daysBeforeYear y ≤ z) (h' : z < daysBeforeYear (y + 1)) :
    yearOfDay z = y := by
  obtain ⟨hlo, hhi⟩ := yearOfDay_spec z
  rcases lt_trichotomy (yearOfDay z) y with hlt | heq | hgt
  · have := daysBeforeYear_mono (show yearOfDay z + 1 ≤ y by omega)
    omega
  · exact heq
  · have := daysBeforeYear_mono (show y + 1 ≤ yearOfDay z by omega)
    omega

/-! ## Months -/

theorem monthLength_pos (y : ℤ) (m : ℕ) : 28 ≤ monthLength y m ∧ monthLength y m ≤ 31 := by
  have h := leapDay_cases y
  unfold monthLength
  split <;> omega

attribute [local simp] daysBeforeMonth monthOfDay

theorem daysBeforeMonth_succ (y : ℤ) {m : ℕ} (hm : 0 < m) :
    daysBeforeMonth y (m + 1) = daysBeforeMonth y m + monthLength y m := by
  obtain ⟨n, rfl⟩ : ∃ n, m = n + 1 := ⟨m - 1, by omega⟩
  rfl

theorem daysBeforeMonth_mono (y : ℤ) {m n : ℕ} (hm : 0 < m) (h : m ≤ n) :
    daysBeforeMonth y m ≤ daysBeforeMonth y n := by
  induction n, h using Nat.le_induction with
  | base => exact le_rfl
  | succ n hn ih =>
    rw [daysBeforeMonth_succ y (by omega)]
    have := monthLength_pos y n
    omega

theorem daysBeforeMonth_nonneg (y : ℤ) (m : ℕ) : 0 ≤ daysBeforeMonth y m := by
  rcases Nat.eq_zero_or_pos m with rfl | h
  · exact le_rfl
  · exact daysBeforeMonth_mono y one_pos h

/-- The twelve months fill the year. -/
theorem daysBeforeMonth_thirteen (y : ℤ) : daysBeforeMonth y 13 = 365 + leapDay y := by
  simp only [daysBeforeMonth, monthLength]
  omega

theorem monthOfDay_spec (y z : ℤ) (n : ℕ) (h0 : 0 ≤ z) (hn : z < daysBeforeMonth y (n + 1)) :
    1 ≤ monthOfDay y z n ∧ monthOfDay y z n ≤ n ∧
      daysBeforeMonth y (monthOfDay y z n) ≤ z ∧
      z < daysBeforeMonth y (monthOfDay y z n + 1) := by
  induction n with
  | zero =>
    rw [zero_add, daysBeforeMonth] at hn
    omega
  | succ n ih =>
    unfold monthOfDay
    by_cases h : daysBeforeMonth y (n + 1) ≤ z
    · rw [if_pos h]
      exact ⟨by omega, le_rfl, h, hn⟩
    · rw [if_neg h]
      obtain ⟨h1, h2, h3, h4⟩ := ih (not_le.mp h)
      exact ⟨h1, by omega, h3, h4⟩

theorem monthOfDay_eq {y z : ℤ} {m n : ℕ} (hm : 0 < m) (hmn : m ≤ n)
    (h : daysBeforeMonth y m ≤ z) (h' : z < daysBeforeMonth y (m + 1)) :
    monthOfDay y z n = m := by
  have h0 : 0 ≤ z := (daysBeforeMonth_nonneg y m).trans h
  have hn : z < daysBeforeMonth y (n + 1) :=
    h'.trans_le (daysBeforeMonth_mono y (by omega) (by omega))
  obtain ⟨h1, -, h3, h4⟩ := monthOfDay_spec y z n h0 hn
  rcases lt_trichotomy (monthOfDay y z n) m with hlt | heq | hgt
  · have := daysBeforeMonth_mono y (by omega) (show monthOfDay y z n + 1 ≤ m by omega)
    omega
  · exact heq
  · have := daysBeforeMonth_mono y (by omega) (show m + 1 ≤ monthOfDay y z n by omega)
    omega

/-! ## Dates -/

def dayOfYear (z : ℤ) : ℤ := z - daysBeforeYear (yearOfDay z)

def dateOfDay (z : ℤ) : ℤ × ℕ × ℤ :=
  let y := yearOfDay z
  let m := monthOfDay y (dayOfYear z) 12
  (y, m, dayOfYear z - daysBeforeMonth y m + 1)

theorem dayOfYear_bounds (z : ℤ) :
    0 ≤ dayOfYear z ∧ dayOfYear z < daysBeforeMonth (yearOfDay z) 13 := by
  have h := yearOfDay_spec z
  have hs := daysBeforeYear_succ (yearOfDay z)
  rw [daysBeforeMonth_thirteen]
  unfold dayOfYear
  omega

/-- Every day has a date: its month exists, its day lies in the month, and counting
the days up to the date leads back to the day. -/
theorem dateOfDay_spec (z : ℤ) :
    1 ≤ (dateOfDay z).2.1 ∧ (dateOfDay z).2.1 ≤ 12 ∧ 1 ≤ (dateOfDay z).2.2 ∧
      (dateOfDay z).2.2 ≤ monthLength (dateOfDay z).1 (dateOfDay z).2.1 ∧
      dayNumber (dateOfDay z).1 (dateOfDay z).2.1 (dateOfDay z).2.2 = z := by
  obtain ⟨h0, hn⟩ := dayOfYear_bounds z
  obtain ⟨h1, h2, h3, h4⟩ := monthOfDay_spec (yearOfDay z) (dayOfYear z) 12 h0 hn
  rw [daysBeforeMonth_succ _ (by omega)] at h4
  refine ⟨h1, h2, ?_, ?_, ?_⟩
  · dsimp only [dateOfDay]
    omega
  · dsimp only [dateOfDay]
    omega
  · simp only [dateOfDay, dayNumber, dayOfYear]
    omega

theorem dateOfDay_dayNumber {y : ℤ} {m : ℕ} {d : ℤ} (hm : 1 ≤ m) (hm' : m ≤ 12) (hd : 1 ≤ d)
    (hd' : d ≤ monthLength y m) : dateOfDay (dayNumber y m d) = (y, m, d) := by
  have hlt : daysBeforeMonth y m + (d - 1) < daysBeforeMonth y (m + 1) := by
    rw [daysBeforeMonth_succ y hm]
    omega
  have hyear : daysBeforeMonth y (m + 1) ≤ 365 + leapDay y := by
    rw [← daysBeforeMonth_thirteen]
    exact daysBeforeMonth_mono y (by omega) (by omega)
  have hnn := daysBeforeMonth_nonneg y m
  have hy : yearOfDay (dayNumber y m d) = y := by
    apply yearOfDay_eq
    · unfold dayNumber
      omega
    · rw [daysBeforeYear_succ]
      unfold dayNumber
      omega
  have hdoy : dayOfYear (dayNumber y m d) = daysBeforeMonth y m + (d - 1) := by
    rw [dayOfYear, hy, dayNumber]
    omega
  have hmon : monthOfDay y (daysBeforeMonth y m + (d - 1)) 12 = m :=
    monthOfDay_eq hm hm' (by omega) hlt
  simp only [dateOfDay, hy, hdoy, hmon, Prod.mk.injEq, true_and]
  omega

theorem dayNumber_next_month (y : ℤ) {m : ℕ} (hm : 1 ≤ m) :
    dayNumber y m 1 + monthLength y m =
      if m = 12 then dayNumber (y + 1) 1 1 else dayNumber y (m + 1) 1 := by
  have hs := daysBeforeMonth_succ y hm
  unfold dayNumber
  by_cases h : m = 12
  · have h1 : daysBeforeMonth (y + 1) 1 = 0 := rfl
    rw [h, daysBeforeMonth_thirteen] at hs
    rw [if_pos h, h, daysBeforeYear_succ]
    omega
  · rw [if_neg h]
    omega

/-! ## Broken-down UTC time -/

structure Tm where
  tmYear : ℤ
  tmMon : ℤ
  tmMday : ℤ
  tmHour : ℤ
  tmMin : ℤ
  tmSec : ℤ
deriving DecidableEq, Repr

def epochDay : ℤ := 719162

/-- `gmtime_r`: seconds since the epoch to broken-down time. -/
def gmtime (t : ℤ) : Tm :=
  let date := dateOfDay (t / 86400 + epochDay)
  { tmYear := date.1 - 1900
    tmMon := date.2.1 - 1
    tmMday := date.2.2
    tmHour := t % 86400 / 3600
    tmMin := t % 3600 / 60
    tmSec := t % 60 }

/-- `timegm`: the inverse of `gmtime_r`; a month outside `0 … 11` carries into the year. -/
def timegm (tm : Tm) : ℤ :=
  86400 * (dayNumber (tm.tmYear + 1900 + tm.tmMon / 12) ((tm.tmMon % 12).toNat + 1) tm.tmMday
    - epochDay) + 3600 * tm.tmHour + 60 * tm.tmMin + tm.tmSec

theorem gmtime_fields (t : ℤ) :
    0 ≤ (gmtime t).tmMon ∧ (gmtime t).tmMon ≤ 11 ∧ 1 ≤ (gmtime t).tmMday ∧
      (gmtime t).tmMday ≤ monthLength ((gmtime t).tmYear + 1900) ((gmtime t).tmMon.toNat + 1) ∧
      0 ≤ (gmtime t).tmHour ∧ (gmtime t).tmHour ≤ 23 ∧ 0 ≤ (gmtime t).tmMin ∧
      (gmtime t).tmMin ≤ 59 ∧ 0 ≤ (gmtime t).tmSec ∧ (gmtime t).tmSec ≤ 59 := by
  obtain ⟨h1, h2, h3, h4, -⟩ := dateOfDay_spec (t / 86400 + epochDay)
  have hm : ((dateOfDay (t / 86400 + epochDay)).2.1 - 1 : ℤ).toNat + 1 =
      (dateOfDay (t / 86400 + epochDay)).2.1 := by omega
  simp only [gmtime, hm, sub_add_cancel]
  refine ⟨?_, ?_, h3, h4, ?_, ?_, ?_, ?_, ?_, ?_⟩ <;> omega

theorem timegm_gmtime (t : ℤ) : timegm (gmtime t) = t := by
  obtain ⟨h1, h2, -, -, h5⟩ := dateOfDay_spec (t / 86400 + epochDay)
  have hdiv : ((dateOfDay (t / 86400 + epochDay)).2.1 - 1 : ℤ) / 12 = 0 := by omega
  have hmod : (((dateOfDay (t / 86400 + epochDay)).2.1 - 1 : ℤ) % 12).toNat + 1 =
      (dateOfDay (t / 86400 + epochDay)).2.1 := by omega
  simp only [timegm, gmtime, hdiv, hmod, sub_add_cancel, add_zero, h5]
  omega

end Gregorian
end Szarp
