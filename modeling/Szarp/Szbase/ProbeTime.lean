import Szarp.Szbase.Date

/-!
# Rounding and moving times

`szb_round_time` and `szb_move_time`: the times at which probes of every type start, in local time.
-/

namespace Szarp
namespace Szbase
open Gregorian

inductive ProbeType where
  | sec10
  | min10
  | hour
  | hour8
  | day
  | week
  | month
  | year
  | custom
deriving DecidableEq

/-- Local time at a fixed offset from UTC; an offset has less than 25 hours. -/
structure Zone where
  utcOffset : ℤ
  bounds : -90000 < utcOffset ∧ utcOffset < 90000

/-- A `struct tm` with the day of the week; Sunday is 0. -/
structure LocalTm extends Tm where
  tmWday : ℤ

namespace Zone

variable (z : Zone)

/-- `localtime_r`; 1 January 1970 was a Thursday. -/
def localtime (t : ℤ) : LocalTm :=
  { gmtime (t + z.utcOffset) with tmWday := ((t + z.utcOffset) / 86400 + 4) % 7 }

def mktime (tm : LocalTm) : ℤ := timegm tm.toTm - z.utcOffset

def szbRoundTime (t : ℤ) (probeType : ProbeType) (customLength : ℤ) : ℤ :=
  let tm := z.localtime t
  if t ≤ 0 then -1
  else if probeType = .custom ∧ customLength ≤ 0 then -1
  else match probeType with
  | .custom => t - t % customLength
  | .min10 => t - t % 600
  | .sec10 => t - t % 10
  | .hour => t - t % 3600
  | .hour8 => z.mktime { tm with tmSec := 0, tmMin := 0, tmHour := tm.tmHour - tm.tmHour % 8 }
  | .day => z.mktime { tm with tmSec := 0, tmMin := 0, tmHour := 0 }
  | .week =>
    z.mktime { tm with tmSec := 0, tmMin := 0, tmHour := 0, tmMday := tm.tmMday + (tm.tmWday - 1) }
  | .month => z.mktime { tm with tmSec := 0, tmMin := 0, tmHour := 0, tmMday := 1 }
  | .year => z.mktime { tm with tmSec := 0, tmMin := 0, tmHour := 0, tmMday := 1, tmMon := 1 }

def szbMoveTime (t count : ℤ) (probeType : ProbeType) (customLength : ℤ) : ℤ :=
  let tm := z.localtime t
  if t ≤ 0 then -1
  else if probeType = .custom ∧ customLength ≤ 0 then -1
  else match probeType with
  | .custom => t + customLength * count
  | .min10 => t + count * 600
  | .sec10 => t + count * 10
  | .hour => t + count * 3600
  | .hour8 => z.mktime { tm with tmHour := tm.tmHour + count * 8 }
  | .day => z.mktime { tm with tmMday := tm.tmMday + count }
  | .week => z.mktime { tm with tmMday := tm.tmMday + count * 7 }
  | .month => z.mktime { tm with tmMon := tm.tmMon + count }
  | .year => z.mktime { tm with tmYear := tm.tmYear + count }

/-- The start and the end of the interval that `szb_get_probe` averages. -/
def szbGetProbe (t : ℤ) (probe : ProbeType) (customProbe : ℤ) : ℤ × ℤ :=
  let s := z.szbRoundTime t probe customProbe
  (s, z.szbMoveTime s 1 probe customProbe)

def weekday (t : ℤ) : ℤ := (z.localtime t).tmWday

def monthOf (t : ℤ) : ℤ := (z.localtime t).tmMon

/-! ## Local dates -/

theorem timegm_shift (u d h m s : ℤ) :
    timegm { gmtime u with
      tmMday := (gmtime u).tmMday + d, tmHour := h, tmMin := m, tmSec := s } =
      u - u % 86400 + 86400 * d + 3600 * h + 60 * m + s := by
  have hu := timegm_gmtime u
  have hday : u % 86400 = 3600 * (gmtime u).tmHour + 60 * (gmtime u).tmMin + (gmtime u).tmSec := by
    simp only [gmtime]
    omega
  simp only [timegm, dayNumber] at hu ⊢
  omega

theorem gmtime_monthStart (y : ℤ) {m : ℕ} (hm : 1 ≤ m) (hm' : m ≤ 12) :
    gmtime (monthStart y m) = ⟨y - 1900, m - 1, 1, 0, 0, 0⟩ := by
  have hlen := monthLength_pos y m
  have hmod := monthStart_mod y m
  have hday : monthStart y m / 86400 + epochDay = dayNumber y m 1 := by
    simp only [monthStart]
    omega
  have hdate := dateOfDay_dayNumber (y := y) hm hm' (d := 1) (by omega) (by omega)
  simp only [gmtime, hday, hdate, Tm.mk.injEq, true_and]
  omega

theorem mktime_days (t d : ℤ) :
    z.mktime { z.localtime t with tmMday := (z.localtime t).tmMday + d } = t + 86400 * d := by
  have h := timegm_shift (t + z.utcOffset) d (gmtime (t + z.utcOffset)).tmHour
    (gmtime (t + z.utcOffset)).tmMin (gmtime (t + z.utcOffset)).tmSec
  refine (congrArg (· - z.utcOffset) h).trans ?_
  simp only [gmtime]
  omega

theorem timegm_first (y mon : ℤ) {m : ℕ} (hm : 1 ≤ m) (hm' : m ≤ 12)
    (hmon : mon % 12 = m - 1) :
    timegm ⟨y - 1900, mon, 1, 0, 0, 0⟩ = monthStart (y + mon / 12) m := by
  have hnat : (mon % 12).toNat + 1 = m := by omega
  simp only [timegm, hnat, monthStart, sub_add_cancel]
  omega

theorem monthStart_two_le (y : ℤ) {m : ℕ} (hm : 2 ≤ m) : monthStart y 2 ≤ monthStart y m := by
  have h := daysBeforeMonth_mono y (show 0 < 2 by omega) hm
  simp only [monthStart, dayNumber]
  omega

theorem monthStart_two (y : ℤ) : monthStart y 2 = monthStart y 1 + 31 * 86400 := by
  have h := monthStart_nextMonth y (le_refl 1)
  have hlen : monthLength y 1 = 31 := rfl
  have hnext : nextMonth y 1 = (y, 2) := rfl
  rw [hnext, hlen] at h
  dsimp only at h
  omega

theorem lt_monthStart_succ (u : ℤ) : u < monthStart ((szbTime2my u).1 + 1) 1 := by
  by_contra hle
  have h := szbTime2my_year_mono (not_lt.mp hle)
  rw [szbTime2my_monthStart _ le_rfl (by omega)] at h
  omega

/-! ## Each type of probe -/

section Types

variable {z} {t : ℤ} (ht : 0 < t) (n c : ℤ)
include ht

theorem szbRoundTime_custom (hc : 0 < c) : z.szbRoundTime t .custom c = t - t % c := by
  rw [szbRoundTime, if_neg (by omega), if_neg (by omega)]

theorem szbMoveTime_custom (hc : 0 < c) : z.szbMoveTime t n .custom c = t + c * n := by
  rw [szbMoveTime, if_neg (by omega), if_neg (by omega)]

theorem szbRoundTime_hour8 : z.szbRoundTime t .hour8 c =
    t + z.utcOffset - (t + z.utcOffset) % 28800 - z.utcOffset := by
  have h := timegm_shift (t + z.utcOffset) 0 ((gmtime (t + z.utcOffset)).tmHour -
    (gmtime (t + z.utcOffset)).tmHour % 8) 0 0
  have hhour : (gmtime (t + z.utcOffset)).tmHour = (t + z.utcOffset) % 86400 / 3600 := rfl
  simp only [add_zero] at h
  rw [szbRoundTime, if_neg (by omega), if_neg (by simp)]
  refine (congrArg (· - z.utcOffset) h).trans ?_
  omega

theorem szbMoveTime_hour8 : z.szbMoveTime t n .hour8 c = t + 28800 * n := by
  have h := timegm_shift (t + z.utcOffset) 0 ((gmtime (t + z.utcOffset)).tmHour + n * 8)
    (gmtime (t + z.utcOffset)).tmMin (gmtime (t + z.utcOffset)).tmSec
  simp only [add_zero] at h
  rw [szbMoveTime, if_neg (by omega), if_neg (by simp)]
  refine (congrArg (· - z.utcOffset) h).trans ?_
  simp only [gmtime]
  omega

theorem szbRoundTime_day : z.szbRoundTime t .day c =
    t + z.utcOffset - (t + z.utcOffset) % 86400 - z.utcOffset := by
  have h := timegm_shift (t + z.utcOffset) 0 0 0 0
  simp only [add_zero, mul_zero] at h
  rw [szbRoundTime, if_neg (by omega), if_neg (by simp)]
  exact congrArg (· - z.utcOffset) h

theorem szbMoveTime_day : z.szbMoveTime t n .day c = t + 86400 * n := by
  rw [szbMoveTime, if_neg (by omega), if_neg (by simp)]
  exact z.mktime_days t n

theorem szbRoundTime_week : z.szbRoundTime t .week c =
    t + z.utcOffset - (t + z.utcOffset) % 86400 + 86400 * (z.weekday t - 1) - z.utcOffset := by
  have h := timegm_shift (t + z.utcOffset) (z.weekday t - 1) 0 0 0
  simp only [add_zero, mul_zero] at h
  rw [szbRoundTime, if_neg (by omega), if_neg (by simp)]
  exact congrArg (· - z.utcOffset) h

theorem szbMoveTime_week : z.szbMoveTime t n .week c = t + 604800 * n := by
  rw [szbMoveTime, if_neg (by omega), if_neg (by simp)]
  refine (z.mktime_days t (n * 7)).trans ?_
  omega

theorem szbRoundTime_month : z.szbRoundTime t .month c =
    monthStart (szbTime2my (t + z.utcOffset)).1 (szbTime2my (t + z.utcOffset)).2 -
      z.utcOffset := by
  have hmonth := szbTime2my_month (t + z.utcOffset)
  have h := timegm_first (szbTime2my (t + z.utcOffset)).1 (gmtime (t + z.utcOffset)).tmMon
    hmonth.1 hmonth.2 (by simp only [szbTime2my] at hmonth ⊢; omega)
  have hzero : (gmtime (t + z.utcOffset)).tmMon / 12 = 0 := by
    simp only [szbTime2my] at hmonth
    have := gmtime_fields (t + z.utcOffset)
    omega
  rw [hzero, add_zero] at h
  rw [szbRoundTime, if_neg (by omega), if_neg (by simp)]
  refine (congrArg (fun y => timegm ⟨y, _, 1, 0, 0, 0⟩ - z.utcOffset) ?_).trans
    (congrArg (· - z.utcOffset) h)
  simp only [szbTime2my, add_sub_cancel_right]
  rfl

theorem szbMoveTime_month {y : ℤ} {m : ℕ} (hm : 1 ≤ m) (hm' : m ≤ 12)
    (hstart : t + z.utcOffset = monthStart y m) :
    z.szbMoveTime t 1 .month c =
      monthStart (nextMonth y m).1 (nextMonth y m).2 - z.utcOffset := by
  have hnext := nextMonth_mem (y := y) hm'
  have hlocal : z.mktime { z.localtime t with tmMon := (z.localtime t).tmMon + 1 } =
      timegm ⟨y - 1900, m - 1 + 1, 1, 0, 0, 0⟩ - z.utcOffset := by
    simp only [mktime, localtime, hstart, gmtime_monthStart y hm hm']
  have h := timegm_first y (m - 1 + 1) (m := (nextMonth y m).2) hnext.1 hnext.2 (by
    unfold nextMonth
    split <;> dsimp only <;> omega)
  have hyear : y + (m - 1 + 1 : ℤ) / 12 = (nextMonth y m).1 := by
    unfold nextMonth
    split <;> dsimp only <;> omega
  rw [szbMoveTime, if_neg (by omega), if_neg (by simp)]
  refine hlocal.trans ?_
  rw [h, hyear]

theorem szbRoundTime_year : z.szbRoundTime t .year c =
    monthStart (szbTime2my (t + z.utcOffset)).1 2 - z.utcOffset := by
  have h := timegm_first (szbTime2my (t + z.utcOffset)).1 1 (m := 2) (by omega) (by omega) rfl
  rw [szbRoundTime, if_neg (by omega), if_neg (by simp)]
  refine (congrArg (fun y => timegm ⟨y, 1, 1, 0, 0, 0⟩ - z.utcOffset) ?_).trans
    (congrArg (· - z.utcOffset) (h.trans (by norm_num)))
  simp only [szbTime2my, add_sub_cancel_right]
  rfl

theorem szbMoveTime_year {y : ℤ} (hstart : t + z.utcOffset = monthStart y 2) :
    z.szbMoveTime t 1 .year c = monthStart (y + 1) 2 - z.utcOffset := by
  have hlocal : z.mktime { z.localtime t with tmYear := (z.localtime t).tmYear + 1 } =
      timegm ⟨y + 1 - 1900, 1, 1, 0, 0, 0⟩ - z.utcOffset := by
    simp only [mktime, localtime, hstart, gmtime_monthStart y (show 1 ≤ 2 by omega) (by omega)]
    rw [show y - 1900 + 1 = y + 1 - 1900 by omega]
    rfl
  have h := timegm_first (y + 1) 1 (m := 2) (by omega) (by omega) rfl
  rw [szbMoveTime, if_neg (by omega), if_neg (by simp)]
  refine hlocal.trans ?_
  rw [h]
  norm_num

end Types

/-! ## The intervals -/

variable {z} {t : ℤ} (c : ℤ)

def InInterval (z : Zone) (t : ℤ) (p : ProbeType) (c : ℤ) : Prop :=
  (z.szbGetProbe t p c).1 ≤ t ∧ t < (z.szbGetProbe t p c).2 ∧
    z.szbRoundTime (z.szbGetProbe t p c).1 p c = (z.szbGetProbe t p c).1

/-- All times of the interval have the same start. -/
def Uniform (z : Zone) (t : ℤ) (p : ProbeType) (c : ℤ) : Prop :=
  ∀ s, (z.szbGetProbe t p c).1 ≤ s → s < (z.szbGetProbe t p c).2 →
    z.szbRoundTime s p c = (z.szbGetProbe t p c).1

/-- Where the times of an interval have one start, it is enough that the time lies in it. -/
theorem inInterval_of_uniform {p : ProbeType} (h : z.Uniform t p c)
    (hle : (z.szbGetProbe t p c).1 ≤ t) (hlt : t < (z.szbGetProbe t p c).2) :
    z.InInterval t p c :=
  ⟨hle, hlt, h _ le_rfl (lt_of_le_of_lt hle hlt)⟩

/-- Times are rounded down to multiples of a length, counted from some instant. -/
theorem sub_emod_of_mem {k u v : ℤ} (hk : 0 < k) (h : u - u % k ≤ v) (h' : v < u - u % k + k) :
    v - v % k = u - u % k := by
  have hu := Int.emod_add_mul_ediv u k
  have hv := Int.emod_add_mul_ediv v k
  have hdiv : v / k = u / k := by
    have hlow : (u / k) * k ≤ v := by linarith
    have hhigh : v < (u / k + 1) * k := by linarith
    apply le_antisymm
    · exact Int.lt_add_one_iff.mp (Int.ediv_lt_of_lt_mul hk hhigh)
    · exact Int.le_ediv_of_mul_le hk hlow
  rw [hdiv] at hv
  linarith

/-- Probes of one length. -/
theorem uniform_of_span {p : ProbeType} {k o : ℤ} (hk : 0 < k)
    (hround : ∀ s, 0 < s → z.szbRoundTime s p c = s + o - (s + o) % k - o)
    (hmove : ∀ s, 0 < s → z.szbMoveTime s 1 p c = s + k) (ht : 0 < t)
    (hpos : 0 < t + o - (t + o) % k - o) : z.Uniform t p c ∧ z.InInterval t p c := by
  have hstart : (z.szbGetProbe t p c).1 = t + o - (t + o) % k - o := hround t ht
  have hend : (z.szbGetProbe t p c).2 = t + o - (t + o) % k - o + k := by
    rw [← hmove _ hpos, ← hround t ht]
    rfl
  have hmod := Int.emod_nonneg (t + o) hk.ne'
  have hlt := Int.emod_lt_of_pos (t + o) hk
  have huniform : z.Uniform t p c := by
    intro s hs hs'
    rw [hstart] at hs ⊢
    rw [hend] at hs'
    rw [hround s (by omega), sub_emod_of_mem (u := t + o) (v := s + o) hk (by omega) (by omega)]
  refine ⟨huniform, inInterval_of_uniform c huniform ?_ ?_⟩
  · rw [hstart]
    omega
  · rw [hend]
    omega

/-! ## Weeks, months and years -/

section Calendar

variable (ht : 365 * 86400 ≤ t)
include ht

theorem week_iff : (z.InInterval t .week c ↔ z.weekday t = 1) ∧ ¬ z.Uniform t .week c := by
  have hbounds := z.bounds
  have hround : ∀ s, 0 < s → z.szbRoundTime s .week c = s + z.utcOffset -
      (s + z.utcOffset) % 86400 + 86400 * (((s + z.utcOffset) / 86400 + 4) % 7 - 1) -
        z.utcOffset := fun s hs => szbRoundTime_week hs c
  have hstart : (z.szbGetProbe t .week c).1 = _ := hround t (by omega)
  have hend : (z.szbGetProbe t .week c).2 = _ := szbMoveTime_week (by rw [hround t] <;> omega) 1 c
  have hagain := hround (z.szbGetProbe t .week c).1 (by rw [hstart]; omega)
  have hnext := hround ((z.szbGetProbe t .week c).1 + 86400) (by rw [hstart]; omega)
  have hwday : z.weekday t = ((t + z.utcOffset) / 86400 + 4) % 7 := rfl
  rw [hround t (by omega), ← hstart] at hend
  constructor
  · rw [InInterval, hwday, hagain, hend]
    rw [hstart] at *
    omega
  · intro huniform
    have hfirst := huniform (z.szbGetProbe t .week c).1 le_rfl (by omega)
    have hsecond := huniform ((z.szbGetProbe t .week c).1 + 86400) (by omega) (by omega)
    rw [hagain] at hfirst
    rw [hnext] at hsecond
    rw [hstart] at *
    omega

theorem month_interval : z.InInterval t .month c ∧ z.Uniform t .month c := by
  have hbounds := z.bounds
  obtain ⟨y, m, hym⟩ : ∃ y m, szbTime2my (t + z.utcOffset) = (y, m) := ⟨_, _, rfl⟩
  have hmonth := szbTime2my_month (t + z.utcOffset)
  have hle := monthStart_le (t + z.utcOffset)
  have hlt := lt_monthStart_nextMonth (t + z.utcOffset)
  rw [hym] at hmonth hle hlt
  dsimp only at hmonth hle hlt
  have hlen := monthLength_pos y m
  have hlast := monthStart_nextMonth y hmonth.1
  have hstart : z.szbRoundTime t .month c = monthStart y m - z.utcOffset := by
    rw [szbRoundTime_month (by omega), hym]
  have hend := szbMoveTime_month (z := z) (t := z.szbRoundTime t .month c) (by rw [hstart]; omega) c
    hmonth.1 hmonth.2 (by rw [hstart, sub_add_cancel])
  have huniform : z.Uniform t .month c := by
    intro s hs hs'
    have hs₁ := le_of_eq_of_le hstart.symm hs
    have hs₂ := lt_of_lt_of_eq hs' hend
    have hsame := szbTime2my_of_mem (t := s + z.utcOffset) (y := y) hmonth.1 hmonth.2 (by omega)
      (by omega)
    rw [szbRoundTime_month (by omega), hsame]
    exact hstart.symm
  refine ⟨inInterval_of_uniform c huniform ?_ ?_, huniform⟩
  · exact hstart.le.trans (by omega)
  · exact lt_of_lt_of_le (by omega) hend.ge

theorem year_iff : (z.InInterval t .year c ↔ z.monthOf t ≠ 0) ∧ ¬ z.Uniform t .year c := by
  have hbounds := z.bounds
  obtain ⟨y, m, hym⟩ : ∃ y m, szbTime2my (t + z.utcOffset) = (y, m) := ⟨_, _, rfl⟩
  have hmonth := szbTime2my_month (t + z.utcOffset)
  have hge := szbTime2my_year_ge (show 0 ≤ t + z.utcOffset by omega)
  have hle := monthStart_le (t + z.utcOffset)
  have hlt := lt_monthStart_nextMonth (t + z.utcOffset)
  have hyear := lt_monthStart_succ (t + z.utcOffset)
  rw [hym] at hmonth hge hle hlt hyear
  dsimp only at hmonth hge hle hlt hyear
  have hmonthOf : z.monthOf t = (m : ℤ) - 1 := by
    have h := congrArg Prod.snd hym
    have hfields := gmtime_fields (t + z.utcOffset)
    simp only [szbTime2my] at h
    change (gmtime (t + z.utcOffset)).tmMon = _
    omega
  have hfirst : 0 ≤ monthStart y 1 := by
    have h := daysBeforeYear_mono hge
    have hone : daysBeforeMonth y 1 = 0 := rfl
    have hepoch : daysBeforeYear 1970 = epochDay := by decide
    simp only [monthStart, dayNumber]
    omega
  have htwo := monthStart_two y
  have htwo' := monthStart_two (y + 1)
  have hnext : monthStart y 2 < monthStart (y + 1) 1 := by
    have h := lt_monthStart_succ (monthStart y 2)
    rwa [szbTime2my_monthStart y (show 1 ≤ 2 by omega) (by omega)] at h
  -- every time of a year is rounded to the start of its February
  have hstart : z.szbRoundTime t .year c = monthStart y 2 - z.utcOffset := by
    rw [szbRoundTime_year (by omega), hym]
  have hend := szbMoveTime_year (z := z) (t := z.szbRoundTime t .year c) (by rw [hstart]; omega) c
    (y := y) (by rw [hstart, sub_add_cancel])
  have hround : ∀ m, 1 ≤ m → m ≤ 12 → ∀ y', 0 < monthStart y' m - z.utcOffset →
      z.szbRoundTime (monthStart y' m - z.utcOffset) .year c = monthStart y' 2 - z.utcOffset := by
    intro m hm hm' y' hpos
    rw [szbRoundTime_year hpos, sub_add_cancel, szbTime2my_monthStart y' hm hm']
  constructor
  · simp only [InInterval, szbGetProbe, hend]
    rw [hstart, hround 2 (by omega) (by omega) y (by omega), hmonthOf]
    constructor
    -- in January that is later than the time itself
    · rintro ⟨hin, -, -⟩ hzero
      obtain rfl : m = 1 := by omega
      have hjanuary : nextMonth y 1 = (y, 2) := rfl
      rw [hjanuary] at hlt
      dsimp only at hlt
      omega
    · intro hne
      have h := monthStart_two_le y (show 2 ≤ m by omega)
      exact ⟨by omega, by omega, rfl⟩
  -- the January behind the interval is rounded to another start
  · intro huniform
    have h := huniform (monthStart (y + 1) 1 - z.utcOffset)
      (le_of_eq_of_le hstart (by omega)) (lt_of_lt_of_eq (by omega) hend.symm)
    rw [hround 1 le_rfl (by omega) (y + 1) (by omega)] at h
    have h' := h.trans hstart
    omega

end Calendar

/-! ## All types -/

theorem custom_iff (ht : 0 < t) (hc : 0 < c) :
    (z.InInterval t .custom c ↔ c ≤ t) ∧ (c ≤ t → z.Uniform t .custom c) := by
  have hround : ∀ s, 0 < s → z.szbRoundTime s .custom c = s + 0 - (s + 0) % c - 0 := by
    intro s hs
    rw [szbRoundTime_custom hs c hc, add_zero, sub_zero]
  have hmove : ∀ s, 0 < s → z.szbMoveTime s 1 .custom c = s + c := by
    intro s hs
    rw [szbMoveTime_custom hs 1 c hc, mul_one]
  have hspan : c ≤ t → z.Uniform t .custom c ∧ z.InInterval t .custom c := by
    intro hle
    have hlt := Int.emod_lt_of_pos t hc
    exact uniform_of_span c hc hround hmove ht (by rw [add_zero]; omega)
  refine ⟨⟨?_, fun hle => (hspan hle).2⟩, fun hle => (hspan hle).1⟩
  rintro ⟨hle, hlt, -⟩
  by_contra hgt
  have hzero : z.szbRoundTime t .custom c = 0 := by
    rw [szbRoundTime_custom ht c hc, Int.emod_eq_of_lt ht.le (not_le.mp hgt), sub_self]
  have hend : (z.szbGetProbe t .custom c).2 = -1 := by
    simp only [szbGetProbe, hzero, szbMoveTime, le_refl, if_true]
  omega

/-- The starts of the probes divide the time of every type but weeks and years, where the length is
not longer than the time. The time itself lies in its interval for weeks on Mondays, and for years
behind January. -/
theorem partition_iff (z : Zone) {t : ℤ} (ht : 365 * 86400 ≤ t) (p : ProbeType) {c : ℤ}
    (hc : p = .custom → 0 < c) :
    (z.InInterval t p c ∧ z.Uniform t p c ↔
      p ≠ .week ∧ p ≠ .year ∧ (p = .custom → c ≤ t)) ∧
    (z.InInterval t p c ↔ (p = .week → z.weekday t = 1) ∧ (p = .year → z.monthOf t ≠ 0) ∧
      (p = .custom → c ≤ t)) := by
  have hbounds := z.bounds
  have hpos : 0 < t := by omega
  cases p with
  | sec10 =>
    have h := uniform_of_span (z := z) (p := .sec10) (o := 0) c (show (0 : ℤ) < 10 by omega)
      (fun s hs => by simp [szbRoundTime, not_le.mpr hs])
      (fun s hs => by simp [szbMoveTime, not_le.mpr hs]) hpos (by omega)
    simp [h]
  | min10 =>
    have h := uniform_of_span (z := z) (p := .min10) (o := 0) c (show (0 : ℤ) < 600 by omega)
      (fun s hs => by simp [szbRoundTime, not_le.mpr hs])
      (fun s hs => by simp [szbMoveTime, not_le.mpr hs]) hpos (by omega)
    simp [h]
  | hour =>
    have h := uniform_of_span (z := z) (p := .hour) (o := 0) c (show (0 : ℤ) < 3600 by omega)
      (fun s hs => by simp [szbRoundTime, not_le.mpr hs])
      (fun s hs => by simp [szbMoveTime, not_le.mpr hs]) hpos (by omega)
    simp [h]
  | hour8 =>
    have h := uniform_of_span (z := z) (p := .hour8) c (show (0 : ℤ) < 28800 by omega)
      (fun s hs => szbRoundTime_hour8 hs c) (fun s hs => szbMoveTime_hour8 hs 1 c) hpos (by omega)
    simp [h]
  | day =>
    have h := uniform_of_span (z := z) (p := .day) c (show (0 : ℤ) < 86400 by omega)
      (fun s hs => szbRoundTime_day hs c) (fun s hs => szbMoveTime_day hs 1 c) hpos (by omega)
    simp [h]
  | week =>
    obtain ⟨hiff, hnot⟩ := week_iff (z := z) c ht
    simp [hiff, hnot]
  | month =>
    have h := month_interval (z := z) c ht
    simp [h]
  | year =>
    obtain ⟨hiff, hnot⟩ := year_iff (z := z) c ht
    simp [hiff, hnot]
  | custom =>
    obtain ⟨hiff, hspan⟩ := custom_iff (z := z) c hpos (hc rfl)
    simp only [hiff, ne_eq, reduceCtorEq, not_false_eq_true, true_and, false_implies, forall_const]
    exact ⟨⟨And.left, fun hle => ⟨hle, hspan hle⟩⟩, trivial⟩

/-- Two hours, counted from the epoch, in a zone one hour ahead. -/
theorem partition_iff_twoHours : Zone.InInterval ⟨3600, by decide⟩ 1000000000 .custom 7200 :=
  (partition_iff ⟨3600, by decide⟩ (by decide) .custom fun _ => by decide).2.mpr
    ⟨nofun, nofun, fun _ => by decide⟩

/-- A week is rounded up on Tuesday 11 September 2001, and a year on 15 January 2002. -/
theorem tuesday_not_inInterval :
    ¬ Zone.InInterval ⟨0, by decide⟩ 1000209600 .week 0 ∧
      ¬ Zone.InInterval ⟨0, by decide⟩ 1011052800 .year 0 := by
  constructor
  · rintro ⟨hle, -⟩
    revert hle
    decide +kernel
  · rintro ⟨hle, -⟩
    revert hle
    decide +kernel

end Zone
end Szbase
end Szarp
