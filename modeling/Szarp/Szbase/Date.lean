import Szarp.Lib.Gregorian

/-!
# Months and probes of the data base

`szbdate.cc`: the data of a parameter is kept in one file for each month, and each file
holds one probe for every ten minutes of its month.
-/

namespace Szarp
namespace Szbase
open Gregorian

/-- `SZBASE_DATA_SPAN`: the length of a probe in seconds. -/
def dataSpan : ℤ := 600

def dataPerDay : ℤ := 24 * (3600 / 600)

def minYear : ℤ := 0
def maxYear : ℤ := 9999

/-- The table of `szb_probecnt`; entries 0 and 13 are guards. -/
def probes : List ℤ :=
  [0, 31 * dataPerDay, 28 * dataPerDay, 31 * dataPerDay, 30 * dataPerDay, 31 * dataPerDay,
    30 * dataPerDay, 31 * dataPerDay, 31 * dataPerDay, 30 * dataPerDay, 31 * dataPerDay,
    30 * dataPerDay, 31 * dataPerDay, 0]

/-- The number of probes in the file of a month. -/
def szbProbecnt (year : ℤ) (month : ℕ) : ℤ :=
  if year < minYear ∨ year > maxYear then 0
  else if month = 2 then
    if year % 400 = 0 then 29 * dataPerDay
    else if year % 100 = 0 then 28 * dataPerDay
    else if year % 4 = 0 then 29 * dataPerDay
    else probes.getD month 0
  else probes.getD month 0

def szbTime2my (time : ℤ) : ℤ × ℕ :=
  ((gmtime time).tmYear + 1900, ((gmtime time).tmMon + 1).toNat)

def daySec : List ℤ :=
  [0, 0, 86400, 2 * 86400, 3 * 86400, 4 * 86400, 5 * 86400, 6 * 86400,
    7 * 86400, 8 * 86400, 9 * 86400, 10 * 86400, 11 * 86400, 12 * 86400, 13 * 86400, 14 * 86400,
    15 * 86400, 16 * 86400, 17 * 86400, 18 * 86400, 19 * 86400, 20 * 86400, 21 * 86400,
    22 * 86400, 23 * 86400, 24 * 86400, 25 * 86400, 26 * 86400, 27 * 86400, 28 * 86400,
    29 * 86400, 30 * 86400]

def hourSec : List ℤ :=
  [0, 3600, 2 * 3600, 3 * 3600, 4 * 3600, 5 * 3600, 6 * 3600, 7 * 3600,
    8 * 3600, 9 * 3600, 10 * 3600, 11 * 3600, 12 * 3600, 13 * 3600, 14 * 3600, 15 * 3600,
    16 * 3600, 17 * 3600, 18 * 3600, 19 * 3600, 20 * 3600, 21 * 3600, 22 * 3600, 23 * 3600]

/-- The index of the probe of length `probeLength` that time `t` falls into, within
the month of `t`. -/
def szbProbeind (t probeLength : ℤ) : ℤ :=
  let tmp := gmtime t
  (daySec.getD tmp.tmMday.toNat 0 + hourSec.getD tmp.tmHour.toNat 0 + tmp.tmMin * 60 + tmp.tmSec)
    / probeLength

def probe2time (probe year : ℤ) (month : ℕ) : ℤ :=
  let tm : Tm :=
    { tmYear := year - 1900, tmMon := month - 1, tmMday := 1, tmHour := 0, tmMin := 0, tmSec := 0 }
  timegm tm + probe * dataSpan

/-- `szb_round_time` for the probe types that have a fixed length. -/
def szbRoundTime (t span : ℤ) : ℤ := if t ≤ 0 then -1 else t - t % span

def dateOf (t : ℤ) : ℤ × ℕ × ℤ := dateOfDay (t / 86400 + epochDay)

def monthStart (year : ℤ) (month : ℕ) : ℤ := 86400 * (dayNumber year month 1 - epochDay)

def nextMonth (year : ℤ) (month : ℕ) : ℤ × ℕ :=
  if month = 12 then (year + 1, 1) else (year, month + 1)

/-! ## The tables -/

theorem daySec_getD {d : ℤ} (h1 : 1 ≤ d) (h31 : d ≤ 31) :
    daySec.getD d.toNat 0 = (d - 1) * 86400 := by
  interval_cases d <;> rfl

theorem hourSec_getD {h : ℤ} (h0 : 0 ≤ h) (h23 : h ≤ 23) :
    hourSec.getD h.toNat 0 = h * 3600 := by
  interval_cases h <;> rfl

/-- The table and the leap-year branches of `szb_probecnt` count the days of the calendar. -/
theorem szbProbecnt_eq {y : ℤ} {m : ℕ} (hy : 0 ≤ y) (hy' : y ≤ 9999) (hm : 1 ≤ m) (hm' : m ≤ 12) :
    szbProbecnt y m = 144 * monthLength y m := by
  have hr : ¬ (y < minYear ∨ y > maxYear) := by
    unfold minYear maxYear
    omega
  rw [szbProbecnt, if_neg hr]
  by_cases h2 : m = 2
  · subst h2
    have hlen : monthLength y 2 = 28 + leapDay y := rfl
    have htab : probes.getD 2 0 = 28 * dataPerDay := rfl
    have hday : dataPerDay = 144 := rfl
    rw [if_pos rfl, hlen, htab, hday]
    rcases leapDay_cases y with h | h <;> split_ifs <;> omega
  · rw [if_neg h2]
    interval_cases m <;> first | rfl | exact absurd rfl h2

/-! ## Times and dates -/

theorem szbTime2my_eq (t : ℤ) : szbTime2my t = ((dateOf t).1, (dateOf t).2.1) := by
  have h := (dateOfDay_spec (t / 86400 + epochDay)).1
  simp only [szbTime2my, gmtime, dateOf, Prod.mk.injEq]
  omega

theorem probe2time_eq (i y : ℤ) {m : ℕ} (hm : 1 ≤ m) (hm' : m ≤ 12) :
    probe2time i y m = monthStart y m + 600 * i := by
  have hdiv : (m - 1 : ℤ) / 12 = 0 := by omega
  have hmod : ((m - 1 : ℤ) % 12).toNat + 1 = m := by omega
  simp only [probe2time, timegm, monthStart, hdiv, hmod, dataSpan, sub_add_cancel, add_zero]
  ring

/-- The probe index counts ten minutes from the first instant of the month. -/
theorem szbProbeind_eq (t : ℤ) :
    szbProbeind t dataSpan = (((dateOf t).2.2 - 1) * 86400 + t % 86400) / 600 := by
  obtain ⟨-, -, h3, h4, h5, h6, -⟩ := gmtime_fields t
  have h31 : (gmtime t).tmMday ≤ 31 := h4.trans (monthLength_pos _ _).2
  have hsec : t % 86400 / 3600 * 3600 + t % 3600 / 60 * 60 + t % 60 = t % 86400 := by omega
  have hday : (gmtime t).tmMday = (dateOf t).2.2 := rfl
  rw [hday] at h3 h31
  have hsum : ((dateOf t).2.2 - 1) * 86400 + (gmtime t).tmHour * 3600 + (gmtime t).tmMin * 60
      + (gmtime t).tmSec = ((dateOf t).2.2 - 1) * 86400 + t % 86400 := by
    rw [← hsec]
    simp only [gmtime]
    ring
  simp only [szbProbeind, hday, daySec_getD h3 h31, hourSec_getD h5 h6, hsum, dataSpan]

theorem monthStart_add (t : ℤ) :
    monthStart (dateOf t).1 (dateOf t).2.1 + ((dateOf t).2.2 - 1) * 86400 + t % 86400 = t := by
  obtain ⟨-, -, -, -, h5⟩ := dateOfDay_spec (t / 86400 + epochDay)
  simp only [dayNumber] at h5
  simp only [monthStart, dateOf, dayNumber]
  omega

theorem szbTime2my_month (t : ℤ) : 1 ≤ (szbTime2my t).2 ∧ (szbTime2my t).2 ≤ 12 := by
  obtain ⟨h1, h2, -⟩ := dateOfDay_spec (t / 86400 + epochDay)
  rw [szbTime2my_eq]
  exact ⟨h1, h2⟩

/-- The epoch is the first instant of 1970. -/
theorem szbTime2my_year_ge {t : ℤ} (ht : 0 ≤ t) : 1970 ≤ (szbTime2my t).1 := by
  obtain ⟨-, h2⟩ := yearOfDay_spec (t / 86400 + epochDay)
  rw [szbTime2my_eq]
  change 1970 ≤ yearOfDay (t / 86400 + epochDay)
  by_contra hlt
  have hle := daysBeforeYear_mono (show yearOfDay (t / 86400 + epochDay) + 1 ≤ 1970 by omega)
  have h0 : daysBeforeYear 1970 = epochDay := by decide
  omega

theorem szbProbeind_bounds {t : ℤ} (ht : 0 ≤ t) (hy : (szbTime2my t).1 ≤ maxYear) :
    0 ≤ szbProbeind t dataSpan ∧
      szbProbeind t dataSpan < szbProbecnt (szbTime2my t).1 (szbTime2my t).2 := by
  obtain ⟨h1, h2⟩ := szbTime2my_month t
  have hge := szbTime2my_year_ge ht
  rw [szbProbecnt_eq (by omega) hy h1 h2, szbProbeind_eq, szbTime2my_eq]
  obtain ⟨-, -, h3, h4, -⟩ := dateOfDay_spec (t / 86400 + epochDay)
  change 1 ≤ (dateOf t).2.2 at h3
  change (dateOf t).2.2 ≤ monthLength (dateOf t).1 (dateOf t).2.1 at h4
  dsimp only
  omega

theorem probe2time_szbProbeind (t : ℤ) :
    probe2time (szbProbeind t dataSpan) (szbTime2my t).1 (szbTime2my t).2 = t - t % 600 := by
  obtain ⟨h1, h2⟩ := szbTime2my_month t
  have hs := monthStart_add t
  rw [probe2time_eq _ _ h1 h2, szbProbeind_eq, szbTime2my_eq]
  have hstart : monthStart (dateOf t).1 (dateOf t).2.1 % 600 = 0 := by
    unfold monthStart
    omega
  dsimp only
  omega

theorem dateOf_probe2time {i y : ℤ} {m : ℕ} (hm : 1 ≤ m) (hm' : m ≤ 12) (hi : 0 ≤ i)
    (hi' : i < 144 * monthLength y m) :
    dateOf (probe2time i y m) = (y, m, i / 144 + 1) := by
  have hday : probe2time i y m / 86400 + epochDay = dayNumber y m (i / 144 + 1) := by
    rw [probe2time_eq i y hm hm']
    simp only [monthStart, dayNumber]
    omega
  rw [dateOf, hday]
  exact dateOfDay_dayNumber hm hm' (by omega) (by omega)

/-- A month file ends where the next one starts. -/
theorem probe2time_next_month {y : ℤ} {m : ℕ} (hy : 0 ≤ y) (hy' : y ≤ 9999) (hm : 1 ≤ m)
    (hm' : m ≤ 12) :
    probe2time 0 y m + 600 * szbProbecnt y m =
      probe2time 0 (nextMonth y m).1 (nextMonth y m).2 := by
  have hn := dayNumber_next_month y hm
  rw [szbProbecnt_eq hy hy' hm hm', probe2time_eq 0 y hm hm']
  by_cases h : m = 12
  · rw [if_pos h] at hn
    rw [nextMonth, if_pos h, probe2time_eq 0 (y + 1) le_rfl (by omega)]
    simp only [monthStart]
    omega
  · rw [if_neg h] at hn
    rw [nextMonth, if_neg h, probe2time_eq 0 y (m := m + 1) (by omega) (by omega)]
    simp only [monthStart]
    omega

/-! ## Months -/

theorem monthStart_mod (y : ℤ) (m : ℕ) : monthStart y m % 86400 = 0 := by
  unfold monthStart
  omega

theorem monthStart_nextMonth (y : ℤ) {m : ℕ} (hm : 1 ≤ m) :
    monthStart (nextMonth y m).1 (nextMonth y m).2 = monthStart y m + 86400 * monthLength y m := by
  have hn := dayNumber_next_month y hm
  unfold nextMonth monthStart
  by_cases h : m = 12
  · rw [if_pos h] at hn ⊢
    dsimp only
    omega
  · rw [if_neg h] at hn ⊢
    dsimp only
    omega

theorem monthStart_le (t : ℤ) : monthStart (szbTime2my t).1 (szbTime2my t).2 ≤ t := by
  have h := monthStart_add t
  obtain ⟨-, -, h3, -⟩ := dateOfDay_spec (t / 86400 + epochDay)
  change 1 ≤ (dateOf t).2.2 at h3
  rw [szbTime2my_eq]
  dsimp only
  omega

theorem lt_monthStart_nextMonth (t : ℤ) :
    t < monthStart (nextMonth (szbTime2my t).1 (szbTime2my t).2).1
      (nextMonth (szbTime2my t).1 (szbTime2my t).2).2 := by
  have h := monthStart_add t
  obtain ⟨-, -, -, h4, -⟩ := dateOfDay_spec (t / 86400 + epochDay)
  change (dateOf t).2.2 ≤ monthLength (dateOf t).1 (dateOf t).2.1 at h4
  rw [monthStart_nextMonth _ (szbTime2my_month t).1, szbTime2my_eq]
  dsimp only
  omega

theorem szbTime2my_of_mem {t y : ℤ} {m : ℕ} (hm : 1 ≤ m) (hm' : m ≤ 12) (h : monthStart y m ≤ t)
    (h' : t < monthStart (nextMonth y m).1 (nextMonth y m).2) : szbTime2my t = (y, m) := by
  rw [monthStart_nextMonth y hm] at h'
  have hday : t / 86400 + epochDay = dayNumber y m ((t - monthStart y m) / 86400 + 1) := by
    simp only [monthStart, dayNumber]
    omega
  rw [szbTime2my_eq, dateOf, hday, dateOfDay_dayNumber hm hm' (by omega) (by omega)]

theorem szbTime2my_monthStart (y : ℤ) {m : ℕ} (hm : 1 ≤ m) (hm' : m ≤ 12) :
    szbTime2my (monthStart y m) = (y, m) := by
  apply szbTime2my_of_mem hm hm' le_rfl
  have hlen := monthLength_pos y m
  rw [monthStart_nextMonth y hm]
  omega

theorem nextMonth_mem {y : ℤ} {m : ℕ} (hm' : m ≤ 12) :
    1 ≤ (nextMonth y m).2 ∧ (nextMonth y m).2 ≤ 12 := by
  unfold nextMonth
  split <;> omega

theorem szbTime2my_year_mono {t t' : ℤ} (h : t ≤ t') : (szbTime2my t).1 ≤ (szbTime2my t').1 := by
  obtain ⟨hlo, -⟩ := yearOfDay_spec (t / 86400 + epochDay)
  obtain ⟨-, hhi⟩ := yearOfDay_spec (t' / 86400 + epochDay)
  rw [szbTime2my_eq, szbTime2my_eq]
  change yearOfDay (t / 86400 + epochDay) ≤ yearOfDay (t' / 86400 + epochDay)
  by_contra hlt
  have := daysBeforeYear_mono
    (show yearOfDay (t' / 86400 + epochDay) + 1 ≤ yearOfDay (t / 86400 + epochDay) by omega)
  omega

/-- The year and the month of a block with probes are those of the calendar. -/
theorem valid_of_szbProbecnt {y : ℤ} {m : ℕ} (h : 0 < szbProbecnt y m) :
    0 ≤ y ∧ y ≤ 9999 ∧ 1 ≤ m ∧ m ≤ 12 := by
  have hy : ¬ (y < minYear ∨ y > maxYear) := by
    intro hy
    rw [szbProbecnt, if_pos hy] at h
    exact absurd h (lt_irrefl 0)
  have hm : 1 ≤ m ∧ m ≤ 12 := by
    by_contra hm
    have h2 : m ≠ 2 := by omega
    rw [szbProbecnt, if_neg hy, if_neg h2] at h
    have h0 : m = 0 ∨ 13 ≤ m := by omega
    rcases h0 with rfl | h13
    · exact absurd h (by decide)
    · rcases Nat.lt_or_ge m 14 with h14 | h14
      · rw [show m = 13 by omega] at h
        exact absurd h (by decide)
      · rw [List.getD_eq_getElem?_getD, List.getElem?_eq_none h14] at h
        exact absurd h (lt_irrefl 0)
  unfold minYear maxYear at hy
  omega

/-- A time belongs to the probe in whose ten minutes it is. -/
theorem szbProbeind_of_mem {t y : ℤ} {m : ℕ} (h : probe2time 0 y m ≤ t)
    (h' : t < probe2time 0 y m + 600 * szbProbecnt y m) :
    szbProbeind t dataSpan = (t - probe2time 0 y m) / 600 ∧
      dateOf t = (y, m, (t - probe2time 0 y m) / 600 / 144 + 1) := by
  have hcnt : 0 < szbProbecnt y m := by omega
  obtain ⟨hy, hy', hm, hm'⟩ := valid_of_szbProbecnt hcnt
  rw [szbProbecnt_eq hy hy' hm hm'] at h'
  have hstart := probe2time_eq 0 y hm hm'
  have hprobe := probe2time_eq ((t - probe2time 0 y m) / 600) y hm hm'
  have hdate := dateOf_probe2time (y := y) hm hm' (i := (t - probe2time 0 y m) / 600) (by omega)
    (by omega)
  have hday : t / 86400 = probe2time ((t - probe2time 0 y m) / 600) y m / 86400 := by
    rw [hprobe]
    simp only [monthStart] at hstart ⊢
    omega
  have hdate' : dateOf t = (y, m, (t - probe2time 0 y m) / 600 / 144 + 1) := by
    rw [← hdate]
    simp only [dateOf, hday]
  refine ⟨?_, hdate'⟩
  rw [szbProbeind_eq, hdate']
  simp only [monthStart] at hstart
  dsimp only
  omega

theorem not_epoch_inside {y : ℤ} {m : ℕ} (h : probe2time 0 y m ≤ -1)
    (h' : 0 < probe2time 0 y m + 600 * szbProbecnt y m) : False := by
  obtain ⟨-, -, hm, hm'⟩ := valid_of_szbProbecnt (y := y) (m := m) (by omega)
  have hbefore := (szbProbeind_of_mem h (by omega)).2
  have hbehind := (szbProbeind_of_mem (t := 0) (y := y) (m := m) (by omega) (by omega)).2
  have h1 : (dateOf (-1)).1 = 1969 := by decide +kernel
  have h2 : (dateOf 0).1 = 1970 := by decide +kernel
  rw [hbefore] at h1
  rw [hbehind] at h2
  dsimp only at h1 h2
  omega

/-! ## The bijection between instants and probes -/

def ValidProbe (y : ℤ) (m : ℕ) (i : ℤ) : Prop :=
  1970 ≤ y ∧ y ≤ maxYear ∧ 1 ≤ m ∧ m ≤ 12 ∧ 0 ≤ i ∧ i < szbProbecnt y m

theorem ValidProbe.lt {y : ℤ} {m : ℕ} {i : ℤ} (h : ValidProbe y m i) :
    i < 144 * monthLength y m := by
  obtain ⟨hy, hy', hm, hm', -, hi⟩ := h
  rwa [szbProbecnt_eq (by omega) hy' hm hm'] at hi

theorem szbTime2my_probe2time {y : ℤ} {m : ℕ} {i : ℤ} (h : ValidProbe y m i) :
    szbTime2my (probe2time i y m) = (y, m) := by
  obtain ⟨-, -, hm, hm', hi, -⟩ := id h
  rw [szbTime2my_eq, dateOf_probe2time hm hm' hi h.lt]

theorem szbProbeind_probe2time {y : ℤ} {m : ℕ} {i : ℤ} (h : ValidProbe y m i) :
    szbProbeind (probe2time i y m) dataSpan = i := by
  obtain ⟨-, -, hm, hm', hi, -⟩ := id h
  rw [szbProbeind_eq, dateOf_probe2time hm hm' hi h.lt, probe2time_eq i y hm hm']
  simp only [monthStart]
  omega

/-- The probe that an instant falls into. -/
theorem validProbe_szbProbeind {t : ℤ} (ht : 0 ≤ t) (hy : (szbTime2my t).1 ≤ maxYear) :
    ValidProbe (szbTime2my t).1 (szbTime2my t).2 (szbProbeind t dataSpan) := by
  obtain ⟨h0, hlt⟩ := szbProbeind_bounds ht hy
  obtain ⟨h1, h2⟩ := szbTime2my_month t
  exact ⟨szbTime2my_year_ge ht, hy, h1, h2, h0, hlt⟩

/-- Every instant up to the end of year 9999 falls into exactly one probe of one month,
and every probe of every month starts at an instant that leads back to it. -/
theorem month_probe_bijection :
    (∀ t : ℤ, 0 ≤ t → (szbTime2my t).1 ≤ maxYear →
      0 ≤ szbProbeind t dataSpan ∧
      szbProbeind t dataSpan < szbProbecnt (szbTime2my t).1 (szbTime2my t).2 ∧
      probe2time (szbProbeind t dataSpan) (szbTime2my t).1 (szbTime2my t).2 = t - t % 600) ∧
    (∀ (y : ℤ) (m : ℕ) (i : ℤ), ValidProbe y m i →
      szbTime2my (probe2time i y m) = (y, m) ∧ szbProbeind (probe2time i y m) dataSpan = i) ∧
    (∀ (y : ℤ) (m : ℕ), 1970 ≤ y → y ≤ maxYear → 1 ≤ m → m ≤ 12 →
      probe2time 0 y m + 600 * szbProbecnt y m =
        probe2time 0 (nextMonth y m).1 (nextMonth y m).2) ∧
    (∀ t : ℤ, 0 ≤ t → (szbTime2my t).1 ≤ maxYear → t % 600 = 0 →
      ∃! p : ℤ × ℕ × ℤ, ValidProbe p.1 p.2.1 p.2.2 ∧ probe2time p.2.2 p.1 p.2.1 = t) := by
  refine ⟨?_, ?_, ?_, ?_⟩
  · intro t ht hy
    obtain ⟨h0, hlt⟩ := szbProbeind_bounds ht hy
    exact ⟨h0, hlt, probe2time_szbProbeind t⟩
  · intro y m i h
    exact ⟨szbTime2my_probe2time h, szbProbeind_probe2time h⟩
  · intro y m hy hy' hm hm'
    exact probe2time_next_month (by omega) hy' hm hm'
  · intro t ht hy hslot
    refine ⟨((szbTime2my t).1, (szbTime2my t).2, szbProbeind t dataSpan),
      ⟨validProbe_szbProbeind ht hy, ?_⟩, ?_⟩
    · rw [probe2time_szbProbeind, hslot, sub_zero]
    · rintro ⟨y, m, i⟩ ⟨hv, hp⟩
      dsimp only at hv hp
      subst hp
      rw [szbTime2my_probe2time hv, szbProbeind_probe2time hv]

/-- The last second of 29 February 2000. -/
theorem month_probe_bijection_leap_day :
    szbTime2my 951868799 = (2000, 2) ∧ szbProbeind 951868799 dataSpan = 4175 ∧
      probe2time 4175 2000 2 = 951868200 := by
  have hy : szbTime2my 951868799 = (2000, 2) := by decide +kernel
  have hi : szbProbeind 951868799 dataSpan = 4175 := by decide +kernel
  have h := (month_probe_bijection.1 951868799 (by decide) (by rw [hy]; decide)).2.2
  rw [hi, hy] at h
  exact ⟨hy, hi, h⟩

end Szbase
end Szarp
