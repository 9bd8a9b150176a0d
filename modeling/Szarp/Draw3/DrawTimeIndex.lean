import Szarp.Draw3.DrawTime

/-!
# Indices and times

The time of an index and the distance of that time are inverse to each other for every displayed
period, no matter how the clocks are changed.
-/

namespace Szarp
namespace Draw3

open Gregorian

/-! ## Truncation -/

theorem tdiv_eq (a b : ℤ) : a.tdiv b = if 0 ≤ a then a / b else -(-a / b) := by
  split
  · rename_i h
    exact Int.tdiv_eq_ediv_of_nonneg h
  · rename_i h
    have hneg := Int.neg_tdiv a b
    rw [Int.tdiv_eq_ediv_of_nonneg (by omega)] at hneg
    omega

theorem getSeconds_eq (span : ℤ) :
    getSeconds span = if 0 ≤ span then span / 1000 else -(-span / 1000) := tdiv_eq span 1000

theorem getMinutes_eq (span : ℤ) :
    getMinutes span = if 0 ≤ span then span / 60000 else -(-span / 60000) := by
  have h := getSeconds_eq span
  have h' : getMinutes span =
      if 0 ≤ getSeconds span then getSeconds span / 60 else -(-getSeconds span / 60) :=
    tdiv_eq (getSeconds span) 60
  rw [h']
  split_ifs at h ⊢ <;> omega

theorem getHours_eq (span : ℤ) :
    getHours span = if 0 ≤ span then span / 3600000 else -(-span / 3600000) := by
  have h := getSeconds_eq span
  have h' : getHours span =
      if 0 ≤ getSeconds span then getSeconds span / 3600 else -(-getSeconds span / 3600) :=
    tdiv_eq (getSeconds span) 3600
  rw [h']
  split_ifs at h ⊢ <;> omega

/-! ## Settled times -/

namespace DateTime

variable {z : LocalZone}

theorem setMinute_ofLocal {w : ℤ} (h : LocalZone.Settled w) :
    setMinute z 0 (z.ofLocal w) = z.ofLocal (w - w % 3600000 + w % 60000) := by
  rw [setMinute, h.toLocal_ofLocal, Int.zero_mul, Int.add_zero]

theorem setSecond_ofLocal {w : ℤ} (h : LocalZone.Settled w) :
    setSecond z 0 (z.ofLocal w) = z.ofLocal (w - w % 60000 + w % 1000) := by
  rw [setSecond, h.toLocal_ofLocal, Int.zero_mul, Int.add_zero]

theorem lag_of_hour {w w' : ℤ} (h : w / 3600000 = w' / 3600000) : z.lag w = z.lag w' := by
  rw [LocalZone.lag, LocalZone.lag, LocalZone.isSummer, LocalZone.isSummer,
    z.isDst_of_hour (s := w - 3600000) (t := w' - 3600000) (by omega)]

theorem setMillisecond_ofLocal {w : ℤ} (h : w % 28800000 < 3600000) :
    setMillisecond 0 (z.ofLocal w) = z.ofLocal (w - w % 1000) := by
  have hsettled := LocalZone.settled_of_third h
  have hsettled' : LocalZone.Settled (w - w % 1000) := LocalZone.settled_of_third (by omega)
  have hlag : z.lag (w - w % 1000) = z.lag w := lag_of_hour (by omega)
  rw [setMillisecond, hsettled.ofLocal, hsettled'.ofLocal, hlag]
  obtain ⟨-, heq⟩ | ⟨-, heq⟩ := z.lag_cases w
  · rw [heq]
    omega
  · rw [heq]
    omega

theorem startOfHour {w : ℤ} (h : w % 28800000 < 3600000) :
    setMillisecond 0 (setSecond z 0 (setMinute z 0 (z.ofLocal w))) =
      z.ofLocal (w - w % 3600000) := by
  rw [setMinute_ofLocal (LocalZone.settled_of_third h),
    setSecond_ofLocal (LocalZone.settled_of_third (by omega)), setMillisecond_ofLocal (by omega)]
  congr 1
  omega

/-! ## Clock changes within an hour -/

/-- The workaround finds the time with the same wall clocks and the same offset. -/
theorem restoreDst_eq (tmp : ℤ) {t s : ℤ} (hlocal : z.toLocal t = z.toLocal s)
    (hdst : z.isDst s = z.isDst tmp) : restoreDst z tmp t = s := by
  rw [LocalZone.toLocal, LocalZone.toLocal] at hlocal
  rw [restoreDst, ← hdst]
  obtain ⟨ht, hoffset⟩ | ⟨ht, hoffset⟩ := z.offset_cases t
  · obtain ⟨hs, hoffset'⟩ | ⟨hs, hoffset'⟩ := z.offset_cases s
    · simp only [ht, hs, not_true, and_false, false_and, if_false]
      omega
    · simp only [ht, hs, Bool.false_eq_true, not_true, not_false_eq_true, and_self, if_false,
        if_true]
      omega
  · obtain ⟨hs, hoffset'⟩ | ⟨hs, hoffset'⟩ := z.offset_cases s
    · simp only [ht, hs, Bool.false_eq_true, not_false_eq_true, and_self, if_true]
      omega
    · simp only [ht, hs, Bool.false_eq_true, not_false_eq_true, false_and, and_false, if_false]
      omega

theorem toLocal_mod (z : LocalZone) (t : ℤ) : z.toLocal t % 3600000 = t % 3600000 := by
  rw [LocalZone.toLocal]
  obtain ⟨-, h⟩ | ⟨-, h⟩ := z.offset_cases t <;> omega

/-- The wall clocks are set back within an hour. -/
theorem toLocal_ofLocal_sub {t r : ℤ} (hr : 0 ≤ r) (hle : r ≤ t % 3600000) :
    z.toLocal (z.ofLocal (z.toLocal t - r)) = z.toLocal (t - r) ∧
      z.isDst (t - r) = z.isDst t := by
  have hdst : z.isDst (t - r) = z.isDst t := z.isDst_of_hour (by omega)
  have hlocal : z.toLocal t - r = z.toLocal (t - r) := by
    rw [LocalZone.toLocal, LocalZone.toLocal, LocalZone.offset, LocalZone.offset, hdst]
    omega
  rw [hlocal]
  exact ⟨z.toLocal_ofLocal_toLocal (t - r), hdst⟩

end DateTime

/-! ## Calendar -/

theorem midnight_emod (year : ℤ) (month : ℕ) (day : ℤ) :
    midnight year month day % 86400000 = 0 := by
  rw [midnight]
  omega

theorem date_midnight {year day : ℤ} {month : ℕ} (hm : 1 ≤ month) (hm' : month ≤ 12)
    (hd : 1 ≤ day) (hd' : day ≤ monthLength year month) :
    date (midnight year month day) = (year, month, day) := by
  have hday : midnight year month day / 86400000 + epochDay = dayNumber year month day := by
    rw [midnight]
    omega
  rw [date, hday, dateOfDay_dayNumber hm hm' hd hd']

theorem midnight_date (w : ℤ) :
    midnight (date w).1 (date w).2.1 (date w).2.2 = w - w % 86400000 := by
  obtain ⟨-, -, -, -, h⟩ := dateOfDay_spec (w / 86400000 + epochDay)
  rw [midnight, date, h]
  omega

def monthOf (w : ℤ) : ℤ := monthIndex (date w).1 (date w).2.1

def monthStart (k : ℤ) : ℤ := midnight (k / 12) ((k % 12).toNat + 1) 1

theorem date_monthStart (k : ℤ) : date (monthStart k) = (k / 12, (k % 12).toNat + 1, 1) := by
  have hlength := (monthLength_pos (k / 12) ((k % 12).toNat + 1)).1
  exact date_midnight (by omega) (by omega) le_rfl (by omega)

theorem monthIndex_monthStart (k : ℤ) : monthIndex (k / 12) ((k % 12).toNat + 1) = k := by
  rw [monthIndex]
  omega

theorem monthOf_monthStart (k : ℤ) : monthOf (monthStart k) = k := by
  rw [monthOf, date_monthStart, monthIndex_monthStart]

theorem monthStart_monthOf (w : ℤ) :
    monthStart (monthOf w) = midnight (date w).1 (date w).2.1 1 := by
  obtain ⟨hm, hm', -, -, -⟩ := dateOfDay_spec (w / 86400000 + epochDay)
  have hyear : monthOf w / 12 = (date w).1 := by
    rw [monthOf, monthIndex, date]
    omega
  have hmonth : (monthOf w % 12).toNat + 1 = (date w).2.1 := by
    rw [monthOf, monthIndex, date]
    omega
  rw [monthStart, hyear, hmonth]

theorem monthStart_succ (k : ℤ) : monthStart k < monthStart (k + 1) := by
  have hnext := dayNumber_next_month (k / 12) (show 1 ≤ (k % 12).toNat + 1 by omega)
  have hlength := (monthLength_pos (k / 12) ((k % 12).toNat + 1)).1
  rw [monthStart, monthStart, midnight, midnight]
  split_ifs at hnext with h
  · have hyear : (k + 1) / 12 = k / 12 + 1 := by omega
    have hmonth : ((k + 1) % 12).toNat = 0 := by omega
    rw [hyear, hmonth, Nat.zero_add]
    omega
  · have hyear : (k + 1) / 12 = k / 12 := by omega
    have hmonth : ((k + 1) % 12).toNat = (k % 12).toNat + 1 := by omega
    rw [hyear, hmonth]
    omega

theorem monthStart_strictMono : StrictMono monthStart := strictMono_int_of_lt_succ monthStart_succ

theorem addToWall_days (days w : ℤ) : addToWall ⟨0, 0, 0, days⟩ w = w + days * 86400000 := by
  obtain ⟨hm, hm', -, hd, -⟩ := dateOfDay_spec (w / 86400000 + epochDay)
  have hyear : (monthIndex ((date w).1 + 0) (date w).2.1 + 0) / 12 = (date w).1 := by
    rw [monthIndex, date]
    omega
  have hmonth : ((monthIndex ((date w).1 + 0) (date w).2.1 + 0) % 12).toNat + 1 = (date w).2.1 := by
    rw [monthIndex, date]
    omega
  have hmin : min (date w).2.2 (monthLength (date w).1 (date w).2.1) = (date w).2.2 :=
    min_eq_left hd
  have hmidnight := midnight_date w
  rw [addToWall]
  simp only
  rw [hyear, hmonth, hmin, hmidnight]
  omega

theorem addToWall_monthStart (years months k : ℤ) :
    addToWall ⟨years, months, 0, 0⟩ (monthStart k) = monthStart (k + 12 * years + months) := by
  have hmidnight : monthStart k % 86400000 = 0 := midnight_emod _ _ _
  have hindex : monthIndex (k / 12 + years) ((k % 12).toNat + 1) + months =
      k + 12 * years + months := by
    rw [monthIndex]
    omega
  have hlength := (monthLength_pos ((k + 12 * years + months) / 12)
    (((k + 12 * years + months) % 12).toNat + 1)).1
  rw [addToWall, date_monthStart, hmidnight]
  simp only
  rw [hindex, min_eq_left (by omega), monthStart]
  omega

/-! ## Cells

The wall clocks run through the cells of a period, each with its own start. -/

/-- The cell of the wall clocks, for the periods that follow the wall clocks. -/
def cell : PeriodType → ℤ → ℤ
  | .decade, w => (date w).1
  | .year, w => monthOf w
  | .month, w => w / 86400000
  | .week, w => w / 28800000
  | .season, w => (w + 259200000) / 604800000
  | .day, w | .thirtyMinute, w => w

def cellStart : PeriodType → ℤ → ℤ
  | .decade, k => monthStart (12 * k)
  | .year, k => monthStart k
  | .month, k => k * 86400000
  | .week, k => k * 28800000
  | .season, k => k * 604800000 - 259200000
  | .day, k | .thirtyMinute, k => k

def PeriodType.OfWall (p : PeriodType) : Prop := p ≠ .day ∧ p ≠ .thirtyMinute

/-- The others, whose times are apart by a span. -/
def PeriodType.OfSpan (p : PeriodType) : Prop := p = .day ∨ p = .thirtyMinute

theorem PeriodType.ofSpan_of_not {p : PeriodType} (h : ¬ p.OfWall) : p.OfSpan := by
  rwa [OfWall, not_and_or, not_not, not_not] at h

variable {p : PeriodType}

theorem cell_cellStart (p : PeriodType) (k : ℤ) : cell p (cellStart p k) = k := by
  cases p with
  | decade =>
    rw [cell, cellStart, date_monthStart]
    omega
  | year => exact monthOf_monthStart k
  | month | week | season =>
    rw [cell, cellStart]
    omega
  | day | thirtyMinute => rfl

theorem cellStart_emod (hp : p.OfWall) (k : ℤ) : cellStart p k % 28800000 = 0 := by
  cases p with
  | decade =>
    have h := midnight_emod (12 * k / 12) ((12 * k % 12).toNat + 1) 1
    rw [cellStart, monthStart]
    omega
  | year =>
    have h := midnight_emod (k / 12) ((k % 12).toNat + 1) 1
    rw [cellStart, monthStart]
    omega
  | month | week | season =>
    rw [cellStart]
    omega
  | day => exact absurd rfl hp.1
  | thirtyMinute => exact absurd rfl hp.2

theorem cellStart_strictMono (p : PeriodType) : StrictMono (cellStart p) := by
  intro k k' h
  cases p with
  | decade => exact monthStart_strictMono (by omega)
  | year => exact monthStart_strictMono h
  | month | week | season =>
    rw [cellStart, cellStart]
    omega
  | day | thirtyMinute => exact h

theorem cellStart_settled (hp : p.OfWall) (k : ℤ) : LocalZone.Settled (cellStart p k) := by
  apply LocalZone.settled_of_third
  rw [cellStart_emod hp]
  omega

def cellTime (z : LocalZone) (p : PeriodType) (k : ℤ) : ℤ := z.ofLocal (cellStart p k)

variable (z : LocalZone)

theorem toLocal_cellTime (hp : p.OfWall) (k : ℤ) : z.toLocal (cellTime z p k) = cellStart p k :=
  (cellStart_settled hp k).toLocal_ofLocal

theorem cellTime_eq (hp : p.OfWall) (k : ℤ) :
    cellTime z p k = cellStart p k - z.lag (cellStart p k) :=
  (cellStart_settled hp k).ofLocal

theorem isDst_cellTime (hp : p.OfWall) (k : ℤ) :
    z.isDst (cellTime z p k) = z.isSummer (cellStart p k) :=
  (cellStart_settled hp k).isDst_ofLocal

/-- The clocks are changed by less than the length of a cell. -/
theorem cellTime_strictMono (hp : p.OfWall) : StrictMono (cellTime z p) := by
  intro k k' h
  have hlt := cellStart_strictMono p h
  have hstart := cellStart_emod hp k
  have hstart' := cellStart_emod hp k'
  rw [cellTime_eq z hp, cellTime_eq z hp]
  obtain ⟨-, hlag⟩ | ⟨-, hlag⟩ := z.lag_cases (cellStart p k) <;>
    obtain ⟨-, hlag'⟩ | ⟨-, hlag'⟩ := z.lag_cases (cellStart p k') <;> omega

/-! ## Adjusted times -/

open DateTime

theorem setToMonday_toLocal (t : ℤ) :
    z.toLocal (setToMonday z t) =
      z.toLocal t - (z.toLocal t / 86400000 + 3) % 7 * 86400000 := by
  rw [setToMonday]
  split
  · rename_i h
    rw [h]
    omega
  · have hsettled : LocalZone.Settled
        (z.toLocal t + -((z.toLocal t / 86400000 + 3) % 7) * 86400000) := by
      rw [LocalZone.Settled, LocalZone.week, LocalZone.week]
      omega
    rw [DateTime.add, addToWall_days, hsettled.toLocal_ofLocal]
    omega

theorem adjustToPeriod_time (hp : p.OfWall) (t : ℤ) :
    (DTime.adjustToPeriod z ⟨p, t⟩).time = cellTime z p (cell p (z.toLocal t)) := by
  cases p with
  | decade =>
    have hstart : monthStart (12 * (date (z.toLocal t)).1) =
        midnight (date (z.toLocal t)).1 1 1 := by
      have hyear : 12 * (date (z.toLocal t)).1 / 12 = (date (z.toLocal t)).1 := by omega
      have hmonth : (12 * (date (z.toLocal t)).1 % 12).toNat = 0 := by omega
      rw [monthStart, hyear, hmonth]
    rw [cellTime, cellStart, cell, hstart]
    rfl
  | year =>
    rw [cellTime, cellStart, cell, monthStart_monthOf]
    rfl
  | month =>
    have hstart := midnight_date (z.toLocal t)
    have hcell : z.toLocal t / 86400000 * 86400000 =
        z.toLocal t - z.toLocal t % 86400000 := by omega
    rw [cellTime, cellStart, cell, hcell, ← hstart]
    rfl
  | week =>
    have hthird : z.toLocal t - z.toLocal t % 86400000 +
        z.toLocal t % 86400000 / 3600000 / 8 * 8 * 3600000 + z.toLocal t % 3600000 =
        z.toLocal t - z.toLocal t % 28800000 + z.toLocal t % 3600000 := by omega
    have hadjust := startOfHour (z := z)
      (w := z.toLocal t - z.toLocal t % 28800000 + z.toLocal t % 3600000) (by omega)
    rw [DTime.adjustToPeriod]
    simp only
    rw [setHour, getHour, hthird, hadjust, cellTime, cellStart, cell]
    congr 1
    omega
  | season =>
    have hmonday := setToMonday_toLocal z t
    have hadjust := startOfHour (z := z) (w := z.toLocal (setToMonday z t) -
      z.toLocal (setToMonday z t) % 86400000 + 0 * 3600000 + z.toLocal (setToMonday z t) % 3600000)
      (by omega)
    rw [DTime.adjustToPeriod]
    simp only
    rw [setHour, hadjust, cellTime, cellStart, cell]
    congr 1
    omega
  | day => exact absurd rfl hp.1
  | thirtyMinute => exact absurd rfl hp.2

theorem adjustToPeriod_day (t : ℤ) :
    (DTime.adjustToPeriod z ⟨.day, t⟩).time = t - t % 600000 + t % 1000 := by
  have hlocal := toLocal_mod z t
  have hsub := toLocal_ofLocal_sub (z := z) (t := t) (r := t % 600000 - t % 60000) (by omega)
    (by omega)
  have hlocal' := toLocal_mod z (t - (t % 600000 - t % 60000))
  have hsub' := toLocal_ofLocal_sub (z := z) (t := t - (t % 600000 - t % 60000))
    (r := t % 60000 - t % 1000) (by omega) (by omega)
  have hminute : z.toLocal t - z.toLocal t % 3600000 +
      z.toLocal t % 3600000 / 60000 / 10 * 10 * 60000 + z.toLocal t % 60000 =
      z.toLocal t - (t % 600000 - t % 60000) := by omega
  have hsecond (w : ℤ) (h : w % 3600000 = (t - (t % 600000 - t % 60000)) % 3600000) :
      w - w % 60000 + 0 * 1000 + w % 1000 = w - (t % 60000 - t % 1000) := by omega
  have hrestore := restoreDst_eq t hsub'.1 (hsub'.2.trans hsub.2)
  rw [DTime.adjustToPeriod]
  simp only
  rw [setSecond, setMinute, getMinute, hminute, hsub.1, hsecond _ hlocal', hrestore]
  omega

theorem adjustToPeriod_thirtyMinute (t : ℤ) :
    (DTime.adjustToPeriod z ⟨.thirtyMinute, t⟩).time = t - t % 10000 + t % 1000 := by
  have hlocal := toLocal_mod z t
  have hsub := toLocal_ofLocal_sub (z := z) (t := t) (r := t % 10000 - t % 1000) (by omega)
    (by omega)
  have hsecond : z.toLocal t - z.toLocal t % 60000 +
      z.toLocal t % 60000 / 1000 / 10 * 10 * 1000 + z.toLocal t % 1000 =
      z.toLocal t - (t % 10000 - t % 1000) := by omega
  have hrestore := restoreDst_eq t hsub.1 hsub.2
  rw [DTime.adjustToPeriod]
  simp only
  rw [setSecond, getSecond, hsecond, hrestore]
  omega

theorem adjustToPeriod_span (hp : p.OfSpan) (t : ℤ) :
    DTime.adjustToPeriod z ⟨p, t⟩ = ⟨p, t - t % timeRes p + t % 1000⟩ := by
  rcases hp with rfl | rfl
  · exact DTime.ext rfl (adjustToPeriod_day z t)
  · exact DTime.ext rfl (adjustToPeriod_thirtyMinute z t)

/-! ## Times of indices -/

theorem addDate_time (hp : p.OfWall) {span : DateSpan} {k k' : ℤ}
    (h : addToWall span (cellStart p k) = cellStart p k')
    (hzero : span = ⟨0, 0, 0, 0⟩ → k' = k) :
    (DTime.addDate z span ⟨p, cellTime z p k⟩).time = cellTime z p k' := by
  rw [DTime.addDate]
  simp only
  split
  · rw [DateTime.add, toLocal_cellTime z hp, h, cellTime]
  · rename_i hspan
    have hspan' : span = ⟨0, 0, 0, 0⟩ := by
      obtain ⟨years, months, weeks, days⟩ := span
      simp only [ne_eq, not_or, not_not] at hspan
      rw [hspan.1, hspan.2.1, hspan.2.2.1, hspan.2.2.2]
    rw [hzero hspan']

/-- The correction makes up for the clock changes in a span. -/
theorem addTime_correct (hp : p.OfWall) {span k k' : ℤ}
    (h : cellStart p k + span = cellStart p k') :
    (if z.isDst (cellTime z p k + span) ≠ z.isDst (cellTime z p k) then
      cellTime z p k + span + (if z.isDst (cellTime z p k) then 1 else -1) * 3600000
    else cellTime z p k + span) = cellTime z p k' := by
  have hsettled := cellStart_settled hp k'
  have htime := cellTime_eq z hp k
  have htime' := cellTime_eq z hp k'
  have hearly : z.isDst (cellTime z p k + span) = z.isSummer (cellStart p k') := by
    obtain ⟨-, hlag⟩ | ⟨-, hlag⟩ := z.lag_cases (cellStart p k)
    · rw [← hsettled.isDst_early]
      congr 1
      omega
    · rw [LocalZone.isSummer]
      congr 1
      omega
  rw [hearly, isDst_cellTime z hp]
  obtain ⟨hsummer, hlag⟩ | ⟨hsummer, hlag⟩ := z.lag_cases (cellStart p k) <;>
    obtain ⟨hsummer', hlag'⟩ | ⟨hsummer', hlag'⟩ := z.lag_cases (cellStart p k')
  · rw [hsummer, hsummer', if_neg (fun h => h rfl)]
    omega
  · rw [hsummer, hsummer', if_pos Bool.false_ne_true, if_pos rfl]
    omega
  · rw [hsummer, hsummer', if_pos Bool.false_ne_true.symm, if_neg Bool.false_ne_true]
    omega
  · rw [hsummer, hsummer', if_neg (fun h => h rfl)]
    omega

/-- An index leads as many cells ahead. -/
theorem getTimeOfIndex_time (hp : p.OfWall) (k i : ℤ) :
    (getTimeOfIndex z ⟨p, cellTime z p k⟩ i).time = cellTime z p (k + i) := by
  cases p with
  | decade =>
    have hspan : (dateRes .decade).scale i = ⟨i, 0, 0, 0⟩ := by
      rw [dateRes, DateSpan.scale, mul_one, mul_zero]
    have hwall : addToWall ⟨i, 0, 0, 0⟩ (cellStart .decade k) = cellStart .decade (k + i) := by
      rw [cellStart, cellStart, addToWall_monthStart]
      congr 1
      omega
    rw [getTimeOfIndex, hspan]
    apply addDate_time z hp hwall
    intro h
    rw [DateSpan.mk.injEq] at h
    omega
  | year =>
    have hspan : (dateRes .year).scale i = ⟨0, i, 0, 0⟩ := by
      rw [dateRes, DateSpan.scale, mul_one, mul_zero]
    have hwall : addToWall ⟨0, i, 0, 0⟩ (cellStart .year k) = cellStart .year (k + i) := by
      rw [cellStart, cellStart, addToWall_monthStart]
      congr 1
      omega
    rw [getTimeOfIndex, hspan]
    apply addDate_time z hp hwall
    intro h
    rw [DateSpan.mk.injEq] at h
    omega
  | month =>
    have hspan : (dateRes .month).scale i = ⟨0, 0, 0, i⟩ := by
      rw [dateRes, DateSpan.scale, mul_one, mul_zero]
    have hwall : addToWall ⟨0, 0, 0, i⟩ (cellStart .month k) = cellStart .month (k + i) := by
      rw [cellStart, cellStart, addToWall_days]
      omega
    rw [getTimeOfIndex, hspan]
    apply addDate_time z hp hwall
    intro h
    rw [DateSpan.mk.injEq] at h
    omega
  | week =>
    have hspan : (dateRes .week).scale i = ⟨0, 0, 0, 0⟩ := by
      rw [dateRes, DateSpan.scale, mul_zero]
    rw [getTimeOfIndex, hspan]
    apply addTime_correct z hp
    rw [timeRes, cellStart, cellStart]
    omega
  | season =>
    have hspan : (dateRes .season).scale i = ⟨0, 0, 0, 0⟩ := by
      rw [dateRes, DateSpan.scale, mul_zero]
    rw [getTimeOfIndex, hspan]
    apply addTime_correct z hp
    rw [timeRes, cellStart, cellStart]
    omega
  | day => exact absurd rfl hp.1
  | thirtyMinute => exact absurd rfl hp.2

/-! ## Distances -/

theorem tmod_eq (a b : ℤ) : a.tmod b = if 0 ≤ a then a % b else -(-a % b) := by
  have hdiv := tdiv_eq a b
  rw [Int.tmod_def, hdiv]
  split
  · rw [Int.emod_def]
  · rw [Int.emod_def, Int.mul_neg]
    omega

/-- The hours between two cells differ from those of the wall clocks by the change of the lag. -/
theorem getHours_cellTime (hp : p.OfWall) (k k' : ℤ) :
    getHours (cellTime z p k' - cellTime z p k) =
      (cellStart p k' - cellStart p k) / 3600000 +
        (z.lag (cellStart p k) - z.lag (cellStart p k')) / 3600000 := by
  have hstart := cellStart_emod hp k
  have hstart' := cellStart_emod hp k'
  rw [getHours_eq, cellTime_eq z hp, cellTime_eq z hp]
  obtain ⟨-, hlag⟩ | ⟨-, hlag⟩ := z.lag_cases (cellStart p k) <;>
    obtain ⟨-, hlag'⟩ | ⟨-, hlag'⟩ := z.lag_cases (cellStart p k') <;> split_ifs <;> omega

/-- The hours that a clock change takes from a day or adds to it are rounded away. -/
theorem roundDay {hours n e : ℤ} (h : hours = 24 * n + e) (he : -1 ≤ e) (he' : e ≤ 1) :
    (if hours.tmod 24 = 1 then hours - 1
      else if hours.tmod 24 = 23 then hours + 1
      else if hours.tmod 24 = -1 then hours + 1
      else if hours.tmod 24 = -23 then hours - 1
      else hours).tdiv 24 = n := by
  have hmod := tmod_eq hours 24
  have hround : (if hours.tmod 24 = 1 then hours - 1
      else if hours.tmod 24 = 23 then hours + 1
      else if hours.tmod 24 = -1 then hours + 1
      else if hours.tmod 24 = -23 then hours - 1
      else hours) = 24 * n := by
    split_ifs at hmod ⊢ <;> omega
  rw [hround]
  exact Int.mul_tdiv_cancel_left n (by omega)

/-- How a distance is truncated when `e` hours are added to a span of wall clock time. -/
def truncated (n e : ℤ) : ℤ :=
  if e < 0 ∧ 0 < n then n - 1 else if 0 < e ∧ n < 0 then n + 1 else n

/-- The correction makes up for the truncation. -/
theorem correct_cellTime (hp : p.OfWall) (k k' : ℤ) :
    DTime.getDistance.correct z ⟨p, cellTime z p k⟩ ⟨p, cellTime z p k'⟩
      (truncated (k' - k) (z.lag (cellStart p k) - z.lag (cellStart p k'))) = k' - k := by
  have hlt := (cellTime_strictMono z hp).lt_iff_lt (a := k) (b := k')
  have hgt := (cellTime_strictMono z hp).lt_iff_lt (a := k') (b := k)
  simp only [DTime.getDistance.correct, truncated, isDst_cellTime z hp, hlt, hgt]
  obtain ⟨hsummer, hlag⟩ | ⟨hsummer, hlag⟩ := z.lag_cases (cellStart p k) <;>
    obtain ⟨hsummer', hlag'⟩ | ⟨hsummer', hlag'⟩ := z.lag_cases (cellStart p k')
  · rw [hsummer, hsummer', if_neg (fun h => h rfl)]
    split_ifs <;> omega
  · rw [hsummer, hsummer', if_pos Bool.false_ne_true.symm]
    simp only [Bool.false_eq_true, and_false, if_false, and_true]
    split_ifs <;> omega
  · rw [hsummer, hsummer', if_pos Bool.false_ne_true]
    simp only [Bool.false_eq_true, and_false, if_false, and_true]
    split_ifs <;> omega
  · rw [hsummer, hsummer', if_neg (fun h => h rfl)]
    split_ifs <;> omega

/-- The distance between the starts of two cells. -/
theorem getDistance_cellTime (hp : p.OfWall) (k k' : ℤ) :
    DTime.getDistance z ⟨p, cellTime z p k⟩ ⟨p, cellTime z p k'⟩ = k' - k := by
  have hlocal := toLocal_cellTime z hp k
  have hlocal' := toLocal_cellTime z hp k'
  have hhours := getHours_cellTime z hp k k'
  have hlag := z.lag_cases (cellStart p k)
  have hlag' := z.lag_cases (cellStart p k')
  rw [DTime.getDistance]
  simp only
  -- decades and years are counted by the calendar, the others by the hours between the cells
  cases p with
  | decade =>
    simp only [hlocal, hlocal']
    have h := cell_cellStart .decade k
    have h' := cell_cellStart .decade k'
    rw [cell] at h h'
    rw [h, h']
  | year =>
    simp only [hlocal, hlocal']
    have h := cell_cellStart .year k
    have h' := cell_cellStart .year k'
    rw [cell, monthOf] at h h'
    rw [h, h']
  -- what a clock change takes from the days of a month is rounded away
  | month =>
    rw [cellStart, cellStart] at hhours
    apply roundDay (e := (z.lag (cellStart .month k) - z.lag (cellStart .month k')) / 3600000)
    · rw [cellStart, cellStart, hhours]
      omega
    · omega
    · omega
  -- thirds of a day: the truncation is made up for by the correction
  | week =>
    have htdiv : (getHours (cellTime z .week k' - cellTime z .week k)).tdiv 8 =
        truncated (k' - k) (z.lag (cellStart .week k) - z.lag (cellStart .week k')) := by
      have h := tdiv_eq (getHours (cellTime z .week k' - cellTime z .week k)) 8
      have hwall : cellStart .week k' - cellStart .week k = 28800000 * (k' - k) := by
        rw [cellStart, cellStart]
        omega
      rw [hwall] at hhours
      rw [truncated]
      split_ifs at h ⊢ <;> omega
    rw [htdiv, correct_cellTime z hp]
  | season =>
    have htdiv : (getDays (cellTime z .season k' - cellTime z .season k)).tdiv 7 =
        truncated (k' - k) (z.lag (cellStart .season k) - z.lag (cellStart .season k')) := by
      have h := tdiv_eq (getDays (cellTime z .season k' - cellTime z .season k)) 7
      have h' := tdiv_eq (getHours (cellTime z .season k' - cellTime z .season k)) 24
      have hwall : cellStart .season k' - cellStart .season k = 604800000 * (k' - k) := by
        rw [cellStart, cellStart]
        omega
      rw [hwall] at hhours
      rw [truncated]
      rw [getDays] at h ⊢
      split_ifs at h h' ⊢ <;> omega
    rw [htdiv, correct_cellTime z hp]
  | day => exact absurd rfl hp.1
  | thirtyMinute => exact absurd rfl hp.2

/-! ## Indices and times -/

theorem adjustToPeriod_eq (hp : p.OfWall) (t : ℤ) :
    DTime.adjustToPeriod z ⟨p, t⟩ = ⟨p, cellTime z p (cell p (z.toLocal t))⟩ :=
  DTime.ext rfl (adjustToPeriod_time z hp t)

theorem getTimeOfIndex_eq (hp : p.OfWall) (k i : ℤ) :
    getTimeOfIndex z ⟨p, cellTime z p k⟩ i = ⟨p, cellTime z p (k + i)⟩ :=
  DTime.ext rfl (getTimeOfIndex_time z hp k i)

theorem adjustToPeriod_cellTime (hp : p.OfWall) (k : ℤ) :
    DTime.adjustToPeriod z ⟨p, cellTime z p k⟩ = ⟨p, cellTime z p k⟩ := by
  rw [adjustToPeriod_eq z hp, toLocal_cellTime z hp, cell_cellStart]

theorem getTimeOfIndex_span (hp : p.OfSpan) (t i : ℤ) :
    getTimeOfIndex z ⟨p, t⟩ i = ⟨p, t + i * timeRes p⟩ := by
  have hspan : (dateRes p).scale i = ⟨0, 0, 0, 0⟩ := by
    rcases hp with rfl | rfl <;> rw [dateRes, DateSpan.scale, mul_zero]
  rw [getTimeOfIndex, hspan]
  rcases hp with rfl | rfl <;> rfl

theorem getDistance_span (hp : p.OfSpan) (t i : ℤ) :
    DTime.getDistance z ⟨p, t⟩ ⟨p, t + i * timeRes p⟩ = i := by
  rw [DTime.getDistance]
  rcases hp with rfl | rfl
  · have hminutes := getMinutes_eq (t + i * 600000 - t)
    have htdiv := tdiv_eq (getMinutes (t + i * 600000 - t)) 10
    simp only [timeRes]
    split_ifs at hminutes htdiv <;> omega
  · have hseconds := getSeconds_eq (t + i * 10000 - t)
    have htdiv := tdiv_eq (getSeconds (t + i * 10000 - t)) 10
    simp only [timeRes]
    split_ifs at hseconds htdiv <;> omega

/-- From an adjusted start every index has a time of its own: the distance of the time is the index
again, later indices have later times, and the times are adjusted. -/
def IndexesTimes (start : DTime) : Prop :=
  ∀ i, start.getDistance z (getTimeOfIndex z start i) = i ∧
    (∀ j, i < j → (getTimeOfIndex z start i).time < (getTimeOfIndex z start j).time) ∧
    (getTimeOfIndex z start i).adjustToPeriod z = getTimeOfIndex z start i

theorem indexesTimes_ofWall (hp : p.OfWall) (k : ℤ) : IndexesTimes z ⟨p, cellTime z p k⟩ := by
  intro i
  rw [getTimeOfIndex_eq z hp]
  refine ⟨?_, ?_, adjustToPeriod_cellTime z hp _⟩
  · rw [getDistance_cellTime z hp]
    omega
  · intro j hj
    rw [getTimeOfIndex_eq z hp]
    apply cellTime_strictMono z hp
    omega

theorem indexesTimes_ofSpan (hp : p.OfSpan) {t : ℤ} (h : t % timeRes p = t % 1000) :
    IndexesTimes z ⟨p, t⟩ := by
  have hres : 0 < timeRes p := by rcases hp with rfl | rfl <;> decide
  intro i
  rw [getTimeOfIndex_span z hp]
  refine ⟨getDistance_span z hp t i, ?_, ?_⟩
  · intro j hj
    rw [getTimeOfIndex_span z hp]
    exact Int.add_lt_add_left (Int.mul_lt_mul_of_pos_right hj hres) t
  · have hmod : (t + i * timeRes p) % 1000 = t % 1000 := by
      rcases hp with rfl | rfl <;> simp only [timeRes] <;> omega
    rw [adjustToPeriod_span z hp, Int.add_mul_emod_self_right, hmod, h, sub_add_cancel]

/-- Indices and times are inverse from every adjusted start. -/
theorem adjustToPeriod_indexesTimes (t : DTime) : IndexesTimes z (t.adjustToPeriod z) := by
  obtain ⟨p, t⟩ := t
  by_cases hp : p.OfWall
  · rw [adjustToPeriod_eq z hp]
    exact indexesTimes_ofWall z hp _
  · have hspan := PeriodType.ofSpan_of_not hp
    rw [adjustToPeriod_span z hspan]
    apply indexesTimes_ofSpan z hspan
    rcases hspan with rfl | rfl <;> simp only [timeRes] <;> omega

end Draw3
end Szarp
