import Szarp.Lib.Numeral
import Szarp.Meaner.Prober
import Szarp.Probes.Answers

/-!
# What is kept in the cache

`available_range` of the server against `FileOutdated` of the program that removes old files
(`fileremover.cc`): both count the months of the cache back from the current one.
-/

namespace Szarp

namespace Meaner
namespace FileRemover

open Numeral

def filenameToYearMonth (filename : List Char) : Option (ℤ × ℤ) :=
  if filename.length ≠ 10 then none
  else if (filename.drop 6).take 4 ≠ ".szc".toList then none
  else do
    let year ← lexicalCast (String.ofList (filename.take 4))
    let month ← lexicalCast (String.ofList ((filename.drop 4).take 2))
    some (year, month)

/-- `FileOutdated`, for a number of months to keep. -/
def fileOutdated (months : ℤ) (filename : List Char) (r : FileRemover) : Bool :=
  match filenameToYearMonth filename with
  | none => false
  | some (year, month) =>
    let distance := r.currentYear * 12 + r.currentMonth - year * 12 - month
    if distance > months then true else false

end FileRemover
end Meaner

namespace Probes

open Gregorian Szbase PyText Numeral Meaner

/-! ## Names of files -/

theorem lexicalCast_of_isDigit {s : List Char} (hne : s ≠ []) (h : ∀ c ∈ s, c.isDigit)
    (hlt : Nat.ofDigitChars 10 s 0 < 2 ^ 31) :
    lexicalCast (String.ofList s) = some (Nat.ofDigitChars 10 s 0 : ℤ) := by
  have hall : s.all Char.isDigit := List.all_eq_true.mpr h
  simp only [lexicalCast, String.toList_ofList, splitSign_of_isDigit h, one_mul]
  rw [if_pos ⟨hne, hall, by omega, by omega⟩]

theorem filenameToYearMonth_monthName {y : ℤ} {m : ℕ} (hy : 0 ≤ y ∧ y ≤ 9999)
    (hm : 1 ≤ m ∧ m ≤ 12) :
    FileRemover.filenameToYearMonth (monthName y m) = some (y, (m : ℤ)) := by
  obtain ⟨n, rfl⟩ := Int.eq_ofNat_of_zero_le hy.1
  have hlen4 : (padded 4 n).length = 4 := length_padded (by decide) (by omega)
  have hlen2 : (padded 2 m).length = 2 := length_padded (by decide) (by omega)
  have hname : monthName n m = padded 4 n ++ (padded 2 m ++ szbcacheExt) := by
    rw [monthName, zeroPadded_natCast, zeroPadded_natCast, List.append_assoc]
  have htake4 : (monthName n m).take 4 = padded 4 n := by
    rw [hname, List.take_left' hlen4]
  have hdrop4 : (monthName n m).drop 4 = padded 2 m ++ szbcacheExt := by
    rw [hname, List.drop_left' hlen4]
  have htake2 : ((monthName n m).drop 4).take 2 = padded 2 m := by
    rw [hdrop4, List.take_left' hlen2]
  have hdrop6 : (monthName n m).drop 6 = szbcacheExt := by
    rw [show 6 = 4 + 2 from rfl, ← List.drop_drop, hdrop4, List.drop_left' hlen2]
  have hlen : (monthName n m).length = 10 := by
    rw [hname, List.length_append, List.length_append, hlen4, hlen2]
    rfl
  rw [FileRemover.filenameToYearMonth, if_neg (by rw [hlen]; decide), hdrop6,
    if_neg (by decide), htake4, htake2,
    lexicalCast_of_isDigit (padded_ne_nil 4 n) isDigit_padded
      (by rw [ofDigitChars_padded]; omega),
    lexicalCast_of_isDigit (padded_ne_nil 2 m) isDigit_padded
      (by rw [ofDigitChars_padded]; omega), ofDigitChars_padded, ofDigitChars_padded]
  rfl

/-! ## Months in their order -/

theorem monthStart_le_iff {y y' : ℤ} {m m' : ℕ} (hm : 1 ≤ m ∧ m ≤ 12) (hm' : 1 ≤ m' ∧ m' ≤ 12) :
    monthStart y m ≤ monthStart y' m' ↔ 12 * y + m ≤ 12 * y' + m' := by
  have hyears : ∀ {y y' : ℤ} {m m' : ℕ}, (1 ≤ m ∧ m ≤ 12) → (1 ≤ m' ∧ m' ≤ 12) →
      monthStart y m ≤ monthStart y' m' → y ≤ y' := by
    intro y y' m m' hm hm' h
    have hmono := szbTime2my_year_mono h
    rwa [szbTime2my_monthStart _ hm.1 hm.2, szbTime2my_monthStart _ hm'.1 hm'.2] at hmono
  constructor
  · intro h
    have hle := hyears hm hm' h
    rcases hle.lt_or_eq with hlt | rfl
    · omega
    · by_contra hmonth
      have hmono := monthStart_mono_month y hm'.1 (show m' ≤ m by omega)
      have hsame := szbTime2my_monthStart y hm.1 hm.2
      rw [le_antisymm h hmono, szbTime2my_monthStart y hm'.1 hm'.2] at hsame
      have := (Prod.mk.inj hsame).2
      omega
  · intro h
    by_contra hlt
    have hle := hyears hm' hm (not_le.mp hlt).le
    have heq : y = y' := by omega
    subst heq
    exact hlt (monthStart_mono_month y hm.1 (by omega))

/-! ## The range of the server -/

theorem gmtime_szbTime2my (t : ℤ) :
    (Gregorian.gmtime t).tmYear + 1900 = (szbTime2my t).1 ∧
      (Gregorian.gmtime t).tmMon + 1 = (szbTime2my t).2 := by
  have hfields := gmtime_fields t
  rw [szbTime2my]
  exact ⟨rfl, by dsimp only; omega⟩

theorem availableRange_eq (c : SzbCache) (now : ℤ) {y : ℤ} {m : ℕ}
    (hnow : szbTime2my now = (y, m)) :
    c.availableRange now =
      if -2 ^ 31 ≤ y - 1900 ∧ y - 1900 < 2 ^ 31 then
        (if m - c.months < 1 then timegm (y - 1) (m - c.months + 12)
          else timegm y (m - c.months)).map fun first => (first, now - now % 10)
      else .error .valueError := by
  have hm := szbTime2my_month now
  have hlo := monthStart_le now
  have hhi := lt_monthStart_nextMonth now
  rw [hnow] at hm hlo hhi
  dsimp only at hm hlo hhi
  have hmod := monthStart_mod y m
  have hlast : szbTime2my (now - now % 10) = (y, m) :=
    szbTime2my_of_mem hm.1 hm.2 (by omega) (by omega)
  have hfields := gmtime_szbTime2my (now - now % 10)
  rw [hlast] at hfields
  dsimp only at hfields
  have hyear : (Gregorian.gmtime (now - now % 10)).tmYear = y - 1900 := by omega
  rw [SzbCache.availableRange]
  dsimp only
  rw [gmtime, hyear]
  by_cases hin : -2 ^ 31 ≤ y - 1900 ∧ y - 1900 < 2 ^ 31
  · rw [if_pos hin, if_pos hin]
    simp only [bind, Except.bind, hfields.2, hyear, sub_add_cancel]
    by_cases hborrow : m - c.months < 1
    · rw [if_pos hborrow, if_pos hborrow]
      cases timegm (y - 1) (m - c.months + 12) <;> rfl
    · rw [if_neg hborrow, if_neg hborrow]
      cases timegm y (m - c.months) <;> rfl
  · rw [if_neg hin, if_neg hin]
    rfl

/-- The first time is the start of the month that lies as many months back as are kept, where one
borrowed year is enough and the calendar has that month. -/
theorem availableRange_first (c : SzbCache) (now first last : ℤ) {y : ℤ} {m : ℕ}
    (hnow : szbTime2my now = (y, m)) :
    c.availableRange now = .ok (first, last) ↔
      (c.months < m + 12 ∧ 12 ≤ 12 * y + m - 1 - c.months ∧
        12 * y + m - 1 - c.months < 12 * 10000) ∧ last = now - now % 10 ∧
      ∃ (y' : ℤ) (m' : ℕ), (1 ≤ m' ∧ m' ≤ 12) ∧ 12 * y' + m' = 12 * y + m - c.months ∧
        first = monthStart y' m' := by
  have hm := szbTime2my_month now
  have hpos := c.months_pos
  rw [hnow] at hm
  dsimp only at hm
  have hval : ∀ {year month : ℤ}, 12 * year + month = 12 * y + m - c.months →
      ((timegm year month).map fun first => (first, now - now % 10)) = .ok (first, last) →
      (1 ≤ year ∧ year ≤ 9999 ∧ 1 ≤ month ∧ month ≤ 12) ∧ last = now - now % 10 ∧
        first = monthStart year month.toNat := by
    intro year month hsum h
    rw [timegm] at h
    split at h
    · rename_i hin
      have hpair := Prod.mk.inj (Except.ok.inj h)
      exact ⟨hin, hpair.2.symm, hpair.1.symm⟩
    · exact absurd h (by simp [Except.map])
  rw [availableRange_eq c now hnow]
  constructor
  · intro h
    split at h
    · split at h
      · obtain ⟨hin, hlast, hfirst⟩ := hval (by omega) h
        exact ⟨by omega, hlast, y - 1, (m - c.months + 12).toNat, by omega, by omega, hfirst⟩
      · obtain ⟨hin, hlast, hfirst⟩ := hval (by omega) h
        exact ⟨by omega, hlast, y, (m - c.months).toNat, by omega, by omega, hfirst⟩
    · exact absurd h (by simp)
  · rintro ⟨hc, rfl, y', m', hm', hsum, rfl⟩
    rw [if_pos (by omega)]
    split
    · have hy' : y' = y - 1 := by omega
      have hmonth : m - c.months + 12 = m' := by omega
      rw [hmonth, timegm, if_pos (by omega), Int.toNat_natCast, hy']
      rfl
    · have hy' : y' = y := by omega
      have hmonth : m - c.months = m' := by omega
      rw [hmonth, timegm, if_pos (by omega), Int.toNat_natCast, hy']
      rfl

/-- The range of the server agrees with what is kept: its first time is the start of a month, and
the files of the months from it on are not removed. -/
def RangeAgrees (c : SzbCache) (now : ℤ) : Prop :=
  ∃ first last, c.availableRange now = .ok (first, last) ∧
    (∃ (y : ℤ) (m : ℕ), (1 ≤ m ∧ m ≤ 12) ∧ first = monthStart y m) ∧
    ∀ (y : ℤ) (m : ℕ) (r : FileRemover), (0 ≤ y ∧ y ≤ 9999) → (1 ≤ m ∧ m ≤ 12) →
      ((r.timeToYearMonth now).fileOutdated c.months (monthName y m) = false ↔
        first ≤ monthStart y m)

/-- A file is kept for as many months as are counted. -/
theorem fileOutdated_monthName (months now : ℤ) (r : FileRemover) {y : ℤ} {m : ℕ}
    (hy : 0 ≤ y ∧ y ≤ 9999) (hm : 1 ≤ m ∧ m ≤ 12) :
    (r.timeToYearMonth now).fileOutdated months (monthName y m) = false ↔
      12 * (szbTime2my now).1 + (szbTime2my now).2 - months ≤ 12 * y + m := by
  have hfields := gmtime_szbTime2my now
  rw [FileRemover.fileOutdated, filenameToYearMonth_monthName hy hm]
  simp only [FileRemover.timeToYearMonth, hfields.1, hfields.2]
  split
  · simp
    omega
  · simp
    omega

/-- Both agree exactly when one borrowed year is enough and the calendar has the first month. -/
theorem rangeAgrees_iff (c : SzbCache) (now : ℤ) :
    RangeAgrees c now ↔
      c.months < (szbTime2my now).2 + 12 ∧
        12 ≤ 12 * (szbTime2my now).1 + (szbTime2my now).2 - 1 - c.months ∧
        12 * (szbTime2my now).1 + (szbTime2my now).2 - 1 - c.months < 12 * 10000 := by
  constructor
  · rintro ⟨first, last, hrange, -⟩
    exact ((availableRange_first c now first last rfl).mp hrange).1
  · intro h
    have hm := szbTime2my_month now
    have hpos := c.months_pos
    obtain ⟨y', m', hm', hsum⟩ : ∃ (y' : ℤ) (m' : ℕ), (1 ≤ m' ∧ m' ≤ 12) ∧
        12 * y' + m' = 12 * (szbTime2my now).1 + (szbTime2my now).2 - c.months :=
      ⟨(12 * (szbTime2my now).1 + (szbTime2my now).2 - 1 - c.months) / 12,
        ((12 * (szbTime2my now).1 + (szbTime2my now).2 - 1 - c.months) % 12 + 1).toNat,
        by omega, by omega⟩
    refine ⟨monthStart y' m', now - now % 10, (availableRange_first c now _ _ rfl).mpr
      ⟨h, rfl, y', m', hm', hsum, rfl⟩, ⟨y', m', hm', rfl⟩, fun y m r hy hm => ?_⟩
    rw [fileOutdated_monthName c.months now r hy hm, monthStart_le_iff hm' hm, hsum]

/-- A cache of thirteen months in January 1970. -/
theorem not_rangeAgrees : ¬ ∀ (c : SzbCache) (now : ℤ), RangeAgrees c now := by
  intro h
  obtain ⟨first, last, hrange, -⟩ := h ⟨[], 13, by decide, []⟩ 0
  have hmonth : szbTime2my 0 = (1970, 1) := by decide
  have hc := ((availableRange_first _ 0 first last hmonth).mp hrange).1.1
  exact absurd hc (by decide)

end Probes
end Szarp
