import Szarp.Probes.SzbCache

/-!
# What `write_data` writes

A slot is ten seconds, numbered from the epoch.  `stored` says what the files hold for it.
-/

namespace Szarp
namespace Probes

open Gregorian Szbase PyText Numeral

def nodata (n : ℕ) : List UInt8 := (List.replicate n szbcacheNodata).flatten

def valueAt (data : List UInt8) (i : ℕ) : List UInt8 :=
  if 2 * i + 2 ≤ data.length then (data.drop (2 * i)).take 2 else szbcacheNodata

def fileData (files : List MonthFile) (year : ℤ) (month : ℕ) : List UInt8 :=
  ((files.find? fun f => f.year = year ∧ f.month = month).map MonthFile.data).getD []

def stored (files : List MonthFile) (t : ℤ) : List UInt8 :=
  valueAt (fileData files (szbTime2my t).1 (szbTime2my t).2)
    ((t - monthStart (szbTime2my t).1 (szbTime2my t).2) / 10).toNat

def slots (files : List MonthFile) (k : ℤ) (n : ℕ) : List UInt8 :=
  (List.range n).flatMap fun i : ℕ => stored files (10 * (k + i))

theorem length_valueAt (data : List UInt8) (i : ℕ) : (valueAt data i).length = 2 := by
  unfold valueAt
  split
  · rw [List.length_take, List.length_drop]
    omega
  · rfl

theorem length_slots (files : List MonthFile) (k : ℤ) (n : ℕ) :
    (slots files k n).length = 2 * n := by
  induction n with
  | zero => rfl
  | succ n ih =>
    rw [slots] at ih ⊢
    rw [List.range_succ, List.flatMap_append, List.length_append, ih, List.flatMap_singleton,
      stored, length_valueAt]
    omega

theorem slots_add (files : List MonthFile) (k : ℤ) (m n : ℕ) :
    slots files k (m + n) = slots files k m ++ slots files (k + m) n := by
  simp only [slots, List.range_add, List.flatMap_append, List.flatMap_map, Nat.cast_add,
    add_assoc]

/-! ## Names of files -/

theorem mem_zeroPadded {width : ℕ} {v : ℤ} {d : Char} (h : d ∈ zeroPadded width v) :
    d = '-' ∨ d.isDigit := by
  unfold zeroPadded at h
  split at h
  · rcases List.mem_cons.mp h with rfl | h
    · exact Or.inl rfl
    · exact Or.inr (isDigit_padded d h)
  · exact Or.inr (isDigit_padded d h)

theorem notMem_zeroPadded {width : ℕ} {v : ℤ} {d : Char} (hd : d = '/' ∨ d = '.') :
    d ∉ zeroPadded width v := by
  intro h
  have hdash : d ≠ '-' := by
    rcases hd with rfl | rfl <;> decide
  have hdigit : ¬ d.isDigit := by
    rcases hd with rfl | rfl <;> decide
  exact (mem_zeroPadded h).elim hdash hdigit

def monthDigits (year : ℤ) (month : ℕ) : List Char := zeroPadded 4 year ++ zeroPadded 2 month

theorem monthName_eq (y : ℤ) (m : ℕ) : monthName y m = monthDigits y m ++ szbcacheExt := rfl

theorem notMem_monthDigits {y : ℤ} {m : ℕ} {d : Char} (hd : d = '/' ∨ d = '.') :
    d ∉ monthDigits y m := by
  rw [monthDigits, List.mem_append, not_or]
  exact ⟨notMem_zeroPadded hd, notMem_zeroPadded hd⟩

theorem slash_notMem_monthName (y : ℤ) (m : ℕ) : '/' ∉ monthName y m := by
  rw [monthName_eq, List.mem_append, not_or]
  exact ⟨notMem_monthDigits (Or.inl rfl), by decide⟩

theorem zeroPadded_natCast (width n : ℕ) : zeroPadded width n = padded width n := by
  rw [zeroPadded, if_neg (by omega), Int.natAbs_natCast]

/-- The digits of a year of four digits and of a month are read back. -/
theorem parseInt_monthDigits {y : ℤ} {m : ℕ} (hy : 0 ≤ y) (hy' : y ≤ 9999) (hm' : m ≤ 12)
    (rest : List Char) :
    parseInt ((monthDigits y m ++ rest).take 4) = .ok y ∧
      parseInt (((monthDigits y m ++ rest).drop 4).take 2) = .ok (m : ℤ) := by
  obtain ⟨n, rfl⟩ := Int.eq_ofNat_of_zero_le hy
  have hlen4 : (padded 4 n).length = 4 := length_padded (by decide) (by omega)
  have hlen2 : (padded 2 m).length = 2 := length_padded (by decide) (by omega)
  have htake : (monthDigits (n : ℤ) m ++ rest).take 4 = padded 4 n := by
    rw [monthDigits, zeroPadded_natCast, zeroPadded_natCast, List.append_assoc,
      List.take_append_of_le_length (by omega), List.take_of_length_le (by omega)]
  have hdrop : ((monthDigits (n : ℤ) m ++ rest).drop 4).take 2 = padded 2 m := by
    rw [monthDigits, zeroPadded_natCast, zeroPadded_natCast, List.append_assoc,
      List.drop_append_of_le_length (by omega), List.drop_of_length_le (by omega),
      List.nil_append, List.take_append_of_le_length (by omega),
      List.take_of_length_le (by omega)]
  rw [htake, hdrop, parseInt, parseInt, int_padded, int_padded]
  exact ⟨rfl, rfl⟩

theorem monthName_inj {y y' : ℤ} {m m' : ℕ} (hm : m ≤ 12) (hm' : m' ≤ 12) :
    monthName y m = monthName y' m' ↔ y = y' ∧ m = m' := by
  constructor
  · intro h
    have hlen : ∀ m : ℕ, m ≤ 12 → (zeroPadded 2 m).length = 2 := by
      intro m hm
      rw [zeroPadded_natCast]
      exact length_padded (by decide) (by omega)
    have hdigits := List.append_cancel_right h
    obtain ⟨hyear, hmonth⟩ := List.append_inj' hdigits (by rw [hlen m hm, hlen m' hm'])
    have hyear' := congrArg int hyear
    have hmonth' := congrArg int hmonth
    rw [int_zeroPadded, int_zeroPadded] at hyear' hmonth'
    exact ⟨Option.some.inj hyear', by have := Option.some.inj hmonth'; omega⟩
  · rintro ⟨rfl, rfl⟩
    rfl

/-! ## Times and names -/

theorem afterLast_join {y : ℤ} {m : ℕ} (d : List Char) :
    afterLast '/' (join d (monthName y m)) = monthName y m :=
  afterLast_append (slash_notMem_monthName y m) d

theorem beforeLast_join {y : ℤ} {m : ℕ} (d : List Char) :
    beforeLast '/' (join d (monthName y m)) = d :=
  beforeLast_append (slash_notMem_monthName y m) d

theorem timegm_eq {y : ℤ} {m : ℕ} (hy : 1 ≤ y ∧ y ≤ 9999) (hm : 1 ≤ m ∧ m ≤ 12) :
    timegm y m = .ok (monthStart y m) := by
  rw [timegm, if_pos (by omega), Int.toNat_natCast]

theorem gmtime_eq {t : ℤ} (h : -2 ^ 31 ≤ (szbTime2my t).1 - 1900 ∧ (szbTime2my t).1 - 1900 < 2 ^ 31) :
    gmtime t = .ok (Gregorian.gmtime t) := by
  have hyear : (szbTime2my t).1 - 1900 = (Gregorian.gmtime t).tmYear := add_sub_cancel_right _ _
  rw [hyear] at h
  rw [gmtime, if_pos h]

theorem time2index_of_gmtime {t : ℤ} (h : gmtime t = .ok (Gregorian.gmtime t)) (d : List Char) :
    SzbCache.time2index t d =
      .ok (join d (monthName (szbTime2my t).1 (szbTime2my t).2),
        (t - monthStart (szbTime2my t).1 (szbTime2my t).2) / 10) := by
  have hmon : ((szbTime2my t).2 : ℤ) = (Gregorian.gmtime t).tmMon + 1 := by
    have hfields := gmtime_fields t
    rw [szbTime2my]
    omega
  have hindex : ((Gregorian.gmtime t).tmMday - 1) * 24 * 3600 + (Gregorian.gmtime t).tmHour * 3600 +
      (Gregorian.gmtime t).tmMin * 60 + (Gregorian.gmtime t).tmSec =
        t - monthStart (szbTime2my t).1 (szbTime2my t).2 := by
    have hstart := monthStart_add t
    rw [szbTime2my_eq]
    simp only [Gregorian.gmtime]
    dsimp only [dateOf] at hstart ⊢
    omega
  have hyear : (szbTime2my t).1 = (Gregorian.gmtime t).tmYear + 1900 := rfl
  rw [SzbCache.time2index, h, ← hindex]
  simp only [monthName, hmon, hyear]
  rfl

/-- A time of a year of four digits is in the file of its month. -/
theorem time2index_eq {t : ℤ} (h : 1 ≤ (szbTime2my t).1 ∧ (szbTime2my t).1 ≤ 9999)
    (d : List Char) :
    SzbCache.time2index t d =
      .ok (join d (monthName (szbTime2my t).1 (szbTime2my t).2),
        (t - monthStart (szbTime2my t).1 (szbTime2my t).2) / 10) :=
  time2index_of_gmtime (gmtime_eq (by omega)) d

theorem index2time_of_digits (c : SzbCache) {path rest : List Char} {y : ℤ} {m : ℕ}
    (hpath : afterLast '/' path = monthDigits y m ++ rest) (hy : 1 ≤ y ∧ y ≤ 9999)
    (hm : 1 ≤ m ∧ m ≤ 12) {i : ℤ} (hi : i ≠ -1) :
    c.index2time path i = .ok (monthStart y m + i * 10) := by
  obtain ⟨hyear, hmonth⟩ := parseInt_monthDigits (by omega) hy.2 hm.2 rest
  rw [SzbCache.index2time, if_neg hi]
  simp only [hpath, hyear, hmonth, timegm_eq hy hm, bind, Except.bind, pure, Except.pure]
  rfl

theorem index2time_join (c : SzbCache) (d : List Char) {y : ℤ} {m : ℕ} (hy : 1 ≤ y ∧ y ≤ 9999)
    (hm : 1 ≤ m ∧ m ≤ 12) {i : ℤ} (hi : i ≠ -1) :
    c.index2time (join d (monthName y m)) i = .ok (monthStart y m + i * 10) :=
  index2time_of_digits c (afterLast_join d) hy hm hi

theorem nodata_add (m n : ℕ) : nodata (m + n) = nodata m ++ nodata n := by
  rw [nodata, List.replicate_add, List.flatten_append]
  rfl

/-- The loop of `fill_empty` where it comes to an end within the rounds: what it writes. -/
def fillRun : ℕ → ℤ → ℤ → List UInt8 → Option (List UInt8)
  | 0, count, _, _ => if count > 0 then none else some []
  | rounds + 1, count, s, arr =>
    if count > 0 then
      if count % (s * 2) ≠ 0 then
        (if count - s > 0 then fillRun rounds (count - s) (s * 2) (arr ++ arr) else some []).map
          (arr ++ ·)
      else fillRun rounds count (s * 2) (arr ++ arr)
    else some []

/-- What a loop that ends has written. -/
theorem fillLoop_of_fillRun {rounds : ℕ} {count s : ℤ} {arr bytes : List UInt8}
    (h : fillRun rounds count s arr = some bytes) :
    SzbCache.fillLoop rounds count s arr = bytes := by
  induction rounds generalizing count s arr bytes with
  | zero =>
    rw [fillRun] at h
    split_ifs at h
    exact Option.some.inj h
  | succ rounds ih =>
    rw [fillRun] at h
    rw [SzbCache.fillLoop]
    split_ifs at h ⊢
    · obtain ⟨rest, hrest, rfl⟩ := Option.map_eq_some_iff.mp h
      rw [ih hrest]
    · exact Option.some.inj h
    · exact ih h
    · exact Option.some.inj h

theorem fillRun_eq (rounds s q : ℕ) (hs : 0 < s) (hq : q < 2 ^ rounds) :
    fillRun rounds (s * q : ℕ) s (nodata s) = some (nodata (s * q)) := by
  induction rounds generalizing s q with
  | zero =>
    obtain rfl : q = 0 := by omega
    rfl
  | succ rounds ih =>
    rw [pow_succ] at hq
    rcases Nat.eq_zero_or_pos q with rfl | hpos
    · rfl
    · have hcount : ((s * q : ℕ) : ℤ) > 0 := by positivity
      have hdouble : ((s : ℤ) * 2) = ((s * 2 : ℕ) : ℤ) := by push_cast; rfl
      have harr : nodata s ++ nodata s = nodata (s * 2) := by rw [mul_two, nodata_add]
      have hmod : ((s * q : ℕ) : ℤ) % ((s : ℤ) * 2) = (s * (q % 2) : ℕ) := by
        rw [hdouble, ← Int.natCast_mod, Nat.mul_mod_mul_left]
      rw [fillRun, if_pos hcount, hmod, harr, hdouble]
      rcases Nat.mod_two_eq_zero_or_one q with heven | hodd
      · -- the count stays, and is a multiple of the doubled array
        obtain ⟨r, rfl⟩ : ∃ r, q = 2 * r := ⟨q / 2, by omega⟩
        have hr := ih (s * 2) r (by omega) (by omega)
        rw [mul_assoc] at hr
        rw [heven, mul_zero, if_neg (by simp), hr]
      · obtain ⟨r, rfl⟩ : ∃ r, q = 2 * r + 1 := ⟨q / 2, by omega⟩
        have hr := ih (s * 2) r (by omega) (by omega)
        have hsub : ((s * (2 * r + 1) : ℕ) : ℤ) - s = (s * 2 * r : ℕ) := by push_cast; ring
        have htotal : s * (2 * r + 1) = s + s * 2 * r := by ring
        rw [hodd, mul_one, if_pos (by omega), hsub, hr, htotal, nodata_add]
        rcases Nat.eq_zero_or_pos r with rfl | hr0
        · rfl
        · rw [if_pos (by positivity)]
          rfl

/-- `fill_empty` writes as many values as it is asked for. -/
theorem fillEmpty_eq (n : ℕ) : SzbCache.fillEmpty n = nodata n := by
  have h := fillRun_eq n 1 n one_pos Nat.lt_two_pow_self
  rw [one_mul, Nat.cast_one] at h
  rw [SzbCache.fillEmpty, Int.toNat_natCast]
  exact fillLoop_of_fillRun h

/-! ## Files -/

theorem flatMap_valueAt (data : List UInt8) (s n : ℕ) :
    (List.range n).flatMap (fun i => valueAt data (s + i)) =
      (data.drop (2 * s)).take (2 * min n (data.length / 2 - s)) ++
        nodata (n - min n (data.length / 2 - s)) := by
  induction n with
  | zero => rfl
  | succ n ih =>
    rw [List.range_succ, List.flatMap_append, List.flatMap_singleton, ih, valueAt]
    by_cases h : 2 * (s + n) + 2 ≤ data.length
    · have hn : min n (data.length / 2 - s) = n := by omega
      have hn1 : min (n + 1) (data.length / 2 - s) = n + 1 := by omega
      have hnil : nodata 0 = [] := rfl
      rw [if_pos h, hn, hn1, Nat.sub_self, Nat.sub_self, hnil, List.append_nil, List.append_nil,
        mul_add_one, List.take_add, List.drop_drop, mul_add]
    · have hmin : min (n + 1) (data.length / 2 - s) = min n (data.length / 2 - s) := by omega
      have hle : n + 1 - min n (data.length / 2 - s) = n - min n (data.length / 2 - s) + 1 := by
        omega
      rw [if_neg h, hmin, hle, nodata_add, List.append_assoc]
      rfl

theorem content_join (c : SzbCache) {d : List Char} {files : List MonthFile}
    (hd : c.listdir d = some files) (y : ℤ) {m : ℕ} (hm : m ≤ 12) :
    c.content (join d (monthName y m)) =
      (files.find? fun f => f.year = y ∧ f.month = m).map MonthFile.data := by
  have hname : ∀ f : MonthFile, decide (monthName f.year f.month = monthName y m) =
      decide (f.year = y ∧ f.month = m) := by
    intro f
    rw [decide_eq_decide]
    exact monthName_inj f.month_mem.2 hm
  rw [SzbCache.content, beforeLast_join, afterLast_join, hd]
  change ((files.find? fun f => monthName f.year f.month = monthName y m).bind
    fun file => some file.data) = _
  simp only [hname]
  exact Option.map_eq_bind.symm

theorem stored_of_mem (files : List MonthFile) {y : ℤ} {m i : ℕ} (hm : 1 ≤ m ∧ m ≤ 12)
    (hi : monthStart y m + 10 * i < monthStart (nextMonth y m).1 (nextMonth y m).2) :
    stored files (monthStart y m + 10 * i) = valueAt (fileData files y m) i := by
  have hmonth := szbTime2my_of_mem hm.1 hm.2 (by omega) hi
  have hindex : ((monthStart y m + 10 * i - monthStart y m) / 10).toNat = i := by omega
  rw [stored, hmonth, hindex]

theorem writeFile_values (c : SzbCache) (d : List Char) {y : ℤ} {m : ℕ} (hy : 1 ≤ y ∧ y ≤ 9999)
    (hm : 1 ≤ m ∧ m ≤ 12) (s : ℕ) {n : ℕ} (hn : 0 < n) :
    c.writeFile s (s + n - 1 : ℤ) (join d (monthName y m)) = .ok ((List.range n).flatMap fun i =>
      valueAt ((c.content (join d (monthName y m))).getD []) (s + i)) := by
  generalize hdata : (c.content (join d (monthName y m))).getD [] = data
  have hlast : c.lastIndex (join d (monthName y m)) = (data.length / 2 : ℕ) - 1 := by
    rw [SzbCache.lastIndex, ← hdata]
    cases c.content (join d (monthName y m)) <;> rfl
  have htowrite : max 0 (min ((s : ℤ) + n - 1) ((data.length / 2 : ℕ) - 1) - s + 1) =
      (min n (data.length / 2 - s) : ℕ) := by omega
  have hrest : (s : ℤ) + n - 1 - s - (min n (data.length / 2 - s) : ℕ) + 1 =
      (n - min n (data.length / 2 - s) : ℕ) := by omega
  rw [SzbCache.writeFile]
  simp only [hlast, index2time_join c d hy hm (show (s : ℤ) ≠ -1 by omega),
    index2time_join c d hy hm (show (s : ℤ) + n - 1 ≠ -1 by omega), htowrite, hrest, hdata,
    fillEmpty_eq, flatMap_valueAt, Int.toNat_natCast, szbcacheSize]
  rw [mul_comm 2 (min _ _), mul_comm 2 s]
  by_cases hempty : ((data.length / 2 : ℕ) : ℤ) - 1 ≥ 0
  · rw [if_pos hempty, index2time_join c d hy hm (by omega)]
    rfl
  · rw [if_neg hempty]
    rfl

theorem writeFile_eq (c : SzbCache) {d : List Char} {files : List MonthFile}
    (hd : c.listdir d = some files) {y : ℤ} {m : ℕ} (hy : 1 ≤ y ∧ y ≤ 9999) (hm : 1 ≤ m ∧ m ≤ 12)
    {s n : ℕ} (hend : monthStart y m + 10 * (s + n) ≤
      monthStart (nextMonth y m).1 (nextMonth y m).2) (hn : 0 < n) :
    c.writeFile s (s + n - 1 : ℤ) (join d (monthName y m)) =
      .ok (slots files (monthStart y m / 10 + s) n) := by
  have hdata : (c.content (join d (monthName y m))).getD [] = fileData files y m := by
    rw [content_join c hd y hm.2, fileData]
  rw [writeFile_values c d hy hm s hn, hdata, slots]
  apply congrArg Except.ok
  apply List.flatMap_congr
  intro i hi
  have hi := List.mem_range.mp hi
  have hmod := monthStart_mod y m
  have htime : 10 * (monthStart y m / 10 + s + i) = monthStart y m + 10 * ((s + i : ℕ) : ℤ) := by
    push_cast
    omega
  rw [htime, stored_of_mem files hm (by omega)]

/-! ## Calls of `write_data` -/

/-- The directory of a parameter, found by the path that a request names it by. -/
structure IsParamDir (c : SzbCache) (parampath : List Char) (files : List MonthFile) : Prop where
  checkPath : c.checkPath parampath = .ok (join c.cachedir parampath)
  isdir : c.isdir (join c.cachedir parampath) = .ok true
  listdir : c.listdir (join c.cachedir parampath) = some files

theorem slot_index {t y : ℤ} {m : ℕ} (h : t < monthStart (nextMonth y m).1 (nextMonth y m).2) :
    (t - monthStart y m) / 10 = t / 10 - monthStart y m / 10 ∧
      10 * (t / 10) + 10 ≤ monthStart (nextMonth y m).1 (nextMonth y m).2 := by
  have hmod := monthStart_mod y m
  have hmod' := monthStart_mod (nextMonth y m).1 (nextMonth y m).2
  omega

/-- From a time to another one of the same month, all slots are written. -/
theorem writeData_sameMonth (c : SzbCache) {parampath : List Char} {files : List MonthFile}
    (hdir : IsParamDir c parampath files) {t t' : ℤ} (hle : t ≤ t')
    (hyear : 1 ≤ (szbTime2my t).1 ∧ (szbTime2my t).1 ≤ 9999) (hmonth : szbTime2my t = szbTime2my t') :
    c.writeData t t' parampath =
      .ok (10 * (t' / 10) + 10, slots files (t / 10) (t' / 10 - t / 10 + 1).toNat) := by
  have hm := szbTime2my_month t
  have hmod := monthStart_mod (szbTime2my t).1 (szbTime2my t).2
  have hlo := monthStart_le t
  have hhi := lt_monthStart_nextMonth t'
  have ht' := time2index_eq (t := t') (by rw [← hmonth]; exact hyear) (join c.cachedir parampath)
  rw [← hmonth] at hhi ht'
  obtain ⟨hs, -⟩ := slot_index (hle.trans_lt hhi)
  obtain ⟨he, hend⟩ := slot_index hhi
  have hwrite := writeFile_eq c hdir.listdir hyear hm
    (s := (t / 10 - monthStart (szbTime2my t).1 (szbTime2my t).2 / 10).toNat)
    (n := (t' / 10 - t / 10 + 1).toNat) (by omega) (by omega)
  have hstart : ((t / 10 - monthStart (szbTime2my t).1 (szbTime2my t).2 / 10).toNat : ℤ) =
      t / 10 - monthStart (szbTime2my t).1 (szbTime2my t).2 / 10 := Int.toNat_of_nonneg (by omega)
  have hlast : t / 10 - monthStart (szbTime2my t).1 (szbTime2my t).2 / 10 +
      ((t' / 10 - t / 10 + 1).toNat : ℤ) - 1 =
        t' / 10 - monthStart (szbTime2my t).1 (szbTime2my t).2 / 10 := by omega
  rw [hstart, hlast, add_sub_cancel] at hwrite
  have hback := index2time_join c (join c.cachedir parampath) hyear hm
    (i := t' / 10 - monthStart (szbTime2my t).1 (szbTime2my t).2 / 10) (by omega)
  have hnext : monthStart (szbTime2my t).1 (szbTime2my t).2 +
      (t' / 10 - monthStart (szbTime2my t).1 (szbTime2my t).2 / 10) * 10 + szbcacheProbe =
        10 * (t' / 10) + 10 := by
    rw [szbcacheProbe]
    omega
  rw [SzbCache.writeData]
  simp only [hdir.checkPath, hdir.isdir, time2index_eq hyear, ht', hs, he, hwrite, hback, bind,
    Except.bind, pure, Except.pure, not_true_eq_false, if_false, if_true, hnext]

theorem next_join (ext d : List Char) {y : ℤ} {m : ℕ} (hy : 0 ≤ y ∧ y ≤ 9999) (hm : m ≤ 12) :
    PathIterator.next ext (join d (monthName y m)) =
      .ok (PathIterator.joinMonth ext d (nextMonth y m).1 (nextMonth y m).2) := by
  obtain ⟨hyear, hmonth⟩ := parseInt_monthDigits hy.1 hy.2 hm szbcacheExt
  rw [← monthName_eq] at hyear hmonth
  rw [PathIterator.next, PathIterator.split]
  simp only [afterLast_join, beforeLast_join, hyear, hmonth, bind, Except.bind, pure, Except.pure]
  by_cases h : m = 12
  · rw [if_pos (by omega), nextMonth, if_pos h]
    rfl
  · rw [if_neg (by omega), nextMonth, if_neg h]
    rfl

theorem dot_notMem_path {d : List Char} {y : ℤ} {m : ℕ} (h : '.' ∉ d) :
    '.' ∉ d ++ '/' :: monthDigits y m := by
  rw [List.mem_append, not_or, List.mem_cons, not_or]
  exact ⟨h, by decide, notMem_monthDigits (Or.inr rfl)⟩

theorem join_monthName (d : List Char) (y : ℤ) (m : ℕ) :
    join d (monthName y m) = (d ++ '/' :: monthDigits y m) ++ '.' :: ['s', 'z', 'c'] := by
  rw [join, monthName_eq, List.append_assoc]
  rfl

/-- The extension that `PathIterator` finds, when the directory has no dot. -/
theorem rsplitSecond_join {d : List Char} (h : '.' ∉ d) (y : ℤ) (m : ℕ) :
    rsplitSecond '.' (join d (monthName y m)) = ['s', 'z', 'c'] := by
  rw [rsplitSecond, join_monthName, beforeLast_append (by decide),
    if_neg (dot_notMem_path h), afterLast_append (by decide)]

/-- A month that the last time does not lie in is written to its end. -/
theorem writeData_nextMonth (c : SzbCache) {parampath : List Char} {files : List MonthFile}
    (hdir : IsParamDir c parampath files) (hdot : '.' ∉ join c.cachedir parampath) {t t' : ℤ}
    (hle : t ≤ t') (hyear : 1 ≤ (szbTime2my t).1) (hyear' : (szbTime2my t').1 ≤ 9999)
    (hmonth : szbTime2my t ≠ szbTime2my t') :
    ∃ next, next = monthStart (nextMonth (szbTime2my t).1 (szbTime2my t).2).1
        (nextMonth (szbTime2my t).1 (szbTime2my t).2).2 ∧ t < next ∧ next ≤ t' ∧
      c.writeData t t' parampath =
        .ok (next, slots files (t / 10) (next / 10 - t / 10).toNat) := by
  have hm := szbTime2my_month t
  have hm' := szbTime2my_month t'
  have hmod := monthStart_mod (szbTime2my t).1 (szbTime2my t).2
  have hlo := monthStart_le t
  have hhi := lt_monthStart_nextMonth t
  have hyears := szbTime2my_year_mono hle
  generalize hnext : nextMonth (szbTime2my t).1 (szbTime2my t).2 = n at hhi ⊢
  have hnm := nextMonth_mem (y := (szbTime2my t).1) hm.2
  rw [hnext] at hnm
  have hnmod := monthStart_mod n.1 n.2
  -- the last time lies behind the month, so the next month starts no later
  have hbehind : monthStart n.1 n.2 ≤ t' := by
    by_contra hlt
    apply hmonth
    have hmem := szbTime2my_of_mem (t := t') (y := (szbTime2my t).1) hm.1 hm.2 (by omega)
      (by rw [hnext]; omega)
    exact hmem.symm
  have hny : 1 ≤ n.1 ∧ n.1 ≤ 9999 := by
    have h1 := szbTime2my_year_mono hbehind
    have h2 := szbTime2my_year_mono hhi.le
    rw [szbTime2my_monthStart n.1 hnm.1 hnm.2] at h1 h2
    dsimp only at h1 h2
    omega
  have hbefore : szbTime2my (monthStart n.1 n.2 - 10) = szbTime2my t := by
    rw [szbTime2my_of_mem (y := (szbTime2my t).1) hm.1 hm.2 (by omega) (by rw [hnext]; omega)]
  obtain ⟨hs, -⟩ := slot_index (t := t) (y := (szbTime2my t).1) (m := (szbTime2my t).2)
    (by rw [hnext]; exact hhi)
  have hlast := time2index_eq (t := monthStart n.1 n.2 - 10) (by rw [hbefore]; omega)
    (join c.cachedir parampath)
  rw [hbefore] at hlast
  have hindex : (monthStart n.1 n.2 - 10 - monthStart (szbTime2my t).1 (szbTime2my t).2) / 10 =
      monthStart n.1 n.2 / 10 - 1 - monthStart (szbTime2my t).1 (szbTime2my t).2 / 10 := by omega
  have hwrite := writeFile_eq c hdir.listdir (y := (szbTime2my t).1) (by omega) hm
    (s := (t / 10 - monthStart (szbTime2my t).1 (szbTime2my t).2 / 10).toNat)
    (n := (monthStart n.1 n.2 / 10 - t / 10).toNat) (by rw [hnext]; omega) (by omega)
  have hstart : ((t / 10 - monthStart (szbTime2my t).1 (szbTime2my t).2 / 10).toNat : ℤ) =
      t / 10 - monthStart (szbTime2my t).1 (szbTime2my t).2 / 10 := Int.toNat_of_nonneg (by omega)
  have hend : t / 10 - monthStart (szbTime2my t).1 (szbTime2my t).2 / 10 +
      ((monthStart n.1 n.2 / 10 - t / 10).toNat : ℤ) - 1 =
        monthStart n.1 n.2 / 10 - 1 - monthStart (szbTime2my t).1 (szbTime2my t).2 / 10 := by
    omega
  rw [hstart, hend, add_sub_cancel] at hwrite
  have hnames : ¬ join (join c.cachedir parampath)
      (monthName (szbTime2my t).1 (szbTime2my t).2) =
        join (join c.cachedir parampath) (monthName (szbTime2my t').1 (szbTime2my t').2) := by
    intro heq
    have hname := congrArg (afterLast '/') heq
    rw [afterLast_join, afterLast_join, monthName_inj hm.2 hm'.2] at hname
    exact hmonth (Prod.ext hname.1 hname.2)
  have hiter := next_join ['s', 'z', 'c'] (join c.cachedir parampath)
    (y := (szbTime2my t).1) (by omega) hm.2
  have htime : c.index2time (PathIterator.joinMonth ['s', 'z', 'c'] (join c.cachedir parampath)
      n.1 n.2) 0 = .ok (monthStart n.1 n.2) := by
    have h := index2time_join c (join c.cachedir parampath) hny hnm (i := 0) (by decide)
    rw [zero_mul, add_zero] at h
    exact h
  rw [hnext] at hiter
  refine ⟨_, rfl, hhi, hbehind, ?_⟩
  rw [SzbCache.writeData]
  simp only [hdir.checkPath, hdir.isdir, time2index_eq (t := t) (by omega),
    time2index_eq (t := t') (by omega), hs, hlast, hindex, hwrite, hnames, hiter, htime, szbcacheProbe,
    rsplitSecond_join hdot, bind, Except.bind, pure, Except.pure, not_true_eq_false, if_false]

/-! ## Calls that do not get on -/

/-- The kinds of requests that cannot be served to their end: years without four digits, and a
dotted directory from one month to another. -/
def Stuck (dpath : List Char) (t' t : ℤ) : Prop :=
  t < t' ∧ ((szbTime2my t).1 ≤ 0 ∨ 10000 ≤ (szbTime2my t').1 ∨
    (szbTime2my t').1 ≤ 9999 ∧ '.' ∈ dpath ∧ szbTime2my t ≠ szbTime2my t')

end Probes
end Szarp
