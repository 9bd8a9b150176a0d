import Szarp.Probes.Get

/-!
# Searching the cache

`search` of `szbcache.py` and what it calls, and when it raises nothing.
-/

namespace Szarp
namespace Probes

open Gregorian Szbase PyText Numeral

/-- `format_time`, of which only the exceptions matter. -/
def formatTime (t : ℤ) : Except Exn Unit := (gmtime t).map fun _ => ()

/-- `range(start, stop, step)` -/
def pyRange (start stop step : ℤ) : List ℤ :=
  let count := if 0 < step then (stop - start + step - 1) / step
    else (start - stop - step - 1) / (-step)
  (List.range count.toNat).map fun i : ℕ => start + step * i

namespace SzbCache

variable (c : SzbCache)

/-- `search_array`, on the `rsize` values of `data` from index `first` on. -/
def searchArray (data : List UInt8) (first rsize direction : ℤ) : Option ℤ :=
  let indices := if direction > 0 then pyRange 0 rsize direction
    else pyRange (rsize - 1) (-1) direction
  indices.find? fun i => (data.drop (2 * (first + i).toNat)).take 2 ≠ szbcacheNodata

/-- The loop of `real_search_file`.  Each round takes `startindex` nearer to `endindex`. -/
def searchBlocks (path : List Char) (data : List UInt8) (endindex direction : ℤ) :
    ℕ → ℤ → Except Exn (Option ℤ)
  | rounds, startindex =>
    if startindex * direction ≤ endindex * direction then
      match rounds with
      | 0 => .error .rounds
      | rounds + 1 =>
        let rsize := min 16384 ((endindex - startindex) * direction + 1)
        let searchBlockBegin := if direction < 0 then startindex - rsize + 1 else startindex
        if searchBlockBegin < 0 then .error .environmentError
        else if (data.length : ℤ) < 2 * (searchBlockBegin + rsize) then .error .eofError
        else
          match searchArray data searchBlockBegin rsize direction with
          | some foundindex => (c.index2time path (foundindex + searchBlockBegin)).map some
          | none => searchBlocks path data endindex direction rounds (startindex + rsize * direction)
    else .ok none

def realSearchFile (path : List Char) (startindex endindex direction : ℤ) :
    Except Exn (Option ℤ) :=
  c.searchBlocks path ((c.content path).getD []) endindex direction
    ((endindex - startindex) * direction + 1).toNat startindex

def searchFile (path : List Char) (startindex : ℤ) (endpath : List Char)
    (endindex direction : ℤ) : Except Exn (Option ℤ) :=
  if (c.content path).isNone then .ok none
  else
    let last := c.lastIndex path
    let (startindex, endindex) :=
      if endpath ≠ path then
        if direction ≥ 0 then (startindex, last) else (min startindex last, 0)
      else if direction > 0 then (startindex, min endindex last)
      else (min startindex last, endindex)
    let startindex := if startindex = -1 ∧ direction < 0 then last else startindex
    c.realSearchFile path startindex endindex direction

/-- The loop of `search_for`, with the iterator at `startpath`. -/
def searchMonths (ext endpath : List Char) (endindex stop direction : ℤ) :
    ℕ → ℤ → List Char → ℤ → Except Exn ℤ
  | rounds, start, startpath, startindex =>
    if start * direction ≤ stop * direction then
      match rounds with
      | 0 => .error .rounds
      | rounds + 1 => do
        let _ ← formatTime start
        match ← c.searchFile startpath startindex endpath endindex direction with
        | some found => return found
        | none =>
          if direction > 0 then
            let startpath ← PathIterator.next ext startpath
            let start ← c.index2time startpath 0
            searchMonths ext endpath endindex stop direction rounds start startpath 0
          else
            let start ← c.index2time startpath 0
            let startpath ← PathIterator.prev ext startpath
            searchMonths ext endpath endindex stop direction rounds (start - szbcacheProbe) startpath
              (-1)
    else .ok (-1)

def searchFor (rounds : ℕ) (start stop direction : ℤ) (dpath : List Char) : Except Exn ℤ := do
  let (startpath, startindex) ← time2index start dpath
  let (endpath, endindex) ← time2index stop dpath
  c.searchMonths (rsplitSecond '.' startpath) endpath endindex stop direction rounds start
    startpath startindex

def searchAt (start : ℤ) (dpath : List Char) : Except Exn ℤ := do
  let (path, index) ← time2index start dpath
  match c.content path with
  | none => return -1
  | some data =>
    if (data.length : ℤ) < 2 * index then return -1
    if (data.length : ℤ) < 2 * index + 2 then throw .eofError
    if (data.drop (2 * index.toNat)).take 2 = szbcacheNodata then return -1
    return start

def search (rounds : ℕ) (start stop direction : ℤ) (parampath : List Char) :
    Except Exn (ℤ × ℤ × ℤ) := do
  let _ ← formatTime start
  let _ ← formatTime stop
  let dpath ← c.checkPath parampath
  if ¬ (← c.isdir dpath) then return (-1, -1, -1)
  let (first, last) ← c.searchFirstLast dpath
  if direction = 0 then
    return (← c.searchAt (if start = -1 then first else start) dpath, first, last)
  let (start, stop) :=
    if direction > 0 then
      (if start = -1 ∨ start < first then first else start,
        if stop = -1 ∨ stop > last then last else stop)
    else
      (if start = -1 ∨ start > last then last else start,
        if stop = -1 ∨ stop < first then first else stop)
  let _ ← formatTime start
  let _ ← formatTime stop
  return (← c.searchFor rounds start stop direction dpath, first, last)

/-- `available_range`, at the time `now`. -/
def availableRange (now : ℤ) : Except Exn (ℤ × ℤ) := do
  let last := now - now % 10
  let ts ← gmtime last
  let month := ts.tmMon + 1 - c.months
  let year := ts.tmYear + 1900
  let first ← if month < 1 then timegm (year - 1) (month + 12) else timegm year month
  return (first, last)

end SzbCache

/-! ## Searching a file -/

/-- A search forwards or backwards reads only what the file has. -/
def InFile (data : List UInt8) (startindex endindex direction : ℤ) : Prop :=
  direction = 1 ∧ 0 ≤ startindex ∧ 2 * (endindex + 1) ≤ data.length ∨
    direction = -1 ∧ 0 ≤ endindex ∧ 2 * (startindex + 1) ≤ data.length

theorem searchArray_nonneg {data : List UInt8} {first rsize direction i : ℤ}
    (hd : direction = 1 ∨ direction = -1)
    (h : SzbCache.searchArray data first rsize direction = some i) : 0 ≤ i := by
  have hmem := List.mem_of_find?_eq_some h
  rcases hd with rfl | rfl
  · rw [if_pos (by decide), pyRange, List.mem_map] at hmem
    obtain ⟨k, -, rfl⟩ := hmem
    omega
  · rw [if_neg (by decide), pyRange, List.mem_map] at hmem
    obtain ⟨k, hk, rfl⟩ := hmem
    have hcount : (rsize - 1 - -1 - -1 - 1) / -(-1 : ℤ) = rsize := by
      rw [neg_neg, Int.ediv_one]
      ring
    rw [if_neg (by decide), hcount, List.mem_range] at hk
    omega

variable (c : SzbCache) {d : List Char}

theorem searchBlocks_ok {y : ℤ} {m : ℕ} (hy : 1 ≤ y ∧ y ≤ 9999) (hm : 1 ≤ m ∧ m ≤ 12)
    {data : List UInt8} {startindex endindex direction : ℤ}
    (h : InFile data startindex endindex direction) {rounds : ℕ}
    (hrounds : ((endindex - startindex) * direction + 1).toNat ≤ rounds) :
    ∃ r, c.searchBlocks (join d (monthName y m)) data endindex direction rounds startindex =
      .ok r := by
  have hd : direction = 1 ∨ direction = -1 := h.imp And.left And.left
  -- Each round searches a piece of at most 16384 values, which lies in the file.
  induction rounds generalizing startindex with
  | zero =>
    rw [SzbCache.searchBlocks, if_neg]
    · exact ⟨none, rfl⟩
    · rcases hd with rfl | rfl <;> omega
  | succ rounds ih =>
    rw [SzbCache.searchBlocks]
    by_cases hgo : startindex * direction ≤ endindex * direction
    · have hsize : 1 ≤ min 16384 ((endindex - startindex) * direction + 1) := by
        rcases hd with rfl | rfl <;> omega
      have hle : min 16384 ((endindex - startindex) * direction + 1) ≤
          (endindex - startindex) * direction + 1 := min_le_right _ _
      rw [if_pos hgo]
      dsimp only
      generalize min 16384 ((endindex - startindex) * direction + 1) = rsize at hsize hle
      have hbegin : 0 ≤ if direction < 0 then startindex - rsize + 1 else startindex := by
        rcases h with ⟨rfl, h, -⟩ | ⟨rfl, h, -⟩
        · rw [if_neg (by decide)]
          exact h
        · rw [if_pos (by decide)]
          omega
      have hend : 2 * ((if direction < 0 then startindex - rsize + 1 else startindex) + rsize) ≤
          data.length := by
        rcases h with ⟨rfl, -, h⟩ | ⟨rfl, -, h⟩
        · rw [if_neg (by decide)]
          omega
        · rw [if_pos (by decide)]
          omega
      generalize (if direction < 0 then startindex - rsize + 1 else startindex) = first at hbegin hend
      rw [if_neg (not_lt.mpr hbegin), if_neg (not_lt.mpr hend)]
      cases hfound : SzbCache.searchArray data first rsize direction with
      | some i =>
        have hi := searchArray_nonneg hd hfound
        dsimp only
        rw [index2time_join c d hy hm (by omega)]
        exact ⟨_, rfl⟩
      -- nothing was found: the search goes on behind the piece
      | none =>
        apply ih
        · rcases h with ⟨rfl, h1, h2⟩ | ⟨rfl, h1, h2⟩
          · exact Or.inl ⟨rfl, by omega, h2⟩
          · exact Or.inr ⟨rfl, h1, by omega⟩
        · rcases hd with rfl | rfl <;> omega
    · rw [if_neg hgo]
      exact ⟨none, rfl⟩

theorem searchFile_ok {y : ℤ} {m : ℕ} (hy : 1 ≤ y ∧ y ≤ 9999) (hm : 1 ≤ m ∧ m ≤ 12)
    {startindex endindex direction : ℤ} (endpath : List Char)
    (h : direction = 1 ∧ 0 ≤ startindex ∨ direction = -1 ∧ 0 ≤ endindex) :
    ∃ r, c.searchFile (join d (monthName y m)) startindex endpath endindex direction = .ok r := by
  rw [SzbCache.searchFile]
  cases hcontent : c.content (join d (monthName y m)) with
  | none => exact ⟨none, rfl⟩
  | some data =>
    have hlast : c.lastIndex (join d (monthName y m)) = ((data.length / 2 : ℕ) : ℤ) - 1 := by
      rw [SzbCache.lastIndex, hcontent]
      rfl
    rw [Option.isNone_some, if_neg Bool.false_ne_true, hlast]
    dsimp only
    simp only [SzbCache.realSearchFile, hcontent, Option.getD_some]
    apply searchBlocks_ok c hy hm ?_ le_rfl
    rcases h with ⟨rfl, h⟩ | ⟨rfl, h⟩
    · rw [if_neg (by simp)]
      refine Or.inl ⟨rfl, ?_⟩
      by_cases hpath : endpath ≠ join d (monthName y m)
      · rw [if_pos hpath, if_pos (by decide)]
        dsimp only
        omega
      · rw [if_neg hpath, if_pos (by decide)]
        dsimp only
        omega
    · refine Or.inr ⟨rfl, ?_⟩
      by_cases hpath : endpath ≠ join d (monthName y m)
      · rw [if_pos hpath, if_neg (by decide)]
        dsimp only
        split <;> omega
      · rw [if_neg hpath, if_neg (by decide)]
        dsimp only
        split <;> omega

/-! ## Searching a directory -/

theorem formatTime_ok {t : ℤ} (h : 1 ≤ (szbTime2my t).1 ∧ (szbTime2my t).1 ≤ 9999) :
    formatTime t = .ok () := by
  rw [formatTime, gmtime_eq (by omega)]
  rfl

theorem szc_joinMonth (d : List Char) (y : ℤ) (m : ℕ) :
    PathIterator.joinMonth ['s', 'z', 'c'] d y m = join d (monthName y m) := rfl

/-- A forward search raises nothing up to November 9999. -/
theorem searchMonths_forwards (endpath : List Char) (endindex : ℤ) {start stop startindex : ℤ}
    (hstart : 1 ≤ (szbTime2my start).1) (hstop : (szbTime2my stop).1 < 9999)
    (hindex : 0 ≤ startindex) {rounds : ℕ} (hrounds : (stop - start + 1).toNat ≤ rounds) :
    ∃ r, c.searchMonths ['s', 'z', 'c'] endpath endindex stop 1 rounds start
      (join d (monthName (szbTime2my start).1 (szbTime2my start).2)) startindex = .ok r := by
  induction rounds generalizing start startindex with
  | zero =>
    rw [SzbCache.searchMonths, if_neg (by omega)]
    exact ⟨-1, rfl⟩
  | succ rounds ih =>
    rw [SzbCache.searchMonths]
    by_cases hgo : start * 1 ≤ stop * 1
    · have hyears := szbTime2my_year_mono (show start ≤ stop by omega)
      have hm := szbTime2my_month start
      have hlt := lt_monthStart_nextMonth start
      have hnext := nextMonth_mem (y := (szbTime2my start).1) hm.2
      have hny : 1 ≤ (nextMonth (szbTime2my start).1 (szbTime2my start).2).1 ∧
          (nextMonth (szbTime2my start).1 (szbTime2my start).2).1 ≤ 9999 := by
        unfold nextMonth
        split <;> dsimp only <;> omega
      have hmonth := szbTime2my_monthStart
        (nextMonth (szbTime2my start).1 (szbTime2my start).2).1 hnext.1 hnext.2
      obtain ⟨r, hfile⟩ := searchFile_ok c (d := d) (y := (szbTime2my start).1) (by omega) hm
        endpath (show 1 = 1 ∧ 0 ≤ startindex ∨ (1 : ℤ) = -1 ∧ 0 ≤ endindex from Or.inl ⟨rfl, hindex⟩)
      have htime := index2time_join c d hny hnext (i := 0) (by decide)
      rw [zero_mul, add_zero] at htime
      rw [if_pos hgo]
      simp only [formatTime_ok (t := start) (by omega), hfile, bind, Except.bind]
      cases r with
      | some found => exact ⟨found, rfl⟩
      | none =>
        have hyear : 1 ≤ (szbTime2my (monthStart (nextMonth (szbTime2my start).1
            (szbTime2my start).2).1 (nextMonth (szbTime2my start).1 (szbTime2my start).2).2)).1 := by
          rw [hmonth]
          exact hny.1
        obtain ⟨r, hrest⟩ := ih hyear le_rfl (by omega)
        rw [hmonth] at hrest
        refine ⟨r, ?_⟩
        simp only [next_join ['s', 'z', 'c'] d (y := (szbTime2my start).1) (by omega) hm.2,
          szc_joinMonth, htime, gt_iff_lt, zero_lt_one, if_true]
        exact hrest
    · rw [if_neg hgo]
      exact ⟨-1, rfl⟩

def prevMonth (year : ℤ) (month : ℕ) : ℤ × ℕ :=
  if month - 1 = 0 then (year - 1, 12) else (year, month - 1)

theorem prev_join (d : List Char) {y : ℤ} {m : ℕ} (hy : 0 ≤ y ∧ y ≤ 9999) (hm : m ≤ 12) :
    PathIterator.prev ['s', 'z', 'c'] (join d (monthName y m)) =
      .ok (join d (monthName (prevMonth y m).1 (prevMonth y m).2)) := by
  obtain ⟨hyear, hmonth⟩ := parseInt_monthDigits hy.1 hy.2 hm szbcacheExt
  rw [← monthName_eq] at hyear hmonth
  rw [PathIterator.prev, PathIterator.split]
  simp only [afterLast_join, beforeLast_join, hyear, hmonth, bind, Except.bind, pure, Except.pure]
  by_cases h : m - 1 = 0
  · rw [if_pos (by omega), prevMonth, if_pos h]
    rfl
  · rw [if_neg (by omega), prevMonth, if_neg h, ← szc_joinMonth, Nat.cast_sub (by omega),
      Nat.cast_one]

theorem szbTime2my_before {y : ℤ} {m : ℕ} (hm : 1 ≤ m ∧ m ≤ 12) :
    szbTime2my (monthStart y m - 10) = prevMonth y m := by
  have hprev : 1 ≤ (prevMonth y m).2 ∧ (prevMonth y m).2 ≤ 12 := by
    unfold prevMonth
    split <;> dsimp only <;> omega
  have hnext : nextMonth (prevMonth y m).1 (prevMonth y m).2 = (y, m) := by
    unfold prevMonth
    by_cases h : m - 1 = 0
    · rw [if_pos h, nextMonth, if_pos rfl]
      exact Prod.ext (by dsimp only; omega) (by dsimp only; omega)
    · rw [if_neg h, nextMonth, if_neg (by omega)]
      exact Prod.ext rfl (by dsimp only; omega)
  have hstart := monthStart_nextMonth (prevMonth y m).1 hprev.1
  have hlen := monthLength_pos (prevMonth y m).1 (prevMonth y m).2
  rw [hnext] at hstart
  dsimp only at hstart
  generalize prevMonth y m = n at hprev hnext hstart hlen ⊢
  exact szbTime2my_of_mem (y := n.1) (m := n.2) hprev.1 hprev.2 (by omega)
    (by rw [hnext]; dsimp only; omega)

theorem searchMonths_backwards (endpath : List Char) {endindex start stop startindex : ℤ}
    (hstart : (szbTime2my start).1 ≤ 9999) (hstop : 1 ≤ (szbTime2my stop).1)
    (hindex : 0 ≤ endindex) {rounds : ℕ} (hrounds : (start - stop + 1).toNat ≤ rounds) :
    ∃ r, c.searchMonths ['s', 'z', 'c'] endpath endindex stop (-1) rounds start
      (join d (monthName (szbTime2my start).1 (szbTime2my start).2)) startindex = .ok r := by
  induction rounds generalizing start startindex with
  | zero =>
    rw [SzbCache.searchMonths, if_neg (by omega)]
    exact ⟨-1, rfl⟩
  | succ rounds ih =>
    rw [SzbCache.searchMonths]
    by_cases hgo : start * -1 ≤ stop * -1
    · have hyears := szbTime2my_year_mono (show stop ≤ start by omega)
      have hm := szbTime2my_month start
      have hle := monthStart_le start
      have hmonth := szbTime2my_before (y := (szbTime2my start).1) hm
      obtain ⟨r, hfile⟩ := searchFile_ok c (d := d) (y := (szbTime2my start).1) (by omega) hm
        endpath (show (-1 : ℤ) = 1 ∧ 0 ≤ startindex ∨ -1 = -1 ∧ 0 ≤ endindex from Or.inr ⟨rfl, hindex⟩)
      have htime := index2time_join c d (y := (szbTime2my start).1) (by omega) hm (i := 0)
        (by decide)
      rw [zero_mul, add_zero] at htime
      rw [if_pos hgo]
      simp only [formatTime_ok (t := start) (by omega), hfile, bind, Except.bind]
      cases r with
      | some found => exact ⟨found, rfl⟩
      | none =>
        have hyear : (szbTime2my (monthStart (szbTime2my start).1 (szbTime2my start).2 - 10)).1 ≤
            9999 := by
          have := szbTime2my_year_mono
            (show monthStart (szbTime2my start).1 (szbTime2my start).2 - 10 ≤ start by omega)
          omega
        obtain ⟨r, hrest⟩ := ih hyear (by omega)
        rw [hmonth] at hrest
        refine ⟨r, ?_⟩
        simp only [prev_join d (y := (szbTime2my start).1) (by omega) hm.2, htime, gt_iff_lt,
          Int.reduceNeg, Left.neg_pos_iff, Int.not_lt_of_ge, zero_le_one, szbcacheProbe]
        exact hrest
    · rw [if_neg hgo]
      exact ⟨-1, rfl⟩

/-! ## The whole search -/

def SlotWhole (files : List MonthFile) (t : ℤ) : Prop :=
  ∀ f ∈ files, f.year = (szbTime2my t).1 → f.month = (szbTime2my t).2 →
    (f.data.length : ℤ) < 2 * ((t - monthStart f.year f.month) / 10) ∨
      2 * ((t - monthStart f.year f.month) / 10) + 2 ≤ f.data.length

theorem searchAt_ok {files : List MonthFile} (hd : c.listdir d = some files) {t : ℤ}
    (ht : gmtime t = .ok (Gregorian.gmtime t)) (h : SlotWhole files t) :
    ∃ r, c.searchAt t d = .ok r := by
  have hm := szbTime2my_month t
  rw [SzbCache.searchAt, time2index_of_gmtime ht]
  simp only [content_join c hd _ hm.2, bind, Except.bind, pure, Except.pure]
  cases hfile : files.find? fun f => f.year = (szbTime2my t).1 ∧ f.month = (szbTime2my t).2 with
  | none => exact ⟨-1, rfl⟩
  | some f =>
    have hmonth := List.find?_some hfile
    rw [decide_eq_true_eq] at hmonth
    obtain ⟨hyear, hmonth⟩ := hmonth
    have hslot := h f (List.mem_of_find?_eq_some hfile) hyear hmonth
    rw [hyear, hmonth] at hslot
    simp only [Option.map_some]
    by_cases hbehind : (f.data.length : ℤ) <
        2 * ((t - monthStart (szbTime2my t).1 (szbTime2my t).2) / 10)
    · rw [if_pos hbehind]
      exact ⟨-1, rfl⟩
    · rw [if_neg hbehind, if_neg (not_lt.mpr (hslot.resolve_left hbehind))]
      split
      · exact ⟨-1, rfl⟩
      · exact ⟨t, rfl⟩

/-- Files that no search runs out of: none of the year 9999, and none longer than its month. -/
def Tame (files : List MonthFile) : Prop :=
  ∀ f ∈ files, f.year < 9999 ∧
    monthStart f.year f.month + 10 * ((f.data.length / 2 : ℕ) : ℤ) ≤
      monthStart (nextMonth f.year f.month).1 (nextMonth f.year f.month).2

/-- The searches that raise nothing: in place, at a slot that lies in its file or behind it; or one
step to a side, below a directory without a dot. -/
def SearchSafe (dpath : List Char) (files : List MonthFile) (start direction : ℤ) : Prop :=
  direction = 0 ∧ (if start = -1 then
      ∀ f ∈ files, (∀ g ∈ files, monthStart f.year f.month ≤ monthStart g.year g.month) →
        2 ≤ f.data.length
    else SlotWhole files start) ∨
  (direction = 1 ∨ direction = -1) ∧ '.' ∉ dpath ∧ Tame files

theorem searchFirstLast_ok {files : List MonthFile} (hd : c.listdir d = some files) :
    ∃ first last, c.searchFirstLast d = .ok (first, last) ∧
      (1 ≤ (szbTime2my first).1 ∧ (szbTime2my first).1 ≤ 9999) ∧
      (files = [] → first = -1) ∧
      (files ≠ [] → ∃ f ∈ files, first = monthStart f.year f.month ∧
        ∀ g ∈ files, monthStart f.year f.month ≤ monthStart g.year g.month) ∧
      (Tame files → 0 ≤ (szbTime2my last).1 ∧ (szbTime2my last).1 < 9999) := by
  by_cases hne : files = []
  · subst hne
    have hepoch : (szbTime2my (-1)).1 = 1969 := by decide +kernel
    refine ⟨-1, -1, ?_, by omega, fun _ => rfl, fun h => absurd rfl h, fun _ => by omega⟩
    rw [SzbCache.searchFirstLast, hd, Option.getD_some, List.map_nil, List.mergeSort_nil]
  · obtain ⟨f, hf, g, hg, hmin, hsearch⟩ := searchFirstLast_eq c hd hne
    have hfm := f.month_mem
    have hgm := g.month_mem
    refine ⟨_, _, hsearch, ?_, fun h => absurd h hne, fun _ => ⟨f, hf, rfl, hmin⟩, fun htame => ?_⟩
    · rw [szbTime2my_monthStart _ hfm.1 hfm.2]
      exact f.year_mem
    · obtain ⟨hyear, hend⟩ := htame g hg
      have hmem := szbTime2my_of_mem (y := g.year) (m := g.month)
        (t := monthStart (nextMonth g.year g.month).1 (nextMonth g.year g.month).2 - 1)
        hgm.1 hgm.2
        (by
          have := monthLength_pos g.year g.month
          rw [monthStart_nextMonth _ hgm.1]
          omega) (by omega)
      have hyears := szbTime2my_year_mono (show monthStart g.year g.month +
        (((g.data.length / 2 : ℕ) : ℤ) - 1) * 10 ≤
          monthStart (nextMonth g.year g.month).1 (nextMonth g.year g.month).2 - 1 by omega)
      have hbefore := szbTime2my_year_mono (show monthStart g.year g.month - 10 ≤
        monthStart g.year g.month + (((g.data.length / 2 : ℕ) : ℤ) - 1) * 10 by omega)
      have hprev : g.year - 1 ≤ (prevMonth g.year g.month).1 := by
        unfold prevMonth
        split <;> dsimp only <;> omega
      have hpos := g.year_mem
      rw [szbTime2my_before hgm] at hbefore
      rw [hmem] at hyears
      dsimp only at hyears
      omega

/-- `search_for` raises nothing between two times of the calendar. -/
theorem searchFor_ok (hdot : '.' ∉ d) {start stop direction : ℤ} {rounds : ℕ}
    (hrounds : 2 ^ 42 ≤ rounds) (hstart : gmtime start = .ok (Gregorian.gmtime start))
    (hstop : gmtime stop = .ok (Gregorian.gmtime stop))
    (h : direction = 1 ∧ 1 ≤ (szbTime2my start).1 ∧ (szbTime2my stop).1 < 9999 ∨
      direction = -1 ∧ (szbTime2my start).1 ≤ 9999 ∧ 1 ≤ (szbTime2my stop).1) :
    ∃ r, c.searchFor rounds start stop direction d = .ok r := by
  have hlo := monthStart_le start
  have hlo' := monthStart_le stop
  rw [SzbCache.searchFor, time2index_of_gmtime hstart, time2index_of_gmtime hstop]
  simp only [bind, Except.bind, rsplitSecond_join hdot]
  rcases h with ⟨rfl, h, h'⟩ | ⟨rfl, h, h'⟩
  · apply searchMonths_forwards c _ _ h h' (by omega)
    by_cases hle : start ≤ stop
    · have := sub_lt_of_year h hle h'.le
      omega
    · omega
  · apply searchMonths_backwards c _ h h' (by omega)
    by_cases hle : stop ≤ start
    · have := sub_lt_of_year h' hle h
      omega
    · omega

/-- A safe search has a result. -/
theorem search_ok {param : List Char} {files : List MonthFile} (hdir : IsParamDir c param files)
    {start stop direction : ℤ} {rounds : ℕ} (hrounds : 2 ^ 42 ≤ rounds)
    (hstart : gmtime start = .ok (Gregorian.gmtime start))
    (hstop : gmtime stop = .ok (Gregorian.gmtime stop))
    (h : SearchSafe (join c.cachedir param) files start direction) :
    ∃ r, c.search rounds start stop direction param = .ok r := by
  obtain ⟨first, last, hsearch, hfirst, hempty, hearliest, hlast⟩ :=
    searchFirstLast_ok c hdir.listdir
  have hformat : ∀ t, gmtime t = .ok (Gregorian.gmtime t) → formatTime t = .ok () := by
    intro t ht
    rw [formatTime, ht]
    rfl
  simp only [SzbCache.search, hformat _ hstart, hformat _ hstop, hdir.checkPath, hdir.isdir, hsearch,
    bind, Except.bind, not_true_eq_false, if_false]
  rcases h with ⟨rfl, hslot⟩ | ⟨hside, hdot, htame⟩
  -- in place: the slot that is looked at is `start`, or the first time for -1
  · have hsafe : SlotWhole files (if start = -1 then first else start) := by
      by_cases hall : start = -1
      · rw [if_pos hall] at hslot ⊢
        intro f hf hyear hmonth
        obtain ⟨e, -, he, hmin⟩ := hearliest (List.ne_nil_of_mem hf)
        have hem := e.month_mem
        rw [he, szbTime2my_monthStart _ hem.1 hem.2] at hyear hmonth
        dsimp only at hyear hmonth
        have hsize := hslot f hf (by rw [hyear, hmonth]; exact hmin)
        rw [he, hyear, hmonth]
        omega
      · rw [if_neg hall] at hslot ⊢
        exact hslot
    have htime : gmtime (if start = -1 then first else start) =
        .ok (Gregorian.gmtime (if start = -1 then first else start)) := by
      split
      · exact gmtime_eq (by omega)
      · exact hstart
    obtain ⟨r, hr⟩ := searchAt_ok c hdir.listdir htime hsafe
    rw [if_pos rfl, hr]
    exact ⟨_, rfl⟩
  -- to a side: both ends are moved between the first and the last time
  · obtain ⟨hlow, hhigh⟩ := hlast htame
    have hgmfirst := gmtime_eq (t := first) (by omega)
    have hgmlast := gmtime_eq (t := last) (by omega)
    -- forwards
    rcases hside with rfl | rfl
    · have hstart' : gmtime (if start = -1 ∨ start < first then first else start) = .ok
          (Gregorian.gmtime (if start = -1 ∨ start < first then first else start)) ∧
            1 ≤ (szbTime2my (if start = -1 ∨ start < first then first else start)).1 := by
        split
        · exact ⟨hgmfirst, hfirst.1⟩
        · have := szbTime2my_year_mono (show first ≤ start by omega)
          exact ⟨hstart, by omega⟩
      have hstop' : gmtime (if stop = -1 ∨ stop > last then last else stop) = .ok
          (Gregorian.gmtime (if stop = -1 ∨ stop > last then last else stop)) ∧
            (szbTime2my (if stop = -1 ∨ stop > last then last else stop)).1 < 9999 := by
        split
        · exact ⟨hgmlast, hhigh⟩
        · have := szbTime2my_year_mono (show stop ≤ last by omega)
          exact ⟨hstop, by omega⟩
      obtain ⟨r, hr⟩ := searchFor_ok c hdot hrounds hstart'.1 hstop'.1
        (Or.inl ⟨rfl, hstart'.2, hstop'.2⟩)
      rw [if_neg (by decide), if_pos (by decide)]
      simp only [hformat _ hstart'.1, hformat _ hstop'.1, hr]
      exact ⟨_, rfl⟩
    -- backwards
    · have hstart' : gmtime (if start = -1 ∨ start > last then last else start) = .ok
          (Gregorian.gmtime (if start = -1 ∨ start > last then last else start)) ∧
            (szbTime2my (if start = -1 ∨ start > last then last else start)).1 ≤ 9999 := by
        split
        · exact ⟨hgmlast, hhigh.le⟩
        · have := szbTime2my_year_mono (show start ≤ last by omega)
          exact ⟨hstart, by omega⟩
      have hstop' : gmtime (if stop = -1 ∨ stop < first then first else stop) = .ok
          (Gregorian.gmtime (if stop = -1 ∨ stop < first then first else stop)) ∧
            1 ≤ (szbTime2my (if stop = -1 ∨ stop < first then first else stop)).1 := by
        split
        · exact ⟨hgmfirst, hfirst.1⟩
        · have := szbTime2my_year_mono (show first ≤ stop by omega)
          exact ⟨hstop, by omega⟩
      obtain ⟨r, hr⟩ := searchFor_ok c hdot hrounds hstart'.1 hstop'.1
        (Or.inr ⟨rfl, hstart'.2, hstop'.2⟩)
      rw [if_neg (by decide), if_neg (by decide)]
      simp only [hformat _ hstart'.1, hformat _ hstop'.1, hr]
      exact ⟨_, rfl⟩

end Probes
end Szarp
