import Szarp.Lib.JumpScan
import Szarp.Szbase.Date

/-!
# Searches for ten-minute data

`szbsearch.cc`: the search for the nearest time with data in the month blocks of a parameter. A
search is not timed out, and the buffer reports no error.
-/

namespace Szarp
namespace Szbase

open JumpScan

/-- A block of a month; `none` is `SZB_NODATA`. -/
structure MonthBlock (V : Type) where
  maxProbes : ℤ
  data : ℕ → Option V
  firstDataProbeIdx : ℤ
  lastDataProbeIdx : ℤ

/-- The indices are the least and the greatest one with data; the first is negative when there is
none. -/
def MonthBlock.Indexed {V : Type} (b : MonthBlock V) : Prop :=
  if b.firstDataProbeIdx < 0 then ∀ i : ℕ, i < b.maxProbes → b.data i = none
  else b.firstDataProbeIdx ≤ b.lastDataProbeIdx ∧ b.lastDataProbeIdx < b.maxProbes ∧
    b.data b.firstDataProbeIdx.toNat ≠ none ∧ b.data b.lastDataProbeIdx.toNat ≠ none ∧
    ∀ i : ℕ, i < b.maxProbes → b.data i ≠ none →
      b.firstDataProbeIdx ≤ i ∧ i ≤ b.lastDataProbeIdx

theorem MonthBlock.Indexed.last_bounds {V : Type} {b : MonthBlock V} (h : b.Indexed)
    (hpos : 0 ≤ b.firstDataProbeIdx) :
    b.firstDataProbeIdx ≤ b.lastDataProbeIdx ∧ b.lastDataProbeIdx < b.maxProbes := by
  rw [Indexed, if_neg (not_lt.mpr hpos)] at h
  exact ⟨h.1, h.2.1⟩

/-- A file of the directory of a parameter: it is named by a month, and its last probe is not behind
`SZBASE_MAX_YEAR`, where no month has probes; `size` is in bytes. -/
structure MonthFile where
  year : ℤ
  month : ℕ
  size : ℕ
  valid : 0 < szbProbecnt year month
  ends : (szbTime2my (probe2time (size / 2 - 1) year month)).1 ≤ maxYear

/-- The order of the file names. -/
def MonthFile.before (f g : MonthFile) : Prop :=
  f.year < g.year ∨ f.year = g.year ∧ f.month < g.month

instance (f g : MonthFile) : Decidable (f.before g) :=
  inferInstanceAs (Decidable (_ ∨ _))

/-- What is stored for a parameter: its files, in the order of the directory, its blocks, and the
averages that `szb_get_probe` returns. -/
structure SearchStore (V : Type) where
  files : List MonthFile
  block : ℤ → ℕ → Option (MonthBlock V)
  probe : ℤ → Option V
  valid : ∀ y m b, block y m = some b → b.maxProbes = szbProbecnt y m ∧ b.Indexed

namespace SearchStore

variable {V : Type} (store : SearchStore V) (cond : Option V → Bool)

/-! ## First and last date -/

def findOneParamFile (op : MonthFile → MonthFile → Bool) (files : List MonthFile) :
    Option MonthFile :=
  files.foldl (fun file l =>
    match file with
    | none => some l
    | some file => if op l file then some l else some file) none

def szbSearchFirst : ℤ :=
  match findOneParamFile (fun f g => f.before g) store.files with
  | none => -1
  | some first =>
    if first.year ≤ 0 ∨ first.month ≤ 0 then -1 else probe2time 0 first.year first.month

/-- `szb_search_last` of a stored parameter; the assertion on the year is left out. -/
def szbSearchLast : ℤ :=
  match findOneParamFile (fun f g => g.before f) store.files with
  | none => -1
  | some last => probe2time (last.size / 2 - 1) last.year last.month

def adjustSearchBoundaries (start stop firstDate lastDate direction : ℤ) : Option (ℤ × ℤ) :=
  if firstDate = -1 ∧ lastDate = -1 then none
  else if direction ≤ 0 ∧ start < firstDate then none
  else if direction ≥ 0 ∧ start > lastDate then none
  else
    let start := if direction > 0 ∧ start < firstDate then firstDate else start
    let start := if direction < 0 ∧ start > lastDate then lastDate else start
    let stop :=
      if stop = -1 then
        if direction < 0 then firstDate else lastDate
      else
        let stop := if direction < 0 ∧ stop < firstDate then firstDate else stop
        if direction > 0 ∧ stop > lastDate then lastDate else stop
    some (start, stop)

/-! ## The loops -/

/-- The variables of the loops. -/
structure Cache (V : Type) where
  year : ℤ
  month : ℤ
  block : Option (MonthBlock V)

def Cache.new : Cache V := ⟨-1, -1, none⟩

/-- Is a block to be read? -/
def Cache.stale (c : Cache V) (year : ℤ) (month : ℕ) : Bool :=
  c.block.isNone || month ≠ c.month || year ≠ c.year

/-- The body of the loops: where `t` is set to when a month has no data, when the probe is after the
last data, and when it is before the first data; then the loop goes on by one step. -/
def loopBody (noData : ℤ → ℕ → ℤ) (afterLast beforeFirst : MonthBlock V → ℤ → ℕ → ℤ)
    (step : ℤ) (c : Cache V) (t : ℤ) : Option (Cache V × ℤ) :=
  let (newYear, newMonth) := szbTime2my t
  let stale := c.stale newYear newMonth
  match if stale then store.block newYear newMonth else c.block with
  | none => some ({ c with block := none }, noData newYear newMonth + step)
  | some block =>
    if stale ∧ block.firstDataProbeIdx < 0 then
      some ({ c with block := some block }, noData newYear newMonth + step)
    else
      let c := ⟨newYear, newMonth, some block⟩
      let probeN := szbProbeind t dataSpan
      if probeN > block.lastDataProbeIdx then some (c, afterLast block newYear newMonth + step)
      else if probeN < block.firstDataProbeIdx then
        some (c, beforeFirst block newYear newMonth + step)
      else if cond (block.data probeN.toNat) then none
      else some (c, t + step)

def leftBody : Cache V → ℤ → Option (Cache V × ℤ) :=
  store.loopBody cond (fun y m => probe2time 0 y m)
    (fun b y m => probe2time (b.lastDataProbeIdx + 1) y m) (fun _ y m => probe2time 0 y m)
    (-dataSpan)

def rightBody : Cache V → ℤ → Option (Cache V × ℤ) :=
  store.loopBody cond (fun y m => probe2time (szbProbecnt y m - 1) y m)
    (fun b y m => probe2time (b.maxProbes - 1) y m)
    (fun b y m => probe2time (b.firstDataProbeIdx - 1) y m) dataSpan

def searchInDataLeft (fuel : ℕ) (start stop : ℤ) : Option ℤ :=
  (scan (store.leftBody cond) (fun t => t ≥ stop) fuel Cache.new start).map (·.getD (-1))

def searchInDataRight (fuel : ℕ) (start stop : ℤ) : Option ℤ :=
  (scan (store.rightBody cond) (fun t => t ≤ stop) fuel Cache.new start).map (·.getD (-1))

def searchInDataRange (fuel : ℕ) (start stop direction : ℤ) : Option ℤ :=
  if direction = 0 then some (if cond (store.probe start) then start else -1)
  else if direction = -1 then store.searchInDataLeft cond fuel start stop
  else if direction = 1 then store.searchInDataRight cond fuel start stop
  else some (-1)

/-- `szb_real_search_data`; `fuel` bounds the rounds of the loops. -/
def szbRealSearchData (fuel : ℕ) (start stop direction : ℤ) : Option ℤ :=
  match adjustSearchBoundaries start stop store.szbSearchFirst store.szbSearchLast direction with
  | none => some (-1)
  | some (start, stop) => store.searchInDataRange cond fuel start stop direction

/-! ## Slots of a month -/

def value (t : ℤ) : Option V :=
  (store.block (szbTime2my t).1 (szbTime2my t).2).bind fun b => b.data (szbProbeind t dataSpan).toNat

def Matches (t : ℤ) : Prop := dataSpan ∣ t ∧ cond (store.value t) = true

theorem probe2time_month (i t : ℤ) : probe2time i (szbTime2my t).1 (szbTime2my t).2 =
    monthStart (szbTime2my t).1 (szbTime2my t).2 + 600 * i :=
  probe2time_eq i _ (szbTime2my_month t).1 (szbTime2my_month t).2

theorem slot_eq {t : ℤ} (h : dataSpan ∣ t) :
    t = monthStart (szbTime2my t).1 (szbTime2my t).2 + 600 * szbProbeind t dataSpan := by
  rw [dataSpan] at h
  rw [← probe2time_month, probe2time_szbProbeind]
  omega

theorem month_between {t t' u : ℤ} (ht : t ≤ t') (hu : t' ≤ u) (h : szbTime2my t = szbTime2my u) :
    szbTime2my t' = szbTime2my t := by
  have hlo := monthStart_le t
  have hhi := lt_monthStart_nextMonth u
  rw [← h] at hhi
  exact szbTime2my_of_mem (szbTime2my_month t).1 (szbTime2my_month t).2 (hlo.trans ht)
    (hu.trans_lt hhi)

theorem month_end {t : ℤ} (ht : 0 ≤ t) (hyear : (szbTime2my t).1 ≤ maxYear) :
    monthStart (nextMonth (szbTime2my t).1 (szbTime2my t).2).1
        (nextMonth (szbTime2my t).1 (szbTime2my t).2).2 =
      monthStart (szbTime2my t).1 (szbTime2my t).2 +
        600 * szbProbecnt (szbTime2my t).1 (szbTime2my t).2 := by
  obtain ⟨hm, hm'⟩ := szbTime2my_month t
  have hge := szbTime2my_year_ge ht
  rw [monthStart_nextMonth _ hm, szbProbecnt_eq (by omega) hyear hm hm']
  ring

theorem not_matches {t u : ℤ} (hcond : cond none = false) (ht : 0 ≤ t)
    (hyear : (szbTime2my t).1 ≤ maxYear) (hmonth : szbTime2my u = szbTime2my t)
    (hblock : ∀ b, store.block (szbTime2my t).1 (szbTime2my t).2 = some b →
      b.firstDataProbeIdx < 0 ∨ szbProbeind u dataSpan < b.firstDataProbeIdx ∨
        b.lastDataProbeIdx < szbProbeind u dataSpan) :
    ¬ store.Matches cond u := by
  intro ⟨hslot, hmatch⟩
  have hlo := monthStart_le u
  have hhi := lt_monthStart_nextMonth u
  have hu := slot_eq hslot
  rw [hmonth] at hlo hhi hu
  rw [month_end ht hyear] at hhi
  rw [value, hmonth] at hmatch
  cases hb : store.block (szbTime2my t).1 (szbTime2my t).2 with
  | none =>
    rw [hb, Option.bind_none, hcond] at hmatch
    exact Bool.false_ne_true hmatch
  | some b =>
    obtain ⟨hmax, hindexed⟩ := store.valid _ _ b hb
    rw [hb, Option.bind_some] at hmatch
    have hdata : b.data (szbProbeind u dataSpan).toNat ≠ none := by
      intro hnone
      rw [hnone, hcond] at hmatch
      exact Bool.false_ne_true hmatch
    rw [MonthBlock.Indexed] at hindexed
    split at hindexed
    · exact hdata (hindexed _ (by omega))
    · have h := hindexed.2.2.2.2 _ (by omega) hdata
      rcases hblock b hb with hneg | hlt | hgt <;> omega

/-! ## One round of a loop -/

/-- The block that is kept is the one of the month of `t` and has data, or its month is left for
good. -/
def Cache.Valid (d : ℤ) (c : Cache V) (t : ℤ) : Prop :=
  (c.year = (szbTime2my t).1 ∧ c.month = (szbTime2my t).2 ∧ ∃ b, c.block = some b ∧
    store.block (szbTime2my t).1 (szbTime2my t).2 = some b ∧ 0 ≤ b.firstDataProbeIdx) ∨
  ∀ u, d * t ≤ d * u → ¬ (c.year = (szbTime2my u).1 ∧ c.month = (szbTime2my u).2)

/-- From `t` to before the slot `t'` all slots are in the month of `t`, and `Q` holds of their
indices. -/
def JumpsOver (Q : ℤ → Prop) (d t t' : ℤ) : Prop :=
  d * t < d * t' ∧ dataSpan ∣ t' ∧ ∀ u, dataSpan ∣ u → d * t ≤ d * u → d * u < d * t' →
    szbTime2my u = szbTime2my t ∧ Q (szbProbeind u dataSpan)

variable {store cond} {d t : ℤ} {c : Cache V}

theorem Cache.Valid.kept (h : c.Valid store d t)
    (hstale : ¬ c.stale (szbTime2my t).1 (szbTime2my t).2 = true) :
    ∃ b, c.block = some b ∧ store.block (szbTime2my t).1 (szbTime2my t).2 = some b ∧
      0 ≤ b.firstDataProbeIdx := by
  rcases h with ⟨-, -, hkept⟩ | hleft
  · exact hkept
  · simp only [stale, Bool.or_eq_true, not_or, decide_eq_true_eq, not_not, ne_eq] at hstale
    exact absurd ⟨hstale.2.symm, hstale.1.2.symm⟩ (hleft t le_rfl)

theorem Cache.Valid.fetched (h : c.Valid store d t) :
    (if c.stale (szbTime2my t).1 (szbTime2my t).2 then
      store.block (szbTime2my t).1 (szbTime2my t).2 else c.block) =
        store.block (szbTime2my t).1 (szbTime2my t).2 := by
  split
  · rfl
  · next hstale =>
    obtain ⟨b, hblock, hstored, -⟩ := h.kept hstale
    rw [hblock, hstored]

theorem Cache.Valid.stale_of_neg (h : c.Valid store d t) {b : MonthBlock V}
    (hb : store.block (szbTime2my t).1 (szbTime2my t).2 = some b) (hneg : b.firstDataProbeIdx < 0) :
    c.stale (szbTime2my t).1 (szbTime2my t).2 = true := by
  by_contra hstale
  obtain ⟨b', -, hstored, hpos⟩ := h.kept hstale
  obtain rfl := Option.some.inj (hb.symm.trans hstored)
  omega

theorem Cache.Valid.skipped (h : c.Valid store d t)
    (hempty : ∀ b, store.block (szbTime2my t).1 (szbTime2my t).2 = some b →
      b.firstDataProbeIdx < 0) (block : Option (MonthBlock V)) {t' : ℤ} (hlt : d * t < d * t') :
    Cache.Valid store d { c with block := block } t' := by
  rcases h with ⟨-, -, b, -, hstored, hpos⟩ | hleft
  · exact absurd (hempty b hstored) (by omega)
  · exact .inr fun u hu => hleft u (by omega)

theorem Cache.Valid.of_block {b : MonthBlock V} (hd : d = 1 ∨ d = -1)
    (hstored : store.block (szbTime2my t).1 (szbTime2my t).2 = some b)
    (hpos : 0 ≤ b.firstDataProbeIdx) {t' : ℤ} (hlt : d * t < d * t') :
    Cache.Valid store d ⟨(szbTime2my t).1, (szbTime2my t).2, some b⟩ t' := by
  by_cases hmonth : szbTime2my t' = szbTime2my t
  · rw [Valid, hmonth]
    exact .inl ⟨rfl, rfl, b, rfl, hstored, hpos⟩
  · right
    intro u hu ⟨hyear, hmonth'⟩
    have heq : szbTime2my t = szbTime2my u := Prod.ext hyear (Int.ofNat_inj.mp hmonth')
    apply hmonth
    rcases hd with rfl | rfl
    · exact month_between (by omega) (by omega) heq
    · rw [heq]
      exact month_between (by omega) (by omega) heq.symm

/-- One round finds a match, or jumps over none. -/
theorem loopBody_next {noData : ℤ → ℕ → ℤ} {afterLast beforeFirst : MonthBlock V → ℤ → ℕ → ℤ}
    {step : ℤ} (hcond : cond none = false) (hd : d = 1 ∨ d = -1) (hstep : step = d * dataSpan)
    (ht : 0 ≤ t) (hyear : (szbTime2my t).1 ≤ maxYear) (hvalid : c.Valid store d t)
    (hslot : dataSpan ∣ t)
    (hnoData : JumpsOver (fun _ => True) d t (noData (szbTime2my t).1 (szbTime2my t).2 + step))
    (hafter : ∀ b, store.block (szbTime2my t).1 (szbTime2my t).2 = some b →
      0 ≤ b.firstDataProbeIdx → b.lastDataProbeIdx < szbProbeind t dataSpan →
      JumpsOver (b.lastDataProbeIdx < ·) d t
        (afterLast b (szbTime2my t).1 (szbTime2my t).2 + step))
    (hbefore : ∀ b, store.block (szbTime2my t).1 (szbTime2my t).2 = some b →
      0 ≤ b.firstDataProbeIdx → szbProbeind t dataSpan < b.firstDataProbeIdx →
      JumpsOver (· < b.firstDataProbeIdx) d t
        (beforeFirst b (szbTime2my t).1 (szbTime2my t).2 + step))
    {c' : Cache V} {t' : ℤ}
    (h : store.loopBody cond noData afterLast beforeFirst step c t = some (c', t')) :
    (c'.Valid store d t' ∧ dataSpan ∣ t') ∧ d * t < d * t' ∧
      ∀ u, d * t ≤ d * u → d * u < d * t' → ¬ store.Matches cond u := by
  -- what a jump leaves out has no match, since its block has nothing there
  have hjump {Q : ℤ → Prop} {t' : ℤ} (hjumps : JumpsOver Q d t t')
      (hblock : ∀ b u, store.block (szbTime2my t).1 (szbTime2my t).2 = some b →
        Q (szbProbeind u dataSpan) → b.firstDataProbeIdx < 0 ∨
          szbProbeind u dataSpan < b.firstDataProbeIdx ∨
          b.lastDataProbeIdx < szbProbeind u dataSpan) :
      ∀ u, d * t ≤ d * u → d * u < d * t' → ¬ store.Matches cond u := by
    intro u hu hut hmatch
    obtain ⟨hmonth, hq⟩ := hjumps.2.2 u hmatch.1 hu hut
    exact not_matches store cond hcond ht hyear hmonth (fun b hb => hblock b u hb hq) hmatch
  rw [loopBody] at h
  dsimp only at h
  rw [hvalid.fetched] at h
  cases hb : store.block (szbTime2my t).1 (szbTime2my t).2 with
  -- the month has no block
  | none =>
    rw [hb] at h
    obtain ⟨rfl, rfl⟩ := Prod.mk.inj (Option.some.inj h)
    refine ⟨⟨hvalid.skipped ?_ none hnoData.1, hnoData.2.1⟩, hnoData.1, hjump hnoData ?_⟩
    · simp [hb]
    · simp [hb]
  | some b =>
    rw [hb] at h hafter hbefore
    dsimp only at h
    -- a block without data: `c` keeps the month so that it is not read again
    by_cases hneg : b.firstDataProbeIdx < 0
    · rw [if_pos ⟨hvalid.stale_of_neg hb hneg, hneg⟩] at h
      obtain ⟨rfl, rfl⟩ := Prod.mk.inj (Option.some.inj h)
      refine ⟨⟨hvalid.skipped ?_ (some b) hnoData.1, hnoData.2.1⟩, hnoData.1, hjump hnoData ?_⟩
      · simp [hb, hneg]
      · intro b' u hb' _
        obtain rfl := Option.some.inj (hb.symm.trans hb')
        exact .inl hneg
    · have hkeep {t' : ℤ} (hlt : d * t < d * t') :=
        Cache.Valid.of_block hd hb (not_lt.mp hneg) hlt
      rw [if_neg (fun hand => hneg hand.2)] at h
      split at h
      -- behind the last data of the block
      · next hlast =>
        obtain ⟨rfl, rfl⟩ := Prod.mk.inj (Option.some.inj h)
        have hjumps := hafter b rfl (not_lt.mp hneg) hlast
        refine ⟨⟨hkeep hjumps.1, hjumps.2.1⟩, hjumps.1, hjump hjumps ?_⟩
        intro b' u hb' hq
        rw [hb] at hb'
        obtain rfl := Option.some.inj hb'
        exact .inr (.inr hq)
      · split at h
        -- before the first data of the block
        · next hfirst =>
          obtain ⟨rfl, rfl⟩ := Prod.mk.inj (Option.some.inj h)
          have hjumps := hbefore b rfl (not_lt.mp hneg) hfirst
          refine ⟨⟨hkeep hjumps.1, hjumps.2.1⟩, hjumps.1, hjump hjumps ?_⟩
          intro b' u hb' hq
          rw [hb] at hb'
          obtain rfl := Option.some.inj hb'
          exact .inr (.inl hq)
        · split at h
          · exact absurd h (Option.some_ne_none _).symm
          -- inside of the data the loop goes on by one slot, whose value does not match
          · next hno =>
            obtain ⟨rfl, rfl⟩ := Prod.mk.inj (Option.some.inj h)
            have hlt : d * t < d * (t + step) := by
              rw [hstep, dataSpan]
              rcases hd with rfl | rfl <;> omega
            refine ⟨⟨hkeep hlt, ?_⟩, hlt, ?_⟩
            · rw [hstep]
              exact dvd_add hslot (Int.dvd_mul_left _ _)
            · intro u hu hut hmatch
              have hut' : u = t := by
                have hslot' := hmatch.1
                rw [dataSpan] at hslot hslot'
                rw [hstep, dataSpan] at hut
                rcases hd with rfl | rfl <;> omega
              have hvalue := hmatch.2
              rw [hut', value, hb] at hvalue
              exact hno hvalue

/-- A round ends the search at a match. -/
theorem loopBody_found {noData : ℤ → ℕ → ℤ} {afterLast beforeFirst : MonthBlock V → ℤ → ℕ → ℤ}
    {step : ℤ} (hvalid : c.Valid store d t) (hslot : dataSpan ∣ t)
    (h : store.loopBody cond noData afterLast beforeFirst step c t = none) :
    store.Matches cond t := by
  rw [loopBody] at h
  dsimp only at h
  rw [hvalid.fetched] at h
  refine ⟨hslot, ?_⟩
  rw [value]
  cases hb : store.block (szbTime2my t).1 (szbTime2my t).2 with
  | none =>
    rw [hb] at h
    exact absurd h (Option.some_ne_none _)
  | some b =>
    rw [hb] at h
    dsimp only at h
    split_ifs at h with hneg hlast hfirst hno
    exact hno

/-! ## Both directions -/

theorem leftBody_next (hcond : cond none = false) (ht : 0 ≤ t)
    (hyear : (szbTime2my t).1 ≤ maxYear) (hvalid : c.Valid store (-1) t) (hslot : dataSpan ∣ t)
    {c' : Cache V} {t' : ℤ} (h : store.leftBody cond c t = some (c', t')) :
    (c'.Valid store (-1) t' ∧ dataSpan ∣ t') ∧ -1 * t < -1 * t' ∧
      ∀ u, -1 * t ≤ -1 * u → -1 * u < -1 * t' → ¬ store.Matches cond u := by
  have hstart := monthStart_mod (szbTime2my t).1 (szbTime2my t).2
  have hlo := monthStart_le t
  have hhi := lt_monthStart_nextMonth t
  have hindex := slot_eq hslot
  obtain ⟨hm, hm'⟩ := szbTime2my_month t
  have hspan : dataSpan = 600 := rfl
  -- every slot from the start of the month to `t` is in the month
  have hmonth : ∀ u, dataSpan ∣ u → u ≤ t → monthStart (szbTime2my t).1 (szbTime2my t).2 ≤ u →
      szbTime2my u = szbTime2my t ∧
        u = monthStart (szbTime2my t).1 (szbTime2my t).2 + 600 * szbProbeind u dataSpan := by
    intro u hu hle hge
    have heq : szbTime2my u = szbTime2my t :=
      szbTime2my_of_mem hm hm' hge (lt_of_le_of_lt hle hhi)
    have h := slot_eq hu
    rw [heq] at h
    exact ⟨heq, h⟩
  apply loopBody_next hcond (.inr rfl) (by rw [hspan]; rfl) ht hyear hvalid hslot ?_ ?_ ?_ h
  · refine ⟨?_, ?_, fun u hu hle hlt => ⟨(hmonth u hu ?_ ?_).1, trivial⟩⟩
    all_goals rw [probe2time_month, hspan] at *
    all_goals omega
  · intro b hb hpos hlast
    have hlast' := (store.valid _ _ b hb).2.last_bounds hpos
    refine ⟨?_, ?_, fun u hu hle hlt => ?_⟩
    · rw [probe2time_month, hspan]
      omega
    · rw [probe2time_month, hspan]
      omega
    · rw [probe2time_month, hspan] at hlt
      rw [hspan] at hu
      obtain ⟨heq, hu'⟩ := hmonth u hu (by omega) (by omega)
      exact ⟨heq, by omega⟩
  · intro b hb hpos hfirst
    refine ⟨?_, ?_, fun u hu hle hlt => ?_⟩
    · rw [probe2time_month, hspan]
      omega
    · rw [probe2time_month, hspan]
      omega
    · rw [probe2time_month, hspan] at hlt
      rw [hspan] at hu
      obtain ⟨heq, hu'⟩ := hmonth u hu (by omega) (by omega)
      exact ⟨heq, by omega⟩

theorem rightBody_next (hcond : cond none = false) (ht : 0 ≤ t)
    (hyear : (szbTime2my t).1 ≤ maxYear) (hvalid : c.Valid store 1 t) (hslot : dataSpan ∣ t)
    {c' : Cache V} {t' : ℤ} (h : store.rightBody cond c t = some (c', t')) :
    (c'.Valid store 1 t' ∧ dataSpan ∣ t') ∧ 1 * t < 1 * t' ∧
      ∀ u, 1 * t ≤ 1 * u → 1 * u < 1 * t' → ¬ store.Matches cond u := by
  have hstart := monthStart_mod (szbTime2my t).1 (szbTime2my t).2
  have hlo := monthStart_le t
  have hhi := lt_monthStart_nextMonth t
  have hend := month_end ht hyear
  have hindex := slot_eq hslot
  obtain ⟨hm, hm'⟩ := szbTime2my_month t
  have hspan : dataSpan = 600 := rfl
  rw [hend] at hhi
  -- every slot from `t` to the end of the month is in the month
  have hmonth : ∀ u, dataSpan ∣ u → t ≤ u → u < monthStart (szbTime2my t).1 (szbTime2my t).2 +
        600 * szbProbecnt (szbTime2my t).1 (szbTime2my t).2 →
      szbTime2my u = szbTime2my t ∧
        u = monthStart (szbTime2my t).1 (szbTime2my t).2 + 600 * szbProbeind u dataSpan := by
    intro u hu hle hlt
    have heq : szbTime2my u = szbTime2my t :=
      szbTime2my_of_mem hm hm' (hlo.trans hle) (hlt.trans_eq hend.symm)
    have h := slot_eq hu
    rw [heq] at h
    exact ⟨heq, h⟩
  apply loopBody_next hcond (.inl rfl) (by rw [hspan]; rfl) ht hyear hvalid hslot ?_ ?_ ?_ h
  · refine ⟨?_, ?_, fun u hu hle hlt => ⟨(hmonth u hu ?_ ?_).1, trivial⟩⟩
    all_goals rw [probe2time_month, hspan] at *
    all_goals omega
  · intro b hb hpos hlast
    have hmax := (store.valid _ _ b hb).1
    refine ⟨?_, ?_, fun u hu hle hlt => ?_⟩
    · rw [probe2time_month, hspan]
      omega
    · rw [probe2time_month, hspan]
      omega
    · rw [probe2time_month, hspan] at hlt
      rw [hspan] at hu
      obtain ⟨heq, hu'⟩ := hmonth u hu (by omega) (by omega)
      exact ⟨heq, by omega⟩
  · intro b hb hpos hfirst
    obtain ⟨hmax, hindexed⟩ := store.valid _ _ b hb
    have hlast := hindexed.last_bounds hpos
    refine ⟨?_, ?_, fun u hu hle hlt => ?_⟩
    · rw [probe2time_month, hspan]
      omega
    · rw [probe2time_month, hspan]
      omega
    · rw [probe2time_month, hspan] at hlt
      rw [hspan] at hu
      obtain ⟨heq, hu'⟩ := hmonth u hu (by omega) (by omega)
      exact ⟨heq, by omega⟩

theorem Cache.new_valid (d t : ℤ) : Cache.new.Valid store d t := by
  right
  intro u _ ⟨_, hmonth⟩
  change (-1 : ℤ) = (szbTime2my u).2 at hmonth
  omega

/-- The left loop ends at the last match from `start` down to `stop`. -/
theorem searchInDataLeft_isFirst (hcond : cond none = false) {start stop : ℤ}
    (hslot : dataSpan ∣ start) (hstop : 0 ≤ stop) (hyear : (szbTime2my start).1 ≤ maxYear) :
    ∃ n, ∀ fuel, n ≤ fuel → ∃ r, store.searchInDataLeft cond fuel start stop = some (r.getD (-1)) ∧
      IsFirst (store.Matches cond) (-1) start stop r := by
  refine ⟨(start - stop + 1).toNat + 1, fun fuel hfuel => ?_⟩
  have h : ∃ r, scan (store.leftBody cond) (fun t => t ≥ stop) fuel Cache.new start = some r ∧
      IsFirst (store.Matches cond) (-1) start stop r := scan_isFirst
    (J := fun c t => (c.Valid store (-1) t ∧ dataSpan ∣ t) ∧ t ≤ start)
    (fun t => by omega)
    (fun c t hinv _ hbody => loopBody_found hinv.1.1 hinv.1.2 hbody)
    (fun c t c' t' hinv ht hbody => by
      have hyear' := (szbTime2my_year_mono hinv.2).trans hyear
      have h := leftBody_next hcond (hstop.trans ht) hyear' hinv.1.1 hinv.1.2 hbody
      exact ⟨⟨h.1, by have := hinv.2; omega⟩, h.2⟩)
    fuel ⟨⟨Cache.new_valid (-1) start, hslot⟩, le_rfl⟩ (by omega)
  obtain ⟨r, hr, hfirst⟩ := h
  exact ⟨r, by rw [searchInDataLeft, hr, Option.map_some], hfirst⟩

/-- The right loop ends at the first match from `start` up to `stop`. -/
theorem searchInDataRight_isFirst (hcond : cond none = false) {start stop : ℤ}
    (hslot : dataSpan ∣ start) (hstart : 0 ≤ start) (hyear : (szbTime2my stop).1 ≤ maxYear) :
    ∃ n, ∀ fuel, n ≤ fuel → ∃ r, store.searchInDataRight cond fuel start stop = some (r.getD (-1)) ∧
      IsFirst (store.Matches cond) 1 start stop r := by
  refine ⟨(stop - start + 1).toNat + 1, fun fuel hfuel => ?_⟩
  have h : ∃ r, scan (store.rightBody cond) (fun t => t ≤ stop) fuel Cache.new start = some r ∧
      IsFirst (store.Matches cond) 1 start stop r := scan_isFirst
    (J := fun c t => (c.Valid store 1 t ∧ dataSpan ∣ t) ∧ start ≤ t)
    (fun t => by omega)
    (fun c t hinv _ hbody => loopBody_found hinv.1.1 hinv.1.2 hbody)
    (fun c t c' t' hinv ht hbody => by
      have hyear' := (szbTime2my_year_mono ht).trans hyear
      have h := rightBody_next hcond (hstart.trans hinv.2) hyear' hinv.1.1 hinv.1.2 hbody
      exact ⟨⟨h.1, by have := hinv.2; omega⟩, h.2⟩)
    fuel ⟨⟨Cache.new_valid 1 start, hslot⟩, le_rfl⟩ (by omega)
  obtain ⟨r, hr, hfirst⟩ := h
  exact ⟨r, by rw [searchInDataRight, hr, Option.map_some], hfirst⟩

/-! ## The boundaries -/

theorem MonthFile.probe_slot (f : MonthFile) (i : ℤ) : dataSpan ∣ probe2time i f.year f.month := by
  obtain ⟨-, -, hm, hm'⟩ := valid_of_szbProbecnt f.valid
  have hstart := monthStart_mod f.year f.month
  rw [probe2time_eq i _ hm hm', dataSpan]
  omega

theorem szbSearchFirst_slot (h : 0 ≤ store.szbSearchFirst) : dataSpan ∣ store.szbSearchFirst := by
  rw [szbSearchFirst] at *
  split at h
  · omega
  · split_ifs at h ⊢
    · omega
    · exact MonthFile.probe_slot _ 0

theorem szbSearchLast_slot (h : 0 ≤ store.szbSearchLast) : dataSpan ∣ store.szbSearchLast := by
  rw [szbSearchLast] at *
  split at h
  · omega
  · exact MonthFile.probe_slot _ _

theorem szbSearchLast_year (h : 0 ≤ store.szbSearchLast) :
    (szbTime2my store.szbSearchLast).1 ≤ maxYear := by
  rw [szbSearchLast] at *
  split at h
  · omega
  · next last _ => exact last.ends

/-- A time between the dates, from `start` in the direction up to `stop`; `-1` is no limit. -/
def Between (firstDate lastDate start stop direction t : ℤ) : Prop :=
  firstDate ≤ t ∧ t ≤ lastDate ∧ direction * start ≤ direction * t ∧
    (stop = -1 ∨ direction * t ≤ direction * stop)

theorem adjust_none {start stop firstDate lastDate : ℤ} (hd : d = 1 ∨ d = -1)
    (hfirst : 0 ≤ firstDate)
    (h : adjustSearchBoundaries start stop firstDate lastDate d = none) (t : ℤ) :
    ¬ Between firstDate lastDate start stop d t := by
  intro ⟨hge, hle, hstart, _⟩
  rw [adjustSearchBoundaries] at h
  split_ifs at h with hdates hbefore hbehind
  · omega
  · rcases hd with rfl | rfl <;> omega
  · rcases hd with rfl | rfl <;> omega

/-- The boundaries are set to what lies between the dates. -/
theorem adjust_some {start stop firstDate lastDate s e : ℤ} (hd : d = 1 ∨ d = -1)
    (h : adjustSearchBoundaries start stop firstDate lastDate d = some (s, e)) :
    (s = start ∨ s = firstDate ∨ s = lastDate) ∧
      (∀ t, d * s ≤ d * t ∧ d * t ≤ d * e ↔ Between firstDate lastDate start stop d t) ∧
      (d = 1 → firstDate ≤ s ∧ e ≤ lastDate) ∧ (d = -1 → s ≤ lastDate ∧ firstDate ≤ e) := by
  rw [adjustSearchBoundaries] at h
  dsimp only at h
  rcases hd with rfl | rfl
  all_goals
    simp only [gt_iff_lt, ge_iff_le, Int.reduceLE, Int.reduceLT, Int.reduceNeg, true_and,
      false_and, if_false, if_true, one_mul, neg_one_mul, neg_le_neg_iff, forall_const,
      Between] at h ⊢
    split_ifs at h
    all_goals
      obtain ⟨hs, he⟩ := Prod.mk.inj (Option.some.inj h)
      subst hs he
      refine ⟨by simp, fun t => ?_, by omega⟩
      omega

/-! ## The search -/

/-- The search for stored data ends, at the nearest time with a value that meets the condition, in
the direction, between `start`, `stop` and the dates of the files; it returns -1 where there is no
such time. -/
theorem szbRealSearchData_nearest (store : SearchStore V) {cond : Option V → Bool}
    (hcond : cond none = false) {start stop direction : ℤ}
    (hdirection : direction = 1 ∨ direction = -1) (hslot : dataSpan ∣ start)
    (hfirst : 0 ≤ store.szbSearchFirst) (hlast : 0 ≤ store.szbSearchLast) :
    ∃ n, ∀ fuel, n ≤ fuel →
      ∃ r, store.szbRealSearchData cond fuel start stop direction = some r ∧
        (r = -1 ∧ (∀ t, Between store.szbSearchFirst store.szbSearchLast start stop direction t →
            ¬ store.Matches cond t) ∨
          Between store.szbSearchFirst store.szbSearchLast start stop direction r ∧
            store.Matches cond r ∧
            ∀ t, Between store.szbSearchFirst store.szbSearchLast start stop direction t →
              store.Matches cond t → |r - start| ≤ |t - start|) := by
  cases hadjust : adjustSearchBoundaries start stop store.szbSearchFirst store.szbSearchLast
      direction with
  | none =>
    refine ⟨0, fun fuel _ => ⟨-1, ?_, .inl ⟨rfl, fun t ht => ?_⟩⟩⟩
    · rw [szbRealSearchData, hadjust]
    · exact absurd ht (adjust_none hdirection hfirst hadjust t)
  | some bounds =>
    obtain ⟨s, e⟩ := bounds
    obtain ⟨hs, hbetween, hright, hleft⟩ := adjust_some hdirection hadjust
    have hs' : dataSpan ∣ s := by
      rcases hs with rfl | rfl | rfl
      · exact hslot
      · exact szbSearchFirst_slot hfirst
      · exact szbSearchLast_slot hlast
    have hyear := szbSearchLast_year hlast
    -- the loop of the direction
    have hloop : ∃ n, ∀ fuel, n ≤ fuel →
        ∃ r, store.searchInDataRange cond fuel s e direction = some (r.getD (-1)) ∧
          IsFirst (store.Matches cond) direction s e r := by
      rcases hdirection with rfl | rfl
      · have hbounds := hright rfl
        exact searchInDataRight_isFirst hcond hs' (hfirst.trans hbounds.1)
          ((szbTime2my_year_mono hbounds.2).trans hyear)
      · have hbounds := hleft rfl
        exact searchInDataLeft_isFirst hcond hs' (hfirst.trans hbounds.2)
          ((szbTime2my_year_mono hbounds.1).trans hyear)
    obtain ⟨n, hn⟩ := hloop
    refine ⟨n, fun fuel hfuel => ?_⟩
    obtain ⟨r, hr, hisFirst⟩ := hn fuel hfuel
    refine ⟨r.getD (-1), ?_, ?_⟩
    · rw [szbRealSearchData, hadjust]
      exact hr
    · cases r with
      | none =>
        left
        refine ⟨rfl, fun t ht => ?_⟩
        have h := (hbetween t).mpr ht
        exact hisFirst t h.1 h.2
      | some r =>
        obtain ⟨hge, hle, hmatches, hnone⟩ := hisFirst
        have hr' := (hbetween r).mp ⟨hge, hle⟩
        refine .inr ⟨hr', hmatches, fun t ht htmatches => ?_⟩
        have h := (hbetween t).mpr ht
        have hfar : direction * r ≤ direction * t := by
          by_contra hlt
          exact hnone t h.1 (not_le.mp hlt) htmatches
        have hrstart := hr'.2.2.1
        rw [Option.getD_some]
        rcases hdirection with rfl | rfl
        · rw [abs_of_nonneg (by omega), abs_of_nonneg (by omega)]
          omega
        · rw [abs_of_nonpos (by omega), abs_of_nonpos (by omega)]
          omega

/-- The block of a month with its own number in the slot of that index, and no other data. -/
def oneProbe (y : ℤ) (m : ℕ) : MonthBlock ℤ :=
  ⟨szbProbecnt y m, fun i => if i = m then some m else none, m, m⟩

/-- Such blocks of February and May 2000; the months between them have none. -/
def twoMonths : SearchStore ℤ where
  files := [⟨2000, 2, 6, by decide, by decide +kernel⟩, ⟨2000, 5, 12, by decide, by decide +kernel⟩]
  block y m := if y = 2000 ∧ (m = 2 ∨ m = 5) then some (oneProbe y m) else none
  probe _ := none
  valid := by
    intro y m b h
    split_ifs at h with hmonth
    obtain rfl := Option.some.inj h
    have hindex : (m : ℤ) < szbProbecnt y m := by
      obtain ⟨rfl, rfl | rfl⟩ := hmonth <;> decide
    refine ⟨rfl, ?_⟩
    rw [MonthBlock.Indexed, if_neg (by simp [oneProbe])]
    refine ⟨le_rfl, hindex, by simp [oneProbe], by simp [oneProbe], fun i _ hdata => ?_⟩
    have hi : i = m := by
      by_contra hne
      exact hdata (if_neg hne)
    rw [hi]
    exact ⟨le_rfl, le_rfl⟩

/-- The search for a 2 to the left from June passes the probe of May and two months without a
block. -/
theorem twoMonths_nearest :
    ∃ n, ∀ fuel, n ≤ fuel →
      ∃ r, twoMonths.szbRealSearchData (· == some 2) fuel 959817600 (-1) (-1) = some r ∧
        (r = -1 ∧ (∀ t, Between twoMonths.szbSearchFirst twoMonths.szbSearchLast 959817600 (-1) (-1)
            t → ¬ twoMonths.Matches (· == some 2) t) ∨
          Between twoMonths.szbSearchFirst twoMonths.szbSearchLast 959817600 (-1) (-1) r ∧
            twoMonths.Matches (· == some 2) r ∧
            ∀ t, Between twoMonths.szbSearchFirst twoMonths.szbSearchLast 959817600 (-1) (-1) t →
              twoMonths.Matches (· == some 2) t → |r - 959817600| ≤ |t - 959817600|) :=
  szbRealSearchData_nearest twoMonths rfl (.inr rfl) (by decide) (by decide +kernel)
    (by decide +kernel)

end SearchStore
end Szbase
end Szarp
