import Mathlib.Algebra.Order.Ring.Rat
import Szarp.Szbase.ProbeTime

/-!
# Averages of what is put into the data base

`szbwriter.cc` of `meaner3`: lines with a time and a value are averaged over the probes of a
parameter, and what is between two probes may be filled. Every line goes to each writer in turn.
-/

namespace Szarp
namespace Meaner
open Szbase Gregorian

/-- What is added to the cache: its key and its value. -/
structure Saved where
  name : List Char
  isDouble : Bool
  year : ℤ
  month : ℕ
  value : ℚ
  t : ℤ

/-- `DataWriter`; `saved` is what its cache was given. -/
structure DataWriter where
  probeLength : ℤ
  fillHowMany : ℤ
  curName : List Char
  isDouble : Bool
  curT : ℤ
  curCnt : ℤ
  curSum : ℚ
  tm : Tm
  t : ℤ
  saved : List Saved

/-- A value that is kept as `int`. -/
def int32 (v : ℤ) : ℤ := v.bmod (2 ^ 32)

namespace DataWriter

def new (probeLength fillHowMany : ℤ) (tm : Tm) (t : ℤ) : DataWriter where
  probeLength := probeLength
  fillHowMany := fillHowMany
  curName := []
  isDouble := false
  curT := 0
  curCnt := 0
  curSum := 0
  tm := tm
  t := t
  saved := []

section Operations

variable (throws : List Saved → Saved → Bool)

/-- `save_data`, and whether it failed. -/
def saveData (w : DataWriter) : DataWriter × Bool :=
  if w.curCnt = 0 then (w, false)
  else
    let my := szbTime2my w.curT
    let save : Saved := ⟨w.curName, w.isDouble, my.1, my.2, w.curSum / w.curCnt, w.curT⟩
    if throws w.saved save then (w, true)
    else ({ w with curCnt := 0, curSum := 0, saved := w.saved ++ [save] }, false)

/-- The loop of `fill_gaps` from `t` on; it has a bound. -/
def fillLoop (stop : ℤ) (sum : ℚ) (count : ℤ) : ℕ → ℤ → DataWriter → DataWriter × Bool
  | 0, _, w => (w, false)
  | n + 1, t, w =>
    if t < stop then
      match saveData throws { w with curT := t, curCnt := count, curSum := sum } with
      | (w, true) => (w, true)
      | (w, false) => fillLoop stop sum count n (t + w.probeLength) w
    else (w, false)

def fillGaps (start stop : ℤ) (sum : ℚ) (count : ℤ) (w : DataWriter) : DataWriter × Bool :=
  if (stop - start).tdiv w.probeLength > w.fillHowMany then (w, false)
  else
    match fillLoop throws stop sum count (stop - start).toNat start w with
    | (w', true) => (w', true)
    | (w', false) => ({ w' with curT := w.curT, curCnt := w.curCnt, curSum := w.curSum }, false)

def probeStart (t : ℤ) (w : DataWriter) : ℤ := t.tdiv w.probeLength * w.probeLength

/-- `add_data` behind the change of the parameter. -/
def addValue (t : ℤ) (data : ℚ) (w : DataWriter) : DataWriter × Bool :=
  if t ≥ w.curT ∧ t - w.curT < w.probeLength then (w, false)
  else
    let time := int32 w.curT
    match saveData throws w with
    | (w', true) => (w', true)
    | (w', false) =>
      let w' := { w' with curT := w'.probeStart t }
      let gap := int32 (w'.curT - time)
      let filled := if gap > w.probeLength then
          fillGaps throws (time + w.probeLength) (int32 (time + gap)) w.curSum w.curCnt w'
        else (w', false)
      match filled with
      | (w', true) => (w', true)
      | (w', false) => ({ w' with curSum := w'.curSum + data, curCnt := w'.curCnt + 1 }, false)

/-- `add_data` behind the computation of the time. -/
def addAt (name : List Char) (isDbl : Bool) (t : ℤ) (data : ℚ) (w : DataWriter) :
    DataWriter × Bool :=
  if name ≠ w.curName then
    match saveData throws w with
    | (w', true) => (w', true)
    | (w', false) => addValue throws t data { w' with
        isDouble := isDbl
        curSum := 0
        curCnt := 0
        curT := w'.probeStart t
        curName := name }
  else addValue throws t data w

def closeData (w : DataWriter) : DataWriter × Bool := saveData throws w

/-- A line for one writer, with its time. -/
structure Input where
  name : List Char
  isDouble : Bool
  t : ℤ
  data : ℚ

def run (probeLength fillHowMany : ℤ) (tm : Tm) (t : ℤ) (inputs : List Input) : DataWriter :=
  (closeData throws (inputs.foldl (fun w i => (addAt throws i.name i.isDouble i.t i.data w).1)
    (new probeLength fillHowMany tm t))).1

end Operations

/-! ## Averages -/

section Averages

variable (probeLength fillHowMany : ℤ) (inputs : List Input) (saved : List Saved)

def slot (t : ℤ) : ℤ := t / probeLength * probeLength

def valuesIn (name : List Char) (s : ℤ) : List ℚ :=
  (inputs.filter fun i => i.name = name ∧ slot probeLength i.t = s).map Input.data

def savesIn (name : List Char) (s : ℤ) : List ℚ :=
  (saved.filter fun x => x.name = name ∧ x.t = s).map Saved.value

def mean (values : List ℚ) : ℚ := values.sum / values.length

/-- Two slots with inputs, and none between them. -/
structure Neighbours (name : List Char) (p q : ℤ) : Prop where
  lt : p < q
  left : valuesIn probeLength inputs name p ≠ []
  right : valuesIn probeLength inputs name q ≠ []
  between : ∀ s, p < s → s < q → valuesIn probeLength inputs name s = []

/-- Every slot with inputs is saved once, with their mean; the slots between two of them are saved
with the mean of the first one when they are not too many; nothing else is saved. -/
structure Averaged : Prop where
  means : ∀ name s, valuesIn probeLength inputs name s ≠ [] →
    savesIn saved name s = [mean (valuesIn probeLength inputs name s)]
  gaps : ∀ name p q s, Neighbours probeLength inputs name p q → p < s → s < q → probeLength ∣ s →
    savesIn saved name s = if (q - p) / probeLength - 1 ≤ fillHowMany then
      [mean (valuesIn probeLength inputs name p)] else []
  others : ∀ name s, savesIn saved name s ≠ [] → valuesIn probeLength inputs name s ≠ [] ∨
    ∃ p q, Neighbours probeLength inputs name p q ∧ p < s ∧ s < q

end Averages

/-! ## The first slot -/

/-- After inputs up to time `last`, nothing is saved and nothing is counted in the slot `s` of the
first one. -/
structure Late (probeLength s last : ℤ) (w : DataWriter) : Prop where
  length : w.probeLength = probeLength
  start : s ≤ w.curT
  current : w.curT ≤ last
  counted : w.curCnt ≠ 0 → s < w.curT
  saved : ∀ x ∈ w.saved, s < x.t

section Invariant

variable {throws : List Saved → Saved → Bool} {probeLength s last : ℤ} {w : DataWriter}

theorem Late.mono (h : Late probeLength s last w) {last' : ℤ} (hle : last ≤ last') :
    Late probeLength s last' w :=
  ⟨h.length, h.start, h.current.trans hle, h.counted, h.saved⟩

theorem Late.saveData (h : Late probeLength s last w) :
    Late probeLength s last (saveData throws w).1 := by
  unfold DataWriter.saveData
  split_ifs with hcnt
  · exact h
  · dsimp only
    split_ifs
    · exact h
    · refine ⟨h.length, h.start, h.current, fun hne => absurd rfl hne, fun x hx => ?_⟩
      rcases List.mem_append.mp hx with hx | hx
      · exact h.saved x hx
      · rw [List.mem_singleton.mp hx]
        exact h.counted hcnt

/-- What is saved is no longer counted. -/
theorem saveData_curCnt (w : DataWriter) (h : (saveData throws w).2 = false) :
    (saveData throws w).1.curCnt = 0 := by
  unfold saveData at h ⊢
  split_ifs at h ⊢ with hcnt
  · exact hcnt
  · dsimp only at h ⊢
    split_ifs at h ⊢
    rfl

theorem Late.fillLoop (hlen : 0 < probeLength) {stop : ℤ} (hstop : stop ≤ last + 1) (sum : ℚ)
    (count : ℤ) (n : ℕ) {t : ℤ} (ht : s < t) (h : Late probeLength s last w) :
    Late probeLength s last (fillLoop throws stop sum count n t w).1 := by
  induction n generalizing t w with
  | zero => exact h
  | succ n ih =>
    rw [DataWriter.fillLoop]
    split_ifs with hlt
    · have hsave : Late probeLength s last
          (DataWriter.saveData throws { w with curT := t, curCnt := count, curSum := sum }).1 :=
        Late.saveData ⟨h.length, by dsimp only; omega, by dsimp only; omega, fun _ => ht, h.saved⟩
      rcases hcases : DataWriter.saveData throws
        { w with curT := t, curCnt := count, curSum := sum } with ⟨w', failed⟩
      rw [hcases] at hsave
      cases failed with
      | true => exact hsave
      | false => exact ih (by rw [hsave.length]; omega) hsave
    · exact h

theorem Late.fillGaps (hlen : 0 < probeLength) {start stop : ℤ} (hstop : stop ≤ last + 1)
    (hstart : s < start) (sum : ℚ) (count : ℤ) (h : Late probeLength s last w) :
    Late probeLength s last (fillGaps throws start stop sum count w).1 := by
  unfold DataWriter.fillGaps
  split_ifs
  · exact h
  · have hloop : Late probeLength s last
        (DataWriter.fillLoop throws stop sum count (stop - start).toNat start w).1 :=
      h.fillLoop hlen hstop sum count (stop - start).toNat hstart
    rcases hcases : DataWriter.fillLoop throws stop sum count (stop - start).toNat start w with
      ⟨w', failed⟩
    rw [hcases] at hloop
    cases failed with
    | true => exact hloop
    | false => exact ⟨hloop.length, h.start, h.current, h.counted, hloop.saved⟩

theorem fillGaps_curT {start stop : ℤ} {sum : ℚ} {count : ℤ}
    (h : (fillGaps throws start stop sum count w).2 = false) :
    (fillGaps throws start stop sum count w).1.curT = w.curT := by
  unfold DataWriter.fillGaps at h ⊢
  split_ifs at h ⊢
  · rfl
  · rcases hcases : DataWriter.fillLoop throws stop sum count (stop - start).toNat start w with
      ⟨w', failed⟩
    rw [hcases] at h
    cases failed with
    | true => exact Bool.noConfusion h
    | false => rfl

theorem int32_eq {v : ℤ} (h : 0 ≤ v) (h' : v < 2 ^ 31) : int32 v = v := by
  rw [int32, Int.bmod_def]
  omega

/-- The slot of a time from 1970 on. -/
theorem probeStart_eq (h : w.probeLength = probeLength) {t : ℤ}
    (ht : 0 ≤ t) : w.probeStart t = slot probeLength t := by
  rw [probeStart, slot, h, Int.tdiv_eq_ediv_of_nonneg ht]

theorem slot_bounds (hlen : 0 < probeLength) (t : ℤ) :
    slot probeLength t ≤ t ∧ t < slot probeLength t + probeLength := by
  have hdiv := Int.mul_ediv_add_emod t probeLength
  have hmod := Int.emod_nonneg t (by omega : probeLength ≠ 0)
  have hlt := Int.emod_lt_of_pos t hlen
  rw [slot, mul_comm]
  omega

theorem Late.addValue (hlen : 0 < probeLength) (hs : 0 ≤ s) (h : Late probeLength s last w) {t : ℤ}
    (ht : last ≤ t) (hmax : t < 2 ^ 31) (data : ℚ) :
    Late probeLength s t (addValue throws t data w).1 := by
  have hstart := h.start
  have hcurrent := h.current
  have hlength := h.length
  unfold DataWriter.addValue
  by_cases hslot : t ≥ w.curT ∧ t - w.curT < w.probeLength
  · rw [if_pos hslot]
    exact h.mono ht
  · rw [if_neg hslot, int32_eq (by omega) (by omega)]
    have hsave : Late probeLength s t (DataWriter.saveData throws w).1 := h.saveData.mono ht
    have hcnt := @saveData_curCnt throws w
    rcases hcases : DataWriter.saveData throws w with ⟨w', failed⟩
    rw [hcases] at hsave hcnt
    -- when something could not be saved nothing more is done
    cases failed with
    | true => exact hsave
    | false =>
      have hbounds := slot_bounds hlen t
      have hprobe := probeStart_eq hsave.length (show 0 ≤ t by omega)
      dsimp only at hcnt ⊢
      rw [hprobe, int32_eq (by omega) (by omega)]
      have hlate : Late probeLength s t { w' with curT := slot probeLength t } :=
        ⟨hsave.length, by dsimp only; omega, hbounds.1, fun hne => absurd (hcnt rfl) hne,
          hsave.saved⟩
      -- the gap behind the saved slot is filled up to the slot of the input
      have hfilled : ∀ r : DataWriter × Bool,
          r = (if slot probeLength t - w.curT > w.probeLength then
            DataWriter.fillGaps throws (w.curT + w.probeLength)
              (int32 (w.curT + (slot probeLength t - w.curT))) w.curSum w.curCnt
              { w' with curT := slot probeLength t }
            else ({ w' with curT := slot probeLength t }, false)) →
          Late probeLength s t r.1 ∧ (r.2 = false → r.1.curT = slot probeLength t) := by
        rintro r rfl
        have hstop : w.curT + (slot probeLength t - w.curT) = slot probeLength t := by omega
        rw [hstop, int32_eq (by omega) (by omega)]
        split_ifs
        · have hfill : Late probeLength s t (DataWriter.fillGaps throws (w.curT + w.probeLength)
              (slot probeLength t) w.curSum w.curCnt { w' with curT := slot probeLength t }).1 :=
            hlate.fillGaps hlen (by omega) (by omega) _ _
          exact ⟨hfill, fun hdone => fillGaps_curT hdone⟩
        · exact ⟨hlate, fun _ => rfl⟩
      generalize (if slot probeLength t - w.curT > w.probeLength then
        DataWriter.fillGaps throws (w.curT + w.probeLength)
          (int32 (w.curT + (slot probeLength t - w.curT))) w.curSum w.curCnt
          { w' with curT := slot probeLength t }
        else ({ w' with curT := slot probeLength t }, false)) = r at hfilled ⊢
      obtain ⟨hr, hrT⟩ := hfilled r rfl
      obtain ⟨w'', failed⟩ := r
      cases failed with
      | true => exact hr
      | false =>
        have hT : w''.curT = slot probeLength t := hrT rfl
        refine ⟨hr.length, hr.start, hr.current, fun _ => ?_, hr.saved⟩
        dsimp only
        omega

theorem Late.addAt (hlen : 0 < probeLength) (hs : 0 ≤ s) (h : Late probeLength s last w)
    (name : List Char) (isDbl : Bool) {t : ℤ} (ht : last ≤ t) (hst : s ≤ slot probeLength t)
    (hmax : t < 2 ^ 31) (data : ℚ) :
    Late probeLength s t (addAt throws name isDbl t data w).1 := by
  have hstart := h.start
  have hcurrent := h.current
  unfold DataWriter.addAt
  split_ifs
  · have hsave : Late probeLength s t (DataWriter.saveData throws w).1 := h.saveData.mono ht
    rcases hcases : DataWriter.saveData throws w with ⟨w', failed⟩
    rw [hcases] at hsave
    cases failed with
    | true => exact hsave
    | false =>
      have hprobe := probeStart_eq hsave.length (show 0 ≤ t by omega)
      have hbounds := slot_bounds hlen t
      have hlate : Late probeLength s t { w' with
          isDouble := isDbl, curSum := 0, curCnt := 0, curT := w'.probeStart t, curName := name } :=
        ⟨hsave.length, by rw [hprobe]; exact hst, by rw [hprobe]; exact hbounds.1,
          fun hne => absurd rfl hne, hsave.saved⟩
      exact hlate.addValue hlen hs (le_refl t) hmax data
  · exact h.addValue hlen hs ht hmax data

theorem late_first (hlen : 0 < probeLength) (fillHowMany : ℤ) (tm : Tm) (t : ℤ) {i : Input}
    (hname : i.name ≠ []) (hi : 0 ≤ i.t) (hi' : i.t < 2 ^ 31) :
    Late probeLength (slot probeLength i.t) i.t
      (DataWriter.addAt throws i.name i.isDouble i.t i.data
        (new probeLength fillHowMany tm t)).1 := by
  have hprobe : (new probeLength fillHowMany tm t).probeStart i.t = slot probeLength i.t :=
    probeStart_eq rfl hi
  have hslot : 0 ≤ slot probeLength i.t :=
    mul_nonneg (Int.ediv_nonneg hi (by omega)) (by omega)
  have hlate : Late probeLength (slot probeLength i.t) i.t { new probeLength fillHowMany tm t with
      isDouble := i.isDouble
      curT := (new probeLength fillHowMany tm t).probeStart i.t
      curName := i.name } :=
    ⟨rfl, by rw [hprobe], by rw [hprobe]; exact (slot_bounds hlen i.t).1,
      fun hne => absurd rfl hne, fun x hx => absurd hx List.not_mem_nil⟩
  have hadd := @Late.addValue throws _ _ _ _ hlen hslot hlate i.t (le_refl i.t) hi' i.data
  have hcur : i.name ≠ (new probeLength fillHowMany tm t).curName := hname
  unfold DataWriter.addAt
  rw [if_pos hcur]
  exact hadd

theorem Late.foldl (hlen : 0 < probeLength) (hs : 0 ≤ s) (h : Late probeLength s last w)
    {inputs : List Input} (hsorted : (last :: inputs.map Input.t).Pairwise (· ≤ ·))
    (htimes : ∀ i ∈ inputs, i.t < 2 ^ 31) (hslots : ∀ i ∈ inputs, s ≤ slot probeLength i.t) :
    ∃ last', Late probeLength s last'
      (inputs.foldl (fun w i => (DataWriter.addAt throws i.name i.isDouble i.t i.data w).1) w) := by
  induction inputs generalizing last w with
  | nil => exact ⟨last, h⟩
  | cons i inputs ih =>
    obtain ⟨hfirst, hrest⟩ := List.pairwise_cons.mp hsorted
    have hstep := @Late.addAt throws _ _ _ _ hlen hs h i.name i.isDouble i.t
      (hfirst i.t List.mem_cons_self) (hslots i List.mem_cons_self) (htimes i List.mem_cons_self)
      i.data
    exact ih hstep hrest (fun j hj => htimes j (List.mem_cons_of_mem i hj))
      fun j hj => hslots j (List.mem_cons_of_mem i hj)

theorem slot_mono (hlen : 0 < probeLength) {t t' : ℤ} (h : t ≤ t') :
    slot probeLength t ≤ slot probeLength t' :=
  mul_le_mul_of_nonneg_right (Int.ediv_le_ediv hlen h) (by omega)

/-- The slot of the first input is never saved. -/
theorem run_saved (hlen : 0 < probeLength) (fillHowMany : ℤ) (tm : Tm) (t : ℤ) {i : Input}
    {inputs : List Input} (hname : i.name ≠ [])
    (htimes : ∀ j ∈ i :: inputs, 0 ≤ j.t ∧ j.t < 2 ^ 31)
    (hsorted : ((i :: inputs).map Input.t).Pairwise (· ≤ ·)) :
    ∀ x ∈ (run throws probeLength fillHowMany tm t (i :: inputs)).saved,
      slot probeLength i.t < x.t := by
  obtain ⟨hi, hi'⟩ := htimes i List.mem_cons_self
  have hslot : 0 ≤ slot probeLength i.t :=
    mul_nonneg (Int.ediv_nonneg hi (by omega)) (by omega)
  have hfirst := @late_first throws _ hlen fillHowMany tm t i hname hi hi'
  obtain ⟨last, hlate⟩ := @Late.foldl throws _ _ _ _ hlen hslot hfirst _ hsorted
    (fun j hj => (htimes j (List.mem_cons_of_mem i hj)).2)
    fun j hj => slot_mono hlen ((List.pairwise_cons.mp hsorted).1 j.t (List.mem_map_of_mem hj))
  exact hlate.saveData.saved

end Invariant

/-- A writer averages its inputs only when there is none: the first slot of a parameter is never
saved, and of every other slot only the first input is counted. -/
theorem averaged_iff (throws : List Saved → Saved → Bool) {probeLength : ℤ} (hlen : 0 < probeLength)
    (fillHowMany : ℤ) (tm : Tm) (t : ℤ) {inputs : List Input} (hnames : ∀ i ∈ inputs, i.name ≠ [])
    (htimes : ∀ i ∈ inputs, 0 ≤ i.t ∧ i.t < 2 ^ 31)
    (hsorted : (inputs.map Input.t).Pairwise (· ≤ ·)) :
    Averaged probeLength fillHowMany inputs
        (run throws probeLength fillHowMany tm t inputs).saved ↔ inputs = [] := by
  constructor
  · intro h
    cases inputs with
    | nil => rfl
    | cons i inputs =>
      exfalso
      have hlate := @run_saved throws _ hlen fillHowMany tm t i inputs
        (hnames i List.mem_cons_self) htimes hsorted
      have hvalues : valuesIn probeLength (i :: inputs) i.name (slot probeLength i.t) ≠ [] := by
        simp [valuesIn]
      have hsaves : savesIn (run throws probeLength fillHowMany tm t (i :: inputs)).saved i.name
          (slot probeLength i.t) = [] := by
        rw [savesIn, List.map_eq_nil_iff, List.filter_eq_nil_iff]
        intro x hx hsame
        have hlt := hlate x hx
        have heq := (of_decide_eq_true hsame).2
        omega
      have hmean := h.means i.name _ hvalues
      rw [hsaves] at hmean
      exact List.cons_ne_nil _ _ hmean.symm
  · rintro rfl
    exact ⟨fun _ _ h => absurd rfl h, fun _ _ _ _ h => absurd rfl h.left, fun _ _ h => absurd rfl h⟩

/-- Two values in the first slot of 2012, and one in the next. -/
def threeInputs : List Input :=
  [⟨['a'], false, 1325376000, 7⟩, ⟨['a'], false, 1325376010, 8⟩, ⟨['a'], false, 1325376600, 9⟩]

theorem averaged_iff_threeInputs : ¬ Averaged 600 0 threeInputs
    (run (fun _ _ => false) 600 0 (gmtime 0) 0 threeInputs).saved :=
  (averaged_iff (fun _ _ => false) (by decide) 0 (gmtime 0) 0 (by decide) (by decide)
    (by decide)).not.mpr (by decide)

/-- The first slot is not saved. -/
theorem threeInputs_not_averaged :
    ¬ Averaged 600 0 threeInputs (run (fun _ _ => false) 600 0 (gmtime 0) 0 threeInputs).saved := by
  intro h
  have hsaves : savesIn (run (fun _ _ => false) 600 0 (gmtime 0) 0 threeInputs).saved ['a']
      1325376000 = [] := by
    decide +kernel
  have hmean := h.means ['a'] 1325376000 (by decide +kernel)
  rw [hsaves] at hmean
  exact List.cons_ne_nil _ _ hmean.symm

end DataWriter
end Meaner
end Szarp
