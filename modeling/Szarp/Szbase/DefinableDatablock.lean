import Szarp.Lib.Run
import Szarp.Szbase.Definable

/-!
# Blocks of definable parameters

The probes of a definable parameter are computed from the probes of the parameters in its formula.
A reload computes again what is not fixed yet.
-/

namespace Szarp
namespace Szbase

open Definable

/-- A parameter of a formula: its precision, and the data and the number of fixed probes of its
block for the month.  `none` is a block that does not exist. -/
structure Operand where
  prec : ℕ
  block : Option (List Cell × ℕ)

namespace Operand

def fixed (o : Operand) : ℕ := (o.block.map Prod.snd).getD 0

/-- What a formula gets for a probe. -/
def value (o : Operand) (i : ℕ) : Value :=
  match o.block with
  | none => none
  | some (data, _) =>
    match data[i]? with
    | some (.value v) => some (v * 10 ^ o.prec)
    | _ => none

def data (o : Operand) : List Cell := (o.block.map Prod.fst).getD []

structure Evolves (o o' : Operand) : Prop where
  prec : o'.prec = o.prec
  fixed : o.fixed ≤ o'.fixed
  data : ∀ i < o.fixed, o'.data[i]? = o.data[i]?

theorem value_eq (o : Operand) (i : ℕ) : o.value i =
    match o.data[i]? with
    | some (.value v) => some (v * 10 ^ o.prec)
    | _ => none := by
  unfold value data
  cases o.block with
  | none => rfl
  | some b => rfl

theorem Evolves.value {o o' : Operand} (h : o.Evolves o') {i : ℕ} (hi : i < o.fixed) :
    o'.value i = o.value i := by
  rw [value_eq, value_eq, h.data i hi, h.prec]

end Operand

structure DefinableParam where
  formula : List Char
  prec : ℕ

namespace DefinableDatablock

variable (env : Environment) (param : DefinableParam)

def calculate (operands : List Operand) (i : ℕ) (time : ℤ) : Outcome :=
  szbDefinableCalculate env param.formula (operands.map fun o => o.value i) time

def cell (prec : ℕ) : Outcome → Cell
  | .value v => .value (v / 10 ^ prec)
  | _ => .nodata

/-- The loop over the probes: `n` probes from index `i` on, and whether an error ended it.
`none`: the result is undefined. -/
def compute (operands : List Operand) : ℕ → ℕ → ℤ → Option (List Cell × Bool)
  | 0, _, _ => some ([], false)
  | n + 1, i, time =>
    match calculate env param operands i time with
    | .undefined => none
    | .error => some ([.nodata], true)
    | o => (compute operands n (i + 1) (time + dataSpan)).map fun (cells, failed) =>
        (cell param.prec o :: cells, failed)

def probesCount (b : Datablock) : ℕ :=
  if b.endTime < b.lastUpdateTime then b.maxProbes
  else if b.startTime > b.lastUpdateTime then 0
  else (szbProbeind b.lastUpdateTime dataSpan).toNat + 1

/-- The loop over the blocks of a formula. -/
def fixedProbes (max : ℕ) (operands : List Operand) : ℕ :=
  operands.foldl (fun fixed o =>
    match o.block with
    | none => 0
    | some (_, n) => min fixed n) max

/-- The number of probes to compute and the number of fixed ones. -/
def getBlocksUsedInFormula (b : Datablock) (operands : List Operand) : ℕ × ℕ :=
  (probesCount b, fixedProbes b.maxProbes operands)

/-- The assertions about the indices; an index below zero is none of the array. -/
def indicesOk (b : Datablock) : Bool :=
  let isData (i : ℤ) : Bool :=
    0 ≤ i && ((b.data.getD [])[i.toNat]?.map Cell.isData).getD false
  b.firstDataProbeIndex < 0 || isData b.firstDataProbeIndex && isData b.lastDataProbeIndex

def createCounts (b : Datablock) (operands : List Operand) : ℕ × ℕ :=
  if operands ≠ [] then getBlocksUsedInFormula b operands
  else if b.lastUpdateTime > b.endTime then (b.maxProbes, b.maxProbes)
  else if b.startTime > b.lastUpdateTime then (0, 0)
  else ((szbProbeind b.lastUpdateTime dataSpan).toNat + 1, b.fixedProbesCount)

/-- The counts in `Refresh`: `szb_search_last` of a parameter without operands is the meaner
date. -/
def refreshCounts (b : Datablock) (operands : List Operand) (date : ℤ) : ℕ × ℕ :=
  if operands ≠ [] then getBlocksUsedInFormula b operands
  else if b.lastUpdateTime > b.endTime then (b.maxProbes, b.maxProbes)
  else ((szbProbeind date dataSpan).toNat + 1, (szbProbeind date dataSpan).toNat + 1)

/-- The constructor, with the cache disabled; `date` is the meaner date of the buffer.  `none`: an
assertion fails, the result is undefined, or the block is not initialized. -/
def create (operands : List Operand) (year : ℤ) (month : ℕ) (date : ℤ) : Option Datablock :=
  let b := { Datablock.new year month with lastUpdateTime := szbRoundTime date dataSpan }
  let b := b.allocateDataMemory
  let (probes, fixed) := createCounts b operands
  let b := { b with fixedProbesCount := fixed }
  if b.maxProbes < fixed then none
  else
    match compute env param operands probes 0 (probe2time 0 year month) with
    | none => none
    | some (_, true) => none
    | some (cells, false) =>
      let b := b.storeFrom 0 cells
      if indicesOk b then some (b.fillNodata probes) else none

def noteIndex (b : Datablock) (i : ℕ) (v : Cell) : Datablock :=
  if v.isData then
    { b with
      firstDataProbeIndex :=
        if b.firstDataProbeIndex < 0 ∨ i < b.firstDataProbeIndex then i
        else b.firstDataProbeIndex
      lastDataProbeIndex := i }
  else b

/-- The storing part of the loop of `Refresh`. -/
def storeFrom : ℕ → List Cell → Datablock → Datablock
  | _, [], b => b
  | i, v :: vs, b => storeFrom (i + 1) vs (noteIndex (b.setData i v) i v)

/-- Indices of probes that are computed again are forgotten. -/
def forgetIndices (b : Datablock) : Datablock :=
  { b with
    firstDataProbeIndex :=
      if b.firstDataProbeIndex ≥ b.fixedProbesCount then -1 else b.firstDataProbeIndex
    lastDataProbeIndex :=
      if b.lastDataProbeIndex ≥ b.fixedProbesCount then -1 else b.lastDataProbeIndex }

/-- `Refresh` at a new date; `none`: an assertion fails, the array is overrun, or the result is
undefined. -/
def recompute (operands : List Operand) (date : ℤ) (b : Datablock) : Option Datablock :=
  let (probes, fixed) := refreshCounts b operands date
  if fixed < b.fixedProbesCount ∨ b.maxProbes < probes then none
  else
    -- the time starts with the month, wherever the index starts
    match compute env param operands (probes - b.fixedProbesCount) b.fixedProbesCount
        (probe2time 0 b.year b.month) with
    | none => none
    | some (cells, _) =>
      let b := storeFrom b.fixedProbesCount cells (forgetIndices b)
      if indicesOk b then some { b with fixedProbesCount := fixed } else none

def refresh (operands : List Operand) (date : ℤ) (b : Datablock) : Option Datablock :=
  if b.fixedProbesCount = b.maxProbes then some b
  else if b.lastUpdateTime = szbRoundTime date dataSpan then some b
  else recompute env param operands date { b with lastUpdateTime := szbRoundTime date dataSpan }

/-! ## The loops -/

variable {env param} {operands : List Operand}

def probe (env : Environment) (param : DefinableParam) (operands : List Operand) (i : ℕ)
    (time : ℤ) : Cell :=
  cell param.prec (calculate env param operands i time)

/-- The formula is there, and what it computes is not undefined. -/
def Defined (env : Environment) (param : DefinableParam) : Prop :=
  ∀ row time, szbDefinableCalculate env param.formula row time ≠ .undefined ∧
    szbDefinableCalculate env param.formula row time ≠ .error

theorem compute_eq (h : Defined env param) (n i : ℕ) (time : ℤ) :
    compute env param operands n i time = some ((List.range n).map fun k =>
      probe env param operands (i + k) (time + 600 * k), false) := by
  induction n generalizing i time with
  | zero => rfl
  | succ n ih =>
    obtain ⟨hundefined, herror⟩ := h (operands.map fun o => o.value i) time
    have hhead : compute env param operands (n + 1) i time =
        (compute env param operands n (i + 1) (time + dataSpan)).map fun (cells, failed) =>
          (probe env param operands i time :: cells, failed) := by
      rw [compute]
      split
      next heq => exact absurd heq hundefined
      next heq => exact absurd heq herror
      next => rfl
    rw [hhead, ih, List.range_succ_eq_map, List.map_cons, List.map_map]
    simp only [Option.map_some, Nat.cast_zero, mul_zero, add_zero, Option.some.injEq,
      Prod.mk.injEq, List.cons.injEq, true_and, and_true]
    apply List.map_congr_left
    intro k _
    simp only [Function.comp_apply, dataSpan, Nat.cast_succ]
    congr 1
    · omega
    · ring

/-- Where the index of the first data is below those that are stored, the loop is that of the
other blocks. -/
theorem storeFrom_eq {i : ℕ} {b : Datablock} (vs : List Cell)
    (h : b.firstDataProbeIndex < 0 ∨ b.firstDataProbeIndex ≤ i) :
    storeFrom i vs b = b.storeFrom i vs := by
  induction vs generalizing i b with
  | nil => rfl
  | cons v vs ih =>
    have hnote : noteIndex (b.setData i v) i v = (b.setData i v).noteIndex i v := by
      have hfirst : (b.setData i v).firstDataProbeIndex = b.firstDataProbeIndex := rfl
      unfold noteIndex Datablock.noteIndex
      cases v.isData with
      | false => rfl
      | true =>
        have hiff : (b.firstDataProbeIndex < 0 ∨ (i : ℤ) < b.firstDataProbeIndex) ↔
            b.firstDataProbeIndex < 0 := by omega
        simp only [hfirst, hiff]
    rw [storeFrom, Datablock.storeFrom, hnote]
    apply ih
    unfold Datablock.noteIndex
    cases v.isData with
    | false =>
      change b.firstDataProbeIndex < 0 ∨ b.firstDataProbeIndex ≤ ((i + 1 : ℕ) : ℤ)
      omega
    | true =>
      change (if b.firstDataProbeIndex < 0 then (i : ℤ) else b.firstDataProbeIndex) < 0 ∨
        (if b.firstDataProbeIndex < 0 then (i : ℤ) else b.firstDataProbeIndex) ≤ ((i + 1 : ℕ) : ℤ)
      split_ifs <;> omega

/-! ## Indices -/

open Datablock

theorem scan_fst_congr (i : ℕ) (vs : List Cell) {p q : ℤ × ℤ} (h : p.1 = q.1) :
    (scan i vs p).1 = (scan i vs q).1 := by
  induction vs generalizing i p q with
  | nil => exact h
  | cons v vs ih =>
    rw [scan, scan]
    cases v.isData with
    | false => exact ih (i + 1) h
    | true =>
      apply ih
      simp only [if_true]
      rw [h]

theorem scan_snd_of_data (i : ℕ) {vs : List Cell} (p q : ℤ × ℤ)
    (h : ∃ v ∈ vs, v.isData = true) : (scan i vs p).2 = (scan i vs q).2 := by
  induction vs generalizing i p q with
  | nil => simp at h
  | cons v vs ih =>
    rw [scan, scan]
    cases hv : v.isData with
    | false =>
      apply ih
      obtain ⟨w, hw, hdata⟩ := h
      rcases List.mem_cons.mp hw with rfl | hw
      · rw [hv] at hdata
        exact absurd hdata (by decide)
      · exact ⟨w, hw, hdata⟩
    | true => exact scan_snd (i + 1) vs rfl

theorem scan_lt (i : ℕ) (vs : List Cell) {p : ℤ × ℤ} (h : p.1 < i) (h' : p.2 < i) :
    (scan i vs p).1 < i + vs.length ∧ (scan i vs p).2 < i + vs.length := by
  induction vs generalizing i p with
  | nil => simpa [scan] using ⟨h, h'⟩
  | cons v vs ih =>
    rw [scan, List.length_cons]
    cases v.isData with
    | false =>
      have hlt := ih (i + 1) (p := p) (by omega) (by omega)
      simp only [Bool.false_eq_true, if_false]
      omega
    | true =>
      have hlt := ih (i + 1) (p := (if p.1 < 0 then (i : ℤ) else p.1, (i : ℤ)))
        (by dsimp only; split_ifs <;> omega) (by dsimp only; omega)
      simp only [if_true]
      omega

/-- Data at or behind index `i` shows in the indices. -/
theorem scan_ge (i : ℕ) {vs : List Cell} {p : ℤ × ℤ} (h : ∃ v ∈ vs, v.isData = true) :
    (i : ℤ) ≤ (scan i vs p).2 ∧ (p.1 < 0 → (i : ℤ) ≤ (scan i vs p).1) := by
  induction vs generalizing i p with
  | nil => simp at h
  | cons v vs ih =>
    rw [scan]
    by_cases hrest : ∃ w ∈ vs, w.isData = true
    · have hle := ih (i + 1)
        (p := if v.isData then (if p.1 < 0 then (i : ℤ) else p.1, (i : ℤ)) else p) hrest
      refine ⟨by omega, fun hp => ?_⟩
      cases hv : v.isData with
      | false =>
        simp only [hv, Bool.false_eq_true, if_false] at hle ⊢
        have := hle.2 hp
        omega
      | true =>
        simp only [if_true, if_pos hp]
        rw [scan_fst_of_nonneg (i + 1) vs (by simp)]
    · have hv : v.isData = true := by
        obtain ⟨w, hw, hdata⟩ := h
        rcases List.mem_cons.mp hw with rfl | hw
        · exact hdata
        · exact absurd ⟨w, hw, hdata⟩ hrest
      rw [scan_of_no_data (i + 1) (fun w hw => by
        cases hw' : w.isData with
        | false => rfl
        | true => exact absurd ⟨w, hw, hw'⟩ hrest), hv]
      simp only [if_true, le_refl, true_and]
      intro hp
      rw [if_pos hp]

theorem scan_isData (pre vs : List Cell) {p : ℤ × ℤ}
    (hp : p.1 < 0 ∨ (0 ≤ p.1 ∧ ∃ v, pre[p.1.toNat]? = some v ∧ v.isData = true) ∧
      0 ≤ p.2 ∧ ∃ v, pre[p.2.toNat]? = some v ∧ v.isData = true) :
    let q := scan pre.length vs p
    q.1 < 0 ∨ (0 ≤ q.1 ∧ ∃ v, (pre ++ vs)[q.1.toNat]? = some v ∧ v.isData = true) ∧
      0 ≤ q.2 ∧ ∃ v, (pre ++ vs)[q.2.toNat]? = some v ∧ v.isData = true := by
  induction vs generalizing pre p with
  | nil => simpa [scan] using hp
  | cons v vs ih =>
    have hkeep : ∀ {j : ℤ}, (∃ w, pre[j.toNat]? = some w ∧ w.isData = true) →
        ∃ w, (pre ++ [v])[j.toNat]? = some w ∧ w.isData = true := by
      rintro j ⟨w, hw, hdata⟩
      have hlt : j.toNat < pre.length := (List.getElem?_eq_some_iff.mp hw).1
      exact ⟨w, by rw [List.getElem?_append_left hlt]; exact hw, hdata⟩
    have hnew : (pre ++ [v])[((pre.length : ℤ)).toNat]? = some v := by simp
    have hstep := ih (pre ++ [v])
      (p := if v.isData then (if p.1 < 0 then (pre.length : ℤ) else p.1, (pre.length : ℤ)) else p)
      (by
        cases hv : v.isData with
        | false =>
          simp only [Bool.false_eq_true, if_false]
          exact hp.imp_right fun h => ⟨⟨h.1.1, hkeep h.1.2⟩, h.2.1, hkeep h.2.2⟩
        | true =>
          simp only [if_true]
          right
          refine ⟨?_, by simp, v, hnew, hv⟩
          split_ifs with hneg
          · exact ⟨by simp, v, hnew, hv⟩
          · exact ⟨not_lt.mp hneg, hkeep (hp.resolve_left hneg).1.2⟩)
    rw [List.length_append, List.length_singleton, List.append_assoc, List.singleton_append]
      at hstep
    rw [scan]
    exact hstep

/-- The assertions hold of a block whose indices are those of its probes. -/
theorem indicesOk_of_scan {b : Datablock} {vs rest : List Cell} (hd : b.data = some (vs ++ rest))
    (h : (b.firstDataProbeIndex, b.lastDataProbeIndex) = scan 0 vs (-1, -1)) :
    indicesOk b = true := by
  have hdata := scan_isData [] vs (p := (-1, -1)) (Or.inl (by decide))
  simp only [List.length_nil, List.nil_append, ← h] at hdata
  have hkeep : ∀ {j : ℤ}, (∃ v, vs[j.toNat]? = some v ∧ v.isData = true) →
      (((vs ++ rest)[j.toNat]?).map Cell.isData).getD false = true := by
    rintro j ⟨v, hv, hv'⟩
    have hlt : j.toNat < vs.length := (List.getElem?_eq_some_iff.mp hv).1
    rw [List.getElem?_append_left hlt, hv]
    exact hv'
  simp only [indicesOk, hd, Option.getD_some, Bool.or_eq_true, Bool.and_eq_true,
    decide_eq_true_eq]
  rcases hdata with hneg | ⟨⟨h1, h1'⟩, h2, h2'⟩
  · exact Or.inl hneg
  · exact Or.inr ⟨⟨h1, hkeep h1'⟩, h2, hkeep h2'⟩

/-! ## Counts -/

theorem endTime_eq (b : Datablock) :
    b.endTime = b.startTime + 600 * (szbProbecnt b.year b.month - 1) := by
  simp only [endTime, startTime, probe2time, dataSpan]
  ring

/-- The probe of a time in the month. -/
theorem szbProbeind_eq_of_le {b : Datablock} {t : ℤ} (h : b.startTime ≤ t)
    (h' : t < b.endTime + 600) : szbProbeind t dataSpan = (t - b.startTime) / 600 := by
  rw [endTime_eq] at h'
  exact (szbProbeind_of_mem h (by unfold startTime at h'; omega)).1

theorem probesCount_eq (b : Datablock) :
    probesCount b = if b.endTime < b.lastUpdateTime then b.maxProbes
      else if b.startTime > b.lastUpdateTime then 0
      else ((b.lastUpdateTime - b.startTime) / 600).toNat + 1 := by
  unfold probesCount
  split_ifs with hend hstart
  · rfl
  · rfl
  · rw [szbProbeind_eq_of_le (not_lt.mp hstart) (by omega)]

theorem probesCount_le (b : Datablock) : probesCount b ≤ b.maxProbes := by
  have hend := endTime_eq b
  rw [probesCount_eq]
  unfold maxProbes
  split_ifs <;> omega

theorem probesCount_mono {b c : Datablock} (hy : b.year = c.year) (hm : b.month = c.month)
    (h : b.lastUpdateTime ≤ c.lastUpdateTime) : probesCount b ≤ probesCount c := by
  have hend := endTime_eq c
  have hstart : b.startTime = c.startTime := by rw [startTime, startTime, hy, hm]
  have hend' : b.endTime = c.endTime := by rw [endTime, endTime, hy, hm]
  have hmax : b.maxProbes = c.maxProbes := by rw [maxProbes, maxProbes, hy, hm]
  have hle := probesCount_le b
  rw [probesCount_eq, hstart, hend', hmax] at hle ⊢
  rw [probesCount_eq c]
  split_ifs at * <;> omega

theorem szbRoundTime_mono {t u : ℤ} (h : t ≤ u) :
    szbRoundTime t dataSpan ≤ szbRoundTime u dataSpan := by
  unfold szbRoundTime dataSpan
  split_ifs <;> omega

/-- In the month, the meaner date and the time of the update are in one probe. -/
theorem szbProbeind_date {b : Datablock} {date : ℤ}
    (h : b.lastUpdateTime = szbRoundTime date dataSpan) (hs : b.startTime ≤ b.lastUpdateTime)
    (he : b.lastUpdateTime ≤ b.endTime) :
    (szbProbeind date dataSpan).toNat + 1 = probesCount b := by
  have hend := endTime_eq b
  have hpos : 0 < date := by
    by_contra hneg
    rw [szbRoundTime, if_pos (not_lt.mp hneg)] at h
    have hcnt := valid_of_szbProbecnt (y := b.year) (m := b.month) (by omega)
    have hstart := probe2time_eq 0 b.year hcnt.2.2.1 hcnt.2.2.2
    simp only [monthStart] at hstart
    unfold startTime at hs hend
    exact not_epoch_inside (y := b.year) (m := b.month) (by omega) (by omega)
  rw [szbRoundTime, if_neg (not_le.mpr hpos), dataSpan] at h
  have hmod : b.startTime % 600 = 0 := by
    have hcnt := valid_of_szbProbecnt (y := b.year) (m := b.month) (by omega)
    have hstart := probe2time_eq 0 b.year hcnt.2.2.1 hcnt.2.2.2
    simp only [monthStart] at hstart
    unfold startTime
    omega
  rw [probesCount_eq, if_neg (by omega), if_neg (by omega),
    szbProbeind_eq_of_le (b := b) (by omega) (by omega)]
  congr 2
  omega

/-! ## What a reload recomputes -/

/-- Indices at or behind the `pre.length` fixed probes are forgotten; the scan of what is computed
in the place of `rest` finds them again. -/
theorem scan_forget {pre rest cells : List Cell} {f l : ℤ}
    (h : (f, l) = scan 0 (pre ++ rest) (-1, -1))
    (hdata : 0 ≤ f → f < pre.length → pre.length ≤ l → ∃ v ∈ cells, v.isData = true) :
    scan pre.length cells
        (if f ≥ pre.length then -1 else f, if l ≥ pre.length then -1 else l) =
      scan 0 (pre ++ cells) (-1, -1) := by
  rw [scan_append, Nat.zero_add] at h ⊢
  have hpre := scan_lt 0 pre (p := (-1, -1)) (by decide) (by decide)
  have hnone : (scan 0 pre (-1, -1)).1 < 0 → scan 0 pre (-1, -1) = (-1, -1) := by
    intro hneg
    apply scan_of_no_data
    intro v hv
    cases hv' : v.isData with
    | false => rfl
    | true =>
      have := scan_fst_nonneg 0 (-1, -1) ⟨v, hv, hv'⟩
      omega
  by_cases hrest : ∃ v ∈ rest, v.isData = true
  · -- the last index is forgotten, and the first one where all of `pre` has no data
    obtain ⟨hlast, hfirst⟩ := scan_ge pre.length (p := scan 0 pre (-1, -1)) hrest
    rw [← h] at hlast hfirst
    dsimp only at hlast hfirst
    rcases lt_or_ge (scan 0 pre (-1, -1)).1 0 with hneg | hnn
    · rw [if_pos (hfirst hneg), if_pos hlast, hnone hneg]
    · have hf : f = (scan 0 pre (-1, -1)).1 := by
        rw [← scan_fst_of_nonneg pre.length rest hnn, ← h]
      have hcells := hdata (by omega) (by omega) hlast
      apply Prod.ext
      · apply scan_fst_congr
        dsimp only
        rw [if_neg (by omega), hf]
      · exact scan_snd_of_data pre.length _ _ hcells
  · rw [scan_of_no_data pre.length (fun v hv => by
      cases hv' : v.isData with
      | false => rfl
      | true => exact absurd ⟨v, hv, hv'⟩ hrest)] at h
    rw [if_neg (by rw [show f = (scan 0 pre (-1, -1)).1 by rw [← h]]; omega),
      if_neg (by rw [show l = (scan 0 pre (-1, -1)).2 by rw [← h]]; omega), h]

def values (env : Environment) (param : DefinableParam) (operands : List Operand) (year : ℤ)
    (month n : ℕ) : List Cell :=
  (List.range n).map fun i => probe env param operands i (probe2time 0 year month + 600 * i)

theorem length_values (operands : List Operand) (year : ℤ) (month n : ℕ) :
    (values env param operands year month n).length = n := by
  rw [values, List.length_map, List.length_range]

theorem drop_values (operands : List Operand) (year : ℤ) (month : ℕ) {n p : ℕ} (h : n ≤ p) :
    (values env param operands year month p).drop n = (List.range (p - n)).map fun k =>
      probe env param operands (n + k) (probe2time 0 year month + 600 * (n + k : ℕ)) := by
  obtain ⟨q, rfl⟩ := Nat.exists_eq_add_of_le h
  rw [values, List.range_add, List.map_append, List.drop_left' (by simp), List.map_map,
    Nat.add_sub_cancel_left]
  rfl

def probesUpTo (year : ℤ) (month : ℕ) (date : ℤ) : ℕ :=
  probesCount { Datablock.new year month with lastUpdateTime := szbRoundTime date dataSpan }

theorem probesCount_eq_probesUpTo {b : Datablock} {date : ℤ}
    (h : b.lastUpdateTime = szbRoundTime date dataSpan) :
    probesCount b = probesUpTo b.year b.month date := by
  rw [probesCount, h]
  rfl

theorem probesUpTo_mono (year : ℤ) (month : ℕ) {date date' : ℤ} (h : date ≤ date') :
    probesUpTo year month date ≤ probesUpTo year month date' :=
  probesCount_mono rfl rfl (szbRoundTime_mono h)

theorem probesUpTo_le (year : ℤ) (month : ℕ) (date : ℤ) :
    probesUpTo year month date ≤ (szbProbecnt year month).toNat :=
  probesCount_le _

/-! ### Fixed probes of the operands -/

theorem fixedProbes_eq (n : ℕ) (operands : List Operand) :
    fixedProbes n operands = operands.foldl (fun fixed o => min fixed o.fixed) n := by
  unfold fixedProbes
  congr 1
  funext fixed o
  unfold Operand.fixed
  cases o.block with
  | none => exact (Nat.min_zero fixed).symm
  | some b => rfl

theorem fixedProbes_cons (n : ℕ) (o : Operand) (operands : List Operand) :
    fixedProbes n (o :: operands) = fixedProbes (min n o.fixed) operands := by
  rw [fixedProbes_eq, fixedProbes_eq, List.foldl_cons]

theorem fixedProbes_le (n : ℕ) (operands : List Operand) :
    fixedProbes n operands ≤ n ∧ ∀ o ∈ operands, fixedProbes n operands ≤ o.fixed := by
  induction operands generalizing n with
  | nil => exact ⟨le_rfl, by simp⟩
  | cons o operands ih =>
    obtain ⟨hn, ho⟩ := ih (min n o.fixed)
    rw [fixedProbes_cons]
    refine ⟨by omega, fun p hp => ?_⟩
    rcases List.mem_cons.mp hp with rfl | hp
    · omega
    · exact ho p hp

theorem le_fixedProbes {k n : ℕ} {operands : List Operand} (hn : k ≤ n)
    (h : ∀ o ∈ operands, k ≤ o.fixed) : k ≤ fixedProbes n operands := by
  induction operands generalizing n with
  | nil => exact hn
  | cons o operands ih =>
    have ho := h o List.mem_cons_self
    rw [fixedProbes_cons]
    apply ih (by omega)
    intro p hp
    exact h p (List.mem_cons_of_mem _ hp)

/-- Below the fixed probes of all operands the formula gets what it got. -/
theorem probe_evolves {operands operands' : List Operand} {n i : ℕ}
    (h : List.Forall₂ Operand.Evolves operands operands')
    (hfixed : ∀ o ∈ operands, n ≤ o.fixed) (hi : i < n) (time : ℤ) :
    probe env param operands' i time = probe env param operands i time := by
  have hrow : (operands'.map fun o => o.value i) = operands.map fun o => o.value i := by
    induction h with
    | nil => rfl
    | @cons o o' operands operands' ho _ ih =>
      have hlt : i < o.fixed := lt_of_lt_of_le hi (hfixed o List.mem_cons_self)
      rw [List.map_cons, List.map_cons, ho.value hlt,
        ih fun p hp => hfixed p (List.mem_cons_of_mem _ hp)]
  rw [probe, probe, calculate, calculate, hrow]

theorem values_take_evolves {operands operands' : List Operand} {n p p' : ℕ}
    (h : List.Forall₂ Operand.Evolves operands operands')
    (hfixed : ∀ o ∈ operands, n ≤ o.fixed) (hp : n ≤ p) (hp' : n ≤ p') (year : ℤ) (month : ℕ) :
    (values env param operands' year month p').take n =
      (values env param operands year month p).take n := by
  rw [values, values, ← List.map_take, ← List.map_take, List.take_range, List.take_range,
    Nat.min_eq_left hp, Nat.min_eq_left hp']
  apply List.map_congr_left
  intro i hi
  exact probe_evolves h hfixed (List.mem_range.mp hi) _

/-! ### The constructor -/

theorem createCounts_fst (b : Datablock) (operands : List Operand) :
    (createCounts b operands).1 = probesCount b := by
  unfold createCounts getBlocksUsedInFormula probesCount
  split_ifs <;> rfl

theorem createCounts_snd {b : Datablock} {operands : List Operand} (h : b.fixedProbesCount = 0)
    (hahead : operands ≠ [] → fixedProbes b.maxProbes operands ≤ probesCount b) :
    (createCounts b operands).2 ≤ probesCount b ∧
      ∀ o ∈ operands, (createCounts b operands).2 ≤ o.fixed := by
  by_cases hnil : operands = []
  · rw [createCounts, if_neg (not_not.mpr hnil), hnil]
    refine ⟨?_, by simp⟩
    unfold probesCount
    split_ifs <;> omega
  · rw [createCounts, if_pos hnil]
    exact ⟨hahead hnil, (fixedProbes_le b.maxProbes operands).2⟩

/-- The block of the constructor holds the probes up to the meaner date. -/
theorem create_spec (h : Defined env param) (operands : List Operand) (year : ℤ) (month : ℕ)
    (date : ℤ)
    (hahead : operands ≠ [] → fixedProbes (szbProbecnt year month).toNat operands ≤
      probesUpTo year month date) :
    ∃ b, create env param operands year month date = some b ∧
      b.Holds (values env param operands year month (probesUpTo year month date)) ∧
      b.year = year ∧ b.month = month ∧ b.lastUpdateTime = szbRoundTime date dataSpan ∧
      b.fixedProbesCount ≤ probesUpTo year month date ∧
      ∀ o ∈ operands, b.fixedProbesCount ≤ o.fixed := by
  obtain ⟨b, hb⟩ : ∃ b : Datablock, b = ({ Datablock.new year month with
    lastUpdateTime := szbRoundTime date dataSpan } : Datablock).allocateDataMemory := ⟨_, rfl⟩
  have hprobes : probesCount b = probesUpTo year month date := by rw [hb]; rfl
  have hmax : b.maxProbes = (szbProbecnt year month).toNat := by rw [hb]; rfl
  have hcounts := @createCounts_snd b operands (by rw [hb]; rfl)
    (by rw [hmax, hprobes]; exact hahead)
  have hle := probesUpTo_le year month date
  obtain ⟨vs, hvs⟩ : ∃ vs, vs = values env param operands year month (probesUpTo year month date) :=
    ⟨_, rfl⟩
  have hlen : vs.length = probesUpTo year month date := by rw [hvs, length_values]
  -- the loop gives every probe at its own time, since both are counted from the first probe
  have hcompute : compute env param operands (probesUpTo year month date) 0
      (probe2time 0 year month) = some (vs, false) := by
    rw [compute_eq h, hvs, values]
    simp only [Nat.zero_add]
  obtain ⟨c, hc⟩ : ∃ c : Datablock,
    c = { b with fixedProbesCount := (createCounts b operands).2 } := ⟨_, rfl⟩
  have hholds : (fillNodata vs.length (c.storeFrom 0 vs)).Holds vs := by
    apply holds_of_store vs (d := List.replicate b.maxProbes .uninit)
    · rw [hc, hb]; rfl
    · rw [hc, List.length_replicate]; rfl
    · rw [hc]
      change vs.length ≤ b.maxProbes
      omega
    · rw [hc, hb]; rfl
    · rw [hc, hb]; rfl
  have hok : indicesOk (c.storeFrom 0 vs) = true := by
    apply @indicesOk_of_scan _ vs ((List.replicate b.maxProbes Cell.uninit).drop vs.length)
    · rw [storeFrom_data (d := List.replicate b.maxProbes .uninit) (by rw [hc, hb]; rfl)
        (by rw [List.length_replicate]; omega), List.take_zero, List.nil_append, Nat.zero_add]
    · exact hholds.indices
  obtain ⟨hy, hm, hu, hf⟩ := storeFrom_frame 0 vs c
  refine ⟨fillNodata vs.length (c.storeFrom 0 vs), ?_, hvs ▸ hholds, ?_, ?_, ?_, ?_, ?_⟩
  -- what the constructor does with an array that has been allocated
  · have hcreate : create env param operands year month date =
        if b.maxProbes < (createCounts b operands).2 then none
        else
          match compute env param operands (createCounts b operands).1 0
              (probe2time 0 year month) with
          | none => none
          | some (_, true) => none
          | some (cells, false) =>
            if indicesOk (c.storeFrom 0 cells) then
              some ((c.storeFrom 0 cells).fillNodata (createCounts b operands).1)
            else none := by
      rw [hc, hb]
      rfl
    rw [hcreate, if_neg (by omega), createCounts_fst, hprobes, hcompute]
    dsimp only
    rw [if_pos hok, hlen]
  · rw [fillNodata, hy, hc, hb]; rfl
  · rw [fillNodata, hm, hc, hb]; rfl
  · rw [fillNodata, hu, hc, hb]; rfl
  · rw [fillNodata, hf, hc, ← hprobes]; exact hcounts.1
  · rw [fillNodata, hf, hc]; exact hcounts.2

/-! ### The reload -/

theorem storeFrom_forgetIndices (b : Datablock) (cells : List Cell) :
    storeFrom b.fixedProbesCount cells (forgetIndices b) =
      (forgetIndices b).storeFrom b.fixedProbesCount cells := by
  apply storeFrom_eq
  unfold forgetIndices
  dsimp only
  split_ifs <;> omega

theorem holds_replace {b : Datablock} {pre rest : List Cell} (h : b.Holds (pre ++ rest))
    (hpre : pre.length = b.fixedProbesCount) (cells : List Cell)
    (hrest : rest.length ≤ cells.length) (hlen : pre.length + cells.length ≤ b.maxProbes)
    (hdata : 0 ≤ b.firstDataProbeIndex → b.firstDataProbeIndex < b.fixedProbesCount →
      b.fixedProbesCount ≤ b.lastDataProbeIndex → ∃ v ∈ cells, v.isData = true) :
    (storeFrom b.fixedProbesCount cells (forgetIndices b)).Holds (pre ++ cells) := by
  rw [storeFrom_forgetIndices]
  rw [← hpre] at hdata ⊢
  have hmax := storeFrom_maxProbes pre.length cells (forgetIndices b)
  have hmax' : (forgetIndices b).maxProbes = b.maxProbes := rfl
  refine ⟨?_, by rw [hmax, hmax', List.length_append]; exact hlen, ?_⟩
  -- the places behind the fixed probes
  · have hd : (forgetIndices b).data = some (pre ++ (rest ++
        List.replicate (b.maxProbes - (pre.length + rest.length)) .nodata)) := by
      rw [← List.append_assoc, ← List.length_append]
      exact h.data
    have hdrop : (rest ++ List.replicate (b.maxProbes - (pre.length + rest.length))
        Cell.nodata).drop cells.length =
          List.replicate (b.maxProbes - (pre.length + cells.length)) .nodata := by
      rw [List.drop_append, List.drop_eq_nil_of_le hrest, List.nil_append, List.drop_replicate]
      congr 1
      omega
    rw [storeFrom_data hd (by simp only [List.length_append, List.length_replicate]; omega), hmax,
      hmax', List.take_left, List.drop_length_add_append, hdrop, List.length_append]
  -- the indices: those at or behind the fixed probes were forgotten
  · rw [storeFrom_indices]
    have hind : ((forgetIndices b).firstDataProbeIndex, (forgetIndices b).lastDataProbeIndex) =
        (if b.firstDataProbeIndex ≥ pre.length then -1 else b.firstDataProbeIndex,
          if b.lastDataProbeIndex ≥ pre.length then -1 else b.lastDataProbeIndex) := by
      rw [hpre]
      rfl
    rw [hind]
    exact scan_forget h.indices hdata

/-- A reload at a new date leaves the probes up to it, where the probes it computes are those of
their own times. -/
theorem recompute_spec (h : Defined env param) {operands : List Operand} {b : Datablock}
    {vs : List Cell} {date : ℤ} {probes fixed : ℕ} (hb : b.Holds vs)
    (hcounts : refreshCounts b operands date = (probes, fixed))
    (hfixed : b.fixedProbesCount ≤ fixed) (hmax : probes ≤ b.maxProbes)
    (hvs : b.fixedProbesCount ≤ vs.length) (hlen : vs.length ≤ probes)
    (htake : (values env param operands b.year b.month probes).take b.fixedProbesCount =
      vs.take b.fixedProbesCount)
    (htime : ∀ k, b.fixedProbesCount + k < probes →
      probe env param operands (b.fixedProbesCount + k) (b.startTime + 600 * k) =
        probe env param operands (b.fixedProbesCount + k)
          (b.startTime + 600 * (b.fixedProbesCount + k : ℕ)))
    (hdata : 0 ≤ b.firstDataProbeIndex → b.firstDataProbeIndex < b.fixedProbesCount →
      b.fixedProbesCount ≤ b.lastDataProbeIndex → ∃ i < probes, b.fixedProbesCount ≤ i ∧
        (probe env param operands i (b.startTime + 600 * i)).isData = true) :
    ∃ c, recompute env param operands date b = some c ∧
      c.Holds (values env param operands b.year b.month probes) ∧ c.year = b.year ∧
      c.month = b.month ∧ c.lastUpdateTime = b.lastUpdateTime ∧ c.fixedProbesCount = fixed := by
  obtain ⟨cells, hcells⟩ : ∃ cells, cells =
    (values env param operands b.year b.month probes).drop b.fixedProbesCount := ⟨_, rfl⟩
  -- the time of the loop is the start of the month, which is right where the season is the same
  have hcompute : compute env param operands (probes - b.fixedProbesCount) b.fixedProbesCount
      (probe2time 0 b.year b.month) = some (cells, false) := by
    rw [compute_eq h, hcells, drop_values operands b.year b.month (hvs.trans hlen)]
    congr 2
    apply List.map_congr_left
    intro k hk
    exact htime k (by rw [List.mem_range] at hk; omega)
  have hpre : (vs.take b.fixedProbesCount).length = b.fixedProbesCount := by
    rw [List.length_take, Nat.min_eq_left hvs]
  have hsplit : vs.take b.fixedProbesCount ++ cells =
      values env param operands b.year b.month probes := by
    rw [← htake, hcells, List.take_append_drop]
  have hcount : cells.length = probes - b.fixedProbesCount := by
    rw [hcells, List.length_drop, length_values]
  have hholds := @holds_replace b (vs.take b.fixedProbesCount)
    (vs.drop b.fixedProbesCount) (by rw [List.take_append_drop]; exact hb) hpre cells
    (by rw [List.length_drop, hcount]; omega) (by omega) (by
      intro h0 hlt hle
      obtain ⟨i, hi, hge, hisData⟩ := hdata h0 hlt hle
      refine ⟨_, ?_, hisData⟩
      rw [hcells, drop_values operands b.year b.month (hvs.trans hlen)]
      rw [List.mem_map]
      refine ⟨i - b.fixedProbesCount, by rw [List.mem_range]; omega, ?_⟩
      rw [Nat.add_sub_cancel' hge]
      rfl)
  rw [hsplit] at hholds
  have hok := indicesOk_of_scan hholds.data hholds.indices
  obtain ⟨hy, hm, hu, -⟩ := storeFrom_frame b.fixedProbesCount cells (forgetIndices b)
  rw [← storeFrom_forgetIndices] at hy hm hu
  refine ⟨{ storeFrom b.fixedProbesCount cells (forgetIndices b) with fixedProbesCount := fixed },
    ?_, ⟨hholds.data, hholds.length_le, hholds.indices⟩, hy, hm, hu, rfl⟩
  rw [recompute, hcounts]
  dsimp only
  rw [if_neg (by omega), hcompute]
  dsimp only
  rw [if_pos hok]

/-! ## Runs -/

structure State where
  operands : List Operand
  date : ℤ
  block : Datablock

structure Event where
  operands : List Operand
  date : ℤ

def step (env : Environment) (param : DefinableParam) (s : State) (e : Event) : State :=
  ⟨e.operands, e.date, (refresh env param e.operands e.date s.block).getD s.block⟩

def Monotone (s : State) (e : Event) : Prop :=
  List.Forall₂ Operand.Evolves s.operands e.operands ∧ s.date ≤ e.date

/-- After the reload the block is as a new one. -/
def AsNew (env : Environment) (param : DefinableParam) (s : State) (e : Event) : Prop :=
  ∃ old fresh, refresh env param e.operands e.date s.block = some old ∧
    create env param e.operands s.block.year s.block.month e.date = some fresh ∧
    old.data = fresh.data ∧ old.firstDataProbeIndex = fresh.firstDataProbeIndex ∧
    old.lastDataProbeIndex = fresh.lastDataProbeIndex

/-- The operands have no fixed probes behind the meaner date. -/
def NotAhead (operands : List Operand) (year : ℤ) (month : ℕ) (date : ℤ) : Prop :=
  operands ≠ [] →
    fixedProbes (szbProbecnt year month).toNat operands ≤ probesUpTo year month date

/-- What the reload is right for.  Where something is computed again:
 - the operator `S` gets, at the time counted from the start of the month, the season of the probe;
 - where the last data was not fixed but the first was, there is data again;
 - without operands, the month has started. -/
structure Reloads (env : Environment) (param : DefinableParam) (s : State) (e : Event) : Prop where
  notAhead : NotAhead e.operands s.block.year s.block.month e.date
  same : s.block.fixedProbesCount ≠ s.block.maxProbes →
    szbRoundTime s.date dataSpan = szbRoundTime e.date dataSpan → e.operands = s.operands
  season : s.block.fixedProbesCount ≠ s.block.maxProbes →
    szbRoundTime s.date dataSpan ≠ szbRoundTime e.date dataSpan →
    'S' ∉ param.formula ∨ ∀ k,
      s.block.fixedProbesCount + k < probesUpTo s.block.year s.block.month e.date →
      env.SameSeason (s.block.startTime + 600 * k)
        (s.block.startTime + 600 * (s.block.fixedProbesCount + k : ℕ))
  data : s.block.fixedProbesCount ≠ s.block.maxProbes →
    szbRoundTime s.date dataSpan ≠ szbRoundTime e.date dataSpan →
    0 ≤ s.block.firstDataProbeIndex → s.block.firstDataProbeIndex < s.block.fixedProbesCount →
    s.block.fixedProbesCount ≤ s.block.lastDataProbeIndex →
    ∃ i < probesUpTo s.block.year s.block.month e.date, s.block.fixedProbesCount ≤ i ∧
      (probe env param e.operands i (s.block.startTime + 600 * i)).isData = true
  started : s.block.fixedProbesCount ≠ s.block.maxProbes →
    szbRoundTime s.date dataSpan ≠ szbRoundTime e.date dataSpan →
    e.operands = [] → s.block.startTime ≤ szbRoundTime e.date dataSpan

structure Inv (env : Environment) (param : DefinableParam) (s : State) : Prop where
  holds : s.block.Holds (values env param s.operands s.block.year s.block.month
    (probesUpTo s.block.year s.block.month s.date))
  updated : s.block.fixedProbesCount ≠ s.block.maxProbes →
    s.block.lastUpdateTime = szbRoundTime s.date dataSpan
  fixed_le : s.block.fixedProbesCount ≤ probesUpTo s.block.year s.block.month s.date
  fixed_operands : ∀ o ∈ s.operands, s.block.fixedProbesCount ≤ o.fixed

theorem refreshCounts_spec {b : Datablock} {operands : List Operand} {date : ℤ}
    (h : b.lastUpdateTime = szbRoundTime date dataSpan)
    (hstart : operands = [] → b.startTime ≤ b.lastUpdateTime) :
    refreshCounts b operands date = (probesUpTo b.year b.month date,
      if operands = [] then probesUpTo b.year b.month date
      else fixedProbes b.maxProbes operands) := by
  rw [← probesCount_eq_probesUpTo h]
  by_cases hnil : operands = []
  · rw [refreshCounts, if_neg (not_not.mpr hnil), if_pos hnil]
    split_ifs with hend
    · rw [probesCount, if_pos hend]
    · rw [szbProbeind_date h (hstart hnil) (by omega)]
  · rw [refreshCounts, if_pos hnil, if_neg hnil]
    rfl

theorem fixed_evolves {operands operands' : List Operand} {n : ℕ}
    (h : List.Forall₂ Operand.Evolves operands operands') (hn : ∀ o ∈ operands, n ≤ o.fixed) :
    ∀ o ∈ operands', n ≤ o.fixed := by
  induction h with
  | nil => simp
  | @cons o o' operands operands' ho _ ih =>
    intro p hp
    rcases List.mem_cons.mp hp with rfl | hp
    · exact (hn o List.mem_cons_self).trans ho.fixed
    · exact ih (fun q hq => hn q (List.mem_cons_of_mem _ hq)) p hp

theorem Inv.full {s : State} {e : Event} (hs : Inv env param s) (hl : Monotone s e)
    (hfull : s.block.fixedProbesCount = s.block.maxProbes) :
    Inv env param ⟨e.operands, e.date, s.block⟩ := by
  have hle := probesUpTo_le s.block.year s.block.month
  have hfixed := hs.fixed_le
  have hmono := probesUpTo_mono s.block.year s.block.month hl.2
  have hmax : (szbProbecnt s.block.year s.block.month).toNat = s.block.maxProbes := rfl
  have hcount : probesUpTo s.block.year s.block.month s.date = s.block.fixedProbesCount := by
    have := hle s.date
    omega
  have hcount' : probesUpTo s.block.year s.block.month e.date = s.block.fixedProbesCount := by
    have := hle e.date
    omega
  have hvalues := @values_take_evolves env param _ _ _ _ _ hl.1 hs.fixed_operands
    le_rfl le_rfl s.block.year s.block.month
  rw [List.take_of_length_le (length_values _ _ _ _).le,
    List.take_of_length_le (length_values _ _ _ _).le] at hvalues
  refine ⟨?_, fun hne => absurd hfull hne, hcount'.ge, fixed_evolves hl.1 hs.fixed_operands⟩
  have hholds := hs.holds
  rw [hcount, ← hvalues, ← hcount'] at hholds
  exact hholds

theorem Inv.same {s : State} {e : Event} (hs : Inv env param s)
    (hdate : szbRoundTime s.date dataSpan = szbRoundTime e.date dataSpan)
    (hoperands : e.operands = s.operands) : Inv env param ⟨e.operands, e.date, s.block⟩ := by
  have hcount : probesUpTo s.block.year s.block.month e.date =
      probesUpTo s.block.year s.block.month s.date := by rw [probesUpTo, probesUpTo, hdate]
  refine ⟨?_, fun hne => (hs.updated hne).trans hdate, ?_, ?_⟩
  · rw [hcount, hoperands]
    exact hs.holds
  · rw [hcount]
    exact hs.fixed_le
  · rw [hoperands]
    exact hs.fixed_operands

theorem recompute_inv (h : Defined env param) {s : State} {e : Event} (hs : Inv env param s)
    (hl : Monotone s e) (hq : Reloads env param s e)
    (hopen : s.block.fixedProbesCount ≠ s.block.maxProbes)
    (hdate : szbRoundTime s.date dataSpan ≠ szbRoundTime e.date dataSpan) :
    ∃ b, recompute env param e.operands e.date
        { s.block with lastUpdateTime := szbRoundTime e.date dataSpan } = some b ∧
      b.year = s.block.year ∧ b.month = s.block.month ∧
      Inv env param ⟨e.operands, e.date, b⟩ := by
  have hmono := probesUpTo_mono s.block.year s.block.month hl.2
  have hfixed := hs.fixed_le
  obtain ⟨fixed, hfixed'⟩ : ∃ fixed, fixed = if e.operands = [] then
      probesUpTo s.block.year s.block.month e.date
    else fixedProbes s.block.maxProbes e.operands := ⟨_, rfl⟩
  have hge : s.block.fixedProbesCount ≤ fixed := by
    rw [hfixed']
    split_ifs
    · omega
    · exact le_fixedProbes (hfixed.trans (probesUpTo_le _ _ _))
        (fixed_evolves hl.1 hs.fixed_operands)
  have hle : fixed ≤ probesUpTo s.block.year s.block.month e.date := by
    rw [hfixed']
    split_ifs with hnil
    · exact le_rfl
    · exact hq.notAhead hnil
  have hcounts : refreshCounts { s.block with lastUpdateTime := szbRoundTime e.date dataSpan }
      e.operands e.date = (probesUpTo s.block.year s.block.month e.date, fixed) := by
    rw [hfixed']
    exact refreshCounts_spec rfl (hq.started hopen hdate)
  obtain ⟨b, hb, hholds, hy, hm, hu, hf⟩ := recompute_spec h
    (b := { s.block with lastUpdateTime := szbRoundTime e.date dataSpan })
    ⟨hs.holds.data, hs.holds.length_le, hs.holds.indices⟩ hcounts hge
    (probesUpTo_le s.block.year s.block.month e.date)
    (by rw [length_values]; exact hfixed) (by rw [length_values]; exact hmono)
    (values_take_evolves hl.1 hs.fixed_operands hfixed (hfixed.trans hmono) _ _)
    (by
      intro k hk
      rw [probe, probe, calculate, calculate, szbDefinableCalculate_time]
      exact (hq.season hopen hdate).imp_right fun hseason => hseason k hk)
    (hq.data hopen hdate)
  dsimp only at hholds hy hm hu
  refine ⟨b, hb, hy, hm, ?_, fun _ => hu, ?_, ?_⟩
  · rw [← hy, ← hm] at hholds
    exact hholds
  · rw [hf, hy, hm]
    exact hle
  · rw [hf, hfixed']
    intro o ho
    rw [if_neg (List.ne_nil_of_mem ho)]
    exact (fixedProbes_le s.block.maxProbes e.operands).2 o ho

theorem refresh_inv (h : Defined env param) {s : State} {e : Event} (hs : Inv env param s)
    (hl : Monotone s e) (hq : Reloads env param s e) :
    ∃ b, refresh env param e.operands e.date s.block = some b ∧ b.year = s.block.year ∧
      b.month = s.block.month ∧ Inv env param ⟨e.operands, e.date, b⟩ := by
  by_cases hfull : s.block.fixedProbesCount = s.block.maxProbes
  · refine ⟨s.block, ?_, rfl, rfl, hs.full hl hfull⟩
    rw [refresh, if_pos hfull]
  · by_cases hdate : szbRoundTime s.date dataSpan = szbRoundTime e.date dataSpan
    · refine ⟨s.block, ?_, rfl, rfl, hs.same hdate (hq.same hfull hdate)⟩
      rw [refresh, if_neg hfull, if_pos ((hs.updated hfull).trans hdate)]
    · have hne : s.block.lastUpdateTime ≠ szbRoundTime e.date dataSpan := by
        rw [hs.updated hfull]
        exact hdate
      rw [refresh, if_neg hfull, if_neg hne]
      exact recompute_inv h hs hl hq hfull hdate

theorem step_inv (h : Defined env param) (s : State) (e : Event) (hs : Inv env param s)
    (hl : Monotone s e) (hq : Reloads env param s e) : Inv env param (step env param s e) := by
  obtain ⟨b, hb, -, -, hinv⟩ := refresh_inv h hs hl hq
  rw [step, hb]
  exact hinv

theorem step_asNew (h : Defined env param) (s : State) (e : Event) (hs : Inv env param s)
    (hl : Monotone s e) (hq : Reloads env param s e) : AsNew env param s e := by
  obtain ⟨old, hold, hy, hm, hinv⟩ := refresh_inv h hs hl hq
  obtain ⟨fresh, hfresh, hholds, hy', hm', -⟩ := create_spec h e.operands s.block.year
    s.block.month e.date hq.notAhead
  have hholds' := hinv.holds
  dsimp only at hholds'
  rw [hy, hm] at hholds'
  have hmax : old.maxProbes = fresh.maxProbes := by rw [maxProbes, maxProbes, hy, hm, hy', hm']
  have hindices := hholds'.indices.trans hholds.indices.symm
  rw [Prod.mk.injEq] at hindices
  refine ⟨old, fresh, hold, hfresh, ?_, hindices.1, hindices.2⟩
  rw [hholds'.data, hholds.data, hmax]

/-- However the data base evolves: reloads that are all `Reloads` leave, each of them, what a new
block would hold, and no assertion of theirs fails. -/
theorem run_asNew (env : Environment) (param : DefinableParam) (year : ℤ) (month : ℕ)
    (h : Defined env param) (operands : List Operand) (date : ℤ) (b : Datablock)
    (hb : create env param operands year month date = some b)
    (hahead : NotAhead operands year month date) (es : List Event)
    (hes : Run.Along (step env param) Monotone ⟨operands, date, b⟩ es)
    (hq : Run.Along (step env param) (Reloads env param) ⟨operands, date, b⟩ es) :
    Run.Along (step env param) (AsNew env param) ⟨operands, date, b⟩ es := by
  obtain ⟨c, hc, hholds, hy, hm, hu, hf, hf'⟩ := create_spec h operands year month date hahead
  rw [hb, Option.some.injEq] at hc
  subst hc
  have hinv : Inv env param ⟨operands, date, b⟩ := by
    subst hy hm
    exact ⟨hholds, fun _ => hu, hf, hf'⟩
  exact Run.along_of_inv (step_inv h) (step_asNew h) hinv hes hq

/-! ### A season that starts in the month -/

def summer : Environment :=
  { Environment.plain with seasons := some fun t => decide (954633600 ≤ t) }

/-- The season is added to the operand. -/
def seasonal : DefinableParam := ⟨['0', ' ', 'S', ' ', '+'], 0⟩

def ones (n : ℕ) : Operand := ⟨0, some (List.replicate n (.value 1), n)⟩

theorem defined_seasonal : Defined summer seasonal := by
  intro row time
  cases row with
  | nil => exact ⟨Outcome.noConfusion, Outcome.noConfusion⟩
  | cons v row =>
    cases v with
    | none => exact ⟨Outcome.noConfusion, Outcome.noConfusion⟩
    | some x => exact ⟨Outcome.noConfusion, Outcome.noConfusion⟩

theorem evolves_ones {n n' : ℕ} (h : n ≤ n') : (ones n).Evolves (ones n') := by
  refine ⟨rfl, h, fun i hi => ?_⟩
  change i < n at hi
  change (List.replicate n' (Cell.value 1))[i]? = (List.replicate n (Cell.value 1))[i]?
  rw [List.getElem?_replicate, List.getElem?_replicate, if_pos hi, if_pos (by omega)]

theorem run_asNew_second_probe :
    ∃ b, create summer seasonal [ones 1] 2000 4 954547200 = some b ∧
      Run.Along (step summer seasonal) (AsNew summer seasonal) ⟨[ones 1], 954547200, b⟩
        [⟨[ones 2], 954547800⟩] := by
  have hahead : NotAhead [ones 1] 2000 4 954547200 := fun _ => by decide +kernel
  obtain ⟨b, hb, -, hy, hm, -, hf, -⟩ := create_spec defined_seasonal [ones 1] 2000 4 954547200
    hahead
  have hstart : b.startTime = 954547200 := by
    rw [startTime, hy, hm]
    decide +kernel
  have hcount : probesUpTo 2000 4 954547800 = 2 := by decide +kernel
  have hdate : szbRoundTime 954547200 dataSpan ≠ szbRoundTime 954547800 dataSpan := by decide
  have hf1 : b.fixedProbesCount ≤ 1 := hf.trans (by decide +kernel)
  refine ⟨b, hb, run_asNew summer seasonal 2000 4 defined_seasonal [ones 1] 954547200 b hb hahead
    [⟨[ones 2], 954547800⟩] ⟨⟨.cons (evolves_ones (by decide)) .nil, by norm_num⟩, trivial⟩
    ⟨⟨?_, fun _ h => absurd h hdate, fun _ _ => Or.inr ?_, fun _ _ _ _ _ => ?_,
      fun _ _ h => absurd h (by simp)⟩, trivial⟩⟩
  · rw [hy, hm]
    exact fun _ => by decide +kernel
  · dsimp only
    intro k hk isSummerSeason hsummer
    rw [hy, hm, hcount] at hk
    rw [hstart]
    cases hsummer
    dsimp only
    rw [decide_eq_false (by omega), decide_eq_false (by omega)]
  · dsimp only
    rw [hy, hm, hcount, hstart]
    exact ⟨1, by decide, hf1, by decide +kernel⟩

/-- The first probe of the summer is computed again with the time of the first probe of the
month. -/
theorem reload_at_season_start :
    Defined summer seasonal ∧ NotAhead [ones 144] 2000 4 954633000 ∧
      NotAhead [ones 145] 2000 4 954633600 ∧
      ∃ b, create summer seasonal [ones 144] 2000 4 954633000 = some b ∧
        Monotone ⟨[ones 144], 954633000, b⟩ ⟨[ones 145], 954633600⟩ ∧
        ¬ AsNew summer seasonal ⟨[ones 144], 954633000, b⟩ ⟨[ones 145], 954633600⟩ := by
  have hahead : NotAhead [ones 144] 2000 4 954633000 := fun _ => by decide +kernel
  obtain ⟨b, hb, -, hy, hm, -⟩ := create_spec defined_seasonal [ones 144] 2000 4 954633000 hahead
  have hold : ((create summer seasonal [ones 144] 2000 4 954633000).bind fun b =>
      (refresh summer seasonal [ones 145] 954633600 b).map fun b => (b.data.getD [])[144]?) =
        some (some (.value 1)) := by decide +kernel
  have hfresh : ((create summer seasonal [ones 145] 2000 4 954633600).map fun b =>
      (b.data.getD [])[144]?) = some (some (.value 2)) := by decide +kernel
  refine ⟨defined_seasonal, hahead, fun _ => by decide +kernel, b, hb,
    ⟨.cons (evolves_ones (by decide)) .nil, by norm_num⟩, ?_⟩
  rintro ⟨old, fresh, hr, hc, hdata, -⟩
  dsimp only at hr hc
  rw [hb, Option.bind_some, hr, Option.map_some, hdata] at hold
  rw [hy, hm] at hc
  rw [hc, Option.map_some, hold] at hfresh
  exact absurd hfresh (by decide +kernel)

end DefinableDatablock

end Szbase
end Szarp
