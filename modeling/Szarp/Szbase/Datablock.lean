import Szarp.Lib.Dump
import Szarp.Szbase.Date

/-!
# Month blocks

What the blocks of `szb_datablock_t` have in common: the array with the probes of a month, the
indices of its first and last data, and the number of probes that will not change any more.
-/

namespace Szarp
namespace Szbase

/-- A sample of a data file, `SZB_FILE_TYPE`. -/
abbrev Word := BitVec 16

/-- `SZB_FILE_NODATA`: the least number a sample can have. -/
def fileNodata : Word := BitVec.intMin 16

/-- A place of a data array; `uninit` is allocated memory that was not written. -/
inductive Cell where
  | uninit
  | nodata
  | value (v : ℚ)
deriving DecidableEq

def Cell.isData : Cell → Bool
  | value _ => true
  | _ => false

structure Datablock where
  year : ℤ
  month : ℕ
  data : Option (List Cell)
  firstDataProbeIndex : ℤ
  lastDataProbeIndex : ℤ
  lastUpdateTime : ℤ
  fixedProbesCount : ℕ
deriving DecidableEq

namespace Datablock

def new (year : ℤ) (month : ℕ) : Datablock := ⟨year, month, none, -1, -1, -1, 0⟩

def maxProbes (b : Datablock) : ℕ := (szbProbecnt b.year b.month).toNat

def startTime (b : Datablock) : ℤ := probe2time 0 b.year b.month

def endTime (b : Datablock) : ℤ := probe2time (szbProbecnt b.year b.month - 1) b.year b.month

def allocateDataMemory (b : Datablock) : Datablock :=
  { b with data := some (List.replicate b.maxProbes .uninit) }

/-- `data[i] = v` -/
def setData (b : Datablock) (i : ℕ) (v : Cell) : Datablock :=
  { b with data := b.data.map fun d => d.set i v }

def noteIndex (b : Datablock) (i : ℕ) (v : Cell) : Datablock :=
  if v.isData then
    { b with
      firstDataProbeIndex := if b.firstDataProbeIndex < 0 then i else b.firstDataProbeIndex
      lastDataProbeIndex := i }
  else b

def storeFrom : ℕ → List Cell → Datablock → Datablock
  | _, [], b => b
  | i, v :: vs, b => storeFrom (i + 1) vs ((b.setData i v).noteIndex i v)

/-- `for (; i < max_probes; i++) data[i] = SZB_NODATA` -/
def fillNodata (i : ℕ) (b : Datablock) : Datablock :=
  { b with data := b.data.map fun d => d.take i ++ List.replicate (d.length - i) .nodata }

end Datablock

/-! ## Reading a file

A read of a file delivers all that is asked for and there is. -/

/-- The loop of `szb_load_data`, counted in samples: after a short read the position is set to
the length of what was read.  The first argument bounds the passes. -/
def loadLoop (file : List Word) : ℕ → ℕ → ℕ → List Word
  | 0, _, _ => []
  | n + 1, pos, toRead =>
    if toRead = 0 then []
    else
      let chunk := (file.drop pos).take toRead
      let pos := if chunk.length < toRead then chunk.length else pos + chunk.length
      if chunk = [] then [] else chunk ++ loadLoop file n pos (toRead - chunk.length)

def szbLoadData (file : List Word) (start count : ℕ) : List Word :=
  loadLoop file (count + 1) start count

attribute [local simp] loadLoop

theorem loadLoop_zero (file : List Word) (n pos : ℕ) : loadLoop file n pos 0 = [] := by
  cases n <;> rfl

theorem szbLoadData_available {file : List Word} {start count : ℕ}
    (h : start + count ≤ file.length) :
    szbLoadData file start count = (file.drop start).take count := by
  have hlen : ((file.drop start).take count).length = count := by
    rw [List.length_take, List.length_drop]
    omega
  rw [szbLoadData, loadLoop]
  rcases Nat.eq_zero_or_pos count with h0 | h0
  · rw [if_pos h0, h0, List.take_zero]
  · have hne : (file.drop start).take count ≠ [] := List.length_pos_iff.mp (by omega)
    rw [if_neg (by omega)]
    dsimp only
    rw [if_neg hne, hlen, Nat.sub_self, loadLoop_zero, List.append_nil]

theorem szbLoadData_start (file : List Word) (count : ℕ) :
    szbLoadData file 0 count = file.take count := by
  rcases Nat.lt_or_ge file.length count with hlt | hge
  · obtain ⟨count, rfl⟩ : ∃ c, count = c + 1 := ⟨count - 1, by omega⟩
    have htake : file.take (count + 1) = file := List.take_of_length_le (by omega)
    rw [szbLoadData, loadLoop, if_neg (by omega), List.drop_zero, htake]
    dsimp only
    rw [if_pos hlt]
    split_ifs with hnil
    · exact hnil.symm
    · -- the second pass finds the end of the file
      rw [loadLoop, List.drop_length]
      simp
  · rw [szbLoadData_available (by omega), List.drop_zero]

/-! ## The loops over the probes -/

namespace Datablock

/-- The first and the last index with data after the probes `vs` from index `i` on. -/
def scan : ℕ → List Cell → ℤ × ℤ → ℤ × ℤ
  | _, [], p => p
  | i, v :: vs, p =>
    scan (i + 1) vs (if v.isData then (if p.1 < 0 then (i : ℤ) else p.1, (i : ℤ)) else p)

theorem scan_append (i : ℕ) (vs ws : List Cell) (p : ℤ × ℤ) :
    scan i (vs ++ ws) p = scan (i + vs.length) ws (scan i vs p) := by
  induction vs generalizing i p with
  | nil => rfl
  | cons v vs ih =>
    rw [List.cons_append, scan, ih, scan, List.length_cons]
    congr 1
    omega

theorem scan_of_no_data (i : ℕ) {vs : List Cell} (h : ∀ v ∈ vs, v.isData = false) (p : ℤ × ℤ) :
    scan i vs p = p := by
  induction vs generalizing i with
  | nil => rfl
  | cons v vs ih =>
    rw [scan, h v (by simp), if_neg (by decide)]
    exact ih (i + 1) fun w hw => h w (by simp [hw])

theorem scan_fst_of_nonneg (i : ℕ) (vs : List Cell) {p : ℤ × ℤ} (h : 0 ≤ p.1) :
    (scan i vs p).1 = p.1 := by
  induction vs generalizing i p with
  | nil => rfl
  | cons v vs ih =>
    rw [scan]
    cases v.isData with
    | false => exact ih (i + 1) h
    | true =>
      rw [if_pos rfl, if_neg (not_lt.mpr h)]
      exact ih (i + 1) h

theorem scan_fst_nonneg (i : ℕ) {vs : List Cell} (p : ℤ × ℤ) (h : ∃ v ∈ vs, v.isData = true) :
    0 ≤ (scan i vs p).1 := by
  induction vs generalizing i p with
  | nil => simp at h
  | cons v vs ih =>
    rw [scan]
    cases hv : v.isData with
    | false =>
      obtain ⟨w, hw, hdata⟩ := h
      rcases List.mem_cons.mp hw with rfl | hw
      · rw [hv] at hdata
        exact absurd hdata (by decide)
      · exact ih (i + 1) _ ⟨w, hw, hdata⟩
    | true =>
      rw [if_pos rfl]
      have hfirst : 0 ≤ (if p.1 < 0 then (i : ℤ) else p.1) := by split_ifs <;> omega
      rw [scan_fst_of_nonneg (i + 1) vs hfirst]
      exact hfirst

theorem scan_snd (i : ℕ) (vs : List Cell) {p q : ℤ × ℤ} (h : p.2 = q.2) :
    (scan i vs p).2 = (scan i vs q).2 := by
  induction vs generalizing i p q with
  | nil => exact h
  | cons v vs ih =>
    rw [scan, scan]
    cases v.isData with
    | false => exact ih (i + 1) h
    | true => exact ih (i + 1) rfl

theorem storeFrom_frame (i : ℕ) (vs : List Cell) (b : Datablock) :
    (storeFrom i vs b).year = b.year ∧ (storeFrom i vs b).month = b.month ∧
      (storeFrom i vs b).lastUpdateTime = b.lastUpdateTime ∧
      (storeFrom i vs b).fixedProbesCount = b.fixedProbesCount := by
  induction vs generalizing i b with
  | nil => exact ⟨rfl, rfl, rfl, rfl⟩
  | cons v vs ih =>
    rw [storeFrom]
    obtain ⟨h1, h2, h3, h4⟩ := ih (i + 1) ((b.setData i v).noteIndex i v)
    rw [h1, h2, h3, h4]
    cases hv : v.isData <;> simp [noteIndex, hv, setData]

theorem storeFrom_indices (i : ℕ) (vs : List Cell) (b : Datablock) :
    ((storeFrom i vs b).firstDataProbeIndex, (storeFrom i vs b).lastDataProbeIndex) =
      scan i vs (b.firstDataProbeIndex, b.lastDataProbeIndex) := by
  induction vs generalizing i b with
  | nil => rfl
  | cons v vs ih =>
    rw [storeFrom, ih, scan, noteIndex]
    cases v.isData <;> rfl

theorem storeFrom_data {i : ℕ} {vs : List Cell} {b : Datablock} {d : List Cell}
    (hd : b.data = some d) (h : i + vs.length ≤ d.length) :
    (storeFrom i vs b).data = some (d.take i ++ vs ++ d.drop (i + vs.length)) := by
  induction vs generalizing i b d with
  | nil => simp [storeFrom, hd]
  | cons v vs ih =>
    rw [List.length_cons] at h
    have hset : ((b.setData i v).noteIndex i v).data = some (d.set i v) := by
      cases hv : v.isData <;> simp [noteIndex, hv, setData, hd]
    rw [storeFrom, ih hset (by rw [List.length_set]; omega),
      Region.take_set_drop d v vs (by omega)]

/-- The block holds the probes `vs`, and no data behind them. -/
structure Holds (b : Datablock) (vs : List Cell) : Prop where
  data : b.data = some (vs ++ List.replicate (b.maxProbes - vs.length) .nodata)
  length_le : vs.length ≤ b.maxProbes
  indices : (b.firstDataProbeIndex, b.lastDataProbeIndex) = scan 0 vs (-1, -1)

theorem storeFrom_maxProbes (i : ℕ) (vs : List Cell) (b : Datablock) :
    (storeFrom i vs b).maxProbes = b.maxProbes := by
  obtain ⟨hy, hm, -⟩ := storeFrom_frame i vs b
  rw [maxProbes, hy, hm, maxProbes]

theorem holds_of_store {b : Datablock} {d : List Cell} (vs : List Cell) (hd : b.data = some d)
    (hlen : d.length = b.maxProbes) (hvs : vs.length ≤ b.maxProbes)
    (hfirst : b.firstDataProbeIndex = -1) (hlast : b.lastDataProbeIndex = -1) :
    Holds (fillNodata vs.length (storeFrom 0 vs b)) vs := by
  have hmax : (fillNodata vs.length (storeFrom 0 vs b)).maxProbes = b.maxProbes :=
    storeFrom_maxProbes 0 vs b
  have hdata := storeFrom_data hd (show 0 + vs.length ≤ d.length by omega)
  refine ⟨?_, by omega, ?_⟩
  · rw [hmax]
    simp only [fillNodata, hdata, List.take_zero, List.nil_append, Option.map_some,
      List.take_left, List.length_append, List.length_drop, Option.some.injEq]
    congr 2
    omega
  · have hind := storeFrom_indices 0 vs b
    rw [hfirst, hlast] at hind
    exact hind

/-- Loading more probes behind those that are there. -/
theorem Holds.store {b : Datablock} {vs : List Cell} (h : b.Holds vs) (ws : List Cell)
    (hlen : vs.length + ws.length ≤ b.maxProbes) :
    Holds (storeFrom vs.length ws b) (vs ++ ws) := by
  have hmax := storeFrom_maxProbes vs.length ws b
  have hfit : vs.length + ws.length ≤
      (vs ++ List.replicate (b.maxProbes - vs.length) Cell.nodata).length := by
    rw [List.length_append, List.length_replicate]
    omega
  refine ⟨?_, by rw [hmax, List.length_append]; exact hlen, ?_⟩
  · rw [storeFrom_data h.data hfit, hmax, List.take_left, List.drop_append, List.drop_replicate,
      List.drop_eq_nil_of_le (by omega), List.nil_append, List.length_append,
      show b.maxProbes - vs.length - (vs.length + ws.length - vs.length) =
        b.maxProbes - (vs.length + ws.length) by omega]
  · rw [storeFrom_indices, h.indices, scan_append, Nat.zero_add]

end Datablock

end Szbase
end Szarp
