import Szarp.Lib.Run
import Szarp.Szbase.Datablock

/-!
# Blocks of real parameters

The probes of a real parameter are the samples of the data file of a month.  The file may be
missing when the block is made; the block has no data array then.
-/

namespace Szarp
namespace Szbase

/-- One probe of a real parameter with `prec` decimal places. -/
def realProbe (prec : ℕ) (w : Word) : Cell :=
  if w = fileNodata then .nodata else .value (w.toInt / 10 ^ prec)

structure RealDatablock extends Datablock where
  probesFromFile : ℕ
deriving DecidableEq

namespace RealDatablock

def loadFromFile (prec : ℕ) (file : List Word) (b : RealDatablock) : RealDatablock :=
  let buf := szbLoadData file 0 b.maxProbes
  let block := { b.toDatablock with fixedProbesCount := buf.length }
  let block := block.allocateDataMemory.storeFrom 0 (buf.map (realProbe prec))
  ⟨block.fillNodata buf.length, buf.length⟩

/-- The constructor; `file` is `none` when there is no file, `date` is the meaner date of the
buffer, and `last` is what `szb_search_last` finds. -/
def create (year : ℤ) (month prec : ℕ) (file : Option (List Word)) (date last : ℤ) :
    RealDatablock :=
  let b : RealDatablock :=
    ⟨{ Datablock.new year month with lastUpdateTime := szbRoundTime date dataSpan }, 0⟩
  match file with
  | some file => b.loadFromFile prec file
  | none =>
    let (ly, lm) := szbTime2my last
    if year < ly ∨ year = ly ∧ month < lm then { b with fixedProbesCount := b.maxProbes } else b

/-- The conversion loop of `Refresh`: the index of the first data is not looked at. -/
def storeNew : ℕ → List Cell → Datablock → Datablock
  | _, [], b => b
  | i, v :: vs, b =>
    let b := b.setData i v
    storeNew (i + 1) vs (if v.isData then { b with lastDataProbeIndex := i } else b)

/-- What is fixed after new samples have been read. -/
def fixedAfter (b : Datablock) (probesFromFile : ℕ) : ℕ :=
  if b.lastUpdateTime > b.endTime then b.maxProbes
  else if b.lastUpdateTime < b.startTime then probesFromFile
  else
    let tmp := (szbProbeind b.lastUpdateTime dataSpan).toNat + 1
    if probesFromFile < tmp then probesFromFile else tmp

def refreshMissing (b : RealDatablock) : RealDatablock :=
  if b.firstDataProbeIndex < 0 then
    if b.lastUpdateTime > b.endTime then { b with fixedProbesCount := b.maxProbes }
    else if b.lastUpdateTime ≥ b.startTime then
      { b with fixedProbesCount := (szbProbeind b.lastUpdateTime dataSpan).toNat }
    else b
  else b

def refreshFile (prec : ℕ) (file : List Word) (b : RealDatablock) : RealDatablock :=
  let memAllocated := b.data = none
  let block := if memAllocated then b.allocateDataMemory else b.toDatablock
  if file.length ≤ b.probesFromFile then { b with toDatablock := block }
  else
    let buf := (file.drop b.probesFromFile).take (file.length - b.probesFromFile)
    let block := storeNew b.probesFromFile (buf.map (realProbe prec)) block
    let probesFromFile := b.probesFromFile + buf.length
    let fixed := fixedAfter block probesFromFile
    let block := { block with fixedProbesCount := fixed }
    ⟨if memAllocated then block.fillNodata fixed else block, probesFromFile⟩

def refresh (prec : ℕ) (file : Option (List Word)) (date : ℤ) (b : RealDatablock) :
    RealDatablock :=
  if b.fixedProbesCount = b.maxProbes then b
  else if b.lastUpdateTime = szbRoundTime date dataSpan then b
  else
    let b := { b with lastUpdateTime := szbRoundTime date dataSpan }
    match file with
    | none => b.refreshMissing
    | some file => b.refreshFile prec file

/-- The empty field stands for a missing array. -/
def getData (b : RealDatablock) : List Cell :=
  b.data.getD (List.replicate b.maxProbes .nodata)

/-! ## The conversion loop -/

theorem storeNew_eq (i : ℕ) (vs : List Cell) (b : Datablock) (first : ℤ) :
    storeNew i vs { b with firstDataProbeIndex := first } =
      { Datablock.storeFrom i vs b with firstDataProbeIndex := first } := by
  induction vs generalizing i b with
  | nil => rfl
  | cons v vs ih =>
    rw [storeNew, Datablock.storeFrom, ← ih]
    congr 1
    cases hv : v.isData <;> simp [Datablock.noteIndex, hv, Datablock.setData]

theorem storeNew_spec (i : ℕ) (vs : List Cell) (b : Datablock) :
    (storeNew i vs b).data = (Datablock.storeFrom i vs b).data ∧
      (storeNew i vs b).firstDataProbeIndex = b.firstDataProbeIndex ∧
      (storeNew i vs b).lastDataProbeIndex = (Datablock.storeFrom i vs b).lastDataProbeIndex ∧
      (storeNew i vs b).year = b.year ∧ (storeNew i vs b).month = b.month ∧
      (storeNew i vs b).lastUpdateTime = b.lastUpdateTime := by
  have heq := storeNew_eq i vs b b.firstDataProbeIndex
  change storeNew i vs b = _ at heq
  obtain ⟨hy, hm, ht, -⟩ := Datablock.storeFrom_frame i vs b
  rw [heq]
  exact ⟨rfl, rfl, rfl, hy, hm, ht⟩

theorem isData_realProbe (prec : ℕ) (w : Word) :
    (realProbe prec w).isData = true ↔ w ≠ fileNodata := by
  unfold realProbe
  split_ifs with h <;> simp [h, Cell.isData]

theorem realProbe_eq_nodata (prec : ℕ) (w : Word) : realProbe prec w = .nodata ↔ w = fileNodata := by
  unfold realProbe
  split_ifs with h <;> simp [h]

/-- The samples are all without data. -/
def NoData (ws : List Word) : Prop := ∀ w ∈ ws, w = fileNodata

theorem map_realProbe_of_noData {prec : ℕ} {ws : List Word} (h : NoData ws) :
    ws.map (realProbe prec) = List.replicate ws.length .nodata := by
  refine List.eq_replicate_iff.mpr ⟨List.length_map _, fun v hv => ?_⟩
  obtain ⟨w, hw, rfl⟩ := List.mem_map.mp hv
  exact (realProbe_eq_nodata prec w).mpr (h w hw)

theorem scan_of_noData (prec i : ℕ) {ws : List Word} (h : NoData ws) (p : ℤ × ℤ) :
    Datablock.scan i (ws.map (realProbe prec)) p = p := by
  refine Datablock.scan_of_no_data i (fun v hv => ?_) p
  rw [map_realProbe_of_noData h] at hv
  rw [List.eq_of_mem_replicate hv]
  rfl

/-- Without data before, the first index changes exactly when there is data. -/
theorem scan_fst_eq_iff (prec i : ℕ) (ws : List Word) (p : ℤ × ℤ) :
    (Datablock.scan i (ws.map (realProbe prec)) p).1 = p.1 ↔ (p.1 < 0 → NoData ws) := by
  constructor
  · intro h hneg
    by_contra hdata
    unfold NoData at hdata
    push Not at hdata
    obtain ⟨w, hw, hne⟩ := hdata
    have := Datablock.scan_fst_nonneg i p
      ⟨realProbe prec w, List.mem_map_of_mem hw, (isData_realProbe prec w).mpr hne⟩
    omega
  · intro h
    rcases lt_or_ge p.1 0 with hneg | hpos
    · rw [scan_of_noData prec i (h hneg)]
    · exact Datablock.scan_fst_of_nonneg i _ hpos

/-! ## Blocks that agree with a file -/

/-- The block looks as if it had just been loaded from the file. -/
def Current (prec : ℕ) (file : List Word) (b : RealDatablock) : Prop :=
  b.getData = file.map (realProbe prec) ++ List.replicate (b.maxProbes - file.length) .nodata ∧
    (b.firstDataProbeIndex, b.lastDataProbeIndex) =
      Datablock.scan 0 (file.map (realProbe prec)) (-1, -1)

theorem create_current (year : ℤ) (month prec : ℕ) {file : List Word} (date last : ℤ)
    (hlen : file.length ≤ (szbProbecnt year month).toNat) :
    Current prec file (create year month prec (some file) date last) ∧
      (create year month prec (some file) date last).probesFromFile = file.length ∧
      (create year month prec (some file) date last).data ≠ none ∧
      (create year month prec (some file) date last).year = year ∧
      (create year month prec (some file) date last).month = month := by
  have hload : szbLoadData file 0 (szbProbecnt year month).toNat = file := by
    rw [szbLoadData_start, List.take_of_length_le hlen]
  simp only [create, loadFromFile, Datablock.new, Datablock.maxProbes,
    Datablock.allocateDataMemory, hload]
  generalize hb : (⟨year, month, some (List.replicate (szbProbecnt year month).toNat .uninit), -1,
    -1, szbRoundTime date dataSpan, file.length⟩ : Datablock) = b
  have hholds := Datablock.holds_of_store (b := b) (d := _) (file.map (realProbe prec))
    (by rw [← hb]) (by rw [← hb]; exact List.length_replicate)
    (by rw [← hb, List.length_map]; exact hlen) (by rw [← hb]) (by rw [← hb])
  rw [List.length_map] at hholds
  obtain ⟨hy, hm, -, -⟩ := Datablock.storeFrom_frame 0 (file.map (realProbe prec)) b
  refine ⟨⟨?_, hholds.indices⟩, trivial, ?_, ?_, ?_⟩
  · have hdata := hholds.data
    rw [List.length_map] at hdata
    rw [getData, hdata, Option.getD_some]
  · rw [hholds.data]
    simp
  · exact hy.trans (by rw [← hb])
  · exact hm.trans (by rw [← hb])

theorem Current.holds {prec : ℕ} {file : List Word} {b : RealDatablock} (h : Current prec file b)
    {d : List Cell} (hd : b.data = some d) (hlen : file.length ≤ b.maxProbes) :
    b.toDatablock.Holds (file.map (realProbe prec)) := by
  refine ⟨?_, by rw [List.length_map]; exact hlen, h.2⟩
  have hdata := h.1
  rw [getData, hd, Option.getD_some] at hdata
  rw [hd, hdata, List.length_map]

/-! ## One reload -/

structure Inv (prec : ℕ) (file : List Word) (b : RealDatablock) : Prop where
  current : Current prec (file.take b.probesFromFile) b
  length_le : file.length ≤ b.maxProbes
  probes_le : b.probesFromFile ≤ file.length
  missing : b.data = none → b.probesFromFile = 0

/-- When a reload of a block from a file succeeds: the samples that came after the block was
fixed, or before any data was found, are all without data; and an array that is allocated late
is written to the end. -/
structure Meets (file : List Word) (date : ℤ) (b : RealDatablock) : Prop where
  fixed : b.fixedProbesCount = b.maxProbes → NoData (file.drop b.probesFromFile)
  first : b.fixedProbesCount ≠ b.maxProbes → b.firstDataProbeIndex < 0 →
    NoData (file.drop b.probesFromFile)
  late : b.fixedProbesCount ≠ b.maxProbes → b.data = none →
    file ≠ [] ∧ (szbRoundTime date dataSpan ≤ b.endTime ∨ file.length = b.maxProbes)

theorem Inv.current_iff {prec : ℕ} {file : List Word} {b : RealDatablock}
    (h : Inv prec file b) : Current prec file b ↔ NoData (file.drop b.probesFromFile) := by
  have hlen := h.length_le
  have hprobes := h.probes_le
  have htake : (file.take b.probesFromFile).length = b.probesFromFile := by
    rw [List.length_take]
    omega
  have hfile : file.map (realProbe prec) = (file.take b.probesFromFile).map (realProbe prec) ++
      (file.drop b.probesFromFile).map (realProbe prec) := by
    rw [← List.map_append, List.take_append_drop]
  obtain ⟨hdata, hindices⟩ := h.current
  rw [htake] at hdata
  constructor
  · rintro ⟨hdata', -⟩
    rw [hdata, hfile, List.append_assoc, List.append_cancel_left_eq] at hdata'
    intro w hw
    have hmem : realProbe prec w ∈ List.replicate (b.maxProbes - b.probesFromFile) Cell.nodata := by
      rw [hdata']
      exact List.mem_append_left _ (List.mem_map_of_mem hw)
    exact (realProbe_eq_nodata prec w).mp (List.eq_of_mem_replicate hmem)
  · intro hno
    refine ⟨?_, ?_⟩
    · rw [hdata, hfile, map_realProbe_of_noData hno, List.append_assoc, List.replicate_append_replicate,
        List.length_drop]
      congr 2
      omega
    · rw [hfile, Datablock.scan_append, scan_of_noData prec _ hno]
      exact hindices

theorem refreshFile_allocated {prec : ℕ} {file : List Word} {b : RealDatablock} {d : List Cell}
    (h : Inv prec file b) (hd : b.data = some d) :
    (Current prec file (b.refreshFile prec file) ↔
        (b.firstDataProbeIndex < 0 → NoData (file.drop b.probesFromFile))) ∧
      (b.refreshFile prec file).probesFromFile = file.length ∧
      (b.refreshFile prec file).data ≠ none ∧
      (b.refreshFile prec file).year = b.year ∧ (b.refreshFile prec file).month = b.month := by
  have hlen := h.length_le
  have hprobes := h.probes_le
  have hnone : ¬ b.data = none := by simp [hd]
  have htake : (file.take b.probesFromFile).length = b.probesFromFile := by
    rw [List.length_take]
    omega
  rw [refreshFile]
  simp only [if_neg hnone]
  by_cases hle : file.length ≤ b.probesFromFile
  · have heq : b.probesFromFile = file.length := by omega
    have hcur := h.current
    rw [heq, List.take_length] at hcur
    rw [if_pos hle]
    refine ⟨⟨fun _ _ => ?_, fun _ => hcur⟩, heq, hnone, rfl, rfl⟩
    rw [heq, List.drop_length]
    exact fun w hw => absurd hw List.not_mem_nil
  · have hbuf : (file.drop b.probesFromFile).take (file.length - b.probesFromFile) =
        file.drop b.probesFromFile := List.take_of_length_le (by rw [List.length_drop])
    have hstored := (h.current.holds hd (by omega)).store
      ((file.drop b.probesFromFile).map (realProbe prec)) (by
        rw [List.length_map, List.length_map, htake, List.length_drop]
        omega)
    rw [List.length_map, htake, ← List.map_append, List.take_append_drop] at hstored
    have hpair := (Datablock.storeFrom_indices b.probesFromFile
      ((file.drop b.probesFromFile).map (realProbe prec)) b.toDatablock).symm.trans hstored.indices
    obtain ⟨hdata, hfirst, hlast, hy, hm, -⟩ := storeNew_spec b.probesFromFile
      ((file.drop b.probesFromFile).map (realProbe prec)) b.toDatablock
    rw [hstored.data, List.length_map, Datablock.storeFrom_maxProbes] at hdata
    rw [if_neg hle, hbuf]
    generalize storeNew b.probesFromFile ((file.drop b.probesFromFile).map (realProbe prec))
      b.toDatablock = c at hdata hfirst hlast hy hm
    refine ⟨?_, ?_, by rw [hdata]; simp, hy, hm⟩
    · rw [← scan_fst_eq_iff prec b.probesFromFile (file.drop b.probesFromFile)
        (b.firstDataProbeIndex, b.lastDataProbeIndex), hpair]
      constructor
      · rintro ⟨-, hindices⟩
        rw [← hindices]
        exact hfirst
      · intro heq
        refine ⟨?_, Prod.ext (hfirst.trans heq.symm) ?_⟩
        · simp only [getData, hdata, Option.getD_some, Datablock.maxProbes, hy, hm]
        · exact hlast.trans (congrArg Prod.snd hstored.indices)
    · dsimp only
      rw [List.length_drop]
      omega

theorem fixedAfter_le {b : Datablock} {n : ℕ} (h : b.lastUpdateTime ≤ b.endTime) :
    fixedAfter b n ≤ n := by
  rw [fixedAfter, if_neg (not_lt.mpr h)]
  dsimp only
  split_ifs <;> omega

theorem fixedAfter_late {b : Datablock} {n : ℕ} (h : b.endTime < b.lastUpdateTime) :
    fixedAfter b n = b.maxProbes := by
  rw [fixedAfter, if_pos h]

/-- An array that is allocated late: nothing in it is written before, and the indices are those
of an empty block. -/
theorem refreshFile_late {prec : ℕ} {file : List Word} {b : RealDatablock}
    (h : Inv prec file b) (hd : b.data = none) (hmax : 0 < b.maxProbes) :
    (Current prec file (b.refreshFile prec file) ↔
        NoData file ∧ file ≠ [] ∧ (b.lastUpdateTime ≤ b.endTime ∨ file.length = b.maxProbes)) ∧
      (b.refreshFile prec file).probesFromFile = file.length ∧
      (b.refreshFile prec file).data ≠ none ∧
      (b.refreshFile prec file).year = b.year ∧ (b.refreshFile prec file).month = b.month := by
  have hlen := h.length_le
  have hzero := h.missing hd
  have hindices := h.current.2
  rw [hzero, List.take_zero, List.map_nil, Datablock.scan, Prod.mk.injEq] at hindices
  obtain ⟨hfirst, hlast⟩ := hindices
  rw [refreshFile]
  simp only [hzero, hd, if_true]
  by_cases hle : file.length ≤ 0
  · obtain rfl := List.eq_nil_of_length_eq_zero (Nat.le_zero.mp hle)
    rw [if_pos hle]
    refine ⟨⟨fun hc => ?_, fun hc => absurd rfl hc.2.1⟩, rfl, by simp [Datablock.allocateDataMemory],
      rfl, rfl⟩
    -- the array has been allocated and nothing has been written
    have hdata := hc.1
    have hcell : Cell.uninit ∈ List.replicate b.maxProbes Cell.nodata := by
      rw [List.map_nil, List.nil_append, List.length_nil, Nat.sub_zero] at hdata
      change List.replicate b.maxProbes Cell.uninit = List.replicate b.maxProbes Cell.nodata at hdata
      rw [← hdata]
      exact List.mem_replicate.mpr ⟨by omega, rfl⟩
    exact absurd (List.eq_of_mem_replicate hcell) (by decide)
  · have hbuf : (file.drop 0).take (file.length - 0) = file := by
      rw [List.drop_zero, Nat.sub_zero, List.take_length]
    obtain ⟨hdata, hfirst', hlast', hy, hm, ht⟩ := storeNew_spec 0 (file.map (realProbe prec))
      b.allocateDataMemory
    have halloc : b.allocateDataMemory.data = some (List.replicate b.maxProbes .uninit) := rfl
    rw [Datablock.storeFrom_data halloc (by simpa using hlen)] at hdata
    have hpair := Datablock.storeFrom_indices 0 (file.map (realProbe prec)) b.allocateDataMemory
    change _ = Datablock.scan 0 _ (b.firstDataProbeIndex, b.lastDataProbeIndex) at hpair
    rw [hfirst, hlast] at hpair
    rw [if_neg hle, hbuf, Nat.zero_add]
    generalize storeNew 0 (file.map (realProbe prec)) b.allocateDataMemory = c at *
    rw [List.take_zero, List.nil_append, Nat.zero_add, List.length_map, List.drop_replicate] at hdata
    have hmax' : c.maxProbes = b.maxProbes := by rw [Datablock.maxProbes, hy, hm]; rfl
    have hend : c.endTime = b.endTime := by rw [Datablock.endTime, hy, hm]; rfl
    have ht' : c.lastUpdateTime = b.lastUpdateTime := ht
    generalize hfixed : fixedAfter c file.length = fixed
    have hfill : (Datablock.fillNodata fixed { c with fixedProbesCount := fixed }).data =
        some ((file.map (realProbe prec) ++
          List.replicate (b.maxProbes - file.length) Cell.uninit).take fixed ++
          List.replicate (b.maxProbes - fixed) Cell.nodata) := by
      simp only [Datablock.fillNodata, hdata, Option.map_some, List.length_append, List.length_map,
        List.length_replicate]
      rw [show file.length + (b.maxProbes - file.length) = b.maxProbes by omega]
    refine ⟨⟨fun hc => ?_, fun hc => ?_⟩, rfl, by simp [hfill], hy, hm⟩
    · obtain ⟨hcdata, hcind⟩ := hc
      have hno : NoData file := by
        refine (scan_fst_eq_iff prec 0 file (-1, -1)).mp ?_ (by decide)
        rw [← hcind]
        exact hfirst'.trans hfirst
      refine ⟨hno, by rintro rfl; exact hle le_rfl, ?_⟩
      by_contra hnot
      push Not at hnot
      obtain ⟨hlate, hshort⟩ := hnot
      rw [fixedAfter_late (by omega), hmax'] at hfixed
      simp only [getData, hfill, Option.getD_some] at hcdata
      rw [← hfixed, Nat.sub_self, List.replicate_zero, List.append_nil, List.take_of_length_le (by
        rw [List.length_append, List.length_map, List.length_replicate]
        omega), List.append_cancel_left_eq] at hcdata
      -- behind the samples nothing has been written
      have hcell : Cell.uninit ∈ List.replicate (b.maxProbes - file.length) Cell.uninit :=
        List.mem_replicate.mpr ⟨by omega, rfl⟩
      rw [hcdata] at hcell
      exact absurd (List.eq_of_mem_replicate hcell) (by decide)
    · obtain ⟨hno, -, htail⟩ := hc
      have hle' : fixed ≤ b.maxProbes := by
        rcases le_or_gt c.lastUpdateTime c.endTime with htime | htime
        · exact (hfixed ▸ fixedAfter_le htime).trans hlen
        · rw [← hfixed, fixedAfter_late htime, hmax']
      have htake : (file.map (realProbe prec) ++
          List.replicate (b.maxProbes - file.length) Cell.uninit).take fixed =
          List.replicate fixed Cell.nodata := by
        rw [map_realProbe_of_noData hno]
        rcases htail with htime | hfull
        · have hfle : fixed ≤ file.length := hfixed ▸ fixedAfter_le (by omega)
          rw [List.take_append_of_le_length (by rw [List.length_replicate]; exact hfle),
            List.take_replicate, min_eq_left hfle]
        · rw [hfull, Nat.sub_self, List.replicate_zero, List.append_nil, List.take_replicate,
            min_eq_left hle']
      refine ⟨?_, ?_⟩
      · simp only [getData, hfill, Option.getD_some]
        rw [htake, map_realProbe_of_noData hno, List.replicate_append_replicate,
          List.replicate_append_replicate]
        congr 1
        change fixed + (b.maxProbes - fixed) = file.length + (c.maxProbes - file.length)
        omega
      · refine Prod.ext ?_ ?_
        · rw [scan_of_noData prec 0 hno]
          exact hfirst'.trans hfirst
        · exact hlast'.trans (congrArg Prod.snd hpair)

/-- A reload that sees a new meaner date and a file succeeds exactly when it meets the
condition, and then the block is again as the runs have it. -/
theorem refresh_spec {prec : ℕ} {file : List Word} {b : RealDatablock} {date : ℤ}
    (h : Inv prec file b) (hmax : 0 < b.maxProbes)
    (hdate : szbRoundTime date dataSpan ≠ b.lastUpdateTime) :
    (Current prec file (b.refresh prec (some file) date) ↔ Meets file date b) ∧
      (Meets file date b → Inv prec file (b.refresh prec (some file) date)) ∧
      (b.refresh prec (some file) date).year = b.year ∧
      (b.refresh prec (some file) date).month = b.month := by
  rw [refresh]
  -- a complete block is not read again
  by_cases hfix : b.fixedProbesCount = b.maxProbes
  · rw [if_pos hfix]
    refine ⟨?_, fun _ => h, rfl, rfl⟩
    rw [h.current_iff]
    exact ⟨fun hno => ⟨fun _ => hno, fun hne => absurd hfix hne, fun hne => absurd hfix hne⟩,
      fun hmeets => hmeets.fixed hfix⟩
  rw [if_neg hfix, if_neg hdate.symm]
  generalize hb' : ({ b with lastUpdateTime := szbRoundTime date dataSpan } : RealDatablock) = b'
  have h' : Inv prec file b' := by
    rw [← hb']
    exact ⟨h.current, h.length_le, h.probes_le, h.missing⟩
  have hfile : ∀ c : RealDatablock, c.probesFromFile = file.length → c.data ≠ none →
      c.year = b'.year → c.month = b'.month → Current prec file c → Inv prec file c := by
    intro c hp hd hy hm hcur
    refine ⟨?_, ?_, hp.le, fun hn => absurd hn hd⟩
    · rw [hp, List.take_length]
      exact hcur
    · rw [Datablock.maxProbes, hy, hm]
      exact h'.length_le
  dsimp only
  -- whether the array was allocated before decides which loop puts the first index right
  cases hdata : b.data with
  | none =>
    have hd' : b'.data = none := by rw [← hb']; exact hdata
    have hzero := h.missing hdata
    have hfirst : b.firstDataProbeIndex = -1 := by
      have hindices := h.current.2
      rw [hzero, List.take_zero, List.map_nil, Datablock.scan, Prod.mk.injEq] at hindices
      exact hindices.1
    obtain ⟨hcur, hp, hd, hy, hm⟩ := refreshFile_late h' hd' (by rw [← hb']; exact hmax)
    have hmeets : Meets file date b ↔ NoData file ∧ file ≠ [] ∧
        (b'.lastUpdateTime ≤ b'.endTime ∨ file.length = b'.maxProbes) := by
      rw [← hb']
      constructor
      · intro hmeets
        have hno := hmeets.first hfix (by omega)
        rw [hzero, List.drop_zero] at hno
        exact ⟨hno, hmeets.late hfix hdata⟩
      · rintro ⟨hno, hlate⟩
        exact ⟨fun heq => absurd heq hfix, fun _ _ w hw => hno w (List.mem_of_mem_drop hw),
          fun _ _ => hlate⟩
    rw [hmeets]
    exact ⟨hcur, fun hmeets => hfile _ hp hd hy hm (hcur.mpr hmeets), hy.trans (by rw [← hb']),
      hm.trans (by rw [← hb'])⟩
  | some d =>
    have hd' : b'.data = some d := by rw [← hb']; exact hdata
    obtain ⟨hcur, hp, hd, hy, hm⟩ := refreshFile_allocated h' hd'
    have hmeets : Meets file date b ↔
        (b'.firstDataProbeIndex < 0 → NoData (file.drop b'.probesFromFile)) := by
      rw [← hb']
      refine ⟨fun hmeets => hmeets.first hfix, fun hfirst => ⟨fun heq => absurd heq hfix,
        fun _ => hfirst, fun _ hn => ?_⟩⟩
      rw [hdata] at hn
      exact absurd hn (by simp)
    rw [hmeets]
    exact ⟨hcur, fun hmeets => hfile _ hp hd hy hm (hcur.mpr hmeets), hy.trans (by rw [← hb']),
      hm.trans (by rw [← hb'])⟩

/-- Without a file only the number of fixed probes and the time of the update change. -/
theorem refresh_missing {prec : ℕ} {b : RealDatablock} (h : Inv prec [] b) (date : ℤ) :
    Inv prec [] (b.refresh prec none date) ∧ (b.refresh prec none date).year = b.year ∧
      (b.refresh prec none date).month = b.month := by
  have hkeep : ∀ (t : ℤ) (n : ℕ),
      Inv prec [] { b with lastUpdateTime := t, fixedProbesCount := n } :=
    fun t n => ⟨h.current, h.length_le, h.probes_le, h.missing⟩
  rw [refresh]
  dsimp only [refreshMissing]
  split_ifs
  · exact ⟨h, rfl, rfl⟩
  · exact ⟨h, rfl, rfl⟩
  · exact ⟨hkeep _ _, rfl, rfl⟩
  · exact ⟨hkeep _ _, rfl, rfl⟩
  · exact ⟨hkeep _ b.fixedProbesCount, rfl, rfl⟩
  · exact ⟨hkeep _ b.fixedProbesCount, rfl, rfl⟩

/-! ## Runs -/

/-- The file of the month, the meaner date and the block. -/
structure State where
  file : Option (List Word)
  date : ℤ
  block : RealDatablock

inductive Event where
  /-- The file is made when it is missing. -/
  | grow (ws : List Word)
  | setDate (date : ℤ)
  | refresh

def step (prec : ℕ) (s : State) : Event → State
  | .grow ws => { s with file := some (s.file.getD [] ++ ws) }
  | .setDate date => { s with date := date }
  | .refresh => { s with block := s.block.refresh prec s.file s.date }

/-- A file never holds more than the probes of its month, and the meaner date does not go
back. -/
def Legal (s : State) : Event → Prop
  | .grow ws => (s.file.getD [] ++ ws).length ≤ s.block.maxProbes
  | .setDate date => s.date ≤ date
  | .refresh => True

instance (s : State) : (e : Event) → Decidable (Legal s e)
  | .grow ws => inferInstanceAs (Decidable ((s.file.getD [] ++ ws).length ≤ s.block.maxProbes))
  | .setDate date => inferInstanceAs (Decidable (s.date ≤ date))
  | .refresh => inferInstanceAs (Decidable True)

/-- The block looks like one that is made from the file now. -/
def LikeNew (prec : ℕ) (file : List Word) (date last : ℤ) (b : RealDatablock) : Prop :=
  let new := create b.year b.month prec (some file) date last
  b.getData = new.getData ∧ b.firstDataProbeIndex = new.firstDataProbeIndex ∧
    b.lastDataProbeIndex = new.lastDataProbeIndex ∧
    b.getData.drop file.length = List.replicate (b.maxProbes - file.length) .nodata

/-- A reload that sees a new meaner date and a file leaves a block that is like new. -/
def Good (prec : ℕ) (last : ℤ) (s : State) : Event → Prop
  | .refresh => ∀ file, s.file = some file → szbRoundTime s.date dataSpan ≠ s.block.lastUpdateTime →
      LikeNew prec file s.date last (s.block.refresh prec (some file) s.date)
  | _ => True

def Cond (s : State) : Event → Prop
  | .refresh => ∀ file, s.file = some file → szbRoundTime s.date dataSpan ≠ s.block.lastUpdateTime →
      Meets file s.date s.block
  | _ => True

theorem likeNew_iff_current {prec : ℕ} {file : List Word} {b : RealDatablock} (date last : ℤ)
    (hlen : file.length ≤ b.maxProbes) : LikeNew prec file date last b ↔ Current prec file b := by
  obtain ⟨⟨hdata, hindices⟩, -, -, hy, hm⟩ := create_current b.year b.month prec date last hlen
  have hmax : (create b.year b.month prec (some file) date last).maxProbes = b.maxProbes := by
    rw [Datablock.maxProbes, hy, hm, Datablock.maxProbes]
  rw [hmax] at hdata
  rw [LikeNew, hdata, Current, ← hindices, Prod.mk.injEq]
  constructor
  · rintro ⟨h1, h2, h3, -⟩
    exact ⟨h1, h2, h3⟩
  · rintro ⟨h1, h2, h3⟩
    refine ⟨h1, h2, h3, ?_⟩
    rw [h1, List.drop_left' (List.length_map _)]

structure RunInv (year : ℤ) (month prec : ℕ) (s : State) : Prop where
  inv : Inv prec (s.file.getD []) s.block
  year_eq : s.block.year = year
  month_eq : s.block.month = month

theorem RunInv.maxProbes_pos {year : ℤ} {month prec : ℕ} {s : State}
    (h : RunInv year month prec s) (hmonth : 0 < szbProbecnt year month) :
    0 < s.block.maxProbes := by
  rw [Datablock.maxProbes, h.year_eq, h.month_eq]
  omega

theorem runInv_create (year : ℤ) (month prec : ℕ) {file : Option (List Word)} (date last : ℤ)
    (hfile : (file.getD []).length ≤ (szbProbecnt year month).toNat) :
    RunInv year month prec ⟨file, date, create year month prec file date last⟩ := by
  cases file with
  | none =>
    have hnew : ∀ n, Inv prec []
        ⟨⟨year, month, none, -1, -1, szbRoundTime date dataSpan, n⟩, 0⟩ :=
      fun n => ⟨⟨rfl, rfl⟩, Nat.zero_le _, le_rfl, fun _ => rfl⟩
    dsimp only [create, Option.getD_none]
    split_ifs
    · exact ⟨hnew _, rfl, rfl⟩
    · exact ⟨hnew 0, rfl, rfl⟩
  | some file =>
    rw [Option.getD_some] at hfile
    obtain ⟨hcur, hp, hd, hy, hm⟩ := create_current year month prec date last hfile
    refine ⟨⟨?_, ?_, hp.le, fun hn => absurd hn hd⟩, hy, hm⟩ <;> dsimp only [Option.getD_some]
    · rw [hp, List.take_length]
      exact hcur
    · rw [Datablock.maxProbes, hy, hm]
      exact hfile

theorem good_iff_cond {year : ℤ} {month prec : ℕ} (hmonth : 0 < szbProbecnt year month) (last : ℤ)
    (s : State) (e : Event) (h : RunInv year month prec s) : Good prec last s e ↔ Cond s e := by
  cases e with
  | grow ws => exact Iff.rfl
  | setDate date => exact Iff.rfl
  | refresh =>
    refine forall_congr' fun file => forall_congr' fun hfile => forall_congr' fun hdate => ?_
    have hinv := h.inv
    rw [hfile, Option.getD_some] at hinv
    obtain ⟨hcur, -, hy, hm⟩ := refresh_spec hinv (h.maxProbes_pos hmonth) hdate
    rw [← hcur]
    refine likeNew_iff_current s.date last ?_
    rw [Datablock.maxProbes, hy, hm]
    exact hinv.length_le

theorem step_runInv {year : ℤ} {month prec : ℕ} (hmonth : 0 < szbProbecnt year month) (s : State)
    (e : Event) (h : RunInv year month prec s) (hlegal : Legal s e) (hcond : Cond s e) :
    RunInv year month prec (step prec s e) := by
  cases e with
  | setDate date => exact ⟨h.inv, h.year_eq, h.month_eq⟩
  | grow ws =>
    obtain ⟨hinv, hy, hm⟩ := h
    refine ⟨⟨?_, hlegal, ?_, hinv.missing⟩, hy, hm⟩
    · change Current prec ((s.file.getD [] ++ ws).take s.block.probesFromFile) s.block
      rw [List.take_append_of_le_length hinv.probes_le]
      exact hinv.current
    · change s.block.probesFromFile ≤ (s.file.getD [] ++ ws).length
      rw [List.length_append]
      exact hinv.probes_le.trans (Nat.le_add_right _ _)
  | refresh =>
    cases hfile : s.file with
    | none =>
      have hinv := h.inv
      rw [hfile] at hinv
      obtain ⟨hinv', hy, hm⟩ := refresh_missing hinv s.date
      simp only [step, hfile]
      exact ⟨hinv', hy.trans h.year_eq, hm.trans h.month_eq⟩
    | some file =>
      have hinv := h.inv
      rw [hfile, Option.getD_some] at hinv
      simp only [step, hfile]
      by_cases hdate : szbRoundTime s.date dataSpan = s.block.lastUpdateTime
      · have hsame : s.block.refresh prec (some file) s.date = s.block := by
          rw [refresh, if_pos hdate.symm, ite_self]
        rw [hsame]
        exact ⟨hinv, h.year_eq, h.month_eq⟩
      · obtain ⟨-, hinv', hy, hm⟩ := refresh_spec hinv (h.maxProbes_pos hmonth) hdate
        exact ⟨hinv' (hcond file hfile hdate), hy.trans h.year_eq, hm.trans h.month_eq⟩

/-- Along a run every reload leaves a block that is like new if and only if every reload meets
the condition. -/
theorem refresh_like_new_iff (year : ℤ) (month prec : ℕ) (hmonth : 0 < szbProbecnt year month)
    (file : Option (List Word)) (date last : ℤ)
    (hfile : (file.getD []).length ≤ (szbProbecnt year month).toNat) (events : List Event)
    (hlegal : Run.Along (step prec) Legal ⟨file, date, create year month prec file date last⟩
      events) :
    Run.Along (step prec) (Good prec last)
        ⟨file, date, create year month prec file date last⟩ events ↔
      Run.Along (step prec) Cond ⟨file, date, create year month prec file date last⟩ events :=
  Run.along_iff (step_runInv hmonth) (fun s e h _ => good_iff_cond hmonth last s e h)
    (runInv_create year month prec date last hfile) hlegal

/-- A file with one sample grows by another one before the block is reloaded. -/
theorem refresh_like_new_iff_second_sample :
    Run.Along (step 0) (Good 0 (-1))
      ⟨some [7#16], 946685400, create 2000 1 0 (some [7#16]) 946685400 (-1)⟩
      [.grow [8#16], .setDate 946686000, .refresh] := by
  refine (refresh_like_new_iff 2000 1 0 (by decide) (some [7#16]) 946685400 (-1) (by decide)
    [.grow [8#16], .setDate 946686000, .refresh]
    ⟨by decide +kernel, by decide +kernel, trivial, trivial⟩).mpr ⟨trivial, trivial, ?_, trivial⟩
  intro file hfile hdate
  have hdata := (create_current 2000 1 0 946685400 (-1) (show [7#16].length ≤ _ by decide)).2.2.1
  refine ⟨fun h => absurd h ?_, fun _ h => absurd h ?_, fun _ h => absurd h hdata⟩
  · decide +kernel
  · decide +kernel

/-- The file of a block has no sample when the block is made; with the first sample the block
has data and no index of it. -/
theorem refresh_like_new_fails :
    ¬ ∀ (year : ℤ) (month prec : ℕ) (file : Option (List Word)) (date last : ℤ)
      (events : List Event), 0 < szbProbecnt year month →
      (file.getD []).length ≤ (szbProbecnt year month).toNat →
      Run.Along (step prec) Legal ⟨file, date, create year month prec file date last⟩ events →
      Run.Along (step prec) (Good prec last) ⟨file, date, create year month prec file date last⟩
        events := by
  intro h
  have hrun := h 2000 1 0 (some []) 946684800 (-1) [.grow [7#16], .setDate 946685400, .refresh]
    (by decide) (by decide) ⟨by decide +kernel, by decide +kernel, trivial, trivial⟩
  have hfirst := (hrun.2.2.1 [7#16] rfl (by decide +kernel)).2.1
  exact absurd hfirst (by decide +kernel)

end RealDatablock

end Szbase
end Szarp
