import Mathlib.Logic.Relation
import Szarp.Szbase.Datablock

/-!
# Blocks of combined parameters

A combined parameter has two data files, one with the more and one with the less significant
words of its values.
-/

namespace Szarp
namespace Szbase

/-- One probe of a combined parameter with `prec` decimal places. -/
def combinedProbe (prec : ℕ) (msw lsw : Word) : Cell :=
  if msw = fileNodata then .nodata
  else .value ((msw.signExtend 32 <<< 16 ||| lsw.setWidth 32).toInt / 10 ^ prec)

namespace CombinedDatablock

/-- The constructor; `date` is the meaner date of the buffer. -/
def create (year : ℤ) (month prec : ℕ) (msw lsw : List Word) (date : ℤ) : Datablock :=
  let b := { Datablock.new year month with lastUpdateTime := szbRoundTime date dataSpan }
  let b := b.allocateDataMemory
  let bufMsw := szbLoadData msw 0 b.maxProbes
  let bufLsw := szbLoadData lsw 0 b.maxProbes
  let readed := if bufMsw.length > bufLsw.length then bufLsw.length else bufMsw.length
  let b := { b with fixedProbesCount := readed }
  (b.storeFrom 0 (List.zipWith (combinedProbe prec) bufMsw bufLsw)).fillNodata readed

def refresh (prec : ℕ) (msw lsw : List Word) (date : ℤ) (b : Datablock) : Datablock :=
  if b.fixedProbesCount = b.maxProbes then b
  else if b.lastUpdateTime = szbRoundTime date dataSpan then b
  else
    let b := { b with lastUpdateTime := szbRoundTime date dataSpan }
    let position := b.fixedProbesCount
    if msw.length ≤ position then b
    else if lsw.length ≤ position then b
    else
      let nsize := (if lsw.length < msw.length then lsw.length else msw.length) - position
      let bufLsw := szbLoadData lsw position nsize
      let bufMsw := szbLoadData msw position nsize
      let readed := if bufMsw.length > bufLsw.length then bufLsw.length else bufMsw.length
      let b := { b with fixedProbesCount := position + readed }
      b.storeFrom position (List.zipWith (combinedProbe prec) bufMsw bufLsw)

/-! ## Loading and reloading -/

def probes (prec : ℕ) (msw lsw : List Word) : List Cell := List.zipWith (combinedProbe prec) msw lsw

theorem probes_length (prec : ℕ) (msw lsw : List Word) :
    (probes prec msw lsw).length = min msw.length lsw.length := List.length_zipWith

theorem create_spec (year : ℤ) (month prec : ℕ) {msw lsw : List Word} (date : ℤ)
    (hmsw : msw.length ≤ (szbProbecnt year month).toNat)
    (hlsw : lsw.length ≤ (szbProbecnt year month).toNat) :
    (create year month prec msw lsw date).Holds (probes prec msw lsw) ∧
      (create year month prec msw lsw date).fixedProbesCount = (probes prec msw lsw).length ∧
      (create year month prec msw lsw date).year = year ∧
      (create year month prec msw lsw date).month = month := by
  have hmsw' : szbLoadData msw 0 (szbProbecnt year month).toNat = msw := by
    rw [szbLoadData_start, List.take_of_length_le hmsw]
  have hlsw' : szbLoadData lsw 0 (szbProbecnt year month).toNat = lsw := by
    rw [szbLoadData_start, List.take_of_length_le hlsw]
  have hreaded : (if msw.length > lsw.length then lsw.length else msw.length) =
      (probes prec msw lsw).length := by
    rw [probes_length]
    split_ifs <;> omega
  simp only [create, Datablock.allocateDataMemory, Datablock.new, Datablock.maxProbes, hmsw',
    hlsw', hreaded]
  refine ⟨?_, ?_⟩
  · refine Datablock.holds_of_store _ rfl List.length_replicate ?_ rfl rfl
    rw [probes_length]
    exact (min_le_left _ _).trans hmsw
  · obtain ⟨hy, hm, -, hf⟩ := Datablock.storeFrom_frame 0 (probes prec msw lsw)
      ⟨year, month, some (List.replicate (szbProbecnt year month).toNat .uninit), -1, -1,
        szbRoundTime date dataSpan, (probes prec msw lsw).length⟩
    exact ⟨hf, hy, hm⟩

/-- The block holds the start of the two files, as far as it has been loaded. -/
structure Inv (prec : ℕ) (msw lsw : List Word) (b : Datablock) : Prop where
  msw_le : msw.length ≤ b.maxProbes
  lsw_le : lsw.length ≤ b.maxProbes
  fixed_le : b.fixedProbesCount ≤ (probes prec msw lsw).length
  holds : b.Holds ((probes prec msw lsw).take b.fixedProbesCount)

theorem Inv.setTime {prec : ℕ} {msw lsw : List Word} {b : Datablock} (h : Inv prec msw lsw b)
    (t : ℤ) : Inv prec msw lsw { b with lastUpdateTime := t } :=
  ⟨h.msw_le, h.lsw_le, h.fixed_le, h.holds.data, h.holds.length_le, h.holds.indices⟩

def UpToDate (prec : ℕ) (msw lsw : List Word) (b : Datablock) : Prop :=
  b.fixedProbesCount = (probes prec msw lsw).length ∧ b.Holds (probes prec msw lsw)

theorem Inv.upToDate {prec : ℕ} {msw lsw : List Word} {b : Datablock} (h : Inv prec msw lsw b)
    (hle : (probes prec msw lsw).length ≤ b.fixedProbesCount) : UpToDate prec msw lsw b := by
  have hholds := h.holds
  rw [List.take_of_length_le hle] at hholds
  exact ⟨le_antisymm h.fixed_le hle, hholds⟩

/-- A reload leaves the block as it is or brings it up to date. -/
theorem refresh_spec {prec : ℕ} {msw lsw : List Word} {b : Datablock} (h : Inv prec msw lsw b)
    (date : ℤ) :
    Inv prec msw lsw (refresh prec msw lsw date b) ∧
      (refresh prec msw lsw date b).year = b.year ∧
      (refresh prec msw lsw date b).month = b.month ∧
      (szbRoundTime date dataSpan ≠ b.lastUpdateTime →
        UpToDate prec msw lsw (refresh prec msw lsw date b)) := by
  have hlen := probes_length prec msw lsw
  have hmsw := h.msw_le
  have hlsw := h.lsw_le
  rw [refresh]
  by_cases hfull : b.fixedProbesCount = b.maxProbes
  · rw [if_pos hfull]
    exact ⟨h, rfl, rfl, fun _ => h.upToDate (by omega)⟩
  rw [if_neg hfull]
  by_cases htime : b.lastUpdateTime = szbRoundTime date dataSpan
  · rw [if_pos htime]
    exact ⟨h, rfl, rfl, fun hne => absurd htime.symm hne⟩
  rw [if_neg htime]
  have h' := h.setTime (szbRoundTime date dataSpan)
  dsimp only
  by_cases hm : msw.length ≤ b.fixedProbesCount
  · rw [if_pos hm]
    exact ⟨h', rfl, rfl, fun _ => h'.upToDate (by dsimp only; omega)⟩
  rw [if_neg hm]
  by_cases hl : lsw.length ≤ b.fixedProbesCount
  · rw [if_pos hl]
    exact ⟨h', rfl, rfl, fun _ => h'.upToDate (by dsimp only; omega)⟩
  rw [if_neg hl]
  -- both files have more than the block: the new words are read from both
  have hn : (if lsw.length < msw.length then lsw.length else msw.length) =
      (probes prec msw lsw).length := by
    rw [hlen]
    split_ifs <;> omega
  rw [hn]
  generalize hk : (probes prec msw lsw).length - b.fixedProbesCount = k
  have hrl := szbLoadData_available (show b.fixedProbesCount + k ≤ lsw.length by omega)
  have hrm := szbLoadData_available (show b.fixedProbesCount + k ≤ msw.length by omega)
  have hnew : List.zipWith (combinedProbe prec) ((msw.drop b.fixedProbesCount).take k)
      ((lsw.drop b.fixedProbesCount).take k) =
      (probes prec msw lsw).drop b.fixedProbesCount := by
    rw [← List.take_zipWith, ← List.drop_zipWith, List.take_of_length_le]
    · rfl
    · rw [List.length_drop]
      exact hk.le
  have hreaded : (if ((msw.drop b.fixedProbesCount).take k).length >
      ((lsw.drop b.fixedProbesCount).take k).length
      then ((lsw.drop b.fixedProbesCount).take k).length
      else ((msw.drop b.fixedProbesCount).take k).length) = k := by
    rw [List.length_take, List.length_take, List.length_drop, List.length_drop]
    split_ifs <;> omega
  rw [hrl, hrm, hnew, hreaded]
  have htake : ((probes prec msw lsw).take b.fixedProbesCount).length = b.fixedProbesCount := by
    rw [List.length_take]
    omega
  have hb : Datablock.Holds ⟨b.year, b.month, b.data, b.firstDataProbeIndex, b.lastDataProbeIndex,
      szbRoundTime date dataSpan, b.fixedProbesCount + k⟩
      ((probes prec msw lsw).take b.fixedProbesCount) :=
    ⟨h.holds.data, h.holds.length_le, h.holds.indices⟩
  obtain ⟨hy, hmo, -, hf⟩ := Datablock.storeFrom_frame b.fixedProbesCount
    ((probes prec msw lsw).drop b.fixedProbesCount)
    ⟨b.year, b.month, b.data, b.firstDataProbeIndex, b.lastDataProbeIndex,
      szbRoundTime date dataSpan, b.fixedProbesCount + k⟩
  have hstore := hb.store ((probes prec msw lsw).drop b.fixedProbesCount) (by
    rw [htake, List.length_drop]
    change _ ≤ b.maxProbes
    omega)
  rw [htake, List.take_append_drop] at hstore
  have hcount : b.fixedProbesCount + k = (probes prec msw lsw).length := by omega
  have hmax := Datablock.storeFrom_maxProbes b.fixedProbesCount
    ((probes prec msw lsw).drop b.fixedProbesCount)
    ⟨b.year, b.month, b.data, b.firstDataProbeIndex, b.lastDataProbeIndex,
      szbRoundTime date dataSpan, b.fixedProbesCount + k⟩
  refine ⟨⟨?_, ?_, ?_, ?_⟩, hy, hmo, fun _ => ⟨?_, hstore⟩⟩
  · rw [hmax]
    exact hmsw
  · rw [hmax]
    exact hlsw
  · rw [hf, hcount]
  · rw [hf, List.take_of_length_le hcount.ge]
    exact hstore
  · rw [hf, hcount]

/-! ## Runs -/

structure State where
  msw : List Word
  lsw : List Word
  date : ℤ
  block : Datablock

inductive Step (prec : ℕ) : State → State → Prop where
  | growMsw (s : State) (ws : List Word) (h : (s.msw ++ ws).length ≤ s.block.maxProbes) :
      Step prec s { s with msw := s.msw ++ ws }
  | growLsw (s : State) (ws : List Word) (h : (s.lsw ++ ws).length ≤ s.block.maxProbes) :
      Step prec s { s with lsw := s.lsw ++ ws }
  | setDate (s : State) (date : ℤ) : Step prec s { s with date := date }
  | refresh (s : State) :
      Step prec s { s with block := refresh prec s.msw s.lsw s.date s.block }

/-- What the probes of grown files start with. -/
theorem probes_take_append (prec : ℕ) (msw lsw ws vs : List Word) {n : ℕ}
    (h : n ≤ (probes prec msw lsw).length) :
    (probes prec (msw ++ ws) (lsw ++ vs)).take n = (probes prec msw lsw).take n := by
  rw [probes_length] at h
  rw [probes, List.take_zipWith, List.take_append_of_le_length (by omega),
    List.take_append_of_le_length (by omega), ← List.take_zipWith]
  rfl

theorem Inv.grow {prec : ℕ} {msw lsw : List Word} {b : Datablock} (h : Inv prec msw lsw b)
    (ws vs : List Word) (hm : (msw ++ ws).length ≤ b.maxProbes)
    (hl : (lsw ++ vs).length ≤ b.maxProbes) :
    Inv prec (msw ++ ws) (lsw ++ vs) b := by
  have hfixed := h.fixed_le
  refine ⟨hm, hl, ?_, ?_⟩
  · rw [probes_length] at hfixed ⊢
    rw [List.length_append, List.length_append]
    omega
  · rw [probes_take_append prec msw lsw ws vs hfixed]
    exact h.holds

theorem Step.inv {prec : ℕ} {s t : State} (hstep : Step prec s t)
    (h : Inv prec s.msw s.lsw s.block) :
    Inv prec t.msw t.lsw t.block ∧ t.block.year = s.block.year ∧
      t.block.month = s.block.month := by
  cases hstep with
  | growMsw ws hlen =>
    refine ⟨?_, rfl, rfl⟩
    have hgrow := h.grow ws [] hlen (by rw [List.append_nil]; exact h.lsw_le)
    rwa [List.append_nil] at hgrow
  | growLsw ws hlen =>
    refine ⟨?_, rfl, rfl⟩
    have hgrow := h.grow [] ws (by rw [List.append_nil]; exact h.msw_le) hlen
    rwa [List.append_nil] at hgrow
  | setDate date => exact ⟨h, rfl, rfl⟩
  | refresh =>
    obtain ⟨hinv, hy, hm, -⟩ := refresh_spec h s.date
    exact ⟨hinv, hy, hm⟩

theorem Inv.of_upToDate {prec : ℕ} {msw lsw : List Word} {b : Datablock}
    (h : UpToDate prec msw lsw b) (hmsw : msw.length ≤ b.maxProbes)
    (hlsw : lsw.length ≤ b.maxProbes) : Inv prec msw lsw b := by
  refine ⟨hmsw, hlsw, h.1.le, ?_⟩
  rw [h.1, List.take_length]
  exact h.2

theorem run_inv {prec : ℕ} {s t : State} (hrun : Relation.ReflTransGen (Step prec) s t)
    (h : Inv prec s.msw s.lsw s.block) :
    Inv prec t.msw t.lsw t.block ∧ t.block.year = s.block.year ∧
      t.block.month = s.block.month := by
  induction hrun with
  | refl => exact ⟨h, rfl, rfl⟩
  | tail _ hstep ih =>
    obtain ⟨hinv, hy, hm⟩ := ih
    obtain ⟨hinv', hy', hm'⟩ := hstep.inv hinv
    exact ⟨hinv', hy'.trans hy, hm'.trans hm⟩

/-- However the two files grow and whenever the block is reloaded: a reload that sees a new
meaner date leaves what a new block would load. -/
theorem refresh_eq_create (year : ℤ) (month prec : ℕ) (msw lsw : List Word) (date : ℤ)
    (hmsw : msw.length ≤ (szbProbecnt year month).toNat)
    (hlsw : lsw.length ≤ (szbProbecnt year month).toNat) (s : State)
    (hrun : Relation.ReflTransGen (Step prec)
      ⟨msw, lsw, date, create year month prec msw lsw date⟩ s)
    (hdate : szbRoundTime s.date dataSpan ≠ s.block.lastUpdateTime) :
    let old := refresh prec s.msw s.lsw s.date s.block
    let fresh := create year month prec s.msw s.lsw s.date
    old.data = fresh.data ∧ old.fixedProbesCount = fresh.fixedProbesCount ∧
      old.firstDataProbeIndex = fresh.firstDataProbeIndex ∧
      old.lastDataProbeIndex = fresh.lastDataProbeIndex := by
  obtain ⟨hholds, hfixed, hy, hm⟩ := create_spec year month prec date hmsw hlsw
  have hmax : (create year month prec msw lsw date).maxProbes =
      (szbProbecnt year month).toNat := by rw [Datablock.maxProbes, hy, hm]
  obtain ⟨hinv, hy', hm'⟩ := run_inv hrun
    (Inv.of_upToDate ⟨hfixed, hholds⟩ (by rw [hmax]; exact hmsw) (by rw [hmax]; exact hlsw))
  have hmax' : s.block.maxProbes = (szbProbecnt year month).toNat := by
    rw [Datablock.maxProbes, hy', hm', ← hmax]
    rfl
  obtain ⟨-, hy'', hm'', hup⟩ := refresh_spec hinv s.date
  obtain ⟨hcount, hold⟩ := hup hdate
  obtain ⟨hfresh, hfixed', hyf, hmf⟩ := create_spec year month prec s.date
    (hmax' ▸ hinv.msw_le) (hmax' ▸ hinv.lsw_le)
  have hindices := hold.indices.trans hfresh.indices.symm
  rw [Prod.mk.injEq] at hindices
  refine ⟨?_, hcount.trans hfixed'.symm, hindices.1, hindices.2⟩
  rw [hold.data, hfresh.data, Datablock.maxProbes, Datablock.maxProbes, hy'', hm'', hyf, hmf,
    hy', hm', hy, hm]

/-- Both files of January 2000 get their first sample after the block was made. -/
theorem refresh_eq_create_first_sample :
    (refresh 2 [1#16] [5#16] 946685400 (create 2000 1 2 [] [] 946684800)).data =
      (create 2000 1 2 [1#16] [5#16] 946685400).data := by
  have hm : ([] ++ [1#16]).length ≤ (create 2000 1 2 [] [] 946684800).maxProbes := by decide +kernel
  have hl : ([] ++ [5#16]).length ≤ (create 2000 1 2 [] [] 946684800).maxProbes := by decide +kernel
  have hrun : Relation.ReflTransGen (Step 2)
      ⟨[], [], 946684800, create 2000 1 2 [] [] 946684800⟩
      ⟨[1#16], [5#16], 946685400, create 2000 1 2 [] [] 946684800⟩ :=
    ((Relation.ReflTransGen.single (Step.growMsw _ _ hm)).tail (Step.growLsw _ _ hl)).tail
      (Step.setDate _ 946685400)
  exact (refresh_eq_create 2000 1 2 [] [] 946684800 (by decide) (by decide) _ hrun
    (by decide +kernel)).1

end CombinedDatablock

end Szbase
end Szarp
