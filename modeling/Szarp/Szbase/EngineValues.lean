import Szarp.Szbase.AvgData
import Szarp.Szbase.ExecutionEngine
import Szarp.Szbase.ProbeTime

/-!
# Values that the execution engine reads

`ExecutionEngine::ValueBlock` reads a probe of the block that an entry of its lists was made with.
The interval of an entry is rounded, and a block of ten-second probes starts at the time that was
asked for first.
-/

namespace Szarp
namespace Szbase

/-- A block as `ValueBlock` reads it; `none` is `SZB_NODATA`. -/
structure EngineBlock where
  startTime : ℤ
  probes : ℤ
  fixedProbesCount : ℤ
  data : ℕ → Option ℚ

/-- A real, combined or definable parameter while a script runs: the blocks of its months and the
values of its ten-second slots.  No block is made of a month without probes. -/
structure LuaSource where
  months : AvgParam ℚ
  slot : ℤ → Option ℚ
  fixedProbes : ℤ → ℕ
  probes_pos : ∀ y m b, months.block y m = some b → 0 < szbProbecnt y m

namespace LuaSource

def contents (p : LuaSource) (start : ℤ) : ProbeContents ℚ :=
  ⟨fun i => p.slot ((start + probeSpan * (i : ℕ)) / probeSpan), p.fixedProbes start⟩

def szbGetBlock (p : LuaSource) (t : ℤ) : BlockType → Option EngineBlock
  | .min10 => (p.months.block (szbTime2my t).1 (szbTime2my t).2).map fun b =>
      ⟨probe2time 0 (szbTime2my t).1 (szbTime2my t).2, b.maxProbes, b.fixedProbesCount, b.data⟩
  | .sec10 =>
    some ⟨t, probesPerBlock, p.fixedProbes t, fun i => p.slot ((t + probeSpan * i) / probeSpan)⟩

/-- `szb_get_probe` with `PT_SEC10`; `none` is an access outside a block. -/
def szbGetProbe (z : Zone) (p : LuaSource) (t : ℤ) : Option (Option ℚ) :=
  let (s, e) := z.szbGetProbe t .sec10 0
  (AvgProbe.szbGetAvgProbe p.contents s e ⟨0, 0, true, 0, 0⟩).map fun a =>
    if a.pcount ≤ 0 then none else some (a.psum / a.pcount)

/-- What the block of a month holds for a time. -/
def monthValue (p : LuaSource) (t : ℤ) : Option ℚ :=
  (p.months.block (szbTime2my t).1 (szbTime2my t).2).bind fun b =>
    b.data (szbProbeind t dataSpan).toNat

/-- The month block of a constant parameter has data at the time when it is between the dates of the
buffer, and then the constant. -/
def ConstAgrees (p : LuaSource) (t : ℤ) : Prop :=
  ∀ v, p.months.constValue = some v → ∀ w, p.monthValue t = some w ↔
    w = v ∧ p.months.firstAvDate ≤ t ∧ t ≤ p.months.searchLast

end LuaSource

/-! ## Reading -/

/-- `p(name, time, type)`; the name is given by the index of the parameter. -/
structure Eval where
  paramIndex : ℕ
  time : ℕ
  type : BlockType
  deriving DecidableEq

def Eval.key (e : Eval) : BlockType × ℕ := (e.type, e.paramIndex)

/-- `SZBASE_DATA_SPAN` or `SZBASE_PROBE_SPAN` -/
def BlockType.span : BlockType → ℤ
  | .min10 => dataSpan
  | .sec10 => probeSpan

/-- What `ValueBlock` leaves: the lists, the value, `none` when it is read outside the data of the
block, and whether the value is fixed. -/
structure Evaluated where
  engine : ExecutionEngine (Option EngineBlock)
  value : Option (Option ℚ)
  fixed : Bool

section Values

variable (params : ℕ → LuaSource)

def Eval.call (e : Eval) : ExecutionEngine.Call (Option EngineBlock) :=
  ⟨e.paramIndex, e.time, e.type, (params e.paramIndex).szbGetBlock e.time e.type⟩

def readBlock (bt : BlockType) (time : ℤ) (block : Option EngineBlock) : Option (Option ℚ) × Bool :=
  match block with
  | none => (some none, false)
  | some b =>
    let timediff := time - b.startTime
    let probeIndex := timediff.tdiv bt.span
    (if 0 ≤ probeIndex ∧ probeIndex < b.probes then some (b.data probeIndex.toNat) else none,
      ¬ b.fixedProbesCount ≤ probeIndex)

def valueBlock (s : ExecutionEngine (Option EngineBlock)) (e : Eval) : Option Evaluated :=
  (s.getBlock (e.call params)).map fun (s, block, _) =>
    let (value, fixed) := readBlock e.type e.time block
    ⟨s, value, fixed⟩

def slotValue (z : Zone) (e : Eval) : Option (Option ℚ) :=
  match e.type with
  | .min10 => some ((params e.paramIndex).months.szbGetData e.time)
  | .sec10 => (params e.paramIndex).szbGetProbe z e.time

/-- Every evaluation reads inside the data of its block, and gets the value of its slot. -/
def ReadsRight (z : Zone) : ExecutionEngine (Option EngineBlock) → List Eval → Prop
  | _, [] => True
  | s, e :: es => ∃ r, valueBlock params s e = some r ∧ r.value ≠ none ∧
      r.value = slotValue params z e ∧ ReadsRight z r.engine es

end Values

/-! ## Times -/

/-- The evaluations are of one list, in the same five hours. -/
def sameInterval (e e' : Eval) : Bool := e'.key = e.key ∧ e'.time / 18000 = e.time / 18000

/-- The time `t` is read of the right slot in a block that starts at `t₀`. -/
def InSlot (t₀ t : ℕ) : Prop := t / 10 = t₀ / 10 ∨ t₀ ≤ t ∧ t₀ % 10 ≤ t % 10

/-- Ten-second probes are read after the first slot of all, and in a block that an earlier
evaluation of the same five hours has made, at times that it has in their slots. -/
def SlotTimes (es : List Eval) : Prop :=
  ∀ pre e post, es = pre ++ e :: post → e.type = .sec10 →
    10 ≤ e.time ∧ ∀ e₀, (pre ++ [e]).find? (sameInterval e) = some e₀ → InSlot e₀.time e.time

/-! ## One slot -/

/-- Before the second slot of all the interval is empty. -/
theorem szbGetProbe_zero (z : Zone) (p : LuaSource) {t : ℕ} (h : t < 10) :
    p.szbGetProbe z t = some none := by
  have hround : z.szbRoundTime t .sec10 0 ≤ 0 := by
    simp only [Zone.szbRoundTime]
    split_ifs with h0 hc
    · decide
    · exact absurd hc.1 (by decide)
    · omega
  have hround' : -1 ≤ z.szbRoundTime t .sec10 0 := by
    simp only [Zone.szbRoundTime]
    split_ifs with h0 hc
    · exact le_rfl
    · exact absurd hc.1 (by decide)
    · omega
  have hmove : z.szbMoveTime (z.szbRoundTime t .sec10 0) 1 .sec10 0 = -1 := by
    simp only [Zone.szbMoveTime]
    rw [if_pos hround]
  have hnone : ¬ z.szbRoundTime t .sec10 0 < -1 := by omega
  rw [LuaSource.szbGetProbe, Zone.szbGetProbe]
  dsimp only
  rw [hmove, AvgProbe.szbGetAvgProbe, if_neg hnone]
  rfl

theorem szbGetProbe_slot (z : Zone) (p : LuaSource) {t : ℕ} (h : 10 ≤ t) :
    p.szbGetProbe z t = some (p.slot (t / 10)) := by
  have hspan : probeSpan = 10 := rfl
  have hround : z.szbRoundTime t .sec10 0 = t - t % 10 := by
    simp only [Zone.szbRoundTime]
    rw [if_neg (by omega), if_neg (by simp)]
  have hmove : z.szbMoveTime (t - t % 10) 1 .sec10 0 = t - t % 10 + 10 := by
    simp only [Zone.szbMoveTime]
    rw [if_neg (by omega), if_neg (by simp)]
    omega
  have hdvd : probeSpan ∣ (t : ℤ) - t % 10 := by
    rw [hspan]
    omega
  obtain ⟨a, ha, hadds⟩ := AvgProbe.szbGetAvgProbe_reads p.contents hdvd
    (show probeSpan ∣ (t : ℤ) - t % 10 + 10 by rw [hspan]; omega) (.inl (by omega))
    ⟨0, 0, true, 0, 0⟩
  have hslots : AvgProbe.slots ((t : ℤ) - t % 10) (t - t % 10 + 10) = [(t : ℤ) - t % 10] := by
    rw [AvgProbe.slots_cons (by omega) (by rw [hspan]; omega), AvgProbe.slots_of_le (by
      rw [hspan])]
  have hprobe : AvgProbe.probeAt p.contents ((t : ℤ) - t % 10) = p.slot (t / 10) := by
    simp only [AvgProbe.probeAt, LuaSource.contents, AvgProbe.blockOffset, blockSpan_eq, hspan]
    congr 1
    omega
  have hread : AvgProbe.readProbes p.contents ((t : ℤ) - t % 10) (t - t % 10 + 10) =
      (p.slot (t / 10)).toList := by
    rw [AvgProbe.readProbes, hslots, List.filter_cons_of_pos (by simp), List.filter_nil,
      List.filterMap_cons, hprobe]
    cases p.slot ((t : ℤ) / 10) <;> rfl
  rw [hread] at hadds
  have hpsum := hadds.psum
  have hpcount := hadds.pcount
  rw [LuaSource.szbGetProbe, Zone.szbGetProbe]
  dsimp only
  rw [hround, hmove, ha]
  cases hslot : p.slot ((t : ℤ) / 10) with
  | none =>
    rw [hslot] at hpcount
    have hzero : a.pcount = 0 := hpcount
    simp [hzero]
  | some v =>
    rw [hslot] at hpcount hpsum
    have hone : a.pcount = 1 := hpcount
    have hsum : a.psum = v := by
      rw [hpsum]
      exact zero_add v
    simp [hone, hsum]

/-! ## One block -/

theorem readBlock_inSlot (p : LuaSource) {t₀ t : ℕ} (h : InSlot t₀ t) (hnear : t < t₀ + 18000) :
    (readBlock .sec10 t (p.szbGetBlock t₀ .sec10)).1 = some (p.slot (t / 10)) := by
  have hspan : BlockType.span .sec10 = 10 := rfl
  have hcount : ((probesPerBlock : ℕ) : ℤ) = 1800 := rfl
  have hprobe : probeSpan = 10 := rfl
  have hindex : 0 ≤ ((t : ℤ) - t₀).tdiv 10 ∧ ((t : ℤ) - t₀).tdiv 10 < 1800 ∧
      ((t₀ : ℤ) + 10 * ((t : ℤ) - t₀).tdiv 10) / 10 = t / 10 := by
    unfold InSlot at h
    rcases Nat.lt_or_ge t t₀ with hlt | hge
    · have hneg := Int.neg_tdiv ((t₀ : ℤ) - t) 10
      rw [neg_sub, Int.tdiv_eq_ediv_of_nonneg (show (0 : ℤ) ≤ t₀ - t by omega)] at hneg
      omega
    · rw [Int.tdiv_eq_ediv_of_nonneg (by omega)]
      omega
  obtain ⟨h0, h1, hslot⟩ := hindex
  simp only [LuaSource.szbGetBlock, readBlock, hspan, hcount, hprobe]
  rw [if_pos ⟨h0, h1⟩, Int.toNat_of_nonneg h0, hslot]

theorem readBlock_not_inSlot (p : LuaSource) {t₀ t : ℕ} (h : ¬ InSlot t₀ t) :
    (readBlock .sec10 t (p.szbGetBlock t₀ .sec10)).1 = none ∨
      ∃ k : ℤ, k ≠ t / 10 ∧ (readBlock .sec10 t (p.szbGetBlock t₀ .sec10)).1 = some (p.slot k) := by
  have hspan : BlockType.span .sec10 = 10 := rfl
  have hcount : ((probesPerBlock : ℕ) : ℤ) = 1800 := rfl
  have hprobe : probeSpan = 10 := rfl
  simp only [LuaSource.szbGetBlock, readBlock, hspan, hcount, hprobe]
  by_cases hindex : 0 ≤ ((t : ℤ) - t₀).tdiv 10 ∧ ((t : ℤ) - t₀).tdiv 10 < 1800
  · right
    rw [if_pos hindex, Int.toNat_of_nonneg hindex.1]
    refine ⟨_, ?_, rfl⟩
    unfold InSlot at h
    rcases Nat.lt_or_ge t t₀ with hlt | hge
    · have hneg := Int.neg_tdiv ((t₀ : ℤ) - t) 10
      rw [neg_sub, Int.tdiv_eq_ediv_of_nonneg (show (0 : ℤ) ≤ t₀ - t by omega)] at hneg
      omega
    · rw [Int.tdiv_eq_ediv_of_nonneg (by omega)]
      omega
  · left
    rw [if_neg hindex]

theorem monthValue_iff {p : LuaSource} (t : ℤ) :
    p.monthValue t = p.months.szbGetData t ↔ p.ConstAgrees t := by
  cases hconst : p.months.constValue with
  | none =>
    refine iff_of_true ?_ fun v hv => absurd (hconst.symm.trans hv) (by simp)
    rw [AvgParam.szbGetData, hconst, LuaSource.monthValue]
  | some v =>
    have hagrees : p.ConstAgrees t ↔ ∀ w, p.monthValue t = some w ↔
        w = v ∧ p.months.firstAvDate ≤ t ∧ t ≤ p.months.searchLast := by
      constructor
      · exact fun h => h v hconst
      · intro h v' hv'
        obtain rfl := Option.some.inj (hconst.symm.trans hv')
        exact h
    rw [AvgParam.szbGetData_const hconst, hagrees, Option.ext_iff]
    refine forall_congr' fun w => ?_
    by_cases hdates : p.months.firstAvDate ≤ t ∧ t ≤ p.months.searchLast
    · rw [if_pos hdates, Option.some.injEq, and_iff_left hdates, eq_comm (a := v)]
    · simp [hdates]

theorem readBlock_month (p : LuaSource) {t₀ t : ℕ}
    (h : t = t₀ ∨ (getBlockEntry (p.szbGetBlock t₀ .min10) t₀ .min10).Holds t) :
    (readBlock .min10 t (p.szbGetBlock t₀ .min10)).1 = some (p.monthValue t) := by
  have hspan : BlockType.span .min10 = 600 := rfl
  have hholds (hpos : 0 < szbProbecnt (szbTime2my t₀).1 (szbTime2my t₀).2) :
      probe2time 0 (szbTime2my t₀).1 (szbTime2my t₀).2 ≤ t ∧
        (t : ℤ) < probe2time 0 (szbTime2my t₀).1 (szbTime2my t₀).2 +
          600 * szbProbecnt (szbTime2my t₀).1 (szbTime2my t₀).2 := by
    rcases h with rfl | h
    · obtain ⟨hy, hy', -⟩ := valid_of_szbProbecnt hpos
      exact (cells_min10.inside (t : ℤ)).mp ⟨hy, hy'⟩
    · exact h
  have hmonth : szbTime2my t = szbTime2my t₀ := by
    rcases h with rfl | h
    · rfl
    · obtain ⟨-, hdate⟩ := szbProbeind_of_mem h.1 h.2
      rw [szbTime2my_eq, hdate]
  rw [LuaSource.monthValue, hmonth, LuaSource.szbGetBlock]
  cases hblock : p.months.block (szbTime2my t₀).1 (szbTime2my t₀).2 with
  | none => rfl
  | some b =>
    obtain ⟨hstart, hend⟩ := hholds (p.probes_pos _ _ _ hblock)
    obtain ⟨hindex, -⟩ := szbProbeind_of_mem hstart hend
    have hmax := (p.months.block_valid _ _ _ hblock).1
    have htdiv : ((t : ℤ) - probe2time 0 (szbTime2my t₀).1 (szbTime2my t₀).2).tdiv 600 =
        szbProbeind t dataSpan := by
      rw [Int.tdiv_eq_ediv_of_nonneg (by omega), hindex]
    simp only [Option.map_some, readBlock, hspan, htdiv, Option.bind_some]
    rw [if_pos (by omega)]

/-! ## The lists after some evaluations -/

section Lists

variable {params : ℕ → LuaSource} {pre : List Eval} {s : ExecutionEngine (Option EngineBlock)}

/-- After the evaluations `pre` every entry was made by one of them.  The lists of ten-second blocks
are sorted, and an entry was made by the first evaluation of its five hours. -/
structure Lists (params : ℕ → LuaSource) (pre : List Eval)
    (s : ExecutionEngine (Option EngineBlock)) : Prop where
  points : ∀ key, (s key).blocks ≠ [] → (s key).after ≠ []
  created : ∀ key, ∀ x ∈ (s key).blocks, ∃ e : Eval, e.key = key ∧ x = (e.call params).entry
  sorted : ∀ i, SortedEntries (s (.sec10, i)).blocks
  first : ∀ i, ∀ x ∈ (s (.sec10, i)).blocks, ∃ e : Eval, e.key = (.sec10, i) ∧
    x = (e.call params).entry ∧ pre.find? (sameInterval e) = some e
  covers : ∀ e ∈ pre, e.type = .sec10 → ∃ x ∈ (s e.key).blocks, x.Holds e.time

theorem lists_new : Lists params [] ExecutionEngine.new where
  points _ h := absurd rfl h
  created _ _ h := absurd h List.not_mem_nil
  sorted _ := Intervals.sorted_nil
  first _ _ h := absurd h List.not_mem_nil
  covers _ h := absurd h List.not_mem_nil

theorem entry_interval (params : ℕ → LuaSource) {e : Eval} (h : e.type = .sec10) :
    (e.call params).entry.startTime = e.time - e.time % 18000 ∧
      (e.call params).entry.endTime = e.time - e.time % 18000 + 18000 := by
  have hregular : Regular .sec10 (e.time : ℤ) := .inl (by omega)
  have hstart : (e.call params).entry.startTime = entryStart e.type e.time := rfl
  have hend : (e.call params).entry.endTime = entryEnd e.type e.time := rfl
  rw [hstart, hend, h, entryEnd_sec10, entryStart_sec10 hregular]
  exact ⟨rfl, rfl⟩

theorem entry_holds {e : Eval} (h : e.type = .sec10) (t : ℕ) :
    (e.call params).entry.Holds t ↔ t / 18000 = e.time / 18000 := by
  obtain ⟨hstart, hend⟩ := entry_interval params h
  rw [ListEntry.Holds, hstart, hend]
  omega

theorem sameInterval_congr {e e' : Eval} (h : sameInterval e e' = true) :
    sameInterval e' = sameInterval e := by
  funext x
  simp only [sameInterval, Bool.decide_and, Bool.and_eq_true, decide_eq_true_eq] at h ⊢
  rw [h.1, h.2]

theorem sameInterval_iff {e e' : Eval} :
    sameInterval e e' = true ↔ e'.key = e.key ∧ e'.time / 18000 = e.time / 18000 := by
  simp [sameInterval]

theorem find?_append_some {p : Eval → Bool} {e e' : Eval} (h : pre.find? p = some e) :
    (pre ++ [e']).find? p = some e := by
  rw [List.find?_append, h, Option.some_or]

theorem Lists.other (h : Lists params pre s) {e : Eval} {l : BlockList (Option EngineBlock)}
    {i : ℕ} (hi : (.sec10, i) ≠ e.key) :
    SortedEntries (Function.update s e.key l (.sec10, i)).blocks ∧
      ∀ x ∈ (Function.update s e.key l (.sec10, i)).blocks, ∃ e' : Eval, e'.key = (.sec10, i) ∧
        x = (e'.call params).entry ∧ (pre ++ [e]).find? (sameInterval e') = some e' := by
  rw [Function.update_of_ne hi]
  refine ⟨h.sorted i, ?_⟩
  intro x hx
  obtain ⟨e', hkey, hentry, hfirst⟩ := h.first i x hx
  exact ⟨e', hkey, hentry, find?_append_some hfirst⟩

/-- What an evaluation of any type leaves. -/
theorem Lists.extend (h : Lists params pre s) {e : Eval} {f : Found (Option EngineBlock)}
    (hf : (s e.key).getBlock e.time e.type (e.call params).fetched = some f) :
    (∀ key, (Function.update s e.key f.list key).blocks ≠ [] →
        (Function.update s e.key f.list key).after ≠ []) ∧
      ∀ key, ∀ x ∈ (Function.update s e.key f.list key).blocks,
        ∃ e' : Eval, e'.key = key ∧ x = (e'.call params).entry := by
  have hext := BlockList.extends_getBlock hf
  constructor
  · intro key hne
    by_cases hkey : key = e.key
    · rw [hkey, Function.update_self]
      exact hext.points
    · rw [Function.update_of_ne hkey] at hne ⊢
      exact h.points key hne
  · intro key x hx
    by_cases hkey : key = e.key
    · rw [hkey, Function.update_self] at hx
      rcases hext.mem x hx with hold | ⟨-, hnew⟩
      · obtain ⟨e', hkey', hentry⟩ := h.created e.key x hold
        exact ⟨e', hkey'.trans hkey.symm, hentry⟩
      · exact ⟨e, hkey.symm, hnew⟩
    · rw [Function.update_of_ne hkey] at hx
      exact h.created key x hx

theorem getBlock_update {e : Eval} {f : Found (Option EngineBlock)}
    (hf : (s e.key).getBlock e.time e.type (e.call params).fetched = some f) :
    s.getBlock (e.call params) = some (Function.update s e.key f.list, f.block, f.asked) := by
  have hf' : BlockList.getBlock (s (e.call params).key) (e.call params).time (e.call params).type
      (e.call params).fetched = some f := hf
  rw [ExecutionEngine.getBlock, hf']
  rfl

/-- A month's block was fetched for a time of the month. -/
theorem Lists.step_min10 (h : Lists params pre s) {e : Eval} (he : e.type = .min10) :
    ∃ s' block asked, s.getBlock (e.call params) = some (s', block, asked) ∧
      Lists params (pre ++ [e]) s' ∧ ∃ e₀ : Eval, e₀.key = e.key ∧
        block = (params e.paramIndex).szbGetBlock e₀.time .min10 ∧
        (e.time = e₀.time ∨ (getBlockEntry block e₀.time .min10).Holds e.time) := by
  obtain ⟨f, hf⟩ := BlockList.getBlock_isSome (h.points e.key) e.time e.type (e.call params).fetched
  obtain ⟨hpoints, hcreated⟩ := h.extend hf
  have hother : ∀ i, (.sec10, i) ≠ e.key := by
    intro i hi
    have htype : BlockType.sec10 = .min10 := (congrArg Prod.fst hi).trans he
    exact absurd htype (by decide)
  refine ⟨_, _, _, getBlock_update hf, ?_, ?_⟩
  · refine ⟨hpoints, hcreated, fun i => (h.other (hother i)).1, fun i => (h.other (hother i)).2, ?_⟩
    intro e' he' htype
    have hne : e'.key ≠ e.key := by
      rw [Eval.key, htype]
      exact hother e'.paramIndex
    rcases List.mem_append.mp he' with he' | he'
    · rw [Function.update_of_ne hne]
      exact h.covers e' he' htype
    · rw [List.mem_singleton.mp he'] at hne
      exact absurd rfl hne
  · rcases (BlockList.extends_getBlock hf).found with ⟨-, x, hx, hholds, hblock⟩ | ⟨-, hblock⟩
    · obtain ⟨e₀, hkey, rfl⟩ := h.created e.key x hx
      have htype : e₀.type = .min10 := (congrArg Prod.fst hkey).trans he
      have hparam : e₀.paramIndex = e.paramIndex := congrArg Prod.snd hkey
      have hfetched : f.block = (params e.paramIndex).szbGetBlock e₀.time .min10 := by
        rw [hblock, ← hparam, ← htype]
        rfl
      have hentry : (e₀.call params).entry = getBlockEntry f.block e₀.time .min10 := by
        rw [hblock, ← htype]
        rfl
      exact ⟨e₀, hkey, hfetched, .inr (hentry ▸ hholds)⟩
    · refine ⟨e, rfl, ?_, .inl rfl⟩
      rw [hblock, ← he]
      rfl

theorem Lists.update (h : Lists params pre s) {e : Eval} {f : Found (Option EngineBlock)}
    (hf : (s e.key).getBlock e.time e.type (e.call params).fetched = some f)
    (hsorted : SortedEntries f.list.blocks)
    (hfirst : ∀ x ∈ f.list.blocks, ∃ e' : Eval, e'.key = e.key ∧
      x = (e'.call params).entry ∧ (pre ++ [e]).find? (sameInterval e') = some e')
    (hcovers : ∀ e' ∈ pre ++ [e], e'.key = e.key → ∃ x ∈ f.list.blocks, x.Holds e'.time) :
    Lists params (pre ++ [e]) (Function.update s e.key f.list) := by
  obtain ⟨hpoints, hcreated⟩ := h.extend hf
  refine ⟨hpoints, hcreated, ?_, ?_, ?_⟩
  · intro i
    by_cases hi : (.sec10, i) = e.key
    · rw [hi, Function.update_self]
      exact hsorted
    · exact (h.other hi).1
  · intro i
    by_cases hi : (.sec10, i) = e.key
    · rw [hi, Function.update_self]
      exact hfirst
    · exact (h.other hi).2
  · intro e' he' htype
    by_cases hi : e'.key = e.key
    · rw [hi, Function.update_self]
      exact hcovers e' he' hi
    · rw [Function.update_of_ne hi]
      rcases List.mem_append.mp he' with he' | he'
      · exact h.covers e' he' htype
      · exact absurd (congrArg Eval.key (List.mem_singleton.mp he')) hi

theorem Eval.key_sec10 {e : Eval} (he : e.type = .sec10) : e.key = (.sec10, e.paramIndex) := by
  rw [Eval.key, he]

/-- The first evaluation of the entry that holds a time. -/
theorem Lists.first_holds (h : Lists params pre s) {e : Eval} (he : e.type = .sec10)
    {x : ListEntry (Option EngineBlock)} (hx : x ∈ (s e.key).blocks) (hholds : x.Holds e.time) :
    ∃ e₀ : Eval, e₀.key = e.key ∧ x = (e₀.call params).entry ∧ sameInterval e₀ e = true ∧
      pre.find? (sameInterval e) = some e₀ := by
  have hkey := Eval.key_sec10 he
  rw [hkey] at hx
  obtain ⟨e₀, hkey₀, rfl, hfirst⟩ := h.first e.paramIndex x hx
  have htype₀ : e₀.type = .sec10 := congrArg Prod.fst hkey₀
  have hsame : sameInterval e₀ e = true :=
    sameInterval_iff.mpr ⟨hkey.trans hkey₀.symm, (entry_holds htype₀ e.time).mp hholds⟩
  refine ⟨e₀, hkey₀.trans hkey.symm, rfl, hsame, ?_⟩
  rw [sameInterval_congr hsame]
  exact hfirst

/-- The time lies in an entry of the list. -/
theorem Lists.hit (h : Lists params pre s) {e : Eval} (he : e.type = .sec10)
    {f : Found (Option EngineBlock)}
    (hf : (s e.key).getBlock e.time e.type (e.call params).fetched = some f)
    (hsame : f.list.blocks = (s e.key).blocks) {x : ListEntry (Option EngineBlock)}
    (hx : x ∈ (s e.key).blocks) (hholds : x.Holds e.time) :
    Lists params (pre ++ [e]) (Function.update s e.key f.list) := by
  apply h.update hf
  · rw [hsame, Eval.key_sec10 he]
    exact h.sorted e.paramIndex
  · intro y hy
    rw [hsame, Eval.key_sec10 he] at hy
    obtain ⟨e', hkey', hentry, hfirst⟩ := h.first e.paramIndex y hy
    exact ⟨e', hkey'.trans (Eval.key_sec10 he).symm, hentry, find?_append_some hfirst⟩
  · intro e' he' hkey'
    rw [hsame]
    rcases List.mem_append.mp he' with he' | he'
    · rw [← hkey']
      exact h.covers e' he' ((congrArg Prod.fst hkey').trans he)
    · rw [List.mem_singleton.mp he']
      exact ⟨x, hx, hholds⟩

theorem Lists.find?_new (h : Lists params pre s) {e : Eval} (he : e.type = .sec10)
    (hnone : ∀ x ∈ (s e.key).blocks, ¬ x.Holds e.time) :
    (pre ++ [e]).find? (sameInterval e) = some e := by
  have hpre : pre.find? (sameInterval e) = none := by
    rw [List.find?_eq_none]
    intro e' he' hsameInterval
    obtain ⟨hkey', htime⟩ := sameInterval_iff.mp hsameInterval
    have htype' : e'.type = .sec10 := (congrArg Prod.fst hkey').trans he
    obtain ⟨x, hx, hholds⟩ := h.covers e' he' htype'
    obtain ⟨e₀, hkey₀, rfl, -⟩ := h.first_holds htype' hx hholds
    have htype₀ : e₀.type = .sec10 := (congrArg Prod.fst hkey₀).trans htype'
    have htime₀ := (entry_holds htype₀ e'.time).mp hholds
    rw [hkey'] at hx
    exact hnone _ hx ((entry_holds htype₀ e.time).mpr (htime.symm.trans htime₀))
  have hrefl : sameInterval e e = true := sameInterval_iff.mpr ⟨rfl, rfl⟩
  rw [List.find?_append, hpre, List.find?_cons_of_pos hrefl, Option.none_or]

theorem Lists.sorted_insert (h : Lists params pre s) {e : Eval} (he : e.type = .sec10)
    {before after : List (ListEntry (Option EngineBlock))}
    (hlist : before.reverse ++ after = (s e.key).blocks)
    (hbefore : ∀ x ∈ before, x.endTime ≤ e.time) (hafter : ∀ x ∈ after, (e.time : ℤ) < x.startTime) :
    SortedEntries (before.reverse ++ (e.call params).entry :: after) := by
  have hself : (e.call params).entry.Holds e.time := (entry_holds he e.time).mpr rfl
  obtain ⟨hstart, hend⟩ := entry_interval params he
  have hold : ∀ x ∈ (s e.key).blocks, ∃ e₀ : Eval, e₀.type = .sec10 ∧
      x = (e₀.call params).entry := by
    intro x hx
    obtain ⟨e₀, hkey₀, hentry⟩ := h.created e.key x hx
    exact ⟨e₀, (congrArg Prod.fst hkey₀).trans he, hentry⟩
  have hsorted : SortedEntries (before.reverse ++ after) := by
    rw [hlist, Eval.key_sec10 he]
    exact h.sorted e.paramIndex
  refine hsorted.insert (hself.1.trans_lt hself.2) ?_ ?_
  · intro x hx
    have hend₁ := hbefore x (List.mem_reverse.mp hx)
    obtain ⟨e₀, htype₀, rfl⟩ := hold x (hlist ▸ List.mem_append_left _ hx)
    have hend₀ := (entry_interval params htype₀).2
    rw [hend₀] at hend₁ ⊢
    rw [hstart]
    omega
  · intro x hx
    have hstart₁ := hafter x hx
    obtain ⟨e₀, htype₀, rfl⟩ := hold x (hlist ▸ List.mem_append_right _ hx)
    have hstart₀ := (entry_interval params htype₀).1
    rw [hstart₀] at hstart₁ ⊢
    rw [hend]
    omega

/-- The time lies in no entry of the list, and one was added. -/
theorem Lists.added (h : Lists params pre s) {e : Eval} (he : e.type = .sec10)
    {f : Found (Option EngineBlock)}
    (hf : (s e.key).getBlock e.time e.type (e.call params).fetched = some f)
    (hmem : ∀ x, x ∈ f.list.blocks ↔ x = (e.call params).entry ∨ x ∈ (s e.key).blocks)
    (hsorted : SortedEntries f.list.blocks)
    (hfind : (pre ++ [e]).find? (sameInterval e) = some e) :
    Lists params (pre ++ [e]) (Function.update s e.key f.list) := by
  apply h.update hf hsorted
  · intro y hy
    rcases (hmem y).mp hy with hnew | hold
    · exact ⟨e, rfl, hnew, hfind⟩
    · rw [Eval.key_sec10 he] at hold
      obtain ⟨e', hkey', hentry, hfirst⟩ := h.first e.paramIndex y hold
      exact ⟨e', hkey'.trans (Eval.key_sec10 he).symm, hentry, find?_append_some hfirst⟩
  · intro e' he' hkey'
    rcases List.mem_append.mp he' with he' | he'
    · obtain ⟨x, hx, hholds⟩ := h.covers e' he' ((congrArg Prod.fst hkey').trans he)
      rw [hkey'] at hx
      exact ⟨x, (hmem x).mpr (.inr hx), hholds⟩
    · rw [List.mem_singleton.mp he']
      exact ⟨_, (hmem _).mpr (.inl rfl), (entry_holds he e.time).mpr rfl⟩

/-- A block of ten-second probes was fetched for the first time of its five hours. -/
theorem Lists.step_sec10 (h : Lists params pre s) {e : Eval} (he : e.type = .sec10) :
    ∃ s' block asked, s.getBlock (e.call params) = some (s', block, asked) ∧
      Lists params (pre ++ [e]) s' ∧ ∃ e₀ : Eval, (pre ++ [e]).find? (sameInterval e) = some e₀ ∧
        block = (params e.paramIndex).szbGetBlock e₀.time .sec10 := by
  have hsorted : SortedEntries (s e.key).blocks := by
    rw [Eval.key_sec10 he]
    exact h.sorted e.paramIndex
  obtain ⟨f, hf, hsearched⟩ := BlockList.getBlock_searched e.time e.type (e.call params).fetched
    hsorted (h.points e.key)
  refine ⟨_, _, _, getBlock_update hf, ?_⟩
  generalize hentries : (s e.key).blocks = entries at hsearched
  cases hsearched with
  | hit before after x hlist hx =>
    have hmem : x ∈ (s e.key).blocks := by
      rw [hentries, ← hlist]
      exact List.mem_append_right _ List.mem_cons_self
    obtain ⟨e₀, hkey₀, rfl, -, hfirst⟩ := h.first_holds he hmem hx
    refine ⟨h.hit he hf (hlist.trans hentries.symm) hmem hx, e₀, find?_append_some hfirst, ?_⟩
    have hparam₀ : e₀.paramIndex = e.paramIndex := congrArg Prod.snd hkey₀
    have htype₀ : e₀.type = .sec10 := (congrArg Prod.fst hkey₀).trans he
    change ((e₀.call params).entry).block = _
    rw [← hparam₀, ← htype₀]
    rfl
  | added before after hlist hbefore hafter =>
    have hlist' : before.reverse ++ after = (s e.key).blocks := hlist.trans hentries.symm
    have hnone : ∀ x ∈ (s e.key).blocks, ¬ x.Holds e.time := by
      intro x hx hholds
      rw [← hlist'] at hx
      rcases List.mem_append.mp hx with hx | hx
      · exact absurd hholds.2 (not_lt.mpr (hbefore x (List.mem_reverse.mp hx)))
      · exact absurd hholds.1 (not_le.mpr (hafter x hx))
    have hfind := h.find?_new he hnone
    refine ⟨h.added he hf ?_ (h.sorted_insert he hlist' hbefore hafter) hfind, e, hfind, ?_⟩
    · intro x
      change x ∈ before.reverse ++ (e.call params).entry :: after ↔ _
      rw [← hlist', List.mem_append, List.mem_append, List.mem_cons]
      tauto
    · rw [← he]
      rfl

end Lists

/-! ## Runs of evaluations -/

variable {params : ℕ → LuaSource} {pre : List Eval} {s : ExecutionEngine (Option EngineBlock)}

theorem valueBlock_eq {e : Eval} {s' : ExecutionEngine (Option EngineBlock)}
    {block : Option EngineBlock} {asked : Bool}
    (h : s.getBlock (e.call params) = some (s', block, asked)) :
    valueBlock params s e =
      some ⟨s', (readBlock e.type e.time block).1, (readBlock e.type e.time block).2⟩ := by
  rw [valueBlock, h]
  rfl

/-- One evaluation, after any others. -/
theorem Lists.value (h : Lists params pre s) (e : Eval) :
    ∃ r, valueBlock params s e = some r ∧ Lists params (pre ++ [e]) r.engine ∧
      (e.type = .min10 → r.value = some ((params e.paramIndex).monthValue e.time)) ∧
      (e.type = .sec10 → ∃ e₀, (pre ++ [e]).find? (sameInterval e) = some e₀ ∧
        r.value = (readBlock .sec10 e.time
          ((params e.paramIndex).szbGetBlock e₀.time .sec10)).1) := by
  cases htype : e.type with
  | min10 =>
    obtain ⟨s', block, asked, hget, hlists, e₀, hkey, rfl, htime⟩ := h.step_min10 htype
    refine ⟨_, valueBlock_eq hget, hlists, fun _ => ?_, fun hsec => absurd hsec (by decide)⟩
    dsimp only
    rw [htype]
    exact readBlock_month (params e.paramIndex) htime
  | sec10 =>
    obtain ⟨s', block, asked, hget, hlists, e₀, hfind, rfl⟩ := h.step_sec10 htype
    refine ⟨_, valueBlock_eq hget, hlists, fun hmin => absurd hmin (by decide), fun _ => ?_⟩
    refine ⟨e₀, hfind, ?_⟩
    dsimp only
    rw [htype]

theorem sameInterval_near {e e₀ : Eval} (h : sameInterval e e₀ = true) :
    e.time < e₀.time + 18000 := by
  have htime := (sameInterval_iff.mp h).2
  omega

/-- The times of the evaluations from `post` on, after `pre`. -/
def SlotTimesFrom (pre post : List Eval) : Prop :=
  ∀ mid e rest, post = mid ++ e :: rest → e.type = .sec10 →
    10 ≤ e.time ∧ ∀ e₀, (pre ++ mid ++ [e]).find? (sameInterval e) = some e₀ →
      InSlot e₀.time e.time

theorem slotTimesFrom_cons {e : Eval} {post : List Eval} :
    SlotTimesFrom pre (e :: post) ↔
      (e.type = .sec10 → 10 ≤ e.time ∧ ∀ e₀, (pre ++ [e]).find? (sameInterval e) = some e₀ →
        InSlot e₀.time e.time) ∧ SlotTimesFrom (pre ++ [e]) post := by
  constructor
  · intro h
    refine ⟨fun htype => ?_, ?_⟩
    · have hfirst := h [] e post rfl htype
      rwa [List.append_nil] at hfirst
    · intro mid e' rest hpost htype
      have hmid := h (e :: mid) e' rest (by rw [hpost, List.cons_append]) htype
      rwa [List.append_cons pre e mid] at hmid
  · rintro ⟨hfirst, hrest⟩ mid e' rest hpost htype
    cases mid with
    | nil =>
      obtain ⟨rfl, -⟩ := List.cons.inj hpost
      rw [List.append_nil]
      exact hfirst htype
    | cons e'' mid =>
      obtain ⟨rfl, hpost'⟩ := List.cons.inj hpost
      rw [List.append_cons pre e mid]
      exact hrest mid e' rest hpost' htype

/-- Evaluations at such times read right, but for constants that do not agree. -/
theorem Lists.reads_iff (z : Zone) (h : Lists params pre s) {post : List Eval}
    (htimes : SlotTimesFrom pre post) :
    ReadsRight params z s post ↔
      ∀ e ∈ post, e.type = .min10 → (params e.paramIndex).ConstAgrees e.time := by
  induction post generalizing pre s with
  | nil => exact iff_of_true trivial fun e he => absurd he List.not_mem_nil
  | cons e post ih =>
    obtain ⟨hfirst, hrest⟩ := slotTimesFrom_cons.mp htimes
    obtain ⟨r, hr, hlists, hmin, hsec⟩ := h.value e
    have hvalue : (r.value ≠ none ∧ r.value = slotValue params z e) ↔
        (e.type = .min10 → (params e.paramIndex).ConstAgrees e.time) := by
      cases htype : e.type with
      | min10 =>
        simp only [slotValue, htype, hmin htype, Option.some.injEq, monthValue_iff]
        simp
      | sec10 =>
        obtain ⟨e₀, hfind, hread⟩ := hsec htype
        obtain ⟨hten, hslot⟩ := hfirst htype
        have hnear := sameInterval_near (List.find?_some hfind)
        rw [readBlock_inSlot _ (hslot e₀ hfind) hnear] at hread
        simp only [slotValue, htype, hread, szbGetProbe_slot z _ hten]
        simp
    rw [List.forall_mem_cons, ← hvalue, ← ih hlists hrest]
    constructor
    · rintro ⟨r', hr', hne, hslot, hpost⟩
      obtain rfl := Option.some.inj (hr.symm.trans hr')
      exact ⟨⟨hne, hslot⟩, hpost⟩
    · rintro ⟨⟨hne, hslot⟩, hpost⟩
      exact ⟨r, hr, hne, hslot, hpost⟩

theorem noDate_slot : (-1 : ℤ) = -1 ∨ dataSpan ∣ (-1 : ℤ) := .inl rfl

/-- A parameter whose slots all have different values. -/
def numbered : LuaSource where
  months := ⟨fun _ _ => none, none, -1, -1, fun _ _ _ h => absurd h (by simp), noDate_slot, noDate_slot⟩
  slot k := some k
  fixedProbes _ := 0
  probes_pos _ _ _ h := absurd h (by simp)

theorem numbered_constAgrees (t : ℤ) : numbered.ConstAgrees t :=
  fun _ h => absurd h (by simp [numbered])

/-- A wrong slot of it has a wrong value. -/
theorem numbered_inSlot (z : Zone) {t₀ t : ℕ} (hnear : t < t₀ + 18000)
    (hne : (readBlock .sec10 t (numbered.szbGetBlock t₀ .sec10)).1 ≠ none)
    (hvalue : (readBlock .sec10 t (numbered.szbGetBlock t₀ .sec10)).1 = numbered.szbGetProbe z t) :
    10 ≤ t ∧ InSlot t₀ t := by
  by_cases hin : InSlot t₀ t
  · refine ⟨?_, hin⟩
    by_contra hlt
    rw [readBlock_inSlot _ hin hnear, szbGetProbe_zero z _ (by omega)] at hvalue
    exact absurd hvalue (by simp [numbered])
  · exfalso
    rcases readBlock_not_inSlot numbered hin with hnone | ⟨k, hk, hread⟩
    · exact hne hnone
    · rw [hread] at hvalue
      rcases Nat.lt_or_ge t 10 with hlt | hge
      · rw [szbGetProbe_zero z _ hlt] at hvalue
        exact absurd hvalue (by simp [numbered])
      · rw [szbGetProbe_slot z _ hge] at hvalue
        simp only [numbered, Option.some.injEq, Int.cast_inj] at hvalue
        exact hk hvalue

/-- Its probes are read right at such times only. -/
theorem Lists.slotTimes (z : Zone) (h : Lists (fun _ => numbered) pre s) {post : List Eval}
    (hright : ReadsRight (fun _ => numbered) z s post) : SlotTimesFrom pre post := by
  induction post generalizing pre s with
  | nil => exact fun mid e rest hpost => absurd hpost (by simp)
  | cons e post ih =>
    obtain ⟨r', hr', hne, hvalue, hrest⟩ := hright
    obtain ⟨r, hr, hlists, -, hsec⟩ := h.value e
    obtain rfl : r = r' := Option.some.inj (hr.symm.trans hr')
    refine slotTimesFrom_cons.mpr ⟨fun htype => ?_, ih hlists hrest⟩
    obtain ⟨e₀, hfind, hread⟩ := hsec htype
    simp only [slotValue, htype] at hvalue
    rw [hread] at hne hvalue
    have hslot := numbered_inSlot z (sameInterval_near (List.find?_some hfind)) hne hvalue
    refine ⟨hslot.1, fun e₁ hfind₁ => ?_⟩
    obtain rfl := Option.some.inj (hfind.symm.trans hfind₁)
    exact hslot.2

theorem slotTimesFrom_nil {es : List Eval} : SlotTimesFrom [] es ↔ SlotTimes es := Iff.rfl

/-- The evaluations read their slots, for any parameters whose constants agree and for no others,
exactly when the ten-second probes are read at such times. -/
theorem readsRight_iff (z : Zone) (es : List Eval) :
    (∀ params : ℕ → LuaSource, ReadsRight params z ExecutionEngine.new es ↔
      ∀ e ∈ es, e.type = .min10 → (params e.paramIndex).ConstAgrees e.time) ↔ SlotTimes es := by
  constructor
  · intro h
    have hright := (h fun _ => numbered).mpr fun e _ _ => numbered_constAgrees e.time
    exact slotTimesFrom_nil.mp (lists_new.slotTimes z hright)
  · intro htimes params
    exact lists_new.reads_iff z (slotTimesFrom_nil.mpr htimes)

/-- A time that is before the first one of its five hours is read before the block. -/
theorem earlier_not_read :
    ¬ ReadsRight (fun _ => numbered) ⟨0, by decide⟩ ExecutionEngine.new
      [⟨0, 100, .sec10⟩, ⟨0, 50, .sec10⟩] := by
  intro h
  have htimes := slotTimesFrom_nil.mp (lists_new.slotTimes _ h)
  have hslot := (htimes [⟨0, 100, .sec10⟩] ⟨0, 50, .sec10⟩ [] rfl rfl).2 ⟨0, 100, .sec10⟩ (by decide)
  exact absurd hslot (by unfold InSlot; decide)

end Szbase
end Szarp
