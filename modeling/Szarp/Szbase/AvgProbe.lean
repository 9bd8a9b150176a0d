import Szarp.Lib.Slots
import Szarp.Szbase.ProbeBlock

/-!
# Averages of 10-second probes

`szb_get_avg_probe`: the sum and the number of the probes of an interval, read block by block.
-/

namespace Szarp
namespace Szbase

variable {V : Type}

/-- The seconds of a block: `szb_probeblock_t::probes_per_block * SZBASE_PROBE_SPAN` -/
def blockSpan : ℤ := probesPerBlock * probeSpan

theorem blockSpan_eq : blockSpan = 18000 := rfl

def szbRoundToProbeBlockStart (t : ℤ) : ℤ := t - t.tmod (probesPerBlock * probeSpan)

/-- What is read of a block of probes; `none` is `SZB_NODATA`. -/
structure ProbeContents (V : Type) where
  data : Fin probesPerBlock → Option V
  fixedProbesCount : ℕ

/-- The variables that an average is collected in. -/
structure AvgProbe (V : Type) where
  psum : V
  pcount : ℕ
  isFixed : Bool
  first : V
  last : V

namespace AvgProbe

def add [Add V] (a : AvgProbe V) (v : V) : AvgProbe V :=
  { a with
    psum := a.psum + v
    pcount := a.pcount + 1
    last := v
    first := if a.pcount + 1 = 1 then v else a.first }

/-- The loop over one block, from probe `i` at time `t`; `none` is an access before the block. -/
def scanBlock [Add V] (data : Fin probesPerBlock → Option V) (endTime i t : ℤ) (a : AvgProbe V) :
    Option (AvgProbe V) :=
  if h : t < endTime ∧ i < probesPerBlock then
    if hi : 0 ≤ i then
      scanBlock data endTime (i + 1) (t + probeSpan)
        ((data ⟨i.toNat, by omega⟩).elim a a.add)
    else none
  else some a
termination_by (probesPerBlock - i).toNat

/-- `szb_get_avg_probe`; `szb_get_probeblock` is never `NULL`, it has added its block to the
buffer. -/
def szbGetAvgProbe [Add V] (block : ℤ → ProbeContents V) (startTime endTime : ℤ)
    (a : AvgProbe V) : Option (AvgProbe V) :=
  if startTime < endTime then
    let blockStart := szbRoundToProbeBlockStart startTime
    let probe := (startTime - blockStart).tdiv probeSpan
    let b := block blockStart
    let a := if b.fixedProbesCount < probesPerBlock ∧
        b.fixedProbesCount * probeSpan + blockStart < endTime
      then { a with isFixed := false } else a
    (scanBlock b.data endTime probe startTime a).bind
      (szbGetAvgProbe block (startTime + probesPerBlock * probeSpan) endTime)
  else some a
termination_by (endTime - startTime).toNat
decreasing_by
  have h : (probesPerBlock * probeSpan : ℤ) = 18000 := rfl
  omega

/-! ## Slots -/

def slots (t stop : ℤ) : List ℤ :=
  (List.range ((stop - t) / probeSpan).toNat).map fun k : ℕ => t + probeSpan * k

theorem mem_slots {t stop s : ℤ} (h : probeSpan ∣ stop - t) :
    s ∈ slots t stop ↔ t ≤ s ∧ s < stop ∧ probeSpan ∣ s - t :=
  Slots.mem_slots (by decide) h

theorem slots_of_le {t stop : ℤ} (h : stop ≤ t) : slots t stop = [] :=
  Slots.slots_of_le (by decide) h

theorem slots_append {t mid stop : ℤ} (ht : t ≤ mid) (hstop : mid ≤ stop)
    (h : probeSpan ∣ mid - t) : slots t stop = slots t mid ++ slots mid stop :=
  Slots.slots_append (by decide) ht hstop h

theorem slots_cons {t stop : ℤ} (ht : t < stop) (h : probeSpan ∣ stop - t) :
    slots t stop = t :: slots (t + probeSpan) stop :=
  Slots.slots_cons (by decide) ht h

def blockOffset (t : ℤ) : ℤ := t % blockSpan

def probeAt (block : ℤ → ProbeContents V) (t : ℤ) : Option V :=
  (block (t - blockOffset t)).data ⟨(blockOffset t / probeSpan).toNat, by
    have hspan : probeSpan = 10 := rfl
    have hcount : probesPerBlock = 1800 := rfl
    rw [blockOffset, blockSpan_eq, hspan, hcount]
    omega⟩

def probesIn (block : ℤ → ProbeContents V) (startTime endTime : ℤ) : List V :=
  (slots startTime endTime).filterMap (probeAt block)

/-! ## The interval -/

theorem blockOffset_add {base o : ℤ} (hbase : blockSpan ∣ base) (ho : 0 ≤ o) (hlt : o < blockSpan) :
    blockOffset (base + o) = o := by
  obtain ⟨n, rfl⟩ := hbase
  rw [blockOffset, Int.mul_add_emod_self_left, Int.emod_eq_of_lt ho hlt]

theorem probeAt_block (block : ℤ → ProbeContents V) {base : ℤ} (hbase : blockSpan ∣ base)
    (k : Fin probesPerBlock) : probeAt block (base + probeSpan * k) = (block base).data k := by
  have hspan : probeSpan = 10 := rfl
  have hk := k.isLt
  have hoffset : blockOffset (base + probeSpan * k) = probeSpan * k := by
    apply blockOffset_add hbase
    · rw [hspan]
      omega
    · rw [hspan, blockSpan_eq]
      have hcount : probesPerBlock = 1800 := rfl
      omega
  have hindex : (probeSpan * (k : ℤ) / probeSpan).toNat = k := by
    rw [hspan]
    omega
  simp only [probeAt, hoffset, add_sub_cancel_right, hindex]

/-- The probes that the function reads: those that are not before the place of the start in their
block. -/
def readProbes (block : ℤ → ProbeContents V) (startTime endTime : ℤ) : List V :=
  ((slots startTime endTime).filter fun t => blockOffset startTime ≤ blockOffset t).filterMap
    (probeAt block)

theorem readProbes_of_le (block : ℤ → ProbeContents V) {startTime endTime : ℤ}
    (h : endTime ≤ startTime) : readProbes block startTime endTime = [] := by
  rw [readProbes, slots_of_le h, List.filter_nil, List.filterMap_nil]

/-- What is read of a block, and what the next round of the loop reads. -/
theorem readProbes_step (block : ℤ → ProbeContents V) {base o endTime : ℤ}
    (hbase : blockSpan ∣ base) (ho : 0 ≤ o) (hlt : o < blockSpan) (hslot : probeSpan ∣ o)
    (hstart : base + o < endTime) (hend : probeSpan ∣ endTime) :
    readProbes block (base + o) endTime =
      (slots (base + o) (min endTime (base + blockSpan))).filterMap (probeAt block) ++
        readProbes block (base + o + blockSpan) endTime := by
  have hspan : probeSpan = 10 := rfl
  have hblock := blockSpan_eq
  have hbase' : probeSpan ∣ base := by
    rw [hspan]
    rw [hblock] at hbase
    omega
  rw [hspan] at hbase' hslot hend
  have hoffset : blockOffset (base + o) = o := blockOffset_add hbase ho hlt
  have hoffset' : blockOffset (base + o + blockSpan) = o := by
    have h := blockOffset_add (dvd_add hbase (dvd_refl blockSpan)) ho hlt
    rwa [add_right_comm] at h
  -- the rest of the first block is read
  have hkeep : ∀ t ∈ slots (base + o) (min endTime (base + blockSpan)), o ≤ blockOffset t := by
    intro t ht
    rw [mem_slots (by rw [hspan]; omega)] at ht
    have h := blockOffset_add (o := t - base) hbase (by omega) (by omega)
    rw [add_sub_cancel] at h
    omega
  -- the head of the next block is not
  have hskip : ∀ t ∈ slots (base + blockSpan) (min endTime (base + o + blockSpan)),
      ¬ o ≤ blockOffset t := by
    intro t ht
    rw [mem_slots (by rw [hspan]; omega)] at ht
    have h := blockOffset_add (o := t - (base + blockSpan)) (dvd_add hbase (dvd_refl blockSpan))
      (by omega) (by omega)
    rw [add_sub_cancel] at h
    omega
  rw [readProbes, readProbes, hoffset, hoffset']
  rcases le_or_gt endTime (base + blockSpan) with hle | hgt
  · rw [min_eq_left hle, slots_of_le (show endTime ≤ base + o + blockSpan by omega)] at *
    rw [List.filter_eq_self.mpr (by simpa using hkeep)]
    simp
  · rw [min_eq_right hgt.le] at hkeep ⊢
    rw [slots_append (show base + o ≤ base + blockSpan by omega) hgt.le (by rw [hspan]; omega),
      List.filter_append, List.filter_eq_self.mpr (by simpa using hkeep), List.filterMap_append]
    congr 1
    rcases le_or_gt endTime (base + o + blockSpan) with hle | hgt'
    · rw [min_eq_left hle] at hskip
      rw [slots_of_le hle, List.filter_eq_nil_iff.mpr (by simpa using hskip), List.filter_nil]
    · rw [min_eq_right hgt'.le] at hskip
      rw [slots_append (show base + blockSpan ≤ base + o + blockSpan by omega) hgt'.le
        (by rw [hspan]; omega), List.filter_append,
        List.filter_eq_nil_iff.mpr (by simpa using hskip), List.nil_append]

theorem round_of_legal {t : ℤ} (h : 0 ≤ t ∨ blockSpan ∣ t) :
    szbRoundToProbeBlockStart t = t - blockOffset t := by
  have hblock : (probesPerBlock * probeSpan : ℤ) = blockSpan := rfl
  rw [szbRoundToProbeBlockStart, hblock, blockOffset]
  rcases h with hpos | hdvd
  · rw [Int.tmod_eq_emod_of_nonneg hpos]
  · rw [Int.tmod_eq_zero_of_dvd hdvd, Int.emod_eq_zero_of_dvd hdvd]

theorem length_filterMap_filter_iff {α β : Type*} (p : α → Prop) [DecidablePred p]
    (f : α → Option β) (l : List α) :
    ((l.filter p).filterMap f).length = (l.filterMap f).length ↔ ∀ a ∈ l, ¬ p a → f a = none := by
  induction l with
  | nil => simp
  | cons a l ih =>
    rw [List.forall_mem_cons, ← ih]
    have hle := ((List.filter_sublist (p := p) (l := l)).filterMap f).length_le
    by_cases hp : p a <;> cases hf : f a <;> simp [hp, hf]
    omega

theorem readProbes_eq_iff (block : ℤ → ProbeContents V) {startTime endTime : ℤ}
    (hstart : probeSpan ∣ startTime) (hend : probeSpan ∣ endTime) :
    (readProbes block startTime endTime).length = (probesIn block startTime endTime).length ↔
      ∀ t, startTime ≤ t → t < endTime → probeSpan ∣ t →
        blockOffset t < blockOffset startTime → probeAt block t = none := by
  rw [readProbes, probesIn, length_filterMap_filter_iff]
  have hslots {t : ℤ} := mem_slots (s := t) (dvd_sub hend hstart)
  constructor
  · intro h t hle hlt hdvd hoffset
    exact h t (hslots.mpr ⟨hle, hlt, dvd_sub hdvd hstart⟩) (not_le.mpr hoffset)
  · intro h t ht hoffset
    obtain ⟨hle, hlt, hdvd⟩ := hslots.mp ht
    exact h t hle hlt ((dvd_sub_left hstart).mp hdvd) (not_le.mp hoffset)

theorem readProbes_sublist (block : ℤ → ProbeContents V) (startTime endTime : ℤ) :
    (readProbes block startTime endTime).Sublist (probesIn block startTime endTime) :=
  List.filter_sublist.filterMap _

/-! ## What is added -/

variable [Add V]

/-- `a'` is `a` after the probes of `vs` are added one after another; `*first` is set where the
count begins at zero. -/
structure Adds (vs : List V) (a a' : AvgProbe V) : Prop where
  psum : a'.psum = vs.foldl (· + ·) a.psum
  pcount : a'.pcount = a.pcount + vs.length
  first : a'.first = if a.pcount = 0 then vs.headD a.first else a.first
  last : a'.last = vs.getLastD a.last

theorem Adds.nil (a : AvgProbe V) (fixed : Bool) : Adds [] a { a with isFixed := fixed } := by
  constructor <;> simp

theorem Adds.cons {v : V} {vs : List V} {a a' : AvgProbe V} (h : Adds vs (a.add v) a') :
    Adds (v :: vs) a a' := by
  constructor
  · rw [h.psum, add, List.foldl_cons]
  · rw [h.pcount, List.length_cons]
    simp only [add]
    omega
  · rw [h.first]
    by_cases hzero : a.pcount = 0 <;> simp [add, hzero]
  · rw [h.last, List.getLastD_cons, add]

theorem Adds.append {vs ws : List V} {a b c : AvgProbe V} (h : Adds vs a b) (h' : Adds ws b c) :
    Adds (vs ++ ws) a c := by
  constructor
  · rw [h'.psum, h.psum, List.foldl_append]
  · rw [h'.pcount, h.pcount, List.length_append, Nat.add_assoc]
  · rw [h'.first, h.first, h.pcount]
    cases vs <;> by_cases hzero : a.pcount = 0 <;> simp [hzero]
  · rw [h'.last, h.last]
    cases ws <;> simp [List.getLastD_eq_getLast?, List.getLast?_append, List.getLast?_cons]

/-- The loop reads the rest of its block, up to the end of the interval. -/
theorem scanBlock_spec {data : Fin probesPerBlock → Option V} {f : ℤ → Option V}
    {base endTime i t : ℤ} (hf : ∀ k : Fin probesPerBlock, f (base + probeSpan * k) = data k)
    (hend : probeSpan ∣ endTime - base) (hi : 0 ≤ i) (hle : i ≤ probesPerBlock)
    (ht : t = base + probeSpan * i) (a : AvgProbe V) :
    ∃ a', scanBlock data endTime i t a = some a' ∧
      Adds ((slots t (min endTime (base + blockSpan))).filterMap f) a a' := by
  have hspan : probeSpan = 10 := rfl
  have hcount : probesPerBlock = 1800 := rfl
  fun_induction scanBlock data endTime i t a with
  | case1 i t a h hi' ih =>
    have hdvd : probeSpan ∣ min endTime (base + blockSpan) - t := by
      rw [hspan] at hend ht ⊢
      rw [blockSpan_eq]
      omega
    have hlt : t < min endTime (base + blockSpan) := by
      rw [hspan] at ht
      rw [blockSpan_eq]
      omega
    obtain ⟨a', ha', hadds⟩ := ih (by omega) (by omega) (by rw [ht]; ring)
    refine ⟨a', ha', ?_⟩
    have hvalue : f t = data ⟨i.toNat, by omega⟩ := by
      rw [← hf]
      simp only [Int.toNat_of_nonneg hi, ← ht]
    rw [slots_cons hlt hdvd, List.filterMap_cons, hvalue]
    cases hdata : data ⟨i.toNat, by omega⟩ with
    | none =>
      rw [hdata] at hadds
      exact hadds
    | some v =>
      rw [hdata] at hadds
      exact hadds.cons
  | case2 i t a h hi' => exact absurd hi hi'
  | case3 i t a h =>
    refine ⟨a, rfl, ?_⟩
    rw [slots_of_le]
    · exact Adds.nil a a.isFixed
    · rw [hspan] at ht
      rw [blockSpan_eq]
      omega

theorem szbGetAvgProbe_reads (block : ℤ → ProbeContents V) {startTime endTime : ℤ}
    (hstart : probeSpan ∣ startTime) (hend : probeSpan ∣ endTime)
    (hlegal : 0 ≤ startTime ∨ blockSpan ∣ startTime) (a : AvgProbe V) :
    ∃ a', szbGetAvgProbe block startTime endTime a = some a' ∧
      Adds (readProbes block startTime endTime) a a' := by
  have hspan : probeSpan = 10 := rfl
  have hblock := blockSpan_eq
  -- One round of the loop for each block; both the start and the rounds stay on slots.
  fun_induction szbGetAvgProbe block startTime endTime a with
  | case1 startTime a h blockStart probe b a₁ ih =>
    have hround : blockStart = startTime - blockOffset startTime := round_of_legal hlegal
    have hnonneg : 0 ≤ blockOffset startTime := Int.emod_nonneg _ (by rw [hblock]; omega)
    have hlt : blockOffset startTime < blockSpan := Int.emod_lt_of_pos _ (by rw [hblock]; omega)
    have hbase : blockSpan ∣ blockStart := hround ▸ Int.dvd_self_sub_emod
    have hslot : probeSpan ∣ blockOffset startTime := by
      rw [hspan] at hstart ⊢
      rw [blockOffset, hblock]
      omega
    have hprobe : startTime = blockStart + probeSpan * probe := by
      have htdiv : probe = blockOffset startTime / probeSpan := by
        rw [← Int.tdiv_eq_ediv_of_nonneg hnonneg]
        simp only [probe, hround, sub_sub_cancel]
      rw [htdiv, Int.mul_ediv_cancel' hslot, hround, sub_add_cancel]
    have hstart' : startTime = blockStart + blockOffset startTime := by omega
    have hdvd : probeSpan ∣ endTime - blockStart :=
      dvd_sub hend (dvd_trans (Int.dvd_mul_left _ _) hbase)
    have hcount : (probesPerBlock : ℤ) = 1800 := rfl
    have hnext : (probesPerBlock * probeSpan : ℤ) = 18000 := rfl
    rw [hspan] at hprobe
    rw [hblock] at hlt
    obtain ⟨a₂, ha₂, hadds⟩ := scanBlock_spec (fun k => probeAt_block block hbase k) hdvd
      (show 0 ≤ probe by omega) (show probe ≤ probesPerBlock by omega) hprobe a₁
    obtain ⟨a₃, ha₃, hadds'⟩ := ih a₂ (dvd_add hstart (Int.dvd_mul_left _ _)) (by
      rcases hlegal with hpos | hdvd
      · exact .inl (by omega)
      · exact .inr (dvd_add hdvd (dvd_refl blockSpan)))
    -- the flag for fixed probes changes in front of the scan, and no probe is added by that
    have hfixed : Adds [] a a₁ := by
      simp only [a₁]
      split
      · exact Adds.nil a false
      · exact Adds.nil a a.isFixed
    refine ⟨a₃, ?_, ?_⟩
    · rw [ha₂]
      exact ha₃
    · have hread := readProbes_step block hbase hnonneg (by rw [hblock]; omega) hslot
        (show blockStart + blockOffset startTime < endTime by omega) hend
      rw [← hstart'] at hread
      rw [hread]
      exact (hfixed.append hadds).append hadds'
  | case2 startTime a h =>
    rw [readProbes_of_le block (by omega)]
    exact ⟨a, rfl, Adds.nil a a.isFixed⟩

/-- A start before 1970 inside a block is rounded to the next block: the first access is out of
range. -/
theorem szbGetAvgProbe_illegal (block : ℤ → ProbeContents V) {startTime endTime : ℤ}
    (hstart : probeSpan ∣ startTime) (hlt : startTime < endTime) (hneg : startTime < 0)
    (hdvd : ¬ blockSpan ∣ startTime) (a : AvgProbe V) :
    szbGetAvgProbe block startTime endTime a = none := by
  have hspan : probeSpan = 10 := rfl
  have hround : (probesPerBlock * probeSpan : ℤ) = 18000 := rfl
  have hcount : (probesPerBlock : ℤ) = 1800 := rfl
  rw [hspan] at hstart
  rw [blockSpan_eq] at hdvd
  have hprobe : (startTime - szbRoundToProbeBlockStart startTime).tdiv probeSpan < 0 := by
    rw [szbRoundToProbeBlockStart, hround, sub_sub_cancel, hspan, ← neg_neg startTime,
      Int.neg_tmod, Int.neg_tdiv, Int.tmod_eq_emod_of_nonneg (by omega),
      Int.tdiv_eq_ediv_of_nonneg (by omega)]
    omega
  rw [szbGetAvgProbe, if_pos hlt]
  dsimp only
  rw [scanBlock, dif_pos ⟨hlt, by omega⟩, dif_neg (by omega), Option.bind_none]

/-! ## The average of an interval -/

def Exact (block : ℤ → ProbeContents V) (startTime endTime : ℤ) (a : AvgProbe V) : Prop :=
  ∃ a', szbGetAvgProbe block startTime endTime a = some a' ∧
    Adds (probesIn block startTime endTime) a a'

/-- Every access is in its block, and no probe is before the place of the start in its block. -/
def Meets (block : ℤ → ProbeContents V) (startTime endTime : ℤ) : Prop :=
  startTime = endTime ∨ (0 ≤ startTime ∨ blockSpan ∣ startTime) ∧
    ∀ t, startTime ≤ t → t < endTime → probeSpan ∣ t → blockOffset t < blockOffset startTime →
      probeAt block t = none

/-- For an interval of 10-second slots the function adds each of its probes once, if and only if
no probe of a later block is before the place of the start in its own. -/
theorem szbGetAvgProbe_exact_iff (block : ℤ → ProbeContents V) {startTime endTime : ℤ}
    (hstart : probeSpan ∣ startTime) (hend : probeSpan ∣ endTime) (hle : startTime ≤ endTime)
    (a : AvgProbe V) :
    Exact block startTime endTime a ↔ Meets block startTime endTime := by
  rw [Meets, ← readProbes_eq_iff block hstart hend]
  constructor
  · intro ⟨a', ha', hadds⟩
    by_cases hlegal : 0 ≤ startTime ∨ blockSpan ∣ startTime
    · obtain ⟨a'', ha'', hreads⟩ := szbGetAvgProbe_reads block hstart hend hlegal a
      obtain rfl := Option.some.inj (ha'.symm.trans ha'')
      exact .inr ⟨hlegal, by have := hadds.pcount; have := hreads.pcount; omega⟩
    · rw [not_or] at hlegal
      rcases hle.eq_or_lt with heq | hlt
      · exact .inl heq
      · rw [szbGetAvgProbe_illegal block hstart hlt (by omega) hlegal.2 a] at ha'
        exact absurd ha' (Option.some_ne_none a').symm
  · intro h
    rcases h with heq | ⟨hlegal, hlength⟩
    · refine ⟨a, ?_, ?_⟩
      · rw [szbGetAvgProbe, if_neg (by omega)]
      · rw [probesIn, slots_of_le (by omega), List.filterMap_nil]
        exact Adds.nil a a.isFixed
    · obtain ⟨a', ha', hadds⟩ := szbGetAvgProbe_reads block hstart hend hlegal a
      rw [(readProbes_sublist block startTime endTime).eq_of_length hlength] at hadds
      exact ⟨a', ha', hadds⟩

/-- One probe, in the first slot of the second block. -/
def secondBlock (start : ℤ) : ProbeContents ℤ where
  data i := if start = 18000 ∧ i = ⟨0, by decide⟩ then some 7 else none
  fixedProbesCount := 1800

/-- The first slot of the second block is skipped by an interval that starts in the second slot of
the first one. -/
theorem secondBlock_skipped :
    ¬ ∀ (block : ℤ → ProbeContents ℤ) (startTime endTime : ℤ) (a : AvgProbe ℤ),
      probeSpan ∣ startTime → probeSpan ∣ endTime → startTime ≤ endTime →
        Exact block startTime endTime a := by
  intro h
  obtain ⟨a', ha', hadds⟩ := h secondBlock 10 18010 ⟨0, 0, true, 0, 0⟩ (by decide) (by decide)
    (by decide)
  obtain ⟨a'', ha'', hreads⟩ := szbGetAvgProbe_reads secondBlock (show probeSpan ∣ 10 by decide)
    (show probeSpan ∣ 18010 by decide) (by decide) ⟨0, 0, true, 0, 0⟩
  obtain rfl := Option.some.inj (ha'.symm.trans ha'')
  have hlength := hadds.pcount.symm.trans hreads.pcount
  have hnone := (readProbes_eq_iff secondBlock (show probeSpan ∣ 10 by decide)
    (show probeSpan ∣ 18010 by decide)).mp (by omega) 18000 (by decide) (by decide) (by decide)
    (by decide)
  revert hnone
  decide

/-- An interval of whole blocks. -/
theorem secondBlock_exact :
    Exact secondBlock 0 36000 ⟨0, 0, true, 0, 0⟩ ↔ Meets secondBlock 0 36000 :=
  szbGetAvgProbe_exact_iff secondBlock (by decide) (by decide) (by decide) _

end AvgProbe
end Szbase
end Szarp
