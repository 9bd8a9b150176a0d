import Szarp.Szbase.ProbeBlock

/-!
# Numbers of two words

The operator `:` of formulas, the blocks of combined parameters and the probe blocks of combined
parameters each put a more and a less significant word together.  The operator extends the sign
of the less significant word.
-/

namespace Szarp
namespace Szbase

/-- The number whose upper half is `msw` and whose lower half is `lsw`. -/
def combination (msw lsw : Word) : ℤ := msw.toInt * 65536 + lsw.toInt % 65536

/-! ## Blocks -/

theorem or_setWidth_eq_append (msw lsw : Word) :
    msw.signExtend 32 <<< 16 ||| lsw.setWidth 32 = (msw ++ lsw : BitVec 32) := by
  apply BitVec.eq_of_getLsbD_eq
  intro i hi
  refine Eq.trans ?_ (BitVec.getLsbD_append).symm
  rw [BitVec.getLsbD_or, BitVec.getLsbD_shiftLeft, BitVec.getLsbD_setWidth,
    BitVec.getLsbD_signExtend]
  by_cases hlow : i < 16
  · simp [hlow, hi]
  · have hlsw : lsw.getLsbD i = false := BitVec.getLsbD_of_ge lsw i (by omega)
    have hupper : i - 16 < 16 := by omega
    have hwide : i - 16 < 32 := by omega
    simp [hlow, hi, hlsw, hupper, hwide]

theorem toNat_eq_emod (w : Word) : (w.toNat : ℤ) = w.toInt % 65536 := by
  have hlt := w.isLt
  rw [BitVec.toInt_eq_toNat_bmod, Int.bmod_def]
  split_ifs <;> omega

theorem toInt_or_setWidth (msw lsw : Word) :
    (msw.signExtend 32 <<< 16 ||| lsw.setWidth 32).toInt = combination msw lsw := by
  have happend := @BitVec.toInt_append 16 16 msw lsw
  rw [or_setWidth_eq_append, happend, combination, toNat_eq_emod]
  norm_num
  ring

theorem combinedProbe_eq {msw : Word} (hmsw : msw ≠ fileNodata) (lsw : Word) (prec : ℕ) :
    combinedProbe prec msw lsw = .value (combination msw lsw / 10 ^ prec) := by
  rw [combinedProbe, if_neg hmsw, toInt_or_setWidth]

/-! ## The operator -/

theorem rint_intCast (z : ℤ) : Definable.rint z = z := by
  rw [Definable.rint]
  simp only [Rat.floor_intCast, sub_self]
  rw [if_pos (Or.inl (by norm_num))]

theorem word_toInt (msw lsw : Word) :
    Definable.word msw.toInt lsw.toInt =
      (msw.signExtend 32 <<< 16 ||| lsw.signExtend 32).toInt := by
  rw [Definable.word, rint_intCast, rint_intCast, BitVec.ofInt_toInt, BitVec.ofInt_toInt]

theorem word_of_nonneg (msw : Word) {lsw : Word} (h : 0 ≤ lsw.toInt) :
    Definable.word msw.toInt lsw.toInt = combination msw lsw := by
  have hsign : lsw.msb = false := by
    rw [BitVec.msb_eq_toInt]
    exact decide_eq_false (by omega)
  rw [word_toInt, BitVec.signExtend_eq_setWidth_of_msb_false hsign, toInt_or_setWidth]

/-- The sign of the less significant word covers the more significant one. -/
theorem or_signExtend_of_neg (msw : Word) {lsw : Word} (h : lsw.toInt < 0) :
    msw.signExtend 32 <<< 16 ||| lsw.signExtend 32 = lsw.signExtend 32 := by
  have hsign : lsw.msb = true := by
    rw [BitVec.msb_eq_toInt]
    exact decide_eq_true h
  apply BitVec.eq_of_getLsbD_eq
  intro i hi
  rw [BitVec.getLsbD_or, BitVec.getLsbD_shiftLeft]
  by_cases hlow : i < 16
  · simp [hlow]
  · simp [BitVec.getLsbD_signExtend, hi, hlow, hsign]

theorem word_of_neg (msw : Word) {lsw : Word} (h : lsw.toInt < 0) :
    Definable.word msw.toInt lsw.toInt = lsw.toInt := by
  rw [word_toInt, or_signExtend_of_neg msw h, BitVec.toInt_signExtend_of_le (by norm_num)]

/-- The operator makes the number of the two words unless it loses the more significant one. -/
theorem word_eq_combination_iff (msw lsw : Word) :
    Definable.word msw.toInt lsw.toInt = combination msw lsw ↔
      0 ≤ lsw.toInt ∨ msw = BitVec.allOnes 16 := by
  rcases le_or_gt 0 lsw.toInt with h | h
  · exact iff_of_true (word_of_nonneg msw h) (Or.inl h)
  · have hlow := BitVec.le_toInt lsw
    have hones : msw = BitVec.allOnes 16 ↔ msw.toInt = -1 := by
      rw [← BitVec.toInt_inj]
      exact Iff.rfl
    rw [word_of_neg msw h, hones, Int.cast_inj, combination]
    omega

/-! ## The three implementations -/

/-- For the same two words the operator leaves `v`, and a block of a combined parameter and a probe
block of one hold `v`, before the division, in the slot of the words. -/
structure Combine (msw lsw : Word) (v : ℤ) : Prop where
  operator : ∀ (env : Definable.Environment) (time : ℤ) (rest : List Definable.Value),
    Definable.operate env time ':' (some lsw.toInt :: some msw.toInt :: rest) =
      .ok (some v :: rest)
  datablock : ∀ (year : ℤ) (month prec : ℕ) (mswFile lswFile : List Word) (date : ℤ) (i : ℕ),
    mswFile.length ≤ (szbProbecnt year month).toNat →
    lswFile.length ≤ (szbProbecnt year month).toNat →
    mswFile[i]? = some msw → lswFile[i]? = some lsw →
    ∃ data, (CombinedDatablock.create year month prec mswFile lswFile date).data = some data ∧
      data[i]? = some (.value (v / 10 ^ prec))
  probeblock : ∀ {ι κ π : Type} (server : ProbesServer π) (mswPath lswPath : π) (prec : ℕ)
    (start : ℤ) (b : ProbeBlock) (c c' c'' : ProbeClient ι κ) (now now' : ℤ)
    (bufMsw bufLsw : List Word) (i : ℕ),
    c.get server mswPath (start + probeSpan * b.fixedProbesCount) (ProbeClient.endTime start) =
      (some (now, bufMsw), c') →
    c'.get server lswPath (start + probeSpan * b.fixedProbesCount) (ProbeClient.endTime start) =
      (some (now', bufLsw), c'') →
    bufMsw[i]? = some msw → bufLsw[i]? = some lsw →
    (ProbeClient.fetchCombined server mswPath lswPath prec start b c).1.data
      (b.fixedProbesCount + i) = .value (v / 10 ^ prec)

theorem operate_words (env : Definable.Environment) (time : ℤ) (msw lsw : Word)
    (rest : List Definable.Value) :
    Definable.operate env time ':' (some lsw.toInt :: some msw.toInt :: rest) =
      .ok (some (Definable.word msw.toInt lsw.toInt) :: rest) := rfl

theorem create_slot {year : ℤ} {month prec : ℕ} {mswFile lswFile : List Word} {date : ℤ} {i : ℕ}
    {msw lsw : Word} (hmsw : msw ≠ fileNodata)
    (hmswFile : mswFile.length ≤ (szbProbecnt year month).toNat)
    (hlswFile : lswFile.length ≤ (szbProbecnt year month).toNat)
    (hmswSlot : mswFile[i]? = some msw) (hlswSlot : lswFile[i]? = some lsw) :
    ∃ data, (CombinedDatablock.create year month prec mswFile lswFile date).data = some data ∧
      data[i]? = some (.value (combination msw lsw / 10 ^ prec)) := by
  have hholds := (CombinedDatablock.create_spec year month prec date hmswFile hlswFile).1
  have hprobe : (CombinedDatablock.probes prec mswFile lswFile)[i]? =
      some (.value (combination msw lsw / 10 ^ prec)) := by
    rw [CombinedDatablock.probes, List.getElem?_zipWith, hmswSlot, hlswSlot,
      ← combinedProbe_eq hmsw]
  refine ⟨_, hholds.data, ?_⟩
  rw [List.getElem?_append_left (List.getElem?_eq_some_iff.mp hprobe).1, hprobe]

theorem fetchCombined_slot {ι κ π : Type} {server : ProbesServer π} {mswPath lswPath : π} {prec : ℕ}
    {start : ℤ} {b : ProbeBlock} {c c' c'' : ProbeClient ι κ} {now now' : ℤ}
    {bufMsw bufLsw : List Word} {i : ℕ} {msw lsw : Word} (hmsw : msw ≠ fileNodata)
    (hget : c.get server mswPath (start + probeSpan * b.fixedProbesCount)
      (ProbeClient.endTime start) = (some (now, bufMsw), c'))
    (hget' : c'.get server lswPath (start + probeSpan * b.fixedProbesCount)
      (ProbeClient.endTime start) = (some (now', bufLsw), c''))
    (hmswSlot : bufMsw[i]? = some msw) (hlswSlot : bufLsw[i]? = some lsw) :
    (ProbeClient.fetchCombined server mswPath lswPath prec start b c).1.data
      (b.fixedProbesCount + i) = .value (combination msw lsw / 10 ^ prec) := by
  simp only [ProbeClient.fetchCombined, hget, hget', ProbeClient.settle_data,
    ProbeClient.storeProbes]
  rw [if_pos (Nat.le_add_right _ _), Nat.add_sub_cancel_left, List.getElem?_zipWith, hmswSlot,
    hlswSlot, ← combinedProbe_eq hmsw]
  rfl

/-- The operator leaves `v` for the probes of two real parameters with these samples. -/
def CombineLoaded (msw lsw : Word) (v : ℤ) : Prop :=
  ∀ (env : Definable.Environment) (time : ℤ) (prec prec' : ℕ) (rest : List Definable.Value),
    Definable.operate env time ':' (ProbeClient.operandValue prec' (realProbe prec' lsw) ::
      ProbeClient.operandValue prec (realProbe prec msw) :: rest) = .ok (some v :: rest)

theorem operandValue_realProbe (prec : ℕ) {w : Word} (h : w ≠ fileNodata) :
    ProbeClient.operandValue prec (realProbe prec w) = some (w.toInt : ℚ) := by
  have hpow : (10 : ℚ) ^ prec ≠ 0 := by positivity
  rw [realProbe, if_neg h, ProbeClient.operandValue, div_mul_cancel₀ _ hpow]

/-- Without a sample the operand is missing. -/
theorem combineLoaded_iff {msw : Word} (hmsw : msw ≠ fileNodata) (lsw : Word) (v : ℤ) :
    CombineLoaded msw lsw v ↔ Definable.word msw.toInt lsw.toInt = v ∧ lsw ≠ fileNodata := by
  constructor
  · intro h
    have hoperator := h .plain 0 0 0 []
    have hlsw : lsw ≠ fileNodata := by
      intro hlsw
      rw [hlsw, realProbe, if_pos rfl] at hoperator
      simp [ProbeClient.operandValue, Definable.operate, Definable.binary] at hoperator
    rw [operandValue_realProbe 0 hmsw, operandValue_realProbe 0 hlsw, operate_words] at hoperator
    exact ⟨by simpa using hoperator, hlsw⟩
  · intro h env time prec prec' rest
    rw [operandValue_realProbe prec hmsw, operandValue_realProbe prec' h.2, operate_words, h.1]

/-- The three make the number of the two words exactly where the operator does; for the probes of
real parameters the less significant word must be a sample, too. -/
theorem combine_iff (msw lsw : Word) (hmsw : msw ≠ fileNodata) :
    (Combine msw lsw (combination msw lsw) ↔ 0 ≤ lsw.toInt ∨ msw = BitVec.allOnes 16) ∧
      (CombineLoaded msw lsw (combination msw lsw) ↔
        (0 ≤ lsw.toInt ∨ msw = BitVec.allOnes 16) ∧ lsw ≠ fileNodata) := by
  rw [combineLoaded_iff hmsw, ← word_eq_combination_iff]
  refine ⟨?_, Iff.rfl⟩
  constructor
  · intro h
    have hoperator := h.operator .plain 0 []
    rw [operate_words] at hoperator
    simpa using hoperator
  · intro h
    refine ⟨?_, ?_, ?_⟩
    · intro env time rest
      rw [operate_words, h]
    · intro year month prec mswFile lswFile date i
      exact create_slot hmsw
    · intro ι κ π server mswPath lswPath prec start b c c' c'' now now' bufMsw bufLsw i
      exact fetchCombined_slot hmsw

/-- The words 1 and 0. -/
theorem combine_iff_one_zero :
    (Combine 1 0 (combination 1 0) ↔ 0 ≤ (0 : Word).toInt ∨ (1 : Word) = BitVec.allOnes 16) ∧
      (CombineLoaded 1 0 (combination 1 0) ↔
        (0 ≤ (0 : Word).toInt ∨ (1 : Word) = BitVec.allOnes 16) ∧ (0 : Word) ≠ fileNodata) :=
  combine_iff 1 0 (by decide)

/-- The words 1 and -1: the operator leaves -1, and both blocks hold 131071. -/
theorem not_combine_one_minus_one :
    ¬ ∀ msw lsw : Word, msw ≠ fileNodata → Combine msw lsw (combination msw lsw) := by
  intro h
  have hoperator := (h 1 (-1) (by decide)).operator .plain 0 []
  rw [operate_words, word_of_neg 1 (by decide)] at hoperator
  revert hoperator
  decide

end Szbase
end Szarp
