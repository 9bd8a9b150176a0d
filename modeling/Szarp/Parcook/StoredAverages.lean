import Szarp.Parcook.ParsInfo

/-!
# What is stored as an average

`calculate_average`: the number that is stored lies between the least and the greatest number of its
ring, and is there if and only if the ring has one.
-/

namespace Szarp
namespace Parcook

inductive Reached (info : ℕ → ParamInfo) (vtLen : ℕ) : Tables → Prop
  | alloc : Reached info vtLen allocProbesMemory
  | update {t t' : Tables} {level : Level} {ivt : ℕ → Word} {abuf i : ℕ} :
    Reached info vtLen t → i < vtLen → abuf < level.size →
      updateValue info level ivt abuf i t = some t' → Reached info vtLen t'

/-- The number that is stored for a parameter; that of a pair belongs to its first word. -/
def stored (info : ℕ → ParamInfo) (probes : ℕ → Word) (i : ℕ) : Option ℤ :=
  match info i with
  | .single => slot (probes i)
  | .msw other => slot2 (probes i) (probes other)
  | .lsw _ => none

/-- A number is there where entries are, and it is between the least and the greatest of them. -/
structure IsMean (xs : List (Option ℤ)) (x : Option ℤ) : Prop where
  missing : (∀ v, some v ∉ xs) → x = none
  between : (∃ v, some v ∈ xs) → ∃ v lo hi, x = some v ∧ IsLeast {v | some v ∈ xs} lo ∧
    IsGreatest {v | some v ∈ xs} hi ∧ lo ≤ v ∧ v ≤ hi

section Reached

variable {info : ℕ → ParamInfo} {vtLen : ℕ} {t : Tables}

theorem Reached.exact (hp : Paired info vtLen) (h : Reached info vtLen t) : Exact info vtLen t := by
  induction h with
  | alloc => exact allocProbesMemory_exact info vtLen
  | @update t t' level ivt abuf i _ hi habuf hupdate ih =>
    obtain ⟨t'', ht'', hexact⟩ := updateValue_exact ivt ih hp hi habuf
    rw [hupdate] at ht''
    rw [Option.some.inj ht'']
    exact hexact

theorem Reached.updateValues (h : Reached info vtLen t) {level : Level} {ivt : ℕ → Word} {abuf : ℕ}
    (habuf : abuf < level.size) {t' : Tables}
    (ht' : updateValues info vtLen level ivt abuf t = some t') : Reached info vtLen t' := by
  have hloop : ∀ is : List ℕ, (∀ i ∈ is, i < vtLen) → ∀ t, Reached info vtLen t →
      is.foldlM (fun t i => updateValue info level ivt abuf i t) t = some t' →
      Reached info vtLen t' := by
    intro is
    induction is with
    | nil =>
      intro _ t ht heq
      rw [← Option.some.inj heq]
      exact ht
    | cons i is ih =>
      intro his t ht heq
      rw [List.foldlM_cons, Option.bind_eq_bind, Option.bind_eq_some_iff] at heq
      obtain ⟨t₁, ht₁, heq⟩ := heq
      exact ih (fun j hj => his j (List.mem_cons_of_mem _ hj)) t₁
        (.update ht (his i List.mem_cons_self) habuf ht₁) heq
  exact hloop (List.range vtLen) (fun i hi => List.mem_range.mp hi) t h ht'

end Reached

/-! ## Words -/

theorem combine_eq (msw lsw : Word) : combine msw lsw = 65536 * msw.toInt + lsw.toNat := by
  rw [combine, BitVec.toInt_append]
  rfl

theorem combine_extract (v : BitVec 32) :
    combine (v.extractLsb' 16 16) (v.extractLsb' 0 16) = v.toInt :=
  congrArg BitVec.toInt (@BitVec.extractLsb'_append_extractLsb' 16 16 v)

theorem eq_noData_iff {w : Word} : w = noData ↔ w.toInt = -2 ^ 15 := by
  rw [← BitVec.toInt_inj]
  rfl

theorem lt_of_slot {w : Word} {v : ℤ} (h : slot w = some v) : -2 ^ 15 < v ∧ v < 2 ^ 15 := by
  have hlo := BitVec.le_toInt (x := w)
  have hhi := BitVec.toInt_lt (x := w)
  unfold slot at h
  split at h
  · exact nomatch h
  · rename_i hne
    rw [eq_noData_iff] at hne
    rw [← Option.some.inj h]
    constructor <;> omega

theorem slot_ofInt {v : ℤ} (h : -2 ^ 15 < v) (h' : v < 2 ^ 15) :
    slot (BitVec.ofInt 16 v) = some v := by
  have hv : (BitVec.ofInt 16 v : Word).toInt = v := by
    rw [BitVec.toInt_ofInt, Int.bmod_def]
    omega
  rw [slot, if_neg (by rw [eq_noData_iff, hv]; omega), hv]

theorem lt_of_slot2 {msw lsw : Word} {v : ℤ} (h : slot2 msw lsw = some v) :
    65536 * (-2 ^ 15 + 1) ≤ v ∧ v < 2 ^ 31 := by
  have hlo := BitVec.le_toInt (x := msw)
  have hhi := BitVec.toInt_lt (x := msw)
  have hlsw := lsw.isLt
  unfold slot2 at h
  split at h
  · exact nomatch h
  · rename_i hne
    rw [eq_noData_iff] at hne
    rw [← Option.some.inj h, combine_eq]
    constructor <;> omega

theorem slot2_ofInt {v : ℤ} (h : 65536 * (-2 ^ 15 + 1) ≤ v) (h' : v < 2 ^ 31) :
    slot2 ((BitVec.ofInt 32 v).extractLsb' 16 16) ((BitVec.ofInt 32 v).extractLsb' 0 16) =
      some v := by
  have hv : (BitVec.ofInt 32 v : BitVec 32).toInt = v := by
    rw [BitVec.toInt_ofInt, Int.bmod_def]
    omega
  have hcombine := (combine_extract (BitVec.ofInt 32 v)).trans hv
  have hlsw := ((BitVec.ofInt 32 v).extractLsb' 0 16).isLt
  rw [slot2, if_neg, hcombine]
  rw [eq_noData_iff]
  intro hmsw
  rw [combine_eq, hmsw] at hcombine
  omega

/-! ## The average -/

theorem isMean_of_missing {xs : List (Option ℤ)} (h : Tally.count xs = 0) : IsMean xs none := by
  rw [Tally.count_eq_zero] at h
  exact ⟨fun _ => rfl, fun ⟨v, hv⟩ => absurd hv (h v)⟩

theorem isMean_of_between {xs : List (Option ℤ)} {x : Option ℤ} (h : Tally.count xs ≠ 0)
    (hx : ∀ lo hi, some lo ∈ xs → some hi ∈ xs → lo ≤ (Tally.total xs).tdiv (Tally.count xs) →
      (Tally.total xs).tdiv (Tally.count xs) ≤ hi →
      x = some ((Tally.total xs).tdiv (Tally.count xs))) : IsMean xs x := by
  obtain ⟨lo, hi, hleast, hgreatest, hlo, hhi⟩ := Tally.mean_between h
  constructor
  · intro hnone
    exact absurd hleast.1 (hnone lo)
  · intro _
    exact ⟨_, lo, hi, hx lo hi hleast.1 hgreatest.1 hlo hhi, hleast, hgreatest, hlo, hhi⟩

variable {info : ℕ → ParamInfo} {vtLen : ℕ} {t : Tables} {i : ℕ}

theorem calculateAverage_single (hexact : Exact info vtLen t) (level : Level) (hi : i < vtLen)
    (hinfo : info i = .single) (probes : ℕ → Word) :
    IsMean (slots info t level i) (slot (calculateAverage info t level i probes i)) := by
  have hnot : ∀ m, info i ≠ .lsw m := fun m h => ParamInfo.noConfusion (hinfo.symm.trans h)
  have hcnt := hexact.cnts level i hi hnot
  have hsum := hexact.sums level i hi hnot
  have hslots : slots info t level i = (t.ring level i).map slot := by rw [slots, hinfo]
  simp only [calculateAverage, hinfo, Function.update_self, hcnt, hsum]
  split
  · rename_i hzero
    exact isMean_of_missing hzero
  · rename_i hpos
    apply isMean_of_between hpos
    intro lo hi hlo hhi hle hge
    rw [hslots] at hlo hhi
    obtain ⟨w, -, hw⟩ := List.mem_map.mp hlo
    obtain ⟨w', -, hw'⟩ := List.mem_map.mp hhi
    have hlow := lt_of_slot hw
    have hhigh := lt_of_slot hw'
    exact slot_ofInt (by omega) (by omega)

theorem calculateAverage_pair (hexact : Exact info vtLen t) (level : Level) (hi : i < vtLen)
    {other : ℕ} (hinfo : info i = .msw other) (hne : i ≠ other) (probes : ℕ → Word) :
    IsMean (slots info t level i) (slot2 (calculateAverage info t level i probes i)
      (calculateAverage info t level i probes other)) := by
  have hnot : ∀ m, info i ≠ .lsw m := fun m h => ParamInfo.noConfusion (hinfo.symm.trans h)
  have hcnt := hexact.cnts level i hi hnot
  have hsum := hexact.sums level i hi hnot
  have hslots : slots info t level i =
      List.zipWith slot2 (t.ring level i) (t.ring level other) := by rw [slots, hinfo]
  have hmem : ∀ v, some v ∈ slots info t level i →
      65536 * (-2 ^ 15 + 1) ≤ v ∧ v < 2 ^ 31 := by
    intro v hv
    rw [hslots] at hv
    obtain ⟨k, hk⟩ := List.mem_iff_getElem?.mp hv
    rw [List.getElem?_zipWith] at hk
    split at hk
    · exact lt_of_slot2 (Option.some.inj hk)
    · exact absurd hk (by simp)
  simp only [calculateAverage, hinfo, hcnt, hsum]
  split
  · rename_i hzero
    rw [Function.update_self, slot2, if_pos rfl]
    exact isMean_of_missing hzero
  · rename_i hpos
    apply isMean_of_between hpos
    intro lo hi hlo hhi hle hge
    have hlow := hmem lo hlo
    have hhigh := hmem hi hhi
    rw [Function.update_of_ne hne, Function.update_self, Function.update_self]
    exact slot2_ofInt (by omega) (by omega)

/-- Where no word belongs to two combined parameters, the average of a parameter is missing if no
entry of its ring is there, and lies between the least and the greatest entry otherwise, whatever
updates the rings have seen; the numbers of other parameters stay. -/
theorem calculateAverage_isMean (hp : Paired info vtLen) (h : Reached info vtLen t)
    (level : Level) (hi : i < vtLen) (hlsw : ∀ m, info i ≠ .lsw m) (probes : ℕ → Word) :
    IsMean (slots info t level i) (stored info (calculateAverage info t level i probes) i) ∧
      ∀ j, j ≠ i → info i ≠ .msw j → calculateAverage info t level i probes j = probes j := by
  have hexact := h.exact hp
  cases hinfo : info i with
  | single =>
    constructor
    · rw [stored, hinfo]
      exact calculateAverage_single hexact level hi hinfo probes
    · intro j hj _
      rw [calculateAverage, hinfo]
      exact Function.update_of_ne hj _ _
  | msw other =>
    have hne : i ≠ other := by
      rintro rfl
      exact absurd (hinfo.symm.trans (hp.msw i hi i hinfo).2) ParamInfo.noConfusion
    constructor
    · rw [stored, hinfo]
      exact calculateAverage_pair hexact level hi hinfo hne probes
    · intro j hj hother
      have hj' : j ≠ other := fun heq => hother (by rw [heq])
      simp only [calculateAverage, hinfo]
      split
      · exact Function.update_of_ne hj _ _
      · rw [Function.update_of_ne hj', Function.update_of_ne hj]
  | lsw m => exact absurd hinfo (hlsw m)

/-- The words of -2 are put into the first slot of a ring, and those of 1 into the second one. -/
def mixedTables : Option Tables :=
  (updateValue pairInfo .probe (fun i => if i = 0 then -1 else -2) 0 0 allocProbesMemory).bind
    (updateValue pairInfo .probe (fun i => if i = 0 then 0 else 1) 1 0)

theorem calculateAverage_isMean_mixed :
    ∃ t, (slots pairInfo t .probe 0).take 2 = [some (-2), some 1] ∧
      IsMean (slots pairInfo t .probe 0)
        (stored pairInfo (calculateAverage pairInfo t .probe 0 fun _ => noData) 0) := by
  have hslots : (mixedTables.map fun t => (slots pairInfo t .probe 0).take 2) =
      some [some (-2), some 1] := by decide
  obtain ⟨t', ht', htake⟩ := Option.map_eq_some_iff.mp hslots
  obtain ⟨t, ht, ht'⟩ := Option.bind_eq_some_iff.mp ht'
  have h : Reached pairInfo 3 t' := .update (.update .alloc (by decide) (by decide) ht) (by decide)
    (by decide) ht'
  exact ⟨t', htake, (calculateAverage_isMean paired_pairInfo h .probe (by decide)
    (fun m => ParamInfo.noConfusion) fun _ => noData).1⟩

/-! ## Shared words -/

/-- Two combined parameters with a common second word. -/
def sharedLsw : Ipk := ⟨3, [], [⟨false, some (0, 1)⟩, ⟨false, some (2, 1)⟩]⟩

/-- Their entries in the table. -/
def sharedInfo (i : ℕ) : ParamInfo := (lastInfo sharedLsw.combined i).getD .single

/-- The values of the three words, the common one in the middle. -/
def sharedValues (v : Word) (i : ℕ) : Word := if i = 1 then v else 0

/-- The same slot is filled in two passes, with the common word 7 and then with 1. -/
def sharedTables : Option Tables :=
  (updateValues sharedInfo 3 .probe (sharedValues 7) 0 allocProbesMemory).bind
    (updateValues sharedInfo 3 .probe (sharedValues 1) 0)

/-- In the second pass the first pair overwrites the common word before the second one has taken
its old number out of the sum: the only entry of the second pair is 1, its average is 7. -/
theorem calculateAverage_not_isMean :
    (∃ table, configureParsInfos sharedLsw = some table ∧
      ∀ i < 3, table i = some (sharedInfo i)) ∧
    ∃ t, Reached sharedInfo 3 t ∧ slots sharedInfo t .probe 2 =
        [some 1, none, none, none, none, none] ∧
      stored sharedInfo (calculateAverage sharedInfo t .probe 2 fun _ => noData) 2 = some 7 ∧
      ¬ IsMean (slots sharedInfo t .probe 2)
        (stored sharedInfo (calculateAverage sharedInfo t .probe 2 fun _ => noData) 2) := by
  refine ⟨⟨_, rfl, by decide⟩, ?_⟩
  have hrun : (sharedTables.map fun t => (slots sharedInfo t .probe 2,
      stored sharedInfo (calculateAverage sharedInfo t .probe 2 fun _ => noData) 2)) =
      some ([some 1, none, none, none, none, none], some 7) := by decide
  obtain ⟨t', ht', hvalues⟩ := Option.map_eq_some_iff.mp hrun
  obtain ⟨hslots, hstored⟩ := Prod.mk.inj hvalues
  obtain ⟨t, ht, ht''⟩ := Option.bind_eq_some_iff.mp ht'
  have h : Reached sharedInfo 3 t' :=
    (Reached.alloc.updateValues (by decide) ht).updateValues (by decide) ht''
  refine ⟨t', h, hslots, hstored, ?_⟩
  rw [hslots, hstored]
  intro hmean
  obtain ⟨v, lo, hi, hv, -, hgreatest, -, hle⟩ := hmean.between ⟨1, by decide⟩
  have hhi : hi = 1 := by simpa using hgreatest.1
  rw [hhi, ← Option.some.inj hv] at hle
  exact absurd hle (by decide)

end Parcook
end Szarp
