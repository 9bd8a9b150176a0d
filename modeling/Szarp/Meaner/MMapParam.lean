import Szarp.Lib.Overlay
import Szarp.Szbase.RealDatablock

/-!
# Month files that are mapped into memory

`tmmapparam.cc` of `meaner3`: the file of a month is grown to its greatest length and mapped,
samples are written into the mapping, and the file is cut when it is closed. The low byte of a
sample comes first.
-/

namespace Szarp
namespace Meaner
open Szbase Overlay

/-- `TMMapParam`; `filemap` is the content of the file, and `begin` the samples that it had. -/
structure MMapParam where
  filemap : List Word
  begin : ℕ
  length : ℕ
  fileSize : ℕ
  probeLength : ℕ

namespace MMapParam

def maxFileSize (probeLength : ℕ) : ℕ := 31 * 24 * (3600 / probeLength)

/-- The file with a zero as the last byte of its greatest length. -/
def resize (fileSize : ℕ) (file : List Word) : List Word :=
  (file ++ List.replicate (fileSize - file.length) 0).modify (fileSize - 1) fun w => w &&& 0x00FF

/-- The constructor, when no call of the system fails. -/
def new (probeLength : ℕ) (file : List Word) : MMapParam where
  filemap := (resize (maxFileSize probeLength) file).mapIdx fun i w =>
    if file.length ≤ i ∧ i < maxFileSize probeLength then fileNodata else w
  begin := file.length
  length := 0
  fileSize := maxFileSize probeLength
  probeLength := probeLength

def write (t : ℤ) (probes : List Word) (p : MMapParam) : Option MMapParam :=
  let index := szbProbeind t p.probeLength
  if 0 ≤ index ∧ index.toNat + probes.length ≤ p.fileSize then
    some { p with
      filemap := pwrite p.filemap index.toNat probes
      length := index.toNat + probes.length }
  else none

def close (p : MMapParam) : List Word := p.filemap.take (max p.begin p.length)

/-- The constructor, calls of `write`, and `close`. -/
def run (probeLength : ℕ) (file : List Word) (calls : List (ℤ × List Word)) : Option (List Word) :=
  (calls.foldlM (fun p c => write c.1 c.2 p) (new probeLength file)).map close

/-- A call writes inside the file of a month. -/
def Inside (probeLength : ℕ) (c : ℤ × List Word) : Prop :=
  0 ≤ szbProbeind c.1 probeLength ∧
    (szbProbeind c.1 probeLength).toNat + c.2.length ≤ maxFileSize probeLength

/-- What is written, and where. -/
def pieces (probeLength : ℕ) (calls : List (ℤ × List Word)) : List (ℕ × List Word) :=
  calls.map fun c => ((szbProbeind c.1 probeLength).toNat, c.2)

def lastEnd (ws : List (ℕ × List Word)) : ℕ :=
  match ws.getLast? with
  | none => 0
  | some (pos, data) => pos + data.length

/-- The last sample of a full file has no high byte or is written again, and nothing is written
behind both the old content and the last piece. -/
structure Undamaged (probeLength : ℕ) (file : List Word) (calls : List (ℤ × List Word)) : Prop where
  full : file.length = maxFileSize probeLength →
    (∃ w, valueAt (pieces probeLength calls) (file.length - 1) = some w) ∨
      ∀ w, file.getLast? = some w → w &&& 0x00FF = w
  cut : size (pieces probeLength calls) ≤ max file.length (lastEnd (pieces probeLength calls))

/-! ## Runs -/

/-- The object after some pieces. -/
structure Holding (probeLength : ℕ) (file : List Word) (ws : List (ℕ × List Word)) (p : MMapParam) :
    Prop where
  old : p.begin = file.length
  last : p.length = lastEnd ws
  greatest : p.fileSize = maxFileSize probeLength
  span : p.probeLength = probeLength
  mapped : p.filemap.length = maxFileSize probeLength
  inside : size ws ≤ maxFileSize probeLength
  value : ∀ i < maxFileSize probeLength, p.filemap[i]? =
    some ((valueAt ws i).getD (((new probeLength file).filemap[i]?).getD fileNodata))

variable {probeLength : ℕ} {file : List Word}

theorem length_new (h : file.length ≤ maxFileSize probeLength) :
    (new probeLength file).filemap.length = maxFileSize probeLength := by
  rw [new, List.length_mapIdx, resize, List.length_modify, List.length_append,
    List.length_replicate]
  omega

theorem holding_new (h : file.length ≤ maxFileSize probeLength) :
    Holding probeLength file [] (new probeLength file) := by
  refine ⟨rfl, rfl, rfl, rfl, length_new h, Nat.zero_le _, fun i hi => ?_⟩
  rw [List.getElem?_eq_getElem (by rw [length_new h]; exact hi)]
  rfl

theorem lastEnd_concat (ws : List (ℕ × List Word)) (pos : ℕ) (data : List Word) :
    lastEnd (ws ++ [(pos, data)]) = pos + data.length := by
  rw [lastEnd, List.getLast?_concat]

theorem lastEnd_le_size (ws : List (ℕ × List Word)) : lastEnd ws ≤ size ws := by
  rcases List.eq_nil_or_concat' ws with rfl | ⟨front, ⟨pos, data⟩, rfl⟩
  · exact Nat.zero_le _
  · rw [lastEnd_concat, size_append, size, size]
    omega

theorem Holding.write {ws : List (ℕ × List Word)} {p : MMapParam}
    (h : Holding probeLength file ws p) {c : ℤ × List Word} (hc : Inside probeLength c) :
    ∃ p', p.write c.1 c.2 = some p' ∧
      Holding probeLength file (ws ++ [((szbProbeind c.1 probeLength).toNat, c.2)]) p' := by
  have hindex := hc.2
  refine ⟨{ p with
    filemap := pwrite p.filemap (szbProbeind c.1 probeLength).toNat c.2
    length := (szbProbeind c.1 probeLength).toNat + c.2.length }, ?_, ?_⟩
  · rw [MMapParam.write, h.span, h.greatest]
    exact if_pos hc
  · refine ⟨h.old, (lastEnd_concat _ _ _).symm, h.greatest, h.span, ?_, ?_, fun i hi => ?_⟩
    · dsimp only
      rw [length_pwrite (by rw [h.mapped]; omega), h.mapped]
      omega
    · rw [size_append, size, size]
      have hinside := h.inside
      omega
    · dsimp only
      rw [getElem?_pwrite (by rw [h.mapped]; omega), valueAt_append, valueAt_singleton]
      by_cases hin : (szbProbeind c.1 probeLength).toNat ≤ i ∧
          i < (szbProbeind c.1 probeLength).toNat + c.2.length
      · obtain ⟨v, hv⟩ : ∃ v, c.2[i - (szbProbeind c.1 probeLength).toNat]? = some v :=
          ⟨_, List.getElem?_eq_getElem (by omega)⟩
        rw [if_pos hin, if_pos hin, hv, Option.some_or, Option.getD_some]
      · rw [if_neg hin, if_neg hin, Option.none_or]
        exact h.value i hi

theorem Holding.run {ws : List (ℕ × List Word)} {p : MMapParam} (h : Holding probeLength file ws p)
    {calls : List (ℤ × List Word)} (hcalls : ∀ c ∈ calls, Inside probeLength c) :
    ∃ p', calls.foldlM (fun p c => MMapParam.write c.1 c.2 p) p = some p' ∧
      Holding probeLength file (ws ++ pieces probeLength calls) p' := by
  induction calls generalizing ws p with
  | nil => exact ⟨p, rfl, by simpa [pieces] using h⟩
  | cons c calls ih =>
    obtain ⟨p', hwrite, h'⟩ := h.write (hcalls c List.mem_cons_self)
    obtain ⟨p'', hrun, h''⟩ := ih h' fun d hd => hcalls d (List.mem_cons_of_mem c hd)
    refine ⟨p'', ?_, ?_⟩
    · rw [List.foldlM_cons, hwrite]
      exact hrun
    · rw [List.append_assoc] at h''
      exact h''

theorem new_getElem? (h : file.length ≤ maxFileSize probeLength) {i : ℕ}
    (hi : i < maxFileSize probeLength) :
    (new probeLength file).filemap[i]? =
      some (((file[i]?).map fun w => if i = maxFileSize probeLength - 1 then w &&& 0x00FF else w).getD
        fileNodata) := by
  rw [new]
  dsimp only
  rw [List.getElem?_mapIdx, resize, List.getElem?_modify, List.getElem?_append]
  by_cases hlt : i < file.length
  · have hkeep : ¬ (file.length ≤ i ∧ i < maxFileSize probeLength) := by omega
    rw [if_pos hlt, List.getElem?_eq_getElem hlt]
    simp only [hkeep, if_false, Option.map_some, Option.map_id', Option.getD_some, eq_comm]
    rfl
  · have hclear : file.length ≤ i ∧ i < maxFileSize probeLength := by omega
    rw [if_neg hlt, List.getElem?_eq_none hclear.1, List.getElem?_replicate, if_pos (by omega)]
    simp only [hclear, and_self, if_true, Option.map_none, Option.getD_none]
    rfl

/-- After the constructor and calls inside the month, the closed file holds the old content with the
pieces over it exactly when it is not damaged. -/
theorem run_iff (hsize : 0 < maxFileSize probeLength) (h : file.length ≤ maxFileSize probeLength)
    {calls : List (ℤ × List Word)} (hcalls : ∀ c ∈ calls, Inside probeLength c) :
    (∃ final, run probeLength file calls = some final ∧
        Holds fileNodata ((0, file) :: pieces probeLength calls) final) ↔
      Undamaged probeLength file calls := by
  obtain ⟨p, hrun, hp⟩ := (holding_new h).run hcalls
  rw [List.nil_append] at hp
  have hinside := hp.inside
  have hlast := lastEnd_le_size (pieces probeLength calls)
  have hfinal : run probeLength file calls = some (close p) := by
    rw [run, hrun]
    rfl
  have hlength : (close p).length = max file.length (lastEnd (pieces probeLength calls)) := by
    rw [close, List.length_take, hp.old, hp.last, hp.mapped]
    omega
  have hsizes : size ((0, file) :: pieces probeLength calls) =
      max file.length (size (pieces probeLength calls)) := by
    rw [size, Nat.zero_add]
  -- within its length the closed file has the last value written, or what the constructor left
  have hvalue : ∀ i < (close p).length, (close p)[i]? =
      some ((valueAt (pieces probeLength calls) i).getD
        (((new probeLength file).filemap[i]?).getD fileNodata)) := by
    intro i hi
    rw [close, List.getElem?_take_of_lt (by rw [hp.old, hp.last]; omega)]
    exact hp.value i (by omega)
  rw [hfinal]
  constructor
  · rintro ⟨final, hclose, hholds⟩
    obtain rfl := Option.some.inj hclose
    -- a full file ends in a byte that the constructor writes, so its last sample is seen to
    constructor
    · intro hfull
      cases hwritten : valueAt (pieces probeLength calls) (file.length - 1) with
      | some w => exact Or.inl ⟨w, rfl⟩
      | none =>
        right
        intro w hw
        have hi : file.length - 1 < (close p).length := by omega
        have hsame := (hvalue _ hi).symm.trans (hholds.value _ hi)
        rw [List.getLast?_eq_getElem?] at hw
        rw [valueAt, hwritten, new_getElem? h (by omega), if_pos (Nat.zero_le _), Nat.sub_zero, hw,
          Option.map_some, if_pos (by omega)] at hsame
        exact Option.some.inj hsame
    · have hlen := hholds.length
      omega
  -- the other way round every index is written last, is old, or is the end of a full file
  · intro hundamaged
    refine ⟨close p, rfl, ?_, fun i hi => ?_⟩
    · have hcut := hundamaged.cut
      omega
    · rw [hvalue i hi, valueAt, if_pos (Nat.zero_le i), Nat.sub_zero, new_getElem? h (by omega)]
      cases hwritten : valueAt (pieces probeLength calls) i with
      | some w => rfl
      | none =>
        cases hold : file[i]? with
        | none => rfl
        | some w =>
          rw [Option.map_some]
          split_ifs with hend
          · -- the last sample of a full file that is not written again
            obtain ⟨hlt, -⟩ := List.getElem?_eq_some_iff.mp hold
            have hi' : file.length - 1 = i := by omega
            rcases hundamaged.full (by omega) with ⟨v, hv⟩ | hlow
            · rw [hi', hwritten] at hv
              exact absurd hv (by simp)
            · rw [hlow w (by rw [List.getLast?_eq_getElem?, hi', hold])]
              rfl
          · rfl

/-- A sample behind the old one. -/
theorem run_iff_oneCall : ∃ final, run 600 [7] [(600, [5])] = some final ∧
    Holds fileNodata ((0, [7]) :: pieces 600 [(600, [5])]) final := by
  have hinside : ∀ c ∈ [((600 : ℤ), [(5 : Word)])], Inside 600 c := by
    intro c hc
    rw [List.mem_singleton.mp hc]
    exact ⟨by decide +kernel, by decide +kernel⟩
  exact (run_iff (by decide) (by decide) hinside).mpr
    ⟨fun h => absurd h (by decide), by decide +kernel⟩

/-- A probe at twenty minutes past midnight, and then one at midnight. -/
def backwards : List (ℤ × List Word) := [(1200, [5]), (0, [7])]

/-- The file is cut behind the last piece. -/
theorem backwards_cut : ¬ ∃ final, run 600 [] backwards = some final ∧
    Holds fileNodata ((0, []) :: pieces 600 backwards) final := by
  rintro ⟨final, hrun, hholds⟩
  have hinside : ∀ c ∈ backwards, Inside 600 c := by
    intro c hc
    rcases List.mem_cons.mp hc with rfl | hc
    · exact ⟨by decide +kernel, by decide +kernel⟩
    · rw [List.mem_singleton.mp hc]
      exact ⟨by decide +kernel, by decide +kernel⟩
  have hnew : Holding 600 [] [] (new 600 []) := holding_new (by decide)
  obtain ⟨p, hp, hholding⟩ := hnew.run hinside
  rw [run, hp] at hrun
  obtain rfl : close p = final := Option.some.inj hrun
  have hlast : lastEnd (pieces 600 backwards) = 1 := by decide +kernel
  have hsize : size ((0, []) :: pieces 600 backwards) = 3 := by decide +kernel
  have hlength := hholds.length
  rw [close, List.length_take, hholding.old, hholding.last, List.nil_append, hlast, hsize]
    at hlength
  simp at hlength
  omega

end MMapParam
end Meaner
end Szarp
