import Szarp.Probes.WriteData

/-!
# Slices of files

`SzbCache.write_file` and `SzbCache.fill_empty` for any indices.
-/

namespace Szarp
namespace Probes

open Szbase

def Values (n : ℕ) (value : ℕ → List UInt8) (bytes : List UInt8) : Prop :=
  bytes.length = n * szbcacheSize ∧
    ∀ i < n, (bytes.drop (i * szbcacheSize)).take szbcacheSize = value i

theorem values_flatMap {value : ℕ → List UInt8} (h : ∀ i, (value i).length = szbcacheSize) (n : ℕ) :
    Values n value ((List.range n).flatMap value) := by
  induction n with
  | zero => exact ⟨rfl, fun i hi => absurd hi (Nat.not_lt_zero i)⟩
  | succ n ih =>
    obtain ⟨hlen, hvalues⟩ := ih
    rw [List.range_succ, List.flatMap_append, List.flatMap_singleton]
    constructor
    · rw [List.length_append, hlen, h, Nat.succ_mul]
    · intro i hi
      rcases Nat.lt_succ_iff_lt_or_eq.mp hi with hlt | rfl
      · have hroom : i * szbcacheSize + szbcacheSize ≤ n * szbcacheSize := by
          rw [← Nat.succ_mul]
          exact Nat.mul_le_mul_right _ hlt
        rw [List.drop_append_of_le_length (by omega), List.take_append_of_le_length, hvalues i hlt]
        rw [List.length_drop]
        omega
      · rw [← hlen, List.drop_left, ← h i, List.take_length]

theorem nodata_eq_flatMap (n : ℕ) :
    nodata n = (List.range n).flatMap fun _ => szbcacheNodata := by
  induction n with
  | zero => rfl
  | succ n ih =>
    rw [nodata_add, ih, List.range_succ, List.flatMap_append, List.flatMap_singleton]
    rfl

theorem values_nodata (n : ℕ) : Values n (fun _ => szbcacheNodata) (nodata n) := by
  rw [nodata_eq_flatMap]
  exact values_flatMap (fun _ => rfl) n

/-- `fill_empty` comes to an end and writes as many values as it is asked for. -/
theorem fillEmpty_values (count : ℤ) :
    fillRun count.toNat count 1 szbcacheNodata = some (SzbCache.fillEmpty count) ∧
      Values count.toNat (fun _ => szbcacheNodata) (SzbCache.fillEmpty count) := by
  rcases le_or_gt count 0 with hle | hpos
  · rw [SzbCache.fillEmpty, Int.toNat_of_nonpos hle, fillRun, if_neg (not_lt.mpr hle)]
    exact ⟨rfl, values_nodata 0⟩
  · obtain ⟨n, rfl⟩ := Int.eq_ofNat_of_zero_le hpos.le
    have hrun := fillRun_eq n 1 n one_pos Nat.lt_two_pow_self
    rw [one_mul, Nat.cast_one] at hrun
    rw [fillEmpty_eq, Int.toNat_natCast]
    exact ⟨hrun, values_nodata n⟩

/-- `write_file` writes exactly the values of the file from one index to another, with no data for
the indices that are outside of the file; so does `fill_empty` for its count. -/
theorem writeFile_exact (c : SzbCache) (d : List Char) {y : ℤ} {m : ℕ} (hy : 1 ≤ y ∧ y ≤ 9999)
    (hm : 1 ≤ m ∧ m ≤ 12) {startindex endindex : ℤ} (hstart : 0 ≤ startindex)
    (hend : startindex ≤ endindex) :
    (∃ bytes, c.writeFile startindex endindex (join d (monthName y m)) = .ok bytes ∧
      Values (endindex - startindex + 1).toNat (fun i =>
        valueAt ((c.content (join d (monthName y m))).getD []) (startindex.toNat + i)) bytes) ∧
    ∀ count : ℤ, fillRun count.toNat count 1 szbcacheNodata = some (SzbCache.fillEmpty count) ∧
      Values count.toNat (fun _ => szbcacheNodata) (SzbCache.fillEmpty count) := by
  refine ⟨⟨_, ?_, values_flatMap (fun _ => length_valueAt _ _) _⟩, fillEmpty_values⟩
  have h := writeFile_values c d hy hm startindex.toNat
    (show 0 < (endindex - startindex + 1).toNat by omega)
  have hs : ((startindex.toNat : ℕ) : ℤ) = startindex := Int.toNat_of_nonneg hstart
  have he : startindex + ((endindex - startindex + 1).toNat : ℕ) - 1 = endindex := by omega
  rw [hs, he] at h
  exact h

/-- A cache with the two values 7 and 8 in May 2010. -/
def twoValues : SzbCache :=
  ⟨"/cache".toList, 1, by decide,
    [("A".toList, [⟨2010, 5, [7, 0, 8, 0], by decide, by decide, by decide⟩])]⟩

/-- Four values from the second one on: the last one of the file, and three behind its end. -/
theorem writeFile_exact_twoValues :
    (∃ bytes, twoValues.writeFile 1 4 (join "/cache/A".toList (monthName 2010 5)) = .ok bytes ∧
      Values (4 - 1 + 1 : ℤ).toNat (fun i =>
        valueAt ((twoValues.content (join "/cache/A".toList (monthName 2010 5))).getD [])
          ((1 : ℤ).toNat + i)) bytes) ∧
    ∀ count : ℤ, fillRun count.toNat count 1 szbcacheNodata = some (SzbCache.fillEmpty count) ∧
      Values count.toNat (fun _ => szbcacheNodata) (SzbCache.fillEmpty count) :=
  writeFile_exact twoValues "/cache/A".toList (by decide) (by decide) (by decide) (by decide)

end Probes
end Szarp
