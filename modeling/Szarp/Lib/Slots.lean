import Mathlib.Algebra.Order.Ring.Int
import Mathlib.Algebra.Ring.Divisibility.Basic
import Mathlib.Data.Int.Notation
import Mathlib.Tactic.Common
import Mathlib.Tactic.Linarith
import Mathlib.Tactic.Ring

/-!
# Slots of time

The times of an interval that lie a fixed length apart, and what is counted from them.
-/

namespace Szarp
namespace Slots

/-- The times from `t`, one every `k`, before `stop`. -/
def slots (k t stop : ℤ) : List ℤ :=
  (List.range ((stop - t) / k).toNat).map fun i : ℕ => t + k * i

variable {k t mid stop s : ℤ}

theorem length_slots : (slots k t stop).length = ((stop - t) / k).toNat := by
  rw [slots, List.length_map, List.length_range]

theorem mem_slots (hk : 0 < k) (h : k ∣ stop - t) :
    s ∈ slots k t stop ↔ t ≤ s ∧ s < stop ∧ k ∣ s - t := by
  obtain ⟨n, hn⟩ := h
  rw [slots, hn, Int.mul_ediv_cancel_left n hk.ne', List.mem_map]
  simp only [List.mem_range]
  constructor
  · rintro ⟨i, hi, rfl⟩
    have hnonneg : 0 ≤ k * (i : ℤ) := mul_nonneg hk.le (Int.natCast_nonneg i)
    have hlt : k * (i : ℤ) < k * n := mul_lt_mul_of_pos_left (by omega) hk
    exact ⟨by omega, by omega, i, by ring⟩
  · rintro ⟨hle, hlt, j, hj⟩
    have hnonneg : 0 ≤ j := by
      by_contra hneg
      have := mul_neg_of_pos_of_neg hk (not_le.mp hneg)
      omega
    have hjn : j < n := lt_of_mul_lt_mul_left (show k * j < k * n by omega) hk.le
    refine ⟨j.toNat, by omega, ?_⟩
    rw [Int.toNat_of_nonneg hnonneg]
    omega

theorem slots_of_le (hk : 0 < k) (h : stop ≤ t) : slots k t stop = [] := by
  have hdiv : (stop - t) / k ≤ 0 := Int.ediv_le_of_le_mul hk (by omega)
  rw [slots, Int.toNat_of_nonpos hdiv, List.range_zero, List.map_nil]

theorem slots_append (hk : 0 < k) (ht : t ≤ mid) (hstop : mid ≤ stop) (h : k ∣ mid - t) :
    slots k t stop = slots k t mid ++ slots k mid stop := by
  obtain ⟨n, hn⟩ := h
  have hnonneg : 0 ≤ n := by
    by_contra hneg
    have := mul_neg_of_pos_of_neg hk (not_le.mp hneg)
    omega
  have hrest : 0 ≤ (stop - mid) / k := Int.ediv_nonneg (by omega) hk.le
  have hlen : ((stop - t) / k).toNat = n.toNat + ((stop - mid) / k).toNat := by
    rw [show stop - t = stop - mid + k * n by omega, Int.add_mul_ediv_left _ _ hk.ne']
    omega
  rw [slots, slots, slots, hlen, hn, Int.mul_ediv_cancel_left n hk.ne', List.range_add,
    List.map_append, List.map_map]
  congr 1
  apply List.map_congr_left
  intro i _
  have hmid : mid = t + k * n := by omega
  rw [Function.comp_apply, Nat.cast_add, Int.toNat_of_nonneg hnonneg, hmid]
  ring

theorem slots_cons (hk : 0 < k) (ht : t < stop) (h : k ∣ stop - t) :
    slots k t stop = t :: slots k (t + k) stop := by
  obtain ⟨n, hn⟩ := h
  have hpos : 0 < n := by
    by_contra hneg
    have := mul_nonpos_of_nonneg_of_nonpos hk.le (not_lt.mp hneg)
    omega
  have hle : k * 1 ≤ k * n := mul_le_mul_of_nonneg_left hpos hk.le
  have hone : slots k t (t + k) = [t] := by
    rw [slots, add_sub_cancel_left, Int.ediv_self hk.ne']
    simp
  rw [slots_append hk (show t ≤ t + k by omega) (by omega) (by simp), hone, List.singleton_append]

/-! ## Counting -/

end Slots
end Szarp
