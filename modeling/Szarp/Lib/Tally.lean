import Mathlib.Data.List.ReduceOption
import Mathlib.Tactic

/-!
# Counts and sums of a list with gaps
-/

namespace Szarp
namespace Tally

def count (xs : List (Option ℤ)) : ℕ := xs.reduceOption.length

def total (xs : List (Option ℤ)) : ℤ := xs.reduceOption.sum

@[simp] theorem count_replicate_none (n : ℕ) : count (List.replicate n none) = 0 := by
  rw [count, List.reduceOption_replicate_none, List.length_nil]

@[simp] theorem total_replicate_none (n : ℕ) : total (List.replicate n none) = 0 := by
  rw [total, List.reduceOption_replicate_none, List.sum_nil]

theorem count_le_length (xs : List (Option ℤ)) : count xs ≤ xs.length :=
  List.reduceOption_length_le xs

theorem count_cons (x : Option ℤ) (xs : List (Option ℤ)) :
    count (x :: xs) = (if x.isSome then 1 else 0) + count xs := by
  cases x with
  | none => simp [count]
  | some v => simp [count, Nat.add_comm]

theorem total_cons (x : Option ℤ) (xs : List (Option ℤ)) :
    total (x :: xs) = x.getD 0 + total xs := by
  cases x with
  | none => simp [total]
  | some v => simp [total]

theorem count_set {xs : List (Option ℤ)} {i : ℕ} {x : Option ℤ} (h : xs[i]? = some x)
    (y : Option ℤ) : count (xs.set i y) + (if x.isSome then 1 else 0) =
      count xs + if y.isSome then 1 else 0 := by
  induction xs generalizing i with
  | nil => simp at h
  | cons z xs ih =>
    cases i with
    | zero =>
      rw [List.getElem?_cons_zero, Option.some.injEq] at h
      rw [List.set_cons_zero, count_cons, count_cons, h]
      omega
    | succ i =>
      rw [List.getElem?_cons_succ] at h
      have := ih h
      rw [List.set_cons_succ, count_cons, count_cons]
      omega

theorem total_set {xs : List (Option ℤ)} {i : ℕ} {x : Option ℤ} (h : xs[i]? = some x)
    (y : Option ℤ) : total (xs.set i y) + x.getD 0 = total xs + y.getD 0 := by
  induction xs generalizing i with
  | nil => simp at h
  | cons z xs ih =>
    cases i with
    | zero =>
      rw [List.getElem?_cons_zero, Option.some.injEq] at h
      rw [List.set_cons_zero, total_cons, total_cons, h]
      ring
    | succ i =>
      rw [List.getElem?_cons_succ] at h
      have := ih h
      rw [List.set_cons_succ, total_cons, total_cons]
      linarith

/-- A list of bounded entries has a bounded sum. -/
theorem abs_total_le {xs : List (Option ℤ)} {b : ℤ} (h : ∀ v, some v ∈ xs → |v| ≤ b) :
    |total xs| ≤ count xs * b := by
  induction xs with
  | nil => simp [total, count]
  | cons x xs ih =>
    have hxs := ih fun v hv => h v (List.mem_cons_of_mem _ hv)
    rw [total_cons, count_cons]
    cases x with
    | none => simpa using hxs
    | some v =>
      have hv := h v List.mem_cons_self
      have habs := abs_add_le v (total xs)
      simp only [Option.getD_some, Option.isSome_some, if_true, Nat.cast_add, Nat.cast_one]
      linarith

/-! ## Means -/

theorem count_eq_zero {xs : List (Option ℤ)} : count xs = 0 ↔ ∀ v, some v ∉ xs := by
  rw [count, List.length_eq_zero_iff, List.eq_nil_iff_forall_not_mem]
  simp only [List.reduceOption_mem_iff]

theorem mul_count_le_total {xs : List (Option ℤ)} {b : ℤ} (h : ∀ v, some v ∈ xs → b ≤ v) :
    b * count xs ≤ total xs := by
  induction xs with
  | nil => simp [total, count]
  | cons x xs ih =>
    have hxs := ih fun v hv => h v (List.mem_cons_of_mem _ hv)
    rw [total_cons, count_cons]
    cases x with
    | none => simpa using hxs
    | some v =>
      have hv := h v List.mem_cons_self
      simp only [Option.getD_some, Option.isSome_some, if_true, Nat.cast_add, Nat.cast_one]
      linarith

theorem total_le_mul_count {xs : List (Option ℤ)} {b : ℤ} (h : ∀ v, some v ∈ xs → v ≤ b) :
    total xs ≤ b * count xs := by
  induction xs with
  | nil => simp [total, count]
  | cons x xs ih =>
    have hxs := ih fun v hv => h v (List.mem_cons_of_mem _ hv)
    rw [total_cons, count_cons]
    cases x with
    | none => simpa using hxs
    | some v =>
      have hv := h v List.mem_cons_self
      simp only [Option.getD_some, Option.isSome_some, if_true, Nat.cast_add, Nat.cast_one]
      linarith

/-- A quotient that is truncated stays between whole numbers. -/
theorem tdiv_between {s c lo hi : ℤ} (hc : 0 < c) (hlo : lo * c ≤ s) (hhi : s ≤ hi * c) :
    lo ≤ s.tdiv c ∧ s.tdiv c ≤ hi := by
  rcases le_or_gt 0 s with hs | hs
  · rw [Int.tdiv_eq_ediv_of_nonneg hs]
    exact ⟨Int.le_ediv_of_mul_le hc hlo, Int.ediv_le_of_le_mul hc hhi⟩
  · have hneg : s.tdiv c = -((-s) / c) := by
      rw [← Int.tdiv_eq_ediv_of_nonneg (by omega), Int.neg_tdiv, neg_neg]
    have hle : (-s) / c ≤ -lo := Int.ediv_le_of_le_mul hc (by linarith)
    have hge : -hi ≤ (-s) / c := Int.le_ediv_of_mul_le hc (by linarith)
    omega

/-- The truncated mean lies between the least and the greatest entry. -/
theorem mean_between {xs : List (Option ℤ)} (h : count xs ≠ 0) :
    ∃ lo hi, IsLeast {v | some v ∈ xs} lo ∧ IsGreatest {v | some v ∈ xs} hi ∧
      lo ≤ (total xs).tdiv (count xs) ∧ (total xs).tdiv (count xs) ≤ hi := by
  have hset : {v | some v ∈ xs} = {v | v ∈ xs.reduceOption} := by
    ext v
    exact List.reduceOption_mem_iff.symm
  have hfinite : {v | some v ∈ xs}.Finite := hset ▸ List.finite_toSet _
  have hne : {v | some v ∈ xs}.Nonempty := by
    by_contra hempty
    exact h (count_eq_zero.mpr fun v hv => hempty ⟨v, hv⟩)
  obtain ⟨lo, hlo, hleast⟩ := Set.exists_min_image _ id hfinite hne
  obtain ⟨hi, hhi, hgreatest⟩ := Set.exists_max_image _ id hfinite hne
  have hpos : (0 : ℤ) < count xs := by omega
  obtain ⟨hmin, hmax⟩ := tdiv_between hpos (mul_count_le_total hleast)
    (total_le_mul_count hgreatest)
  exact ⟨lo, hi, ⟨hlo, hleast⟩, ⟨hhi, hgreatest⟩, hmin, hmax⟩

end Tally
end Szarp
