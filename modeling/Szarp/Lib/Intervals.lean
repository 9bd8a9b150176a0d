import Mathlib.Order.Lattice
import Mathlib.Data.List.Basic

/-!
# Sorted lists of intervals

Lists whose elements stand for half-open intervals of a linear order, and the cells that the points
of the order lie in.
-/

namespace Szarp
namespace Intervals

variable {α τ : Type*} [LinearOrder τ] {lo hi : α → τ} {l r : List α} {a b x : α} {t u : τ}

variable (lo hi) in
/-- No interval is empty, and each one ends before the next one starts. -/
def Sorted (l : List α) : Prop :=
  (∀ a ∈ l, lo a < hi a) ∧ l.Pairwise fun a b => hi a ≤ lo b

theorem sorted_nil : Sorted lo hi ([] : List α) :=
  ⟨fun _ ha => absurd ha List.not_mem_nil, .nil⟩

theorem Sorted.lt (h : Sorted lo hi (l ++ x :: r)) : lo x < hi x :=
  h.1 x (List.mem_append_right l List.mem_cons_self)

theorem Sorted.left (h : Sorted lo hi (l ++ x :: r)) (ha : a ∈ l) : hi a ≤ lo x :=
  (List.pairwise_append.mp h.2).2.2 a ha x List.mem_cons_self

theorem Sorted.right (h : Sorted lo hi (l ++ x :: r)) (hb : b ∈ r) : hi x ≤ lo b :=
  (List.pairwise_cons.mp (List.pairwise_append.mp h.2).2.1).1 b hb

/-- An interval goes in between. -/
theorem Sorted.insert (h : Sorted lo hi (l ++ r)) (hx : lo x < hi x) (hl : ∀ a ∈ l, hi a ≤ lo x)
    (hr : ∀ b ∈ r, hi x ≤ lo b) : Sorted lo hi (l ++ x :: r) := by
  obtain ⟨hne, hpair⟩ := h
  rw [List.pairwise_append] at hpair
  obtain ⟨hpl, hpr, hlr⟩ := hpair
  constructor
  · intro a ha
    rcases List.mem_append.mp ha with ha | ha
    · exact hne a (List.mem_append_left r ha)
    · rcases List.mem_cons.mp ha with rfl | ha
      · exact hx
      · exact hne a (List.mem_append_right l ha)
  · rw [List.pairwise_append]
    refine ⟨hpl, List.pairwise_cons.mpr ⟨hr, hpr⟩, fun a ha b hb => ?_⟩
    rcases List.mem_cons.mp hb with rfl | hb
    · exact hl a ha
    · exact hlr a ha b hb

/-- At most one of the intervals holds a point. -/
theorem Sorted.countP_le_one (h : Sorted lo hi l) (t : τ) :
    l.countP (fun a => lo a ≤ t ∧ t < hi a) ≤ 1 := by
  induction l with
  | nil => exact Nat.zero_le 1
  | cons a l ih =>
    obtain ⟨hne, hpair⟩ := h
    obtain ⟨hal, hl⟩ := List.pairwise_cons.mp hpair
    by_cases ha : lo a ≤ t ∧ t < hi a
    · have hrest : l.countP (fun a => lo a ≤ t ∧ t < hi a) = 0 := by
        rw [List.countP_eq_zero]
        intro b hb hbt
        have hbt' : lo b ≤ t := (of_decide_eq_true hbt).1
        exact absurd (ha.2.trans_le ((hal b hb).trans hbt')) (lt_irrefl t)
      rw [List.countP_cons, hrest]
      split <;> decide
    · rw [List.countP_cons_of_neg (by simpa using ha)]
      exact ih ⟨fun b hb => hne b (List.mem_cons_of_mem a hb), hl⟩

/-! ## Cells -/

/-- The points that lie in their own cells lie in one cell at most. -/
structure Cells (lo hi : τ → τ) (own : τ → Prop) : Prop where
  inside : ∀ t, own t ↔ lo t ≤ t ∧ t < hi t
  start : ∀ t, own t → own (lo t)
  same : ∀ t u, own t → own u → lo t ≤ u → u < hi t → lo u = lo t ∧ hi u = hi t

variable {clo chi : τ → τ} {own : τ → Prop}

theorem Cells.apart (h : Cells clo chi own) (ht : own t) (hu : own u) :
    (clo u = clo t ∧ chi u = chi t) ∨ chi t ≤ clo u ∨ chi u ≤ clo t := by
  have hu' := (h.inside u).mp hu
  have ht' := (h.inside t).mp ht
  have hstart := h.start u hu
  by_cases h1 : chi t ≤ clo u
  · exact .inr (.inl h1)
  by_cases h2 : chi u ≤ clo t
  · exact .inr (.inr h2)
  rw [not_le] at h1 h2
  rcases le_total (clo t) (clo u) with hle | hle
  · -- the start of the later cell lies in both
    have h3 := h.same t (clo u) ht hstart hle h1
    have h4 := h.same u (clo u) hu hstart le_rfl (hu'.1.trans_lt hu'.2)
    exact .inl ⟨h4.1.symm.trans h3.1, h4.2.symm.trans h3.2⟩
  · have h3 := h.same u (clo t) hu (h.start t ht) hle h2
    have h4 := h.same t (clo t) ht (h.start t ht) le_rfl (ht'.1.trans_lt ht'.2)
    exact .inl ⟨h3.1.symm.trans h4.1, h3.2.symm.trans h4.2⟩

end Intervals
end Szarp
