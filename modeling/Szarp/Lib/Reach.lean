import Mathlib.Data.Fintype.EquivFin
import Mathlib.Logic.Relation
import Mathlib.Order.WellFounded

/-!
# Paths over fresh nodes

What a search that marks its nodes can find, and the cycles that a recursion runs into.
-/

namespace Szarp
namespace Reach

variable {N : Type} {next : N → N → Prop} {goal fresh : N → Prop}

/-! ## Fresh paths -/

/-- A goal can be reached from a node, over fresh nodes alone. -/
inductive Reaches (next : N → N → Prop) (goal fresh : N → Prop) : N → Prop where
  | here {x : N} (hx : fresh x) (hgoal : goal x) : Reaches next goal fresh x
  | there {x y : N} (hx : fresh x) (hnext : next x y) (hy : Reaches next goal fresh y) :
      Reaches next goal fresh x

theorem Reaches.isFresh {x : N} (h : Reaches next goal fresh x) : fresh x := by
  cases h with
  | here hx _ => exact hx
  | there hx _ _ => exact hx

theorem Reaches.mono {fresh' : N → Prop} (hmono : ∀ y, fresh y → fresh' y) {x : N}
    (h : Reaches next goal fresh x) : Reaches next goal fresh' x := by
  induction h with
  | here hx hgoal => exact .here (hmono _ hx) hgoal
  | there hx hnext _ ih => exact .there (hmono _ hx) hnext ih

/-- A path that goes through a node has an end that does not come back to it. -/
theorem Reaches.avoid (b : N) {x : N} (h : Reaches next goal fresh x) :
    Reaches next goal (fun y => fresh y ∧ y ≠ b) x ∨
      fresh b ∧ (goal b ∨ ∃ c, next b c ∧ Reaches next goal (fun y => fresh y ∧ y ≠ b) c) := by
  induction h with
  | @here x hx hgoal =>
    by_cases hb : x = b
    · subst hb
      exact .inr ⟨hx, .inl hgoal⟩
    · exact .inl (.here ⟨hx, hb⟩ hgoal)
  | @there x y hx hnext hy ih =>
    rcases ih with ih | ih
    · by_cases hb : x = b
      · subst hb
        exact .inr ⟨hx, .inr ⟨y, hnext, ih⟩⟩
      · exact .inl (.there ⟨hx, hb⟩ hnext ih)
    · exact .inr ih

/-! ## Cycles -/

/-- On finitely many nodes, paths from a node come to an end when they meet no cycle. -/
theorem acc_of_no_cycle [Finite N] {x : N}
    (h : ∀ y, Relation.ReflTransGen next x y → ¬ Relation.TransGen next y y) :
    Acc (fun b a => next a b) x := by
  let reached := {y // Relation.ReflTransGen next x y}
  let below : reached → reached → Prop := fun b a => Relation.TransGen next a b
  have htrans : IsTrans reached below := ⟨fun a b c hab hbc => Relation.TransGen.trans hbc hab⟩
  have hirrefl : Std.Irrefl below := ⟨fun a => h a a.2⟩
  have hwf : WellFounded below := Finite.wellFounded_of_trans_of_irrefl below
  suffices hacc : ∀ a : reached, Acc (fun b a => next a b) a.1 from hacc ⟨x, .refl⟩
  intro a
  induction a using hwf.induction with
  | _ a ih =>
    constructor
    intro b hb
    exact ih ⟨b, a.2.tail hb⟩ (.single hb)

/-- Where every path ends with its first step there is no cycle. -/
theorem no_cycle_of_flat (h : ∀ x y, next x y → ∀ z, ¬ next y z) (x : N) :
    ¬ Relation.TransGen next x x := by
  intro hcycle
  obtain ⟨y, hxy, hyx⟩ := Relation.TransGen.head'_iff.mp hcycle
  rcases Relation.ReflTransGen.cases_head hyx with rfl | ⟨z, hyz, -⟩
  · exact h y y hxy y hxy
  · exact h x y hxy z hyz

/-! ## Bounds -/

section Bounds

variable {T : ℕ → N → Prop} (hnext : ∀ n a b, T n a → next a b → ∃ k < n, T k b)

include hnext

/-- What holds of a node with some bound, and of the next nodes with a smaller one, holds of all
that are reached. -/
theorem exists_bound {n : ℕ} {a b : N} (ha : T n a) (hab : Relation.ReflTransGen next a b) :
    ∃ k, T k b := by
  induction hab with
  | refl => exact ⟨n, ha⟩
  | tail _ hb ih =>
    obtain ⟨k, hT⟩ := ih
    obtain ⟨l, -, hT'⟩ := hnext k _ _ hT hb
    exact ⟨l, hT'⟩

theorem no_cycle_of_bound {n : ℕ} {a : N} (ha : T n a) : ¬ Relation.TransGen next a a := by
  have hstep : ∀ n a b, T n a → Relation.TransGen next a b → ∃ k < n, T k b := by
    intro n a b ha hab
    induction hab with
    | single hb => exact hnext n a _ ha hb
    | tail _ hb ih =>
      obtain ⟨k, hk, hT⟩ := ih
      obtain ⟨l, hl, hT'⟩ := hnext k _ _ hT hb
      exact ⟨l, hl.trans hk, hT'⟩
  intro hcycle
  induction n using Nat.strong_induction_on with
  | _ n ih =>
    obtain ⟨k, hk, hT⟩ := hstep n a a ha hcycle
    exact ih k hk hT

end Bounds

end Reach
end Szarp
