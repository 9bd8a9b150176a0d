import Mathlib.Algebra.Order.Ring.Int
import Mathlib.Data.Int.Order.Basic

/-!
# Loops that jump

A loop over the integers in one direction whose body may go on at another place than the next one.
-/

namespace Szarp
namespace JumpScan

variable {S : Type*}

/-- The loop: `body` is `none` at a place that is found, and otherwise gives the next state and
place. The first argument bounds the rounds; `none` is returned when they are used up. -/
def scan (body : S → ℤ → Option (S × ℤ)) (running : ℤ → Prop) [DecidablePred running] :
    ℕ → S → ℤ → Option (Option ℤ)
  | 0, _, _ => none
  | n + 1, s, t =>
    if running t then
      match body s t with
      | none => some (some t)
      | some (s, t) => scan body running n s t
    else some none

/-- `r` is the first place with `P` from `t` to `stop`, in direction `d`. -/
def IsFirst (P : ℤ → Prop) (d t stop : ℤ) : Option ℤ → Prop
  | none => ∀ u, d * t ≤ d * u → d * u ≤ d * stop → ¬ P u
  | some r => d * t ≤ d * r ∧ d * r ≤ d * stop ∧ P r ∧
      ∀ u, d * t ≤ d * u → d * u < d * r → ¬ P u

/-- Places without `P` may be skipped. -/
theorem IsFirst.skip {P : ℤ → Prop} {d t t' stop : ℤ} {r : Option ℤ} (hlt : d * t < d * t')
    (hskip : ∀ u, d * t ≤ d * u → d * u < d * t' → ¬ P u) (h : IsFirst P d t' stop r) :
    IsFirst P d t stop r := by
  have hbefore : ∀ u, d * t ≤ d * u → (d * t' ≤ d * u → ¬ P u) → ¬ P u := by
    intro u hu hrest
    rcases lt_or_ge (d * u) (d * t') with hlt' | hge
    · exact hskip u hu hlt'
    · exact hrest hge
  cases r with
  | none => exact fun u hu hstop => hbefore u hu fun hge => h u hge hstop
  | some r =>
    obtain ⟨hr, hstop, hp, hfirst⟩ := h
    exact ⟨by omega, hstop, hp, fun u hu hur => hbefore u hu fun hge => hfirst u hge hur⟩

variable {body : S → ℤ → Option (S × ℤ)} {running : ℤ → Prop} [DecidablePred running]
  {P : ℤ → Prop} {J : S → ℤ → Prop} {d stop : ℤ}

/-- The loop ends at the first place with `P` when its body finds only such places and jumps
forwards over none of them. -/
theorem scan_isFirst (hrun : ∀ t, running t ↔ d * t ≤ d * stop)
    (hfound : ∀ s t, J s t → running t → body s t = none → P t)
    (hnext : ∀ s t s' t', J s t → running t → body s t = some (s', t') →
      J s' t' ∧ d * t < d * t' ∧ ∀ u, d * t ≤ d * u → d * u < d * t' → ¬ P u)
    (n : ℕ) {s : S} {t : ℤ} (hinv : J s t) (hn : (d * stop - d * t + 1).toNat < n) :
    ∃ r, scan body running n s t = some r ∧ IsFirst P d t stop r := by
  induction n generalizing s t with
  | zero => omega
  | succ n ih =>
    rw [scan]
    by_cases ht : running t
    · rw [if_pos ht]
      have hle := (hrun t).mp ht
      cases hbody : body s t with
      | none => exact ⟨some t, rfl, le_rfl, hle, hfound s t hinv ht hbody, by omega⟩
      | some next =>
        obtain ⟨s', t'⟩ := next
        obtain ⟨hinv', hlt, hskip⟩ := hnext s t s' t' hinv ht hbody
        obtain ⟨r, hr, hfirst⟩ := ih hinv' (by omega)
        exact ⟨r, hr, hfirst.skip hlt hskip⟩
    · rw [if_neg ht]
      refine ⟨none, rfl, ?_⟩
      intro u hu hstop
      exact absurd ((hrun t).mpr (by omega)) ht

end JumpScan
end Szarp
