import Mathlib.Data.List.Basic
import Mathlib.Tactic.Common

/-!
# Walks along a successor function

A successor function walks through a list when it leads from each element to the next one.
-/

namespace Szarp
namespace Walk

variable {α : Type*} (next : α → Option α)

/-- All elements from a start on; `none` when the walk is not over after `n` steps. -/
def collect : ℕ → Option α → Option (List α)
  | _, none => some []
  | 0, some _ => none
  | n + 1, some a => (collect n (next a)).map (a :: ·)

def find [DecidableEq α] (x : α) : ℕ → Option α → Option ℕ
  | _, none => none
  | 0, some _ => none
  | n + 1, some a => if a = x then some 0 else (find x n (next a)).map (· + 1)

def nth : ℕ → Option α → Option α
  | 0, a => a
  | _ + 1, none => none
  | n + 1, some a => nth n (next a)

/-- The successor function leads through a list and to `stop` at its end. -/
def Follows (stop : Option α) : List α → Prop
  | [] => True
  | a :: l => next a = l.head?.or stop ∧ Follows stop l

variable {next}

attribute [local simp] Follows collect find

/-- A walk through two lists stops in the first one where the second one starts. -/
theorem follows_append {front back : List α} {stop : Option α} :
    Follows next stop (front ++ back) ↔
      Follows next (back.head?.or stop) front ∧ Follows next stop back := by
  induction front with
  | nil => simp [Follows]
  | cons a front ih =>
    have hhead : (front ++ back).head?.or stop = front.head?.or (back.head?.or stop) := by
      rw [List.head?_append, Option.or_assoc]
    rw [List.cons_append, Follows, ih, hhead, ← and_assoc]
    rfl

/-- Elements numbered in order are followed when the last one leads to `stop`. -/
theorem follows_range {f : ℕ → α} {n : ℕ} {stop : Option α}
    (h : ∀ i, i + 1 < n → next (f i) = some (f (i + 1))) :
    Follows next stop ((List.range n).map f) ↔ ∀ i, i + 1 = n → next (f i) = stop := by
  induction n generalizing stop with
  | zero => simp [Follows]
  | succ n ih =>
    have hfront : Follows next (some (f n)) ((List.range n).map f) := by
      apply (ih fun i hi => h i (by omega)).mpr
      intro i hi
      rw [h i (by omega), hi]
    rw [List.range_succ, List.map_append, follows_append]
    constructor
    · intro hf i hi
      obtain rfl : i = n := by omega
      exact hf.2.1
    · intro hlast
      exact ⟨hfront, hlast n rfl, trivial⟩

theorem collect_of_follows {l : List α} (h : Follows next none l) {n : ℕ} (hn : l.length ≤ n) :
    collect next n l.head? = some l := by
  induction l generalizing n with
  | nil => cases n <;> rfl
  | cons a l ih =>
    obtain ⟨n, rfl⟩ : ∃ m, n = m + 1 := ⟨n - 1, by rw [List.length_cons] at hn; omega⟩
    rw [List.head?_cons, collect, h.1, Option.or_none,
      ih h.2 (by rw [List.length_cons] at hn; omega)]
    rfl

theorem follows_of_collect {l : List α} {n : ℕ} {start : Option α}
    (h : collect next n start = some l) : Follows next none l ∧ start = l.head? := by
  induction n generalizing start l with
  | zero =>
    cases start with
    | none =>
      obtain rfl : [] = l := Option.some.inj h
      exact ⟨trivial, rfl⟩
    | some a => exact nomatch h
  | succ n ih =>
    cases start with
    | none =>
      obtain rfl : [] = l := Option.some.inj h
      exact ⟨trivial, rfl⟩
    | some a =>
      rw [collect, Option.map_eq_some_iff] at h
      obtain ⟨rest, hrest, rfl⟩ := h
      obtain ⟨hfollows, hnext⟩ := ih hrest
      exact ⟨⟨by rw [hnext, Option.or_none], hfollows⟩, rfl⟩

theorem find_of_follows [DecidableEq α] {l : List α} (h : Follows next none l) {x : α} (hx : x ∈ l) :
    find next x l.length l.head? = some (l.idxOf x) := by
  induction l with
  | nil => exact absurd hx List.not_mem_nil
  | cons a l ih =>
    rw [List.head?_cons, List.length_cons, find]
    by_cases ha : a = x
    · rw [if_pos ha, ha, List.idxOf_cons_self]
    · rw [if_neg ha, h.1, Option.or_none, ih h.2 (by simpa [Ne.symm ha] using hx),
        List.idxOf_cons_ne l ha]
      rfl

theorem nth_of_follows {l : List α} (h : Follows next none l) (n : ℕ) :
    nth next n l.head? = l[n]? := by
  induction l generalizing n with
  | nil => cases n <;> rfl
  | cons a l ih =>
    cases n with
    | zero => rfl
    | succ n => rw [List.head?_cons, nth, h.1, Option.or_none, ih h.2, List.getElem?_cons_succ]

end Walk
end Szarp
