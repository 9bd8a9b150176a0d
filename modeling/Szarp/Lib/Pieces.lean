import Mathlib.Data.List.Basic
import Mathlib.Data.List.Flatten

/-!
# Input in pieces

A reader takes elements of its input one by one and stops after one that it answers. Its input comes
in pieces; what it has left of one piece is in front of the next. As long as it has nothing to answer
it does not matter where the pieces are cut.
-/

namespace Szarp
namespace Pieces

variable {σ α β : Type} (step : σ → α → σ × Option β)

def read : σ → List α → σ × Option β × List α
  | s, [] => (s, none, [])
  | s, a :: as =>
    match step s a with
    | (s, some b) => (s, some b, as)
    | (s, none) => read s as

structure Reader (σ α β : Type) where
  state : σ
  rest : List α
  answers : List β

def feed (r : Reader σ α β) (piece : List α) : Reader σ α β :=
  let result := read step r.state (r.rest ++ piece)
  ⟨result.1, result.2.2, r.answers ++ result.2.1.toList⟩

/-- The state after elements that are not answered. -/
def quiet : σ → List α → Option σ
  | s, [] => some s
  | s, a :: as =>
    match step s a with
    | (s, none) => quiet s as
    | (_, some _) => none

variable {step}

attribute [local simp] quiet

theorem quiet_append (s : σ) (as bs : List α) :
    quiet step s (as ++ bs) = (quiet step s as).bind fun t => quiet step t bs := by
  induction as generalizing s with
  | nil => rfl
  | cons a as ih =>
    rw [List.cons_append, quiet, quiet]
    cases step s a with
    | mk t b =>
      cases b with
      | none => exact ih t
      | some b => rfl

theorem quiet_cons {s t : σ} {a : α} {as : List α} (h : step s a = (t, none)) :
    quiet step s (a :: as) = quiet step t as := by
  rw [quiet, h]

theorem read_of_quiet {s t : σ} {as : List α} (h : quiet step s as = some t) :
    read step s as = (t, none, []) := by
  induction as generalizing s with
  | nil =>
    obtain rfl := Option.some.inj h
    rfl
  | cons a as ih =>
    rw [quiet] at h
    rw [read]
    cases hstep : step s a with
    | mk s' b =>
      rw [hstep] at h
      cases b with
      | none => exact ih h
      | some b => contradiction

theorem read_of_answer {s t t' : σ} {as rest : List α} {a : α} {b : β}
    (h : quiet step s as = some t) (hlast : step t a = (t', some b)) :
    read step s (as ++ a :: rest) = (t', some b, rest) := by
  induction as generalizing s with
  | nil =>
    obtain rfl := Option.some.inj h
    rw [List.nil_append, read, hlast]
  | cons c as ih =>
    rw [quiet] at h
    rw [List.cons_append, read]
    cases hstep : step s c with
    | mk s' b =>
      rw [hstep] at h
      cases b with
      | none => exact ih h
      | some b => contradiction

theorem feed_of_quiet {s t : σ} {as : List α} (h : quiet step s as = some t) (bs : List β) :
    feed step ⟨s, [], bs⟩ as = ⟨t, [], bs⟩ := by
  rw [feed, List.nil_append, read_of_quiet h, Option.toList_none, List.append_nil]

theorem foldl_feed_nil (s : σ) (bs : List β) {pieces : List (List α)} (h : pieces.flatten = []) :
    pieces.foldl (feed step) ⟨s, [], bs⟩ = ⟨s, [], bs⟩ := by
  induction pieces with
  | nil => rfl
  | cons piece pieces ih =>
    rw [List.flatten_cons, List.append_eq_nil_iff] at h
    rw [List.foldl_cons, h.1, feed_of_quiet (t := s) rfl]
    exact ih h.2

/-- When only the last element is answered it is answered once, and nothing is left, no matter how the
input is cut. -/
theorem foldl_feed {s t t' : σ} {as : List α} {a : α} {b : β} (bs : List β)
    {pieces : List (List α)} (h : quiet step s as = some t) (hlast : step t a = (t', some b))
    (hpieces : pieces.flatten = as ++ [a]) :
    pieces.foldl (feed step) ⟨s, [], bs⟩ = ⟨t', [], bs ++ [b]⟩ := by
  induction pieces generalizing s as with
  | nil => exact absurd hpieces.symm (by simp)
  | cons piece pieces ih =>
    rw [List.flatten_cons] at hpieces
    rw [List.foldl_cons]
    by_cases hlen : piece.length ≤ as.length
    · obtain ⟨as', rfl⟩ : piece <+: as := by
        apply List.prefix_of_prefix_length_le _ _ hlen
        · exact piece ++ pieces.flatten
        · exact List.prefix_append _ _
        · rw [hpieces]
          exact List.prefix_append _ _
      rw [quiet_append] at h
      obtain ⟨u, hu, h⟩ := Option.bind_eq_some_iff.mp h
      rw [feed_of_quiet hu]
      rw [List.append_assoc] at hpieces
      exact ih h (List.append_cancel_left hpieces)
    · have hpiece : piece = as ++ [a] ∧ pieces.flatten = [] := by
        have hlength := congrArg List.length hpieces
        rw [List.length_append, List.length_append, List.length_singleton] at hlength
        have hnil : pieces.flatten = [] := List.length_eq_zero_iff.mp (by omega)
        rw [hnil, List.append_nil] at hpieces
        exact ⟨hpieces, hnil⟩
      rw [hpiece.1, feed, List.nil_append, read_of_answer h hlast]
      exact foldl_feed_nil t' _ hpiece.2

end Pieces
end Szarp
