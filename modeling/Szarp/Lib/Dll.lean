import Mathlib.Data.List.Nodup
import Mathlib.Tactic.Common

/-!
# Doubly linked lists

Nodes are linked by two maps `next` and `prev`; a list of nodes says in which order.
-/

namespace Szarp
namespace Dll

variable {α : Type*}

/-- The nodes `xs` are linked in this order and to nothing else. -/
structure Linked (next prev : α → Option α) (xs : List α) : Prop where
  nodup : xs.Nodup
  links : ∀ l x r, xs = l ++ x :: r → next x = r.head? ∧ prev x = l.getLast?

/-- Following `next` from a node or from nothing. -/
inductive Follows (next : α → Option α) : Option α → List α → Prop where
  | nil : Follows next none []
  | cons {x : α} {xs : List α} (h : Follows next (next x) xs) : Follows next (some x) (x :: xs)

variable {next prev : α → Option α} {xs : List α}

theorem linked_nil : Linked next prev [] :=
  ⟨List.nodup_nil, fun l x r h => absurd h.symm (by simp)⟩

theorem Linked.congr (h : Linked next prev xs) {next' prev' : α → Option α}
    (hn : ∀ x ∈ xs, next' x = next x) (hp : ∀ x ∈ xs, prev' x = prev x) :
    Linked next' prev' xs := by
  refine ⟨h.nodup, fun l x r hxs => ?_⟩
  have hx : x ∈ xs := by simp [hxs]
  rw [hn x hx, hp x hx]
  exact h.links l x r hxs

theorem Linked.follows (h : Linked next prev xs) : Follows next xs.head? xs := by
  have hsuffix : ∀ l r, xs = l ++ r → Follows next r.head? r := by
    intro l r
    induction r generalizing l with
    | nil => exact fun _ => .nil
    | cons x r ih =>
      intro hxs
      refine .cons ?_
      rw [(h.links l x r hxs).1]
      exact ih (l ++ [x]) (by simpa using hxs)
  exact hsuffix [] xs rfl

theorem Linked.reverse (h : Linked next prev xs) : Linked prev next xs.reverse := by
  refine ⟨List.nodup_reverse.mpr h.nodup, fun l x r hxs => ?_⟩
  have hxs' : xs = r.reverse ++ x :: l.reverse := by
    rw [← List.reverse_reverse xs, hxs]
    simp
  obtain ⟨hn, hp⟩ := h.links _ _ _ hxs'
  rw [hn, hp, List.getLast?_reverse, List.head?_reverse]
  exact ⟨rfl, rfl⟩

variable [DecidableEq α]

def set (f : α → Option α) (x : Option α) (v : Option α) : α → Option α :=
  fun y => if x = some y then v else f y

theorem set_self (f : α → Option α) (x : α) (v : Option α) : set f (some x) v x = v := if_pos rfl

theorem set_of_ne {f : α → Option α} {x : Option α} {y : α} (h : x ≠ some y) (v : Option α) :
    set f x v y = f y := if_neg h

@[simp] theorem set_none (f : α → Option α) (v : Option α) : set f none v = f := by
  funext y
  exact set_of_ne (by simp) v

theorem set_eq_self {f : α → Option α} {x : α} {v : Option α} (h : f x = v) :
    set f (some x) v = f := by
  funext y
  by_cases hy : x = y
  · rw [← hy, set_self, h]
  · exact set_of_ne (by simpa using hy) v

/-- A new node is linked in front of the list. -/
theorem Linked.cons (h : Linked next prev xs) {x : α} (hx : x ∉ xs) (hp : prev x = none) :
    Linked (set next (some x) xs.head?) (set prev xs.head? (some x)) (x :: xs) := by
  refine ⟨List.nodup_cons.mpr ⟨hx, h.nodup⟩, fun l y r hxs => ?_⟩
  cases l with
  | nil =>
    obtain ⟨rfl, rfl⟩ : x = y ∧ xs = r := by simpa using hxs
    refine ⟨set_self _ _ _, ?_⟩
    rw [set_of_ne (fun hh => hx (List.mem_of_mem_head? (by rw [hh]; rfl))), hp]
    rfl
  | cons z l =>
    obtain ⟨rfl, rfl⟩ : x = z ∧ xs = l ++ y :: r := by simpa using hxs
    obtain ⟨hnext, hprev⟩ := h.links l y r rfl
    have hxy : x ≠ y := by
      rintro rfl
      simp at hx
    rw [set_of_ne (by simpa using hxy), hnext]
    refine ⟨rfl, ?_⟩
    cases l with
    | nil => exact set_self _ _ _
    | cons w l =>
      have hwy : w ≠ y := by
        rintro rfl
        simpa using h.nodup
      rw [List.cons_append, List.head?_cons, set_of_ne (by simpa using hwy), hprev]
      rfl

/-- A node is taken out: its neighbours are linked to each other. -/
theorem Linked.remove {l r : List α} {x : α} (h : Linked next prev (l ++ x :: r)) :
    Linked (set next l.getLast? r.head?) (set prev r.head? l.getLast?) (l ++ r) := by
  have hnodup := h.nodup
  rw [List.nodup_middle] at hnodup
  have hlr := (List.nodup_cons.mp hnodup).2
  have hdisj : ∀ y, y ∈ l → y ∈ r → False :=
    fun y hl hr => List.disjoint_of_nodup_append hlr hl hr
  -- a node behind `x`
  have hright : ∀ c y b, r = c ++ y :: b → set next l.getLast? r.head? y = b.head? ∧
      set prev r.head? l.getLast? y = (l ++ c).getLast? := by
    rintro c y b rfl
    have hyl : y ∉ l := fun hy => hdisj y hy (by simp)
    obtain ⟨hnext, hprev⟩ := h.links (l ++ x :: c) y b (by simp)
    rw [set_of_ne (fun hh => hyl (List.mem_of_getLast? hh)), hnext]
    refine ⟨rfl, ?_⟩
    cases c with
    | nil =>
      rw [List.append_nil]
      exact set_self _ _ _
    | cons z c =>
      have hzy : z ≠ y := by
        rintro rfl
        simpa using (List.nodup_append.mp hlr).2.1
      rw [List.cons_append, List.head?_cons, set_of_ne (by simpa using hzy), hprev,
        List.getLast?_append_cons, List.getLast?_append_cons, List.getLast?_cons_cons]
  refine ⟨hlr, fun a y b hab => ?_⟩
  rcases List.append_eq_append_iff.mp hab with ⟨c, rfl, hr⟩ | ⟨c, rfl, hb⟩
  · exact hright c y b hr
  · cases c with
    | nil =>
      have hthis := hright [] y b (by simpa using hb.symm)
      simpa using hthis
    | cons z c =>
      -- a node before `x`
      obtain ⟨rfl, rfl⟩ : y = z ∧ b = c ++ r := by simpa using hb
      have hyr : y ∉ r := fun hy => hdisj y (by simp) hy
      obtain ⟨hnext, hprev⟩ := h.links a y (c ++ x :: r) (by simp)
      rw [set_of_ne (f := prev) (fun hh => hyr (List.mem_of_mem_head? (by rw [hh]; rfl))), hprev]
      refine ⟨?_, rfl⟩
      cases hc : c.getLast? with
      | none =>
        obtain rfl := List.getLast?_eq_none_iff.mp hc
        rw [List.getLast?_append_cons, List.getLast?_singleton]
        exact set_self _ _ _
      | some w =>
        have hwc := List.mem_of_getLast? hc
        have hwy : w ≠ y := by
          rintro rfl
          have hcons := (List.nodup_append.mp (List.nodup_append.mp hlr).1).2.1
          exact (List.nodup_cons.mp hcons).1 hwc
        obtain ⟨v, c, rfl⟩ := List.exists_cons_of_ne_nil (List.ne_nil_of_mem hwc)
        rw [List.getLast?_append_cons, List.getLast?_cons_cons, hc, set_of_ne (by simpa using hwy),
          hnext]
        rfl

end Dll
end Szarp
