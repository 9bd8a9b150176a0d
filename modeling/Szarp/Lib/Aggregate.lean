import Mathlib.Data.List.Fold
import Mathlib.Data.List.Perm.Basic

/-!
# Aggregates

What is accumulated from the entries at some positions, when the order does not matter, and how it
is kept up to date when an entry is changed.
-/

namespace Szarp
namespace Aggregate

variable {ι κ α S : Type*} (add : S → α → S)

/-- What is added for the entry at a position, which may be missing. -/
def addAt (e : ι → Option α) (s : S) (i : ι) : S := (e i).elim s (add s)

def addAll (e : ι → Option α) (is : List ι) (s : S) : S := is.foldl (addAt add e) s

instance addAt_rightCommutative [RightCommutative add] (e : ι → Option α) :
    RightCommutative (addAt add e) where
  right_comm s i j := by
    rw [addAt, addAt, addAt, addAt]
    cases e i with
    | none => rfl
    | some a =>
      cases e j with
      | none => rfl
      | some b => exact RightCommutative.right_comm s a b

variable {add} {e e' : ι → Option α}

theorem addAll_congr {is : List ι} (h : ∀ i ∈ is, ∀ s, addAt add e s i = addAt add e' s i) (s : S) :
    addAll add e is s = addAll add e' is s := by
  induction is generalizing s with
  | nil => rfl
  | cons i is ih =>
    rw [addAll, addAll, List.foldl_cons, List.foldl_cons, h i List.mem_cons_self]
    exact ih (fun j hj => h j (List.mem_cons_of_mem i hj)) _

theorem addAll_map (e : ι → Option α) (g : κ → ι) (ks : List κ) (s : S) :
    addAll add e (ks.map g) s = addAll add (fun k => e (g k)) ks s := by
  rw [addAll, List.foldl_map]
  rfl

variable [RightCommutative add]

theorem addAll_perm {is js : List ι} (h : is.Perm js) (s : S) : addAll add e is s = addAll add e js s :=
  h.foldl_eq s

theorem addAll_cons (e : ι → Option α) (i : ι) (is : List ι) (s : S) :
    addAll add e (i :: is) s = addAt add e (addAll add e is s) i :=
  List.foldl_cons_eq_apply_foldl

theorem addAll_erase [DecidableEq ι] (e : ι → Option α) {i : ι} {is : List ι} (h : i ∈ is) (s : S) :
    addAll add e is s = addAt add e (addAll add e (is.erase i) s) i := by
  rw [addAll_perm (List.perm_cons_erase h), addAll_cons]

/-- An entry is changed that has not been added; the others are not changed. -/
theorem addAll_update [DecidableEq ι] {i : ι} {is : List ι} (hnodup : is.Nodup) (hi : i ∈ is)
    (h : ∀ j, j ≠ i → e' j = e j) (hnot : ∀ s, addAt add e s i = s) (s : S) :
    addAll add e' is s = addAt add e' (addAll add e is s) i := by
  have hrest : addAll add e' (is.erase i) s = addAll add e (is.erase i) s := by
    apply addAll_congr
    intro j hj s
    have hne : j ≠ i := by
      rintro rfl
      exact hnodup.not_mem_erase hj
    rw [addAt, addAt, h j hne]
  rw [addAll_erase e' hi, addAll_erase e hi, hnot, hrest]

end Aggregate
end Szarp
