import Mathlib.Data.List.TakeDrop
import Mathlib.Tactic

/-!
# Arrays dumped to files

Values of a fixed width are written to a file as they lie in memory, and read back.  A region of
memory keeps a record of the places that were stored to, inside it or not.
-/

namespace Szarp

/-- How a value of a fixed width lies in memory. -/
structure Layout (α : Type*) where
  width : ℕ
  encode : α → List UInt8
  decode : List UInt8 → α
  encode_length : ∀ a, (encode a).length = width
  decode_encode : ∀ a, decode (encode a) = a

namespace Layout

variable {α : Type*} (l : Layout α)

def dump (as : List α) : List UInt8 := as.flatMap l.encode

/-- The first `n` values of a dump. -/
def values : ℕ → List UInt8 → List α
  | 0, _ => []
  | n + 1, bs => l.decode (bs.take l.width) :: values n (bs.drop l.width)

attribute [local simp] values

@[simp] theorem values_length (n : ℕ) (bs : List UInt8) : (l.values n bs).length = n := by
  induction n generalizing bs with
  | zero => rfl
  | succ n ih => rw [values, List.length_cons, ih]

@[simp] theorem dump_length (as : List α) : (l.dump as).length = l.width * as.length := by
  induction as with
  | nil => rfl
  | cons a as ih =>
    change (l.encode a ++ l.dump as).length = _
    rw [List.length_append, l.encode_length, ih, List.length_cons]
    ring

/-- A dump is read back. -/
theorem values_dump (as : List α) : l.values as.length (l.dump as) = as := by
  induction as with
  | nil => rfl
  | cons a as ih =>
    have hcons : l.dump (a :: as) = l.encode a ++ l.dump as := rfl
    rw [List.length_cons, values, hcons, List.take_left' (l.encode_length a),
      List.drop_left' (l.encode_length a), l.decode_encode, ih]

/-- What is behind the values that are read is of no account. -/
theorem values_take {n m : ℕ} (h : l.width * n ≤ m) (bs : List UInt8) :
    l.values n (bs.take m) = l.values n bs := by
  induction n generalizing m bs with
  | zero => rfl
  | succ n ih =>
    have hm : l.width * n + l.width ≤ m := by rwa [← Nat.mul_succ]
    rw [values, values, List.take_take, min_eq_left (by omega), List.drop_take, ih (by omega)]

end Layout

/-! ## Stores to a region -/

structure Region (α : Type*) where
  cells : List α
  written : List ℕ

namespace Region

variable {α : Type*}

def store (r : Region α) (i : ℕ) (a : α) : Region α :=
  { cells := r.cells.set i a, written := r.written ++ [i] }

/-- The values are stored one behind the other from place `i` on. -/
def storeFrom : ℕ → List α → Region α → Region α
  | _, [], r => r
  | i, a :: as, r => storeFrom (i + 1) as (r.store i a)

@[simp] theorem storeFrom_length (i : ℕ) (as : List α) (r : Region α) :
    (storeFrom i as r).cells.length = r.cells.length := by
  induction as generalizing i r with
  | nil => rfl
  | cons a as ih => rw [storeFrom, ih, store, List.length_set]

theorem storeFrom_written (i : ℕ) (as : List α) (r : Region α) :
    (storeFrom i as r).written = r.written ++ List.range' i as.length := by
  induction as generalizing i r with
  | nil => simp [storeFrom]
  | cons a as ih =>
    rw [storeFrom, ih, store, List.append_assoc, List.length_cons, List.range'_succ]
    rfl

theorem take_set_drop (cs : List α) {i : ℕ} (a : α) (as : List α) (h : i < cs.length) :
    (cs.set i a).take (i + 1) ++ as ++ (cs.set i a).drop (i + 1 + as.length) =
      cs.take i ++ a :: as ++ cs.drop (i + (a :: as).length) := by
  rw [List.take_add_one, List.take_set_of_le le_rfl, List.getElem?_set_self h,
    List.drop_set_of_lt (by omega)]
  simp only [Option.toList_some, List.append_assoc, List.cons_append, List.nil_append,
    List.length_cons]
  rw [show i + 1 + as.length = i + (as.length + 1) by omega]

/-- Stores inside the region put the values in their place and leave the rest. -/
theorem storeFrom_cells {i : ℕ} {as : List α} {r : Region α}
    (h : i + as.length ≤ r.cells.length) :
    (storeFrom i as r).cells = r.cells.take i ++ as ++ r.cells.drop (i + as.length) := by
  induction as generalizing i r with
  | nil => simp [storeFrom]
  | cons a as ih =>
    rw [List.length_cons] at h
    have hlen : i + 1 + as.length ≤ (r.store i a).cells.length := by
      rw [store, List.length_set]
      omega
    rw [storeFrom, ih hlen, store, take_set_drop r.cells a as (by omega)]

theorem storeFrom_fill {as : List α} {r : Region α} (a : α) (h : as.length ≤ r.cells.length) :
    storeFrom as.length (List.replicate (r.cells.length - as.length) a) (storeFrom 0 as r) =
      ⟨as ++ List.replicate (r.cells.length - as.length) a,
        r.written ++ List.range' 0 r.cells.length⟩ := by
  have hcells : (storeFrom 0 as r).cells = as ++ r.cells.drop as.length := by
    rw [storeFrom_cells (by omega), List.take_zero, List.nil_append, Nat.zero_add]
  have hlen := storeFrom_length 0 as r
  have hfill : (storeFrom as.length (List.replicate (r.cells.length - as.length) a)
      (storeFrom 0 as r)).cells = as ++ List.replicate (r.cells.length - as.length) a := by
    rw [storeFrom_cells (by rw [List.length_replicate]; omega), List.length_replicate,
      List.drop_of_length_le (by omega), List.append_nil, hcells, List.take_left]
  have hwritten : (storeFrom as.length (List.replicate (r.cells.length - as.length) a)
      (storeFrom 0 as r)).written = r.written ++ List.range' 0 r.cells.length := by
    have happ := List.range'_append_1 (s := 0) (m := as.length) (n := r.cells.length - as.length)
    rw [Nat.zero_add, Nat.add_sub_cancel' h] at happ
    rw [storeFrom_written, storeFrom_written, List.length_replicate, List.append_assoc, happ]
  rw [← hfill, ← hwritten]

end Region
end Szarp
