import Mathlib.Data.List.Basic
import Mathlib.Tactic.Common

/-!
# Files that are written piece by piece

Pieces are written over each other in a file; a gap before a piece is filled.
-/

namespace Szarp
namespace Overlay

variable {α : Type*}

/-- The data is written at a position inside or at the end of a file. -/
def pwrite (file : List α) (pos : ℕ) (data : List α) : List α :=
  file.take pos ++ data ++ file.drop (pos + data.length)

/-- The last value that some pieces put at an index. -/
def valueAt : List (ℕ × List α) → ℕ → Option α
  | [], _ => none
  | (pos, data) :: ws, i => (valueAt ws i).or (if pos ≤ i then data[i - pos]? else none)

/-- The end of the piece that reaches farthest. -/
def size : List (ℕ × List α) → ℕ
  | [] => 0
  | (pos, data) :: ws => max (pos + data.length) (size ws)

/-- A file holds the pieces that were written, and `fill` elsewhere. -/
structure Holds (fill : α) (ws : List (ℕ × List α)) (file : List α) : Prop where
  length : file.length = size ws
  value : ∀ i < file.length, file[i]? = some ((valueAt ws i).getD fill)

theorem length_pwrite {file : List α} {pos : ℕ} (h : pos ≤ file.length) (data : List α) :
    (pwrite file pos data).length = max (pos + data.length) file.length := by
  rw [pwrite, List.length_append, List.length_append, List.length_take, List.length_drop]
  omega

theorem getElem?_pwrite {file : List α} {pos : ℕ} (h : pos ≤ file.length) (data : List α) (i : ℕ) :
    (pwrite file pos data)[i]? =
      if pos ≤ i ∧ i < pos + data.length then data[i - pos]? else file[i]? := by
  have htake : (file.take pos).length = pos := by
    rw [List.length_take]
    omega
  rw [pwrite, List.append_assoc, List.getElem?_append, htake]
  by_cases hlt : i < pos
  · rw [if_pos hlt, if_neg (by omega), List.getElem?_take_of_lt hlt]
  · rw [if_neg hlt, List.getElem?_append]
    by_cases hin : i - pos < data.length
    · rw [if_pos hin, if_pos (by omega)]
    · rw [if_neg hin, if_neg (by omega), List.getElem?_drop]
      congr 1
      omega

theorem pwrite_end (file data : List α) : pwrite file file.length data = file ++ data := by
  rw [pwrite, List.take_length, List.drop_eq_nil_of_le (by omega), List.append_nil]

theorem valueAt_append (ws ws' : List (ℕ × List α)) (i : ℕ) :
    valueAt (ws ++ ws') i = (valueAt ws' i).or (valueAt ws i) := by
  induction ws with
  | nil => rw [List.nil_append, valueAt, Option.or_none]
  | cons w ws ih =>
    obtain ⟨pos, data⟩ := w
    rw [List.cons_append, valueAt, valueAt, ih, Option.or_assoc]

theorem valueAt_singleton (pos : ℕ) (data : List α) (i : ℕ) :
    valueAt [(pos, data)] i = if pos ≤ i ∧ i < pos + data.length then data[i - pos]? else none := by
  rw [valueAt, valueAt, Option.none_or]
  by_cases hpos : pos ≤ i
  · rw [if_pos hpos]
    by_cases hin : i < pos + data.length
    · rw [if_pos ⟨hpos, hin⟩]
    · rw [if_neg (fun h => hin h.2), List.getElem?_eq_none (by omega)]
  · rw [if_neg hpos, if_neg (fun h => hpos h.1)]

/-- A piece may be cut in two. -/
theorem valueAt_concat (pos : ℕ) (data rest : List α) (i : ℕ) :
    valueAt [(pos, data ++ rest)] i = valueAt [(pos, data), (pos + data.length, rest)] i := by
  change _ = valueAt ([(pos, data)] ++ [(pos + data.length, rest)]) i
  rw [valueAt_append, valueAt_singleton, valueAt_singleton, valueAt_singleton, List.length_append,
    List.getElem?_append]
  by_cases hrest : pos + data.length ≤ i ∧ i < pos + data.length + rest.length
  · rw [if_pos hrest, if_pos (by omega), if_neg (by omega), if_neg (by omega), Option.or_none]
    congr 1
    omega
  · rw [if_neg hrest, Option.none_or]
    by_cases hdata : pos ≤ i ∧ i < pos + data.length
    · rw [if_pos hdata, if_pos (by omega), if_pos (by omega)]
    · rw [if_neg hdata, if_neg (by omega)]

theorem size_append (ws ws' : List (ℕ × List α)) :
    size (ws ++ ws') = max (size ws) (size ws') := by
  induction ws with
  | nil => rw [List.nil_append, size, Nat.zero_max]
  | cons w ws ih =>
    obtain ⟨pos, data⟩ := w
    rw [List.cons_append, size, size, ih, Nat.max_assoc]

theorem valueAt_eq_none {ws : List (ℕ × List α)} {i : ℕ} (h : size ws ≤ i) :
    valueAt ws i = none := by
  induction ws with
  | nil => rfl
  | cons w ws ih =>
    obtain ⟨pos, data⟩ := w
    rw [size] at h
    rw [valueAt, ih (by omega), Option.none_or]
    split_ifs
    · exact List.getElem?_eq_none (by omega)
    · rfl

variable {fill : α}

theorem holds_nil : Holds fill [] ([] : List α) := ⟨rfl, fun _ h => absurd h (Nat.not_lt_zero _)⟩

/-- One more piece: the gap before it is filled. -/
theorem Holds.pwrite {ws : List (ℕ × List α)} {file : List α} (h : Holds fill ws file) (pos : ℕ)
    (data : List α) :
    Holds fill (ws ++ [(pos, data)])
      (pwrite (file ++ List.replicate (pos - file.length) fill) pos data) := by
  obtain ⟨padded, hpadded⟩ : ∃ p, p = file ++ List.replicate (pos - file.length) fill := ⟨_, rfl⟩
  have hlength : padded.length = max pos file.length := by
    rw [hpadded, List.length_append, List.length_replicate]
    omega
  have hvalue : ∀ i < padded.length, padded[i]? = some ((valueAt ws i).getD fill) := by
    intro i hi
    rw [hpadded, List.getElem?_append]
    by_cases hlt : i < file.length
    · rw [if_pos hlt, h.value i hlt]
    · rw [if_neg hlt, List.getElem?_replicate, if_pos (by omega),
        valueAt_eq_none (by rw [← h.length]; omega), Option.getD_none]
  rw [← hpadded]
  have hlen := length_pwrite (show pos ≤ padded.length by omega) data
  constructor
  · rw [hlen, hlength, h.length, size_append, size, size]
    omega
  · intro i hi
    rw [getElem?_pwrite (by omega), valueAt_append, valueAt_singleton]
    by_cases hin : pos ≤ i ∧ i < pos + data.length
    · obtain ⟨v, hv⟩ : ∃ v, data[i - pos]? = some v := ⟨_, List.getElem?_eq_getElem (by omega)⟩
      rw [if_pos hin, if_pos hin, hv, Option.some_or, Option.getD_some]
    · rw [if_neg hin, if_neg hin, Option.none_or]
      exact hvalue i (by omega)

end Overlay
end Szarp
