import Szarp.Draw3.ValuesTable
import Mathlib.Logic.Function.Iterate

/-!
# Moves of the deque

What the operations on the deque do to its length and to the entry at a position. The counts of
neighbours are looked at elsewhere.
-/

namespace Szarp
namespace Draw3

/-- An entry but for its count of neighbours. -/
def ValueInfo.bare (v : ValueInfo) : ValueInfo := { v with nCount := 0 }

def entry (values : List ValueInfo) (k : ℤ) : Option ValueInfo :=
  if 0 ≤ k then values[k.toNat]? else none

def bareAt (values : List ValueInfo) (k : ℤ) : Option ValueInfo :=
  (entry values k).map ValueInfo.bare

theorem entry_natCast (values : List ValueInfo) (k : ℕ) : entry values k = values[k]? := by
  simp [entry]

theorem entry_of_neg (values : List ValueInfo) {k : ℤ} (h : k < 0) : entry values k = none := by
  rw [entry, if_neg (by omega)]

theorem entry_of_ge (values : List ValueInfo) {k : ℤ} (h : values.length ≤ k) :
    entry values k = none := by
  rw [entry, if_pos (by omega), List.getElem?_eq_none (by omega)]

theorem entry_cons_zero (v : ValueInfo) (values : List ValueInfo) :
    entry (v :: values) 0 = some v := rfl

theorem entry_cons_succ (v : ValueInfo) (values : List ValueInfo) {k : ℤ} (h : 0 ≤ k) :
    entry (v :: values) (k + 1) = entry values k := by
  obtain ⟨n, rfl⟩ := Int.eq_ofNat_of_zero_le h
  have hcast : ((n : ℤ) + 1) = ((n + 1 : ℕ) : ℤ) := by omega
  rw [hcast, entry_natCast, entry_natCast, List.getElem?_cons_succ]

theorem entry_append_left (values more : List ValueInfo) {k : ℤ} (h : k < values.length) :
    entry (values ++ more) k = entry values k := by
  rcases lt_or_ge k 0 with hneg | hpos
  · rw [entry_of_neg _ hneg, entry_of_neg _ hneg]
  · obtain ⟨n, rfl⟩ := Int.eq_ofNat_of_zero_le hpos
    rw [entry_natCast, entry_natCast, List.getElem?_append_left (by omega)]

theorem entry_append_right (values more : List ValueInfo) {k : ℤ} (h : values.length ≤ k) :
    entry (values ++ more) k = entry more (k - values.length) := by
  obtain ⟨n, rfl⟩ := Int.eq_ofNat_of_zero_le (show 0 ≤ k by omega)
  have hcast : (n : ℤ) - values.length = ((n - values.length : ℕ) : ℤ) := by omega
  rw [hcast, entry_natCast, entry_natCast, List.getElem?_append_right (by omega)]

theorem entry_dropLast (values : List ValueInfo) {k : ℤ} (h : k + 1 < values.length) :
    entry values.dropLast k = entry values k := by
  rcases lt_or_ge k 0 with hneg | hpos
  · rw [entry_of_neg _ hneg, entry_of_neg _ hneg]
  · obtain ⟨n, rfl⟩ := Int.eq_ofNat_of_zero_le hpos
    rw [entry_natCast, entry_natCast, List.getElem?_dropLast, if_pos (by omega)]

theorem entry_drop (values : List ValueInfo) (n : ℕ) {k : ℤ} (h : 0 ≤ k) :
    entry (values.drop n) k = entry values (k + n) := by
  obtain ⟨m, rfl⟩ := Int.eq_ofNat_of_zero_le h
  have hcast : (m : ℤ) + n = ((n + m : ℕ) : ℤ) := by omega
  rw [hcast, entry_natCast, entry_natCast, List.getElem?_drop]

theorem entry_take (values : List ValueInfo) (n : ℕ) {k : ℤ} (h : k < n) :
    entry (values.take n) k = entry values k := by
  rcases lt_or_ge k 0 with hneg | hpos
  · rw [entry_of_neg _ hneg, entry_of_neg _ hneg]
  · obtain ⟨m, rfl⟩ := Int.eq_ofNat_of_zero_le hpos
    rw [entry_natCast, entry_natCast, List.getElem?_take_of_lt (by omega)]

theorem entry_map (values : List ValueInfo) (g : ValueInfo → ValueInfo) (k : ℤ) :
    entry (values.map g) k = (entry values k).map g := by
  unfold entry
  split
  · rw [List.getElem?_map]
  · rfl

theorem entry_mapIdx (values : List ValueInfo) (g : ℕ → ValueInfo → ValueInfo) (k : ℤ) :
    entry (values.mapIdx g) k = (entry values k).map (g k.toNat) := by
  unfold entry
  split
  · rw [List.getElem?_mapIdx]
  · rfl

theorem entry_replicate_new (n : ℕ) {k : ℤ} (h : 0 ≤ k) (h' : k < n) :
    entry (List.replicate n ValueInfo.new) k = some ValueInfo.new := by
  rw [entry, if_pos h, List.getElem?_replicate, if_pos (by omega)]

theorem bareAt_mapIdx (values : List ValueInfo) (p : ℕ → Prop) [DecidablePred p]
    (g : ValueInfo → ℤ) (k : ℤ) :
    bareAt (values.mapIdx fun i v => if p i then { v with nCount := g v } else v) k =
      bareAt values k := by
  unfold bareAt entry
  split
  · rw [List.getElem?_mapIdx, Option.map_map]
    congr 1
    funext v
    simp only [Function.comp_apply]
    split <;> rfl
  · rfl

/-! ## Single operations -/

section Deque

variable (f : ℕ)

theorem length_popFront (values : List ValueInfo) :
    (popFront f values).length = values.length - 1 := by
  cases values with
  | nil => rfl
  | cons vi rest =>
    rw [popFront]
    split
    · rw [List.length_mapIdx, List.length_cons, Nat.add_sub_cancel]
    · rw [List.length_cons, Nat.add_sub_cancel]

theorem bareAt_popFront (values : List ValueInfo) {k : ℤ} (h : 0 ≤ k) :
    bareAt (popFront f values) k = bareAt values (k + 1) := by
  cases values with
  | nil => simp [popFront, bareAt, entry]
  | cons vi rest =>
    have hrest : bareAt (vi :: rest) (k + 1) = bareAt rest k := by
      rw [bareAt, entry_cons_succ vi rest h, bareAt]
    rw [hrest, popFront]
    split
    · exact bareAt_mapIdx rest (· + 1 < f) (·.nCount - 1) k
    · rfl

theorem length_popBack (values : List ValueInfo) :
    (popBack f values).length = values.length - 1 := by
  rw [popBack]
  split
  · rw [List.length_dropLast, List.length_mapIdx]
  · rw [List.length_dropLast]

theorem bareAt_popBack (values : List ValueInfo) {k : ℤ} (h : k + 1 < values.length) :
    bareAt (popBack f values) k = bareAt values k := by
  rw [popBack]
  split
  · rw [bareAt, entry_dropLast _ (by rwa [List.length_mapIdx]), ← bareAt]
    exact bareAt_mapIdx values (fun i => (i : ℤ) > values.length - f - 1) (·.nCount - 1) k
  · rw [bareAt, entry_dropLast _ h, ← bareAt]

theorem length_pushFront (values : List ValueInfo) :
    (pushFront f values).length = values.length + 1 := rfl

theorem bareAt_pushFront_zero (values : List ValueInfo) :
    bareAt (pushFront f values) 0 = some ValueInfo.new := rfl

theorem bareAt_pushFront_succ (values : List ValueInfo) {k : ℤ} (h : 0 ≤ k) :
    bareAt (pushFront f values) (k + 1) = bareAt values k := by
  rw [bareAt, pushFront, entry_cons_succ _ _ h, bareAt]

theorem length_pushBack (values : List ValueInfo) :
    (pushBack f values).length = values.length + 1 := by
  rw [pushBack, List.length_append, List.length_singleton]

theorem bareAt_pushBack_of_lt (values : List ValueInfo) {k : ℤ} (h : k < values.length) :
    bareAt (pushBack f values) k = bareAt values k := by
  rw [bareAt, pushBack, entry_append_left _ _ h, bareAt]

theorem bareAt_pushBack_last (values : List ValueInfo) :
    bareAt (pushBack f values) values.length = some ValueInfo.new := by
  rw [bareAt, pushBack, entry_append_right _ _ le_rfl, sub_self]
  rfl

/-! ## Repeated operations -/

theorem length_popFront_iterate (m : ℕ) (values : List ValueInfo) :
    ((popFront f)^[m] values).length = values.length - m := by
  induction m with
  | zero => rfl
  | succ m ih =>
    rw [Function.iterate_succ_apply', length_popFront, ih]
    omega

theorem bareAt_popFront_iterate (m : ℕ) (values : List ValueInfo) {k : ℤ} (h : 0 ≤ k) :
    bareAt ((popFront f)^[m] values) k = bareAt values (k + m) := by
  induction m generalizing k with
  | zero => simp
  | succ m ih =>
    rw [Function.iterate_succ_apply', bareAt_popFront f _ h, ih (by omega)]
    congr 1
    omega

theorem length_popBack_iterate (m : ℕ) (values : List ValueInfo) :
    ((popBack f)^[m] values).length = values.length - m := by
  induction m with
  | zero => rfl
  | succ m ih =>
    rw [Function.iterate_succ_apply', length_popBack, ih]
    omega

theorem bareAt_popBack_iterate (m : ℕ) (values : List ValueInfo) {k : ℤ}
    (h : k + m < values.length) : bareAt ((popBack f)^[m] values) k = bareAt values k := by
  induction m with
  | zero => rfl
  | succ m ih =>
    rw [Function.iterate_succ_apply', bareAt_popBack f, ih (by omega)]
    rw [length_popBack_iterate]
    omega

theorem length_pushFront_iterate (m : ℕ) (values : List ValueInfo) :
    ((pushFront f)^[m] values).length = values.length + m := by
  induction m with
  | zero => rfl
  | succ m ih => rw [Function.iterate_succ_apply', length_pushFront, ih, Nat.add_assoc]

theorem bareAt_pushFront_iterate (m : ℕ) (values : List ValueInfo) {k : ℤ} (h : 0 ≤ k) :
    bareAt ((pushFront f)^[m] values) k =
      if k < m then some ValueInfo.new else bareAt values (k - m) := by
  induction m generalizing k with
  | zero =>
    rw [if_neg (by omega)]
    simp
  | succ m ih =>
    rw [Function.iterate_succ_apply']
    rcases eq_or_lt_of_le h with rfl | hpos
    · rw [bareAt_pushFront_zero, if_pos (by omega)]
    · obtain ⟨j, rfl⟩ : ∃ j, k = j + 1 := ⟨k - 1, by omega⟩
      rw [bareAt_pushFront_succ f _ (by omega), ih (by omega)]
      split_ifs
      · rfl
      · omega
      · omega
      · congr 1
        omega

theorem length_pushBack_iterate (m : ℕ) (values : List ValueInfo) :
    ((pushBack f)^[m] values).length = values.length + m := by
  induction m with
  | zero => rfl
  | succ m ih => rw [Function.iterate_succ_apply', length_pushBack, ih, Nat.add_assoc]

theorem bareAt_pushBack_iterate (m : ℕ) (values : List ValueInfo) {k : ℤ}
    (h : k < values.length + m) :
    bareAt ((pushBack f)^[m] values) k =
      if k < values.length then bareAt values k else some ValueInfo.new := by
  induction m with
  | zero => rw [if_pos (by omega), Function.iterate_zero_apply]
  | succ m ih =>
    rw [Function.iterate_succ_apply']
    have hlen := length_pushBack_iterate f m values
    rcases lt_or_eq_of_le (show k ≤ values.length + m by omega) with hlt | heq
    · rw [bareAt_pushBack_of_lt f _ (by rw [hlen]; omega), ih hlt]
    · have hk : k = ((pushBack f)^[m] values).length := by
        rw [hlen]
        omega
      rw [hk, bareAt_pushBack_last, if_neg (by rw [hlen]; omega)]

/-! ## `Move` -/

theorem Interval.start_le_stop (i : Interval) : i.start ≤ i.stop := min_le_max

theorem length_moveValues (fin : Interval) (values : List ValueInfo) :
    ((moveValues f fin values).length : ℤ) = fin.stop - fin.start + 1 := by
  have hle := fin.start_le_stop
  rw [moveValues]
  split
  · rw [List.length_replicate]
    omega
  · rw [length_pushBack_iterate, length_pushFront_iterate, length_popFront_iterate,
      length_popBack_iterate]
    omega

theorem bareAt_moveValues (fin : Interval) (values : List ValueInfo) {k : ℤ} (h : 0 ≤ k)
    (h' : k ≤ fin.stop - fin.start) :
    bareAt (moveValues f fin values) k =
      if 0 ≤ k + fin.start ∧ k + fin.start < values.length then bareAt values (k + fin.start)
      else some ValueInfo.new := by
  have hle := fin.start_le_stop
  rw [moveValues]
  split
  · rw [bareAt, entry_replicate_new _ h (by omega), if_neg (by omega)]
    rfl
  · rw [bareAt_pushBack_iterate, length_pushFront_iterate, length_popFront_iterate,
      length_popBack_iterate]
    · rw [bareAt_pushFront_iterate f _ _ h]
      split_ifs
      · omega
      · rfl
      · rw [bareAt_popFront_iterate f _ _ (by omega), bareAt_popBack_iterate f _ _ (by omega)]
        congr 1
        omega
      · omega
      · omega
      · rfl
    · rw [length_pushFront_iterate, length_popFront_iterate, length_popBack_iterate]
      omega

end Deque
end Draw3
end Szarp
