import Szarp.Draw3.Update
import Mathlib.Algebra.BigOperators.Group.Finset.Basic
import Mathlib.Data.Finset.Card
import Mathlib.Data.Int.Interval
import Mathlib.Logic.Function.Basic

/-!
# Counts of neighbours

The count of an entry is to be the number of its neighbours that have been received. How far a
count is from that number is the excess of an entry.
-/

namespace Szarp
namespace Draw3

/-! ## Neighbours -/

def around (f : ℕ) (k : ℤ) : Finset ℤ :=
  ((Finset.range (2 * f + 1)).image fun i : ℕ => k - f + i).erase k

theorem mem_around {f : ℕ} {k j : ℤ} : j ∈ around f k ↔ j ≠ k ∧ |j - k| ≤ f := by
  rw [around, Finset.mem_erase, Finset.mem_image, abs_le]
  constructor
  · rintro ⟨hne, i, hi, rfl⟩
    rw [Finset.mem_range] at hi
    exact ⟨hne, by omega⟩
  · rintro ⟨hne, h⟩
    exact ⟨hne, (j - k + f).toNat, Finset.mem_range.mpr (by omega), by omega⟩

/-- How many positions around `k` are marked. -/
def neighbours (f : ℕ) (r : ℤ → Bool) (k : ℤ) : ℕ := ((around f k).filter fun j => r j).card

theorem neighbours_le (f : ℕ) (r : ℤ → Bool) (k : ℤ) : neighbours f r k ≤ 2 * f := by
  calc neighbours f r k ≤ (around f k).card := Finset.card_filter_le ..
    _ = 2 * f := by
      have hmem : k ∈ (Finset.range (2 * f + 1)).image fun i : ℕ => k - f + i :=
        Finset.mem_image.mpr ⟨f, Finset.mem_range.mpr (by omega), by omega⟩
      have hinj : Function.Injective fun i : ℕ => k - f + i := fun i j hij => by
        dsimp only at hij
        omega
      rw [around, Finset.card_erase_of_mem hmem, Finset.card_image_of_injective _ hinj,
        Finset.card_range, Nat.add_sub_cancel]

theorem neighbours_mono {f : ℕ} {r r' : ℤ → Bool} {k : ℤ} (h : ∀ j, r j = true → r' j = true) :
    neighbours f r k ≤ neighbours f r' k := by
  apply Finset.card_le_card
  intro j hj
  obtain ⟨haround, hr⟩ := Finset.mem_filter.mp hj
  exact Finset.mem_filter.mpr ⟨haround, h j hr⟩

theorem neighbours_shift (f : ℕ) (r : ℤ → Bool) (c k : ℤ) :
    neighbours f (fun j => r (j + c)) k = neighbours f r (k + c) := by
  apply Finset.card_nbij' (· + c) (· - c)
  · intro j hj
    simp only [Finset.coe_filter, Set.mem_ofPred_eq, mem_around, abs_le] at *
    exact ⟨⟨by omega, by omega⟩, hj.2⟩
  · intro j hj
    simp only [Finset.coe_filter, Set.mem_ofPred_eq, mem_around, abs_le] at *
    rw [sub_add_cancel]
    exact ⟨⟨by omega, by omega⟩, hj.2⟩
  · intro j _
    exact add_sub_cancel_right j c
  · intro j _
    exact sub_add_cancel j c

theorem neighbours_mirror (f : ℕ) (r : ℤ → Bool) (c k : ℤ) :
    neighbours f (fun j => r (c - j)) k = neighbours f r (c - k) := by
  apply Finset.card_nbij' (c - ·) (c - ·)
  · intro j hj
    simp only [Finset.coe_filter, Set.mem_ofPred_eq, mem_around, abs_le] at *
    exact ⟨⟨by omega, by omega⟩, hj.2⟩
  · intro j hj
    simp only [Finset.coe_filter, Set.mem_ofPred_eq, mem_around, abs_le] at *
    rw [sub_sub_cancel]
    exact ⟨⟨by omega, by omega⟩, hj.2⟩
  · intro j _
    exact sub_sub_cancel c j
  · intro j _
    exact sub_sub_cancel c j

/-- A mark is taken away. -/
theorem neighbours_update (f : ℕ) (r : ℤ → Bool) (j k : ℤ) :
    neighbours f r k = neighbours f (Function.update r j false) k +
      if r j = true ∧ j ≠ k ∧ |j - k| ≤ f then 1 else 0 := by
  have herase : (around f k).filter (fun i => Function.update r j false i) =
      ((around f k).filter fun i => r i).erase j := by
    ext i
    rw [Finset.mem_erase, Finset.mem_filter, Finset.mem_filter]
    by_cases hij : i = j
    · simp [hij]
    · simp [hij]
  rw [neighbours, neighbours, herase]
  split_ifs with h
  · have hmem : j ∈ (around f k).filter fun i => r i :=
      Finset.mem_filter.mpr ⟨mem_around.mpr h.2, h.1⟩
    exact (Finset.card_erase_add_one hmem).symm
  · have hmem : j ∉ (around f k).filter fun i => r i := by
      intro hj
      obtain ⟨haround, hr⟩ := Finset.mem_filter.mp hj
      exact h ⟨hr, mem_around.mp haround⟩
    rw [Finset.erase_eq_of_notMem hmem, add_zero]

theorem neighbours_split (f : ℕ) (r q : ℤ → Bool) (k : ℤ) :
    neighbours f r k =
      neighbours f (fun j => r j && !q j) k + neighbours f (fun j => r j && q j) k := by
  have hsplit := Finset.card_filter_add_card_filter_not
    (s := (around f k).filter fun j => r j) (fun j => q j = true)
  rw [Finset.filter_filter, Finset.filter_filter] at hsplit
  rw [neighbours, neighbours, neighbours, ← hsplit, add_comm]
  simp only [Bool.and_eq_true, Bool.not_eq_true', Bool.not_eq_true]

theorem neighbours_eq_zero {f : ℕ} {r : ℤ → Bool} {k : ℤ} :
    neighbours f r k = 0 ↔ ∀ j, j ≠ k → |j - k| ≤ f → r j = false := by
  rw [neighbours, Finset.card_eq_zero, Finset.filter_eq_empty_iff]
  constructor
  · intro h j hne hdist
    exact Bool.eq_false_iff.mpr (h (mem_around.mpr ⟨hne, hdist⟩))
  · intro h j hj
    obtain ⟨hne, hdist⟩ := mem_around.mp hj
    exact Bool.eq_false_iff.mp (h j hne hdist)

/-! ## Excess -/

def receivedAt (values : List ValueInfo) (k : ℤ) : Bool := (entry values k).any ValueInfo.isReceived

/-- What is counted too much at a position. -/
def excessAt (f : ℕ) (values : List ValueInfo) (k : ℤ) : Option ℤ :=
  (entry values k).map fun v => v.nCount - neighbours f (receivedAt values) k

theorem receivedAt_of_neg (values : List ValueInfo) {k : ℤ} (h : k < 0) :
    receivedAt values k = false := by
  rw [receivedAt, entry_of_neg _ h]
  rfl

theorem receivedAt_of_ge (values : List ValueInfo) {k : ℤ} (h : values.length ≤ k) :
    receivedAt values k = false := by
  rw [receivedAt, entry_of_ge _ h]
  rfl

theorem receivedAt_range {values : List ValueInfo} {k : ℤ} (h : receivedAt values k = true) :
    0 ≤ k ∧ k < values.length := by
  constructor
  · by_contra hneg
    rw [receivedAt_of_neg _ (by omega)] at h
    contradiction
  · by_contra hge
    rw [receivedAt_of_ge _ (by omega)] at h
    contradiction

theorem receivedAt_eq_bareAt (values : List ValueInfo) (k : ℤ) :
    receivedAt values k = (bareAt values k).any ValueInfo.isReceived := by
  rw [receivedAt, bareAt]
  cases entry values k <;> rfl

theorem receivedAt_eq_core (values : List ValueInfo) (k : ℤ) :
    receivedAt values k = ((entry values k).map ValueInfo.core).any Prod.fst := by
  rw [receivedAt]
  cases entry values k <;> rfl

/-! ## Single operations -/

theorem nCount_ite (p : Prop) [Decidable p] (v : ValueInfo) :
    (if p then { v with nCount := v.nCount - 1 } else v).nCount =
      v.nCount - if p then 1 else 0 := by
  split
  · rfl
  · exact (sub_zero _).symm

section Deque

variable (f : ℕ)

theorem entry_popFront (values : List ValueInfo) {k : ℤ} (h : 0 ≤ k) :
    entry (popFront f values) k = (entry values (k + 1)).map fun v =>
      if receivedAt values 0 = true ∧ k + 1 < f then { v with nCount := v.nCount - 1 } else v := by
  cases values with
  | nil => simp [popFront, entry]
  | cons vi rest =>
    have hhead : receivedAt (vi :: rest) 0 = vi.isReceived := rfl
    rw [entry_cons_succ vi rest h, popFront, hhead]
    by_cases hvi : vi.isReceived = true
    · rw [if_pos hvi, entry_mapIdx]
      congr 1
      funext v
      have hiff : k.toNat + 1 < f ↔ k + 1 < f := by omega
      simp only [hvi, hiff, true_and]
    · rw [if_neg hvi]
      simp [hvi]

theorem receivedAt_popFront (values : List ValueInfo) {k : ℤ} (h : 0 ≤ k) :
    receivedAt (popFront f values) k = receivedAt values (k + 1) := by
  rw [receivedAt_eq_bareAt, receivedAt_eq_bareAt, bareAt_popFront f values h]

theorem excessAt_popFront (values : List ValueInfo) {k : ℤ} (h : 0 ≤ k) :
    excessAt f (popFront f values) k = (excessAt f values (k + 1)).map fun x =>
      x + if receivedAt values 0 = true ∧ k + 1 = f then 1 else 0 := by
  have hmarks : receivedAt (popFront f values) =
      fun j => Function.update (receivedAt values) 0 false (j + 1) := by
    funext j
    rcases lt_or_ge j 0 with hneg | hpos
    · rw [receivedAt_of_neg _ hneg]
      rcases eq_or_ne (j + 1) 0 with hzero | hzero
      · rw [hzero, Function.update_self]
      · rw [Function.update_of_ne hzero, receivedAt_of_neg _ (by omega)]
    · rw [receivedAt_popFront f values hpos, Function.update_of_ne (by omega)]
  have hupdate := neighbours_update f (receivedAt values) 0 (k + 1)
  have hdist : (0 : ℤ) ≠ k + 1 ∧ |0 - (k + 1)| ≤ f ↔ k + 1 ≤ f := by
    rw [abs_le]
    omega
  simp only [hdist] at hupdate
  rw [excessAt, excessAt, entry_popFront f values h, Option.map_map, Option.map_map, hmarks,
    neighbours_shift]
  congr 1
  funext v
  simp only [Function.comp_apply]
  rw [nCount_ite]
  cases hreceived : receivedAt values 0 with
  | true =>
    simp only [hreceived, true_and] at hupdate ⊢
    split_ifs at hupdate ⊢ <;> omega
  | false =>
    simp only [hreceived, Bool.false_eq_true, false_and, if_false] at hupdate ⊢
    omega

theorem receivedAt_last (values : List ValueInfo) :
    values.getLast?.any ValueInfo.isReceived = receivedAt values (values.length - 1) := by
  cases values with
  | nil => rfl
  | cons v rest =>
    have hcast : ((v :: rest).length : ℤ) - 1 = (((v :: rest).length - 1 : ℕ) : ℤ) := by
      rw [List.length_cons]
      omega
    rw [List.getLast?_eq_getElem?, receivedAt, hcast, entry_natCast]

theorem entry_popBack (values : List ValueInfo) {k : ℤ} (h : k + 1 < values.length) :
    entry (popBack f values) k = (entry values k).map fun v =>
      if receivedAt values (values.length - 1) = true ∧ k > values.length - f - 1 then
        { v with nCount := v.nCount - 1 }
      else v := by
  rw [popBack, receivedAt_last]
  split
  · rename_i hlast
    rw [entry_dropLast _ (by rwa [List.length_mapIdx]), entry_mapIdx]
    apply Option.map_congr
    intro v hv
    have hk := (entry_range hv).1
    have hiff : (k.toNat : ℤ) > values.length - f - 1 ↔ k > values.length - f - 1 := by omega
    simp only [hlast, hiff, true_and]
  · rename_i hlast
    rw [entry_dropLast _ h]
    simp [hlast]

theorem receivedAt_popBack (values : List ValueInfo) {k : ℤ} (h : k + 1 < values.length) :
    receivedAt (popBack f values) k = receivedAt values k := by
  rw [receivedAt_eq_bareAt, receivedAt_eq_bareAt, bareAt_popBack f values h]

theorem excessAt_popBack (values : List ValueInfo) {k : ℤ} (h : k + 1 < values.length) :
    excessAt f (popBack f values) k = (excessAt f values k).map fun x =>
      x + if receivedAt values (values.length - 1) = true ∧ k + f = values.length - 1 then 1
        else 0 := by
  have hmarks : receivedAt (popBack f values) =
      Function.update (receivedAt values) (values.length - 1) false := by
    funext j
    rcases lt_or_ge (j + 1) values.length with hlt | hge
    · rw [receivedAt_popBack f values hlt, Function.update_of_ne (by omega)]
    · have hnot : receivedAt (popBack f values) j = false := by
        rcases lt_or_ge j 0 with hneg | hpos
        · exact receivedAt_of_neg _ hneg
        · exact receivedAt_of_ge _ (by rw [length_popBack]; omega)
      rw [hnot]
      rcases eq_or_ne j (values.length - 1) with rfl | hne
      · rw [Function.update_self]
      · rw [Function.update_of_ne hne, receivedAt_of_ge _ (by omega)]
  have hupdate := neighbours_update f (receivedAt values) (values.length - 1) k
  have hdist : (values.length : ℤ) - 1 ≠ k ∧ |(values.length : ℤ) - 1 - k| ≤ f ↔
      (values.length : ℤ) - 1 - k ≤ f := by
    rw [abs_le]
    omega
  simp only [hdist] at hupdate
  rw [excessAt, excessAt, entry_popBack f values h, Option.map_map, Option.map_map, hmarks]
  congr 1
  funext v
  simp only [Function.comp_apply]
  rw [nCount_ite]
  cases hreceived : receivedAt values (values.length - 1) with
  | true =>
    simp only [hreceived, true_and] at hupdate ⊢
    split_ifs at hupdate ⊢ <;> omega
  | false =>
    simp only [hreceived, Bool.false_eq_true, false_and, if_false] at hupdate ⊢
    omega

/-- The count of a new entry at the front. -/
theorem countP_take (values : List ValueInfo) :
    (values.take f).countP ValueInfo.isReceived =
      ((Finset.range f).filter fun i : ℕ => receivedAt values i).card := by
  induction f with
  | zero => rfl
  | succ f ih =>
    rw [List.take_add_one, List.countP_append, ih, Finset.range_add_one, Finset.filter_insert,
      receivedAt, entry_natCast]
    cases hv : values[f]? with
    | none => simp
    | some v =>
      by_cases hreceived : v.isReceived = true
      · simp [hreceived]
      · simp [hreceived]

/-- Where nothing behind is marked, the neighbours are those ahead. -/
theorem neighbours_ahead {r : ℤ → Bool} {k : ℤ} (h : ∀ j < k, r j = false) :
    neighbours f r k = ((Finset.range f).filter fun i : ℕ => r (k + 1 + i)).card := by
  symm
  apply Finset.card_nbij' (fun i : ℕ => k + 1 + i) (fun j => (j - (k + 1)).toNat)
  · intro i hi
    simp only [Finset.coe_filter, Set.mem_ofPred_eq, mem_around, abs_le, Finset.mem_range] at *
    exact ⟨⟨by omega, by omega⟩, hi.2⟩
  · intro j hj
    simp only [Finset.coe_filter, Set.mem_ofPred_eq, mem_around, abs_le, Finset.mem_range] at *
    have hge : k ≤ j := by
      by_contra hlt
      rw [h j (by omega)] at hj
      exact Bool.false_ne_true hj.2
    have hcast : k + 1 + ((j - (k + 1)).toNat : ℤ) = j := by omega
    rw [hcast]
    exact ⟨by omega, hj.2⟩
  · intro i _
    change (k + 1 + (i : ℤ) - (k + 1)).toNat = i
    omega
  · intro j hj
    simp only [Finset.coe_filter, Set.mem_ofPred_eq, mem_around] at *
    have hge : k ≤ j := by
      by_contra hlt
      rw [h j (by omega)] at hj
      exact Bool.false_ne_true hj.2
    have hne := hj.1.1
    omega

theorem receivedAt_pushFront (values : List ValueInfo) (k : ℤ) :
    receivedAt (pushFront f values) k = receivedAt values (k - 1) := by
  rcases lt_trichotomy k 0 with hneg | rfl | hpos
  · rw [receivedAt_of_neg _ hneg, receivedAt_of_neg _ (by omega)]
  · rw [receivedAt_of_neg values (by omega)]
    rfl
  · obtain ⟨j, rfl⟩ : ∃ j, k = j + 1 := ⟨k - 1, by omega⟩
    rw [receivedAt_eq_bareAt, receivedAt_eq_bareAt, bareAt_pushFront_succ f values (by omega),
      add_sub_cancel_right]

theorem excessAt_pushFront_zero (values : List ValueInfo) :
    excessAt f (pushFront f values) 0 = some 0 := by
  have hahead : neighbours f (receivedAt (pushFront f values)) 0 =
      (values.take f).countP ValueInfo.isReceived := by
    rw [neighbours_ahead f fun j hj => receivedAt_of_neg _ hj, countP_take]
    congr 1
    apply Finset.filter_congr
    intro i _
    rw [receivedAt_pushFront]
    have hcast : (0 : ℤ) + 1 + i - 1 = i := by omega
    rw [hcast]
  rw [excessAt, hahead]
  exact congrArg some (sub_self _)

theorem excessAt_pushFront_succ (values : List ValueInfo) {k : ℤ} (h : 0 ≤ k) :
    excessAt f (pushFront f values) (k + 1) = excessAt f values k := by
  have hmarks : receivedAt (pushFront f values) = fun j => receivedAt values (j + -1) := by
    funext j
    rw [receivedAt_pushFront]
    rfl
  rw [excessAt, excessAt, hmarks, neighbours_shift, add_neg_cancel_right, pushFront,
    entry_cons_succ _ _ h]

theorem receivedAt_reverse (values : List ValueInfo) (i : ℕ) :
    receivedAt values.reverse i = receivedAt values (values.length - 1 - i) := by
  rcases lt_or_ge i values.length with hlt | hge
  · have hcast : (values.length : ℤ) - 1 - i = ((values.length - 1 - i : ℕ) : ℤ) := by omega
    rw [receivedAt, receivedAt, hcast, entry_natCast, entry_natCast,
      List.getElem?_reverse hlt]
  · rw [receivedAt_of_ge _ (by rw [List.length_reverse]; omega), receivedAt_of_neg _ (by omega)]

/-- The count of a new entry at the back. -/
theorem countP_drop (values : List ValueInfo) :
    (values.drop (values.length - f)).countP ValueInfo.isReceived =
      ((Finset.range f).filter fun i : ℕ => receivedAt values (values.length - 1 - i)).card := by
  rw [← List.countP_reverse, ← List.take_reverse, countP_take]
  simp only [receivedAt_reverse]

theorem receivedAt_pushBack (values : List ValueInfo) (k : ℤ) :
    receivedAt (pushBack f values) k = receivedAt values k := by
  rcases lt_trichotomy k values.length with hlt | rfl | hgt
  · rw [receivedAt_eq_bareAt, receivedAt_eq_bareAt, bareAt_pushBack_of_lt f values hlt]
  · rw [receivedAt_of_ge values le_rfl, receivedAt_eq_bareAt, bareAt_pushBack_last]
    rfl
  · rw [receivedAt_of_ge values hgt.le, receivedAt_of_ge _ (by rw [length_pushBack]; omega)]

theorem excessAt_pushBack_last (values : List ValueInfo) :
    excessAt f (pushBack f values) values.length = some 0 := by
  have hbehind : neighbours f (receivedAt (pushBack f values)) values.length =
      (values.drop (values.length - f)).countP ValueInfo.isReceived := by
    have hmirror := neighbours_mirror f (receivedAt (pushBack f values)) values.length 0
    rw [sub_zero] at hmirror
    rw [← hmirror, neighbours_ahead, countP_drop]
    · congr 1
      apply Finset.filter_congr
      intro i _
      rw [receivedAt_pushBack]
      have hcast : (values.length : ℤ) - (0 + 1 + i) = values.length - 1 - i := by omega
      rw [hcast]
    · intro j hj
      rw [receivedAt_pushBack, receivedAt_of_ge _ (by omega)]
  rw [excessAt, hbehind, pushBack, entry_append_right _ _ le_rfl, sub_self, entry_cons_zero]
  exact congrArg some (sub_self _)

theorem excessAt_pushBack_of_lt (values : List ValueInfo) {k : ℤ} (h : k < values.length) :
    excessAt f (pushBack f values) k = excessAt f values k := by
  have hmarks : receivedAt (pushBack f values) = receivedAt values := by
    funext j
    exact receivedAt_pushBack f values j
  rw [excessAt, excessAt, hmarks, pushBack, entry_append_left _ _ h]

/-! ## Repeated operations -/

theorem receivedAt_popFront_iterate (m : ℕ) (values : List ValueInfo) {k : ℤ} (h : 0 ≤ k) :
    receivedAt ((popFront f)^[m] values) k = receivedAt values (k + m) := by
  rw [receivedAt_eq_bareAt, receivedAt_eq_bareAt, bareAt_popFront_iterate f m values h]

theorem receivedAt_popBack_iterate (m : ℕ) (values : List ValueInfo) {k : ℤ}
    (h : k + m < values.length) :
    receivedAt ((popBack f)^[m] values) k = receivedAt values k := by
  rw [receivedAt_eq_bareAt, receivedAt_eq_bareAt, bareAt_popBack_iterate f m values h]

/-- The neighbour at a distance of `f` is forgotten when it is taken from the front. -/
theorem excessAt_popFront_iterate (m : ℕ) (values : List ValueInfo) {k : ℤ} (h : 0 ≤ k) :
    excessAt f ((popFront f)^[m] values) k = (excessAt f values (k + m)).map fun x =>
      x + if receivedAt values (k + m - f) = true ∧ k < f then 1 else 0 := by
  induction m generalizing k with
  | zero =>
    have hzero : ¬(receivedAt values (k - f) = true ∧ k < f) := by
      rintro ⟨hreceived, hlt⟩
      have hrange := receivedAt_range hreceived
      omega
    simp only [Nat.cast_zero, add_zero, hzero, if_false, Option.map_id', Function.iterate_zero_apply]
  | succ m ih =>
    have hcast : k + ((m + 1 : ℕ) : ℤ) = k + 1 + m := by omega
    rw [Function.iterate_succ_apply', excessAt_popFront f _ h, ih (by omega),
      receivedAt_popFront_iterate f m values le_rfl, Option.map_map, hcast]
    congr 1
    funext x
    rw [Function.comp_apply, add_assoc]
    congr 1
    rcases lt_trichotomy (k + 1) f with hlt | heq | hgt
    · have hne : k + 1 ≠ f := by omega
      have hk : k < f := by omega
      simp only [hlt, hne, hk, and_true, and_false, if_false, add_zero]
    · have hk : k < f := by omega
      simp only [heq, hk, lt_irrefl, and_false, if_false, and_true, zero_add]
      rw [show (f : ℤ) + m - f = m by omega]
    · have hlt : ¬k + 1 < f := by omega
      have hne : k + 1 ≠ f := by omega
      have hk : ¬k < f := by omega
      simp only [hlt, hne, hk, and_false, if_false, add_zero]

/-- The neighbour at a distance of `f` is forgotten when it is taken from the back. -/
theorem excessAt_popBack_iterate (m : ℕ) (values : List ValueInfo) {k : ℤ} (hk : 0 ≤ k)
    (h : k + m < values.length) :
    excessAt f ((popBack f)^[m] values) k = (excessAt f values k).map fun x =>
      x + if receivedAt values (k + f) = true ∧ values.length ≤ k + f + m then 1 else 0 := by
  induction m with
  | zero =>
    have hzero : ¬(receivedAt values (k + f) = true ∧ (values.length : ℤ) ≤ k + f + (0 : ℕ)) := by
      rintro ⟨hreceived, hle⟩
      have hrange := receivedAt_range hreceived
      omega
    simp only [if_neg hzero, add_zero, Option.map_id', Function.iterate_zero_apply]
  | succ m ih =>
    have hlength := length_popBack_iterate f m values
    have hlast : (((popBack f)^[m] values).length : ℤ) - 1 = values.length - m - 1 := by omega
    have hlt : k + 1 < ((popBack f)^[m] values).length := by omega
    rw [Function.iterate_succ_apply', excessAt_popBack f _ hlt, ih (by omega), hlast,
      receivedAt_popBack_iterate f m values (by omega), Option.map_map]
    congr 1
    funext x
    rw [Function.comp_apply, add_assoc]
    congr 1
    rcases lt_trichotomy (k + f) (values.length - m - 1) with hlt | heq | hgt
    · have h₁ : ¬(values.length : ℤ) ≤ k + f + m := by omega
      have h₂ : k + f ≠ values.length - m - 1 := by omega
      have h₃ : ¬(values.length : ℤ) ≤ k + f + (m + 1 : ℕ) := by omega
      simp only [h₁, h₂, h₃, and_false, if_false, add_zero]
    · have h₁ : ¬(values.length : ℤ) ≤ k + f + m := by omega
      have h₃ : (values.length : ℤ) ≤ k + f + (m + 1 : ℕ) := by omega
      simp only [h₁, h₃, ← heq, and_false, if_false, and_true, zero_add]
    · have h₁ : (values.length : ℤ) ≤ k + f + m := by omega
      have h₂ : k + f ≠ values.length - m - 1 := by omega
      have h₃ : (values.length : ℤ) ≤ k + f + (m + 1 : ℕ) := by omega
      simp only [h₁, h₂, h₃, and_false, if_false, and_true, add_zero]

/-- New entries are counted right, and those that were there stay as they are. -/
theorem excessAt_pushFront_iterate (m : ℕ) (values : List ValueInfo) {k : ℤ} (h : 0 ≤ k) :
    excessAt f ((pushFront f)^[m] values) k =
      if k < m then some 0 else excessAt f values (k - m) := by
  induction m generalizing k with
  | zero =>
    rw [if_neg (by omega)]
    simp
  | succ m ih =>
    rw [Function.iterate_succ_apply']
    rcases eq_or_lt_of_le h with rfl | hpos
    · rw [excessAt_pushFront_zero, if_pos (by omega)]
    · obtain ⟨j, rfl⟩ : ∃ j, k = j + 1 := ⟨k - 1, by omega⟩
      rw [excessAt_pushFront_succ f _ (by omega), ih (by omega)]
      split_ifs
      · rfl
      · omega
      · omega
      · congr 1
        omega

theorem excessAt_pushBack_iterate (m : ℕ) (values : List ValueInfo) {k : ℤ}
    (h : k < values.length + m) :
    excessAt f ((pushBack f)^[m] values) k =
      if k < values.length then excessAt f values k else some 0 := by
  induction m with
  | zero => rw [if_pos (by omega), Function.iterate_zero_apply]
  | succ m ih =>
    rw [Function.iterate_succ_apply']
    have hlen := length_pushBack_iterate f m values
    rcases lt_or_eq_of_le (show k ≤ values.length + m by omega) with hlt | heq
    · rw [excessAt_pushBack_of_lt f _ (by rw [hlen]; omega), ih hlt]
    · have hk : k = ((pushBack f)^[m] values).length := by
        rw [hlen]
        omega
      rw [hk, excessAt_pushBack_last, if_neg (by rw [hlen]; omega)]

/-! ## `Move` -/

theorem excessAt_replicate_new (n : ℕ) {k : ℤ} (h : 0 ≤ k) (h' : k < n) :
    excessAt f (List.replicate n ValueInfo.new) k = some 0 := by
  have hnone : ∀ j, receivedAt (List.replicate n ValueInfo.new) j = false := by
    intro j
    by_contra hreceived
    rw [Bool.not_eq_false] at hreceived
    obtain ⟨hpos, hlt⟩ := receivedAt_range hreceived
    rw [List.length_replicate] at hlt
    rw [receivedAt, entry_replicate_new n hpos hlt] at hreceived
    contradiction
  have hzero : neighbours f (receivedAt (List.replicate n ValueInfo.new)) k = 0 := by
    rw [neighbours, Finset.card_eq_zero, Finset.filter_eq_empty_iff]
    intro j _
    rw [hnone j]
    exact Bool.false_ne_true
  rw [excessAt, entry_replicate_new n h h', hzero]
  rfl

/-- The neighbours at a distance of `f` that a move takes away from the one at `p`. -/
def forgotten (values : List ValueInfo) (fin : Interval) (p : ℤ) : ℤ :=
  (if receivedAt values (p - f) = true ∧ p - f < fin.start then 1 else 0) +
    if receivedAt values (p + f) = true ∧ fin.stop < p + f then 1 else 0

theorem excessAt_moveValues (fin : Interval) (values : List ValueInfo) {k : ℤ} (h : 0 ≤ k)
    (h' : k ≤ fin.stop - fin.start) :
    excessAt f (moveValues f fin values) k =
      if 0 ≤ k + fin.start ∧ k + fin.start < values.length then
        (excessAt f values (k + fin.start)).map (· + forgotten f values fin (k + fin.start))
      else some 0 := by
  have hle := fin.start_le_stop
  rw [moveValues]
  split
  -- nothing of the old entries is left: all are new
  · rename_i hout
    rw [excessAt_replicate_new f _ h (by omega), if_neg (by omega)]
  · rename_i hin
    rw [excessAt_pushBack_iterate, length_pushFront_iterate, length_popFront_iterate,
      length_popBack_iterate]
    · rw [excessAt_pushFront_iterate f _ _ h]
      split_ifs
      · omega
      · rfl
      · rw [excessAt_popFront_iterate f _ _ (by omega)]
        have hp : k - ((-fin.start).toNat : ℤ) + (fin.start.toNat : ℤ) = k + fin.start := by omega
        rw [hp]
        generalize hk : k + fin.start = p
        have hback : p + (values.length - (fin.stop + 1)).toNat < values.length := by omega
        rw [excessAt_popBack_iterate f _ _ (by omega) hback,
          receivedAt_popBack_iterate f _ _ (by omega), Option.map_map]
        congr 1
        funext x
        -- on either side a neighbour that was received and is not held any more is counted too much
        have hfront : receivedAt values (p - f) = true ∧ k - ((-fin.start).toNat : ℤ) < f ↔
            receivedAt values (p - f) = true ∧ p - f < fin.start := by
          apply and_congr_right
          intro hreceived
          have hrange := receivedAt_range hreceived
          omega
        have hbehind : receivedAt values (p + f) = true ∧
              values.length ≤ p + f + (values.length - (fin.stop + 1)).toNat ↔
            receivedAt values (p + f) = true ∧ fin.stop < p + f := by
          apply and_congr_right
          intro hreceived
          have hrange := receivedAt_range hreceived
          omega
        simp only [Function.comp_apply, hfront, hbehind, forgotten]
        omega
      · omega
      · omega
      · rfl
    · rw [length_pushFront_iterate, length_popFront_iterate, length_popBack_iterate]
      omega

theorem receivedAt_moveValues {fin : Interval} {values : List ValueInfo} {j : ℤ}
    (h : receivedAt (moveValues f fin values) j = true) :
    receivedAt values (j + fin.start) = true := by
  obtain ⟨hpos, hlt⟩ := receivedAt_range h
  rw [length_moveValues] at hlt
  rw [receivedAt_eq_bareAt, bareAt_moveValues f fin values hpos (by omega)] at h
  split at h
  · rwa [receivedAt_eq_bareAt]
  · contradiction

theorem forgotten_eq_zero {values : List ValueInfo} {fin : Interval} {p : ℤ} :
    forgotten f values fin p = 0 ↔
      (p - f < fin.start → receivedAt values (p - f) = false) ∧
        (fin.stop < p + f → receivedAt values (p + f) = false) := by
  rw [forgotten]
  cases receivedAt values (p - f) <;> cases receivedAt values (p + f) <;>
    simp only [Bool.false_eq_true, Bool.true_eq_false, false_and, true_and, if_false, imp_false,
      implies_true, add_zero, zero_add, and_true] <;> split_ifs <;> omega

/-! ## Entries that are only dropped -/

theorem excessAt_drop (n : ℕ) (values : List ValueInfo) {k : ℤ} (h : 0 ≤ k) :
    excessAt f (values.drop n) k = (excessAt f values (k + n)).map
      (· + (neighbours f (fun j => receivedAt values j && decide (j < n)) (k + n) : ℤ)) := by
  have hmarks : receivedAt (values.drop n) =
      fun j => (fun i => receivedAt values i && !decide (i < n)) (j + n) := by
    funext j
    rcases lt_or_ge j 0 with hneg | hpos
    · have hlt : j + n < n := by omega
      simp [receivedAt_of_neg _ hneg, hlt]
    · have hge : ¬j + n < n := by omega
      simp [receivedAt, entry_drop values n hpos, hge]
  have hsplit := neighbours_split f (receivedAt values) (fun j => decide (j < n)) (k + n)
  rw [excessAt, excessAt, entry_drop values n h, hmarks,
    neighbours_shift f (fun i => receivedAt values i && !decide (i < n)), hsplit, Option.map_map]
  congr 1
  funext v
  simp only [Function.comp_apply]
  omega

/-! ## Updates -/

theorem nCount_touch (index : ℕ) (values : List ValueInfo) (k : ℤ) (n : ValueInfo) :
    (touch f index values k n).nCount = if k = index then n.nCount else n.nCount + 1 := by
  rw [touch]
  split_ifs <;> rfl

/-- Every entry around the index is counted up. -/
theorem nCount_updateProbesValues (values : List ValueInfo) (index : ℕ) (k : ℤ) :
    (entry (updateProbesValues f values index) k).map ValueInfo.nCount =
      (entry values k).map fun n =>
        n.nCount + if (index : ℤ) ≠ k ∧ |(index : ℤ) - k| ≤ f then 1 else 0 := by
  rw [entry_updateProbesValues, abs_sub_comm]
  by_cases hdist : |(index : ℤ) - k| ≤ f
  · rw [if_pos hdist, Option.map_map]
    congr 1
    funext n
    rw [Function.comp_apply, nCount_touch]
    by_cases hk : k = index
    · simp [hk]
    · simp [hk, hdist, Ne.symm hk]
  · rw [if_neg hdist]
    simp [hdist]

theorem receivedAt_updateProbesValues {values : List ValueInfo} {index : ℕ}
    (h : index < values.length) :
    receivedAt (updateProbesValues f values index) =
      Function.update (receivedAt values) index true := by
  funext j
  rw [receivedAt_eq_core, core_updateProbesValues]
  rcases eq_or_ne j index with rfl | hne
  · obtain ⟨v, hv⟩ := exists_entry (show (0 : ℤ) ≤ index by omega)
      (show (index : ℤ) < values.length by omega)
    rw [Function.update_self, hv]
    simp
  · rw [Function.update_of_ne hne, receivedAt_eq_core]
    simp only [if_neg hne]

/-- One that is received is counted everywhere. -/
theorem excessAt_updateProbesValues {values : List ValueInfo} {index : ℕ}
    (h : index < values.length) (hnot : receivedAt values index = false) (k : ℤ) :
    excessAt f (updateProbesValues f values index) k = excessAt f values k := by
  have hupdate := neighbours_update f (Function.update (receivedAt values) index true) index k
  have hself : Function.update (receivedAt values) index false = receivedAt values :=
    Function.update_eq_self_iff.mpr hnot.symm
  rw [Function.update_idem, hself, Function.update_self] at hupdate
  have hcount := nCount_updateProbesValues f values index k
  have hmap : ∀ (X : List ValueInfo) (c : ℤ),
      (entry X k).map (fun v => v.nCount - c) = ((entry X k).map ValueInfo.nCount).map (· - c) := by
    intro X c
    rw [Option.map_map]
    rfl
  rw [excessAt, excessAt, receivedAt_updateProbesValues f h, hmap, hcount, Option.map_map]
  congr 1
  funext v
  simp only [Function.comp_apply, true_and] at hupdate ⊢
  split_ifs at hupdate ⊢ <;> omega

/-! ## A switch of the filter -/

theorem receivedAt_foldl_recount (is : List ℕ) (values : List ValueInfo) :
    receivedAt (is.foldl (recount f) values) = receivedAt values := by
  funext j
  rw [receivedAt_eq_core, core_foldl_recount, ← receivedAt_eq_core]

/-- The state of an entry that has been received, by its count. -/
def settled (count : ℤ) : ValueState := if count = 2 * f then .present else .neighbourWait

theorem state_touch_self (index : ℕ) (values : List ValueInfo) (n : ValueInfo) :
    (touch f index values index n).state = settled f n.nCount := by
  rw [touch, if_pos rfl, settled]
  split_ifs <;> first | rfl | contradiction

theorem state_touch_settled {index : ℕ} {k : ℤ} (hk : k ≠ index) (values : List ValueInfo)
    {n : ValueInfo} (hstate : n.state = settled f n.nCount) (hle : n.nCount + 1 ≤ 2 * f) :
    (touch f index values k n).state = settled f (n.nCount + 1) := by
  have hwait : n.state = .neighbourWait := by
    rw [hstate, settled, if_neg (by omega)]
  rw [touch, if_neg hk, settled]
  by_cases hlt : n.nCount + 1 < 2 * f
  · rw [if_pos (Or.inr hlt), if_neg (by omega)]
    exact hwait
  · rw [if_neg (by simp [hwait, hlt]), if_pos (by omega)]

/-- An entry that waits becomes present with its last neighbour. -/
theorem state_touch_of_ne {index : ℕ} {k : ℤ} (hk : k ≠ index) (values : List ValueInfo)
    (n : ValueInfo) :
    ((touch f index values k n).state = n.state ∧
        (n.state = .neighbourWait → n.nCount + 1 < 2 * f)) ∨
      ((touch f index values k n).state = .present ∧ 2 * f ≤ n.nCount + 1) := by
  rw [touch, if_neg hk]
  split
  · rename_i hor
    exact Or.inl ⟨rfl, fun hwait => hor.resolve_left fun hne => hne hwait⟩
  · rename_i hnot
    rw [not_or, not_lt] at hnot
    exact Or.inr ⟨rfl, hnot.2⟩

theorem recount_eq (values : List ValueInfo) (i : ℕ) :
    recount f values i =
      if receivedAt values i = true then updateProbesValues f values i else values := by
  have hany : (values[i]?.any fun v => v.state ≠ .empty ∧ v.state ≠ .pending) =
      receivedAt values i := by
    rw [receivedAt, entry_natCast]
    congr 1
    funext v
    rw [Bool.eq_iff_iff, decide_eq_true_iff, isReceived_iff]
  rw [recount, hany]

/-- The marks of the entries before `m`. -/
def receivedBefore (values : List ValueInfo) (m : ℕ) (j : ℤ) : Bool :=
  receivedAt values j && decide (j < m)

theorem receivedBefore_zero (values : List ValueInfo) (j : ℤ) :
    receivedBefore values 0 j = false := by
  rw [receivedBefore]
  cases hreceived : receivedAt values j with
  | false => rfl
  | true =>
    have hrange := receivedAt_range hreceived
    simp [hrange.1]

theorem receivedBefore_length (values : List ValueInfo) :
    receivedBefore values values.length = receivedAt values := by
  funext j
  rw [receivedBefore]
  cases hreceived : receivedAt values j with
  | false => rfl
  | true =>
    have hrange := receivedAt_range hreceived
    simp [hrange.2]

theorem receivedBefore_succ_of_ne (values : List ValueInfo) {m : ℕ} {j : ℤ} (h : j ≠ m) :
    receivedBefore values (m + 1) j = receivedBefore values m j := by
  have hiff : j < ((m + 1 : ℕ) : ℤ) ↔ j < m := by omega
  simp only [receivedBefore, hiff]

theorem receivedBefore_succ_self (values : List ValueInfo) (m : ℕ) :
    receivedBefore values (m + 1) m = receivedAt values m := by
  simp [receivedBefore]

theorem receivedBefore_self (values : List ValueInfo) (m : ℕ) :
    receivedBefore values m m = false := by
  simp [receivedBefore]

theorem neighbours_receivedBefore_succ (values : List ValueInfo) (m : ℕ) (k : ℤ) :
    neighbours f (receivedBefore values (m + 1)) k =
      neighbours f (receivedBefore values m) k +
        if receivedAt values m = true ∧ (m : ℤ) ≠ k ∧ |(m : ℤ) - k| ≤ f then 1 else 0 := by
  have hupdate : Function.update (receivedBefore values (m + 1)) m false =
      receivedBefore values m := by
    funext j
    rcases eq_or_ne j m with rfl | hne
    · rw [Function.update_self, receivedBefore_self]
    · rw [Function.update_of_ne hne, receivedBefore_succ_of_ne values hne]
  rw [neighbours_update f _ m k, hupdate, receivedBefore_succ_self]

/-- The entries before `m` have been counted, and are settled. -/
theorem refilter_front {values : List ValueInfo}
    (hzero : ∀ k v, entry values k = some v → v.nCount = 0) (m : ℕ) {k : ℤ} {v : ValueInfo}
    (hv : entry ((List.range m).foldl (recount f) values) k = some v) :
    v.nCount = neighbours f (receivedBefore values m) k ∧
      (k < m → v.isReceived → v.state = settled f v.nCount) := by
  -- The induction is on the number of entries that have been counted.
  induction m generalizing v with
  | zero =>
    have hnone : neighbours f (receivedBefore values 0) k = 0 :=
      neighbours_eq_zero.mpr fun j _ _ => receivedBefore_zero values j
    refine ⟨?_, fun hk => absurd (entry_range hv).1 (by omega)⟩
    rw [hnone, hzero k v hv]
    rfl
  | succ m ih =>
    have hcount' := neighbours_receivedBefore_succ f values m k
    have hmax := neighbours_le f (receivedBefore values (m + 1)) k
    rw [List.range_succ, List.foldl_append, List.foldl_cons, List.foldl_nil] at hv
    generalize hX : (List.range m).foldl (recount f) values = X at hv ih
    have hmarks : receivedAt X = receivedAt values := by
      rw [← hX, receivedAt_foldl_recount]
    rw [recount_eq, hmarks] at hv
    -- an entry that is not received is not counted anywhere
    cases hreceived : receivedAt values m with
    | false =>
      rw [hreceived, if_neg Bool.false_ne_true] at hv
      simp only [hreceived, Bool.false_eq_true, false_and, if_false, add_zero] at hcount'
      obtain ⟨hcount, hstate⟩ := ih hv
      refine ⟨by rw [hcount, hcount'], ?_⟩
      intro hk hv'
      apply hstate _ hv'
      have hne : k ≠ m := by
        rintro rfl
        rw [← hmarks, receivedAt, hv, Option.any_some, hv'] at hreceived
        contradiction
      omega
    | true =>
      rw [hreceived, if_pos rfl] at hv
      have hnCount := nCount_updateProbesValues f X m k
      have hcore := core_updateProbesValues f X m k
      rw [hv] at hnCount hcore
      rw [entry_updateProbesValues] at hv
      obtain ⟨v₀, hv₀⟩ : ∃ v₀, entry X k = some v₀ := by
        cases hentry : entry X k with
        | none => simp [hentry] at hv
        | some v₀ => exact ⟨v₀, rfl⟩
      obtain ⟨hcount, hstate⟩ := ih hv₀
      rw [hv₀] at hv hnCount hcore
      simp only [Option.map_some, Option.some.injEq, hreceived, true_and] at hnCount hcore hcount'
      have htotal : v.nCount = neighbours f (receivedBefore values (m + 1)) k := by
        split_ifs at hnCount hcount' <;> omega
      refine ⟨htotal, ?_⟩
      intro hk hv'
      -- the entry itself is settled by its count, which is complete behind it
      rcases eq_or_ne k m with rfl | hne
      · rw [sub_self, abs_zero, if_pos (by omega)] at hv
        obtain rfl := Option.some.inj hv
        rw [state_touch_self, nCount_touch, if_pos rfl]
      · rw [if_neg hne] at hcore
        have hv₀' : v₀.isReceived = true := (congrArg Prod.fst hcore).symm.trans hv'
        have hsettled := hstate (by omega) hv₀'
        by_cases hnear : |k - m| ≤ f
        · rw [if_pos hnear] at hv
          obtain rfl := Option.some.inj hv
          rw [nCount_touch, if_neg hne] at htotal ⊢
          exact state_touch_settled f hne X hsettled (by omega)
        · rw [if_neg hnear] at hv
          obtain rfl := Option.some.inj hv
          exact hsettled

/-- After a switch of the filter every entry is counted right and settled. -/
theorem refilter_spec {values : List ValueInfo}
    (hzero : ∀ k v, entry values k = some v → v.nCount = 0) {k : ℤ} {v : ValueInfo}
    (hv : entry (refilter f values) k = some v) :
    v.nCount = neighbours f (receivedAt (refilter f values)) k ∧
      (v.isReceived → v.state = settled f v.nCount) := by
  obtain ⟨hcount, hstate⟩ := refilter_front f hzero values.length hv
  have hmarks : receivedAt (refilter f values) = receivedAt values :=
    receivedAt_foldl_recount f _ values
  rw [receivedBefore_length] at hcount
  rw [hmarks]
  refine ⟨hcount, hstate ?_⟩
  have hrange := (entry_range hv).2
  rwa [length_refilter] at hrange

end Deque
end Draw3
end Szarp
