import Szarp.Draw3.Deque
import Mathlib.Algebra.Order.Group.Abs
import Mathlib.Data.List.Nodup

/-!
# Updates of the table

What receiving a response for one position does to every entry of the table.
-/

namespace Szarp
namespace Draw3

/-! ## Single entries -/

structure Data where
  sum : Option ℚ
  firstVal : Option ℚ
  lastVal : Option ℚ
  avVal : Option ℚ
  dbVal : Option ℚ
  countProbes : ℤ
deriving DecidableEq

def ValueInfo.data (v : ValueInfo) : Data :=
  ⟨v.sum, v.firstVal, v.lastVal, v.avVal, v.dbVal, v.countProbes⟩

/-- Whether a response has been received, and the data. -/
def ValueInfo.core (v : ValueInfo) : Bool × Data := (v.isReceived, v.data)

def blank : Bool × Data := ValueInfo.new.core

theorem entry_modify (values : List ValueInfo) (i : ℕ) (g : ValueInfo → ValueInfo) (k : ℤ) :
    entry (values.modify i g) k = if k = i then (entry values k).map g else entry values k := by
  rcases lt_or_ge k 0 with hneg | hpos
  · rw [entry_of_neg _ hneg, entry_of_neg _ hneg, if_neg (by omega)]
  · obtain ⟨n, rfl⟩ := Int.eq_ofNat_of_zero_le hpos
    rw [entry_natCast, entry_natCast, List.getElem?_modify]
    by_cases h : i = n
    · rw [if_pos (by omega)]
      simp [h]
    · rw [if_neg (by omega)]
      simp [h]

theorem entry_isSome {values : List ValueInfo} {k : ℤ} :
    (entry values k).isSome ↔ 0 ≤ k ∧ k < values.length := by
  rcases lt_or_ge k 0 with hneg | hpos
  · rw [entry_of_neg _ hneg]
    simp [hneg]
  · obtain ⟨n, rfl⟩ := Int.eq_ofNat_of_zero_le hpos
    rw [entry_natCast]
    simp

theorem exists_entry {values : List ValueInfo} {k : ℤ} (h : 0 ≤ k) (h' : k < values.length) :
    ∃ v, entry values k = some v := Option.isSome_iff_exists.mp (entry_isSome.mpr ⟨h, h'⟩)

theorem entry_range {values : List ValueInfo} {k : ℤ} {v : ValueInfo}
    (h : entry values k = some v) : 0 ≤ k ∧ k < values.length :=
  entry_isSome.mp (by rw [h, Option.isSome_some])

section Update

variable (f : ℕ)

/-- What the update for `index` does to the entry at `k` of a table. -/
def touch (index : ℕ) (values : List ValueInfo) (k : ℤ) (n : ValueInfo) : ValueInfo :=
  if k = index then
    if n.nCount ≠ 2 * f then { n with state := .neighbourWait }
    else { n with state := .present, val := calculateProbeValue f values k.toNat }
  else if n.state ≠ .neighbourWait ∨ n.nCount + 1 < 2 * f then { n with nCount := n.nCount + 1 }
  else
    { n with
      nCount := n.nCount + 1
      state := .present
      val := calculateProbeValue f values k.toNat }

theorem updateProbe_eq (index : ℕ) (values : List ValueInfo) {i : ℤ} (h : 0 ≤ i)
    (h' : i < values.length) :
    updateProbe f index values i = values.modify i.toNat (touch f index values i) := by
  rw [updateProbe, if_neg (by omega)]
  rfl

theorem touch_dbVal (index : ℕ) (values : List ValueInfo) (k : ℤ) (n : ValueInfo) :
    (touch f index values k n).dbVal = n.dbVal := by
  rw [touch]
  split_ifs <;> rfl

theorem calculateProbeValue_congr {values values' : List ValueInfo}
    (h : values.map ValueInfo.dbVal = values'.map ValueInfo.dbVal) (index : ℕ) :
    calculateProbeValue f values index = calculateProbeValue f values' index := by
  have hlength : values.length = values'.length := by
    rw [← List.length_map ValueInfo.dbVal, h, List.length_map]
  have hjoin : ∀ v : Option ValueInfo, v.bind ValueInfo.dbVal = (v.map ValueInfo.dbVal).join := by
    intro v
    cases v <;> rfl
  have hbind : ∀ i : ℕ, values[i]?.bind ValueInfo.dbVal = values'[i]?.bind ValueInfo.dbVal := by
    intro i
    rw [hjoin, hjoin, ← List.getElem?_map, ← List.getElem?_map, h]
  simp only [calculateProbeValue, hlength, hbind]

theorem touch_congr {values values' : List ValueInfo}
    (h : values.map ValueInfo.dbVal = values'.map ValueInfo.dbVal) (index : ℕ) :
    touch f index values = touch f index values' := by
  funext k n
  rw [touch, touch, calculateProbeValue_congr f h]

theorem length_updateProbe (index : ℕ) (values : List ValueInfo) (i : ℤ) :
    (updateProbe f index values i).length = values.length := by
  rw [updateProbe]
  split
  · rfl
  · rw [List.length_modify]

theorem entry_updateProbe (index : ℕ) (values : List ValueInfo) (i k : ℤ) :
    entry (updateProbe f index values i) k =
      if k = i then (entry values k).map (touch f index values k) else entry values k := by
  by_cases h : 0 ≤ i ∧ i < values.length
  · rw [updateProbe_eq f index values h.1 h.2, entry_modify, Int.toNat_of_nonneg h.1]
    by_cases hk : k = i
    · rw [if_pos hk, if_pos hk, hk]
    · rw [if_neg hk, if_neg hk]
  · rw [updateProbe, if_pos (by omega)]
    by_cases hk : k = i
    · have hnone : entry values k = none := by
        apply Option.not_isSome_iff_eq_none.mp
        rwa [entry_isSome, hk]
      rw [hnone, Option.map_none, ite_self]
    · rw [if_neg hk]

theorem map_dbVal_updateProbe (index : ℕ) (values : List ValueInfo) (i : ℤ) :
    (updateProbe f index values i).map ValueInfo.dbVal = values.map ValueInfo.dbVal := by
  apply List.ext_getElem?
  intro n
  have hentry := entry_updateProbe f index values i n
  rw [entry_natCast, entry_natCast] at hentry
  rw [List.getElem?_map, List.getElem?_map, hentry]
  split
  · rw [Option.map_map]
    congr 1
    funext v
    exact touch_dbVal f index values n v
  · rfl

/-! ## All entries -/

theorem mem_window (index : ℕ) (k : ℤ) : k ∈ window f index ↔ |k - index| ≤ f := by
  rw [window, List.mem_map, abs_le]
  constructor
  · rintro ⟨n, hn, rfl⟩
    rw [List.mem_range] at hn
    omega
  · intro h
    refine ⟨(k - index + f).toNat, ?_, by omega⟩
    rw [List.mem_range]
    omega

theorem nodup_window (index : ℕ) : (window f index).Nodup := by
  apply List.Nodup.map _ List.nodup_range
  intro a b h
  exact Int.ofNat.inj (add_left_cancel h)

theorem length_foldl_updateProbe (index : ℕ) (is : List ℤ) (values : List ValueInfo) :
    (is.foldl (updateProbe f index) values).length = values.length := by
  induction is generalizing values with
  | nil => rfl
  | cons i is ih => rw [List.foldl_cons, ih, length_updateProbe]

theorem entry_foldl_updateProbe (index : ℕ) {is : List ℤ} (hnodup : is.Nodup)
    (values : List ValueInfo) (k : ℤ) :
    entry (is.foldl (updateProbe f index) values) k =
      if k ∈ is then (entry values k).map (touch f index values k) else entry values k := by
  induction is generalizing values with
  | nil => rw [List.foldl_nil, if_neg List.not_mem_nil]
  | cons i is ih =>
    obtain ⟨hi, hrest⟩ := List.nodup_cons.mp hnodup
    have htouch := touch_congr f (map_dbVal_updateProbe f index values i) index
    rw [List.foldl_cons, ih hrest, entry_updateProbe, htouch]
    by_cases hk : k = i
    · rw [if_neg (hk ▸ hi), if_pos hk, if_pos (hk ▸ List.mem_cons_self)]
    · rw [if_neg hk]
      simp only [List.mem_cons, hk, false_or]

theorem length_updateProbesValues (values : List ValueInfo) (index : ℕ) :
    (updateProbesValues f values index).length = values.length :=
  length_foldl_updateProbe f index _ values

theorem entry_updateProbesValues (values : List ValueInfo) (index : ℕ) (k : ℤ) :
    entry (updateProbesValues f values index) k =
      if |k - index| ≤ f then (entry values k).map (touch f index values k)
      else entry values k := by
  rw [updateProbesValues, entry_foldl_updateProbe f index (nodup_window f index)]
  simp only [mem_window]

theorem core_touch (index : ℕ) (values : List ValueInfo) (k : ℤ) (n : ValueInfo) :
    (touch f index values k n).core = if k = index then (true, n.data) else n.core := by
  rw [touch]
  split_ifs with hk hcount hwait
  · rfl
  · rfl
  · rfl
  · have hstate : n.state = .neighbourWait := by
      by_contra hstate
      exact hwait (Or.inl hstate)
    simp [ValueInfo.core, ValueInfo.isReceived, ValueInfo.data, hstate]

/-- Only the entry at `index` becomes one that has been received. -/
theorem core_updateProbesValues (values : List ValueInfo) (index : ℕ) (k : ℤ) :
    (entry (updateProbesValues f values index) k).map ValueInfo.core =
      (entry values k).map fun n => if k = index then (true, n.data) else n.core := by
  rw [entry_updateProbesValues]
  split
  · rw [Option.map_map]
    congr 1
    funext n
    exact core_touch f index values k n
  · rename_i hfar
    have hk : k ≠ index := by
      rintro rfl
      rw [sub_self, abs_zero] at hfar
      omega
    simp only [if_neg hk]

/-! ## A switch of the filter -/

theorem isReceived_iff (v : ValueInfo) :
    v.isReceived ↔ v.state ≠ .empty ∧ v.state ≠ .pending := by
  cases hstate : v.state <;> simp [ValueInfo.isReceived, hstate]

/-- The update for an entry, when it has been received. -/
def recount (values : List ValueInfo) (i : ℕ) : List ValueInfo :=
  if values[i]?.any fun v => v.state ≠ .empty ∧ v.state ≠ .pending then
    updateProbesValues f values i
  else values

/-- All that have been received are counted again. -/
def refilter (values : List ValueInfo) : List ValueInfo :=
  (List.range values.length).foldl (recount f) values

theorem length_recount (values : List ValueInfo) (i : ℕ) :
    (recount f values i).length = values.length := by
  rw [recount]
  split
  · rw [length_updateProbesValues]
  · rfl

theorem core_recount (values : List ValueInfo) (i : ℕ) (k : ℤ) :
    (entry (recount f values i) k).map ValueInfo.core = (entry values k).map ValueInfo.core := by
  rw [recount]
  split
  · rename_i hreceived
    rw [core_updateProbesValues]
    apply Option.map_congr
    intro v hv
    split
    · rename_i hk
      rw [hk, entry_natCast] at hv
      rw [hv, Option.any_some, decide_eq_true_iff, ← isReceived_iff] at hreceived
      rw [ValueInfo.core, hreceived]
    · rfl
  · rfl

theorem length_foldl_recount (is : List ℕ) (values : List ValueInfo) :
    (is.foldl (recount f) values).length = values.length := by
  induction is generalizing values with
  | nil => rfl
  | cons i is ih => rw [List.foldl_cons, ih, length_recount]

theorem core_foldl_recount (is : List ℕ) (values : List ValueInfo) (k : ℤ) :
    (entry (is.foldl (recount f) values) k).map ValueInfo.core =
      (entry values k).map ValueInfo.core := by
  induction is generalizing values with
  | nil => rfl
  | cons i is ih => rw [List.foldl_cons, ih, core_recount]

theorem length_refilter (values : List ValueInfo) : (refilter f values).length = values.length :=
  length_foldl_recount f _ values

theorem core_refilter (values : List ValueInfo) (k : ℤ) :
    (entry (refilter f values) k).map ValueInfo.core = (entry values k).map ValueInfo.core :=
  core_foldl_recount f _ values k

end Update

/-- The table with more room on both sides, or less, and counts that are reset. -/
def resize (df : ℤ) (values : List ValueInfo) : Option (List ValueInfo) :=
  let values := values.map fun v => { v with nCount := 0 }
  if df > 0 then
    some (List.replicate df.toNat ValueInfo.new ++ values ++
      List.replicate df.toNat ValueInfo.new)
  else if 2 * (-df).toNat ≤ values.length then
    some ((values.take (values.length - (-df).toNat)).drop (-df).toNat)
  else none

theorem entry_replicate_append (values : List ValueInfo) (n : ℕ) {k : ℤ} (h : 0 ≤ k)
    (h' : k < values.length + 2 * n) :
    entry (List.replicate n ValueInfo.new ++ values ++ List.replicate n ValueInfo.new) k =
      if 0 ≤ k - n ∧ k - n < values.length then entry values (k - n) else some ValueInfo.new := by
  have hreplicate : ((List.replicate n ValueInfo.new).length : ℤ) = n := by
    rw [List.length_replicate]
  rcases lt_or_ge k (n + values.length) with hlt | hge
  · rw [entry_append_left _ _ (by rw [List.length_append]; omega)]
    rcases lt_or_ge k n with hfront | hmiddle
    · rw [entry_append_left _ _ (by omega), entry_replicate_new n h hfront, if_neg (by omega)]
    · rw [entry_append_right _ _ (by omega), hreplicate, if_pos (by omega)]
  · rw [entry_append_right _ _ (by rw [List.length_append]; omega), List.length_append,
      entry_replicate_new n (by omega) (by omega), if_neg (by omega)]

/-- Nothing that was shown is lost when the room for the filter is changed. -/
theorem exists_resize {d : ℤ} {values : List ValueInfo} (h : 0 ≤ values.length + 2 * d) :
    ∃ values', resize d values = some values' ∧ (values'.length : ℤ) = values.length + 2 * d ∧
      ∀ k : ℤ, 0 ≤ k → k < values'.length →
        entry values' k =
          if 0 ≤ k - d ∧ k - d < values.length then
            (entry values (k - d)).map fun v => { v with nCount := 0 }
          else some ValueInfo.new := by
  let reset := values.map fun v => { v with nCount := 0 }
  have hlength : reset.length = values.length := List.length_map _
  rcases lt_or_ge 0 d with hd | hd
  · refine ⟨_, if_pos hd, ?_, ?_⟩
    · rw [List.length_append, List.length_append, List.length_replicate, hlength]
      omega
    · intro k hk hk'
      rw [List.length_append, List.length_append, List.length_replicate, hlength] at hk'
      rw [entry_replicate_append reset _ hk (by omega), hlength, Int.toNat_of_nonneg hd.le,
        entry_map]
  · refine ⟨_, (if_neg (by omega)).trans (if_pos ?_), ?_, ?_⟩
    · rw [hlength]
      omega
    · rw [List.length_drop, List.length_take, hlength]
      omega
    · intro k hk hk'
      rw [List.length_drop, List.length_take, hlength] at hk'
      rw [entry_drop _ _ hk, entry_take _ _ (by rw [hlength]; omega), entry_map,
        if_pos (by omega)]
      congr 2
      omega

end Draw3
end Szarp
