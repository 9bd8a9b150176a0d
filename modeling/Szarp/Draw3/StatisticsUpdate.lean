import Szarp.Draw3.Counts
import Szarp.Draw3.Statistics

/-!
# Updates of the statistics

The order in which entries are added to the statistics does not matter. An update of the table adds
the entries that become present, and so keeps the statistics of any positions up to date.
-/

namespace Szarp
namespace Draw3

/-! ## Additions -/

section Scale

variable (c : Scale)

theorem updateStats_of_ne {v : ValueInfo} (h : v.state ≠ .present) (s : Statistics) :
    updateStats c s v = s := if_pos h

/-- What is added for an entry without data. -/
def addProbes (probes data : ℤ) (s : Statistics) : Statistics :=
  { s with
    probesCount := s.probesCount + probes
    dataProbesCount := s.dataProbesCount + data }

def addValue (val : ℚ) (hsum : Option ℚ) (s : Statistics) : Statistics :=
  if s.count ≠ 0 then
    { s with
      max := s.max.map (max val)
      min := s.min.map (min val)
      sum := s.sum.map (· + val)
      sum2 := s.sum2.map (· + val * val)
      hsum := s.hsum.bind fun h => hsum.map (h + ·)
      count := s.count + 1 }
  else
    { s with
      max := some val
      min := some val
      sum := some val
      sum2 := some (val * val)
      hsum := hsum
      count := s.count + 1 }

theorem updateStats_eq (s : Statistics) (v : ValueInfo) :
    updateStats c s v =
      if v.state ≠ .present then s
      else v.val.elim (addProbes v.maxProbes v.countProbes s) fun val =>
        addValue val (c.hsum v) (addProbes v.maxProbes v.countProbes s) := by
  rw [updateStats]
  split_ifs
  · rfl
  · cases v.val with
    | none => rfl
    | some val => rfl

theorem addProbes_comm (m n m' n' : ℤ) (s : Statistics) :
    addProbes m' n' (addProbes m n s) = addProbes m n (addProbes m' n' s) := by
  simp only [addProbes, add_right_comm]

theorem addProbes_addValue (m n : ℤ) (val : ℚ) (hsum : Option ℚ) (s : Statistics) :
    addValue val hsum (addProbes m n s) = addProbes m n (addValue val hsum s) := by
  by_cases h : s.count = 0
  · simp only [addProbes, addValue, h, ne_eq, not_true, if_false]
  · simp only [addProbes, addValue, h, ne_eq, not_false_eq_true, if_true]

theorem addValue_comm (val val' : ℚ) (hsum hsum' : Option ℚ) (s : Statistics) :
    addValue val' hsum' (addValue val hsum s) = addValue val hsum (addValue val' hsum' s) := by
  by_cases h : s.count = 0
  · simp only [addValue, h, ne_eq, not_true, if_false, Nat.zero_add, one_ne_zero,
      not_false_eq_true, if_true, Option.map_some, max_comm, min_comm, add_comm]
    cases hsum <;> cases hsum' <;> simp [add_comm]
  · simp only [addValue, h, ne_eq, not_false_eq_true, if_true, Nat.add_eq_zero_iff, one_ne_zero,
      and_false, Option.map_map, Function.comp_def, max_left_comm, min_left_comm, add_right_comm]
    cases s.hsum <;> cases hsum <;> cases hsum' <;> simp [add_right_comm]

theorem addProbes_zero (s : Statistics) : addProbes 0 0 s = s := by
  rw [addProbes, add_zero, add_zero]

theorem addProbes_eq_self {m n : ℤ} {s : Statistics} : addProbes m n s = s ↔ m = 0 ∧ n = 0 := by
  constructor
  · intro h
    have hprobes := congrArg Statistics.probesCount h
    have hdata := congrArg Statistics.dataProbesCount h
    rw [addProbes] at hprobes hdata
    exact ⟨left_eq_add.mp hprobes.symm, left_eq_add.mp hdata.symm⟩
  · rintro ⟨rfl, rfl⟩
    exact addProbes_zero s

theorem updateStats_addProbes (m n : ℤ) (s : Statistics) (v : ValueInfo) :
    updateStats c (addProbes m n s) v = addProbes m n (updateStats c s v) := by
  rw [updateStats_eq, updateStats_eq]
  split_ifs
  · rfl
  · cases v.val with
    | none => exact addProbes_comm ..
    | some val =>
      simp only [Option.elim_some]
      rw [addProbes_comm, addProbes_addValue]

theorem updateStats_addValue (val : ℚ) (hsum : Option ℚ) (s : Statistics) (v : ValueInfo) :
    updateStats c (addValue val hsum s) v = addValue val hsum (updateStats c s v) := by
  rw [updateStats_eq, updateStats_eq]
  split_ifs
  · rfl
  · cases v.val with
    | none => exact (addProbes_addValue ..).symm
    | some val' =>
      simp only [Option.elim_some]
      rw [← addProbes_addValue, addValue_comm]

instance updateStats_rightCommutative : RightCommutative (updateStats c) where
  right_comm s v w := by
    rw [updateStats_eq c s v, updateStats_eq c (updateStats c s w) v]
    split_ifs
    · rfl
    · cases v.val with
      | none => exact updateStats_addProbes ..
      | some val =>
        simp only [Option.elim_some]
        rw [updateStats_addValue, updateStats_addProbes]

/-! ## Statistics of positions -/

/-- The statistics of the entries at some positions. -/
def statsOf (values : List ValueInfo) (is : List ℤ) : Statistics :=
  Aggregate.addAll (updateStats c) (entry values) is clearStats

theorem recalculateStats_eq (values : List ValueInfo) (stats : Interval) :
    recalculateStats c values stats = statsOf c values stats.positions := rfl

theorem statsOf_cons (values : List ValueInfo) (i : ℤ) (is : List ℤ) :
    statsOf c values (i :: is) =
      Aggregate.addAt (updateStats c) (entry values) (statsOf c values is) i :=
  Aggregate.addAll_cons ..

theorem mem_positions {i : Interval} {k : ℤ} : k ∈ i.positions ↔ i.start ≤ k ∧ k ≤ i.stop := by
  rw [Interval.positions, List.mem_map]
  constructor
  · rintro ⟨n, hn, rfl⟩
    rw [List.mem_range] at hn
    omega
  · intro h
    refine ⟨(k - i.start).toNat, ?_, by omega⟩
    rw [List.mem_range]
    omega

theorem nodup_positions (i : Interval) : i.positions.Nodup := by
  apply List.Nodup.map _ List.nodup_range
  intro a b h
  exact Int.ofNat.inj (add_left_cancel h)

theorem positions_move (i : Interval) (dr : ℤ) :
    (i.move dr).positions = i.positions.map (· + dr) := by
  rw [Interval.positions, Interval.positions, Interval.move_start, Interval.move_stop,
    List.map_map]
  have hlength : i.stop + dr - (i.start + dr) + 1 = i.stop - i.start + 1 := by omega
  rw [hlength]
  congr 1
  funext k
  simp only [Function.comp_apply]
  omega

theorem addAt_bareAt {values : List ValueInfo} (s : Statistics) (k : ℤ) :
    Aggregate.addAt (updateStats c) (bareAt values) s k =
      Aggregate.addAt (updateStats c) (entry values) s k := by
  rw [Aggregate.addAt, Aggregate.addAt, bareAt]
  cases entry values k with
  | none => rfl
  | some v => rfl

theorem addAt_of_ne {values : List ValueInfo} {k : ℤ}
    (h : ∀ v, entry values k = some v → v.state ≠ .present) (s : Statistics) :
    Aggregate.addAt (updateStats c) (entry values) s k = s := by
  rw [Aggregate.addAt]
  cases hv : entry values k with
  | none => rfl
  | some v => exact updateStats_of_ne c (h v hv) s

theorem addAt_addProbes (values : List ValueInfo) (m n : ℤ) (s : Statistics) (k : ℤ) :
    Aggregate.addAt (updateStats c) (entry values) (addProbes m n s) k =
      addProbes m n (Aggregate.addAt (updateStats c) (entry values) s k) := by
  rw [Aggregate.addAt, Aggregate.addAt]
  cases entry values k with
  | none => rfl
  | some v => exact updateStats_addProbes c m n s v

/-! ## The loop around an entry -/

theorem calculated_congr {f index : ℕ} {values values' : List ValueInfo} {i : ℤ}
    (h : entry values i = entry values' i) :
    calculated f index values i = calculated f index values' i := by
  rw [calculated, calculated, h]

theorem entry_updateProbe_of_ne (f index : ℕ) (values : List ValueInfo) {i k : ℤ} (h : k ≠ i) :
    entry (updateProbe f index values i) k = entry values k := by
  rw [entry_updateProbe, if_neg h]

/-- An entry that is not calculated is only counted up, or waits. -/
theorem bare_touch_of_not_calculated {f index : ℕ} {values : List ValueInfo} {i : ℤ}
    {v : ValueInfo} (hi : i ≠ index) (hv : entry values i = some v)
    (h : ¬calculated f index values i = true) : (touch f index values i v).bare = v.bare := by
  rw [calculated, hv, Option.any_some, decide_eq_true_iff, not_or] at h
  rw [touch, if_neg hi, if_pos]
  · rfl
  · by_contra hnot
    rw [not_or, not_not, not_lt] at hnot
    exact h.2 ⟨hi, hnot⟩

variable {f index : ℕ} {stats : Interval} {values : List ValueInfo} {js : List ℤ} {m n : ℤ}

theorem updateProbeStats_fst (t : List ValueInfo × Statistics) (i : ℤ) :
    (updateProbeStats c f index stats t i).1 = updateProbe f index t.1 i := rfl

/-- An entry that has waited for its last neighbour is added. -/
theorem updateProbeStats_of_ne {i : ℤ} (hi : i ≠ index) (hjs : js.Nodup)
    (hmem : calculated f index values i = true → (i ∈ js ↔ stats.start ≤ i ∧ i ≤ stats.stop)) :
    (updateProbeStats c f index stats (values, addProbes m n (statsOf c values js)) i).2 =
      addProbes m n (statsOf c (updateProbe f index values i) js) := by
  have hentry (j : ℤ) (hj : j ≠ i) : entry (updateProbe f index values i) j = entry values j :=
    entry_updateProbe_of_ne f index values hj
  have hself : entry (updateProbe f index values i) i =
      (entry values i).map (touch f index values i) := by
    rw [entry_updateProbe, if_pos rfl]
  rw [updateProbeStats]
  simp only
  by_cases hcalc : calculated f index values i = true
  · have hwait (v : ValueInfo) (hv : entry values i = some v) : v.state ≠ .present := by
      rw [calculated, hv, Option.any_some, decide_eq_true_iff] at hcalc
      rcases hcalc with ⟨hindex, -⟩ | ⟨-, hstate, -⟩
      · exact absurd hindex hi
      · rw [hstate]
        exact ValueState.noConfusion
    by_cases hin : stats.start ≤ i ∧ i ≤ stats.stop
    · rw [if_pos ⟨hcalc, hin⟩, statsOf, statsOf,
        Aggregate.addAll_update hjs ((hmem hcalc).mpr hin) hentry (addAt_of_ne c hwait),
        ← addAt_addProbes]
      rfl
    · rw [if_neg (fun h => hin h.2), statsOf, statsOf]
      congr 1
      apply Aggregate.addAll_congr
      intro j hj s
      have hne : j ≠ i := by
        rintro rfl
        exact hin ((hmem hcalc).mp hj)
      rw [Aggregate.addAt, Aggregate.addAt, hentry j hne]
  · rw [if_neg (fun h => hcalc h.1), statsOf, statsOf]
    congr 1
    apply Aggregate.addAll_congr
    intro j hj s
    rcases eq_or_ne j i with rfl | hne
    · rw [← addAt_bareAt, ← addAt_bareAt, Aggregate.addAt, Aggregate.addAt, bareAt, bareAt, hself,
        Option.map_map]
      congr 1
      cases hv : entry values j with
      | none => rfl
      | some v =>
        rw [Option.map_some, Option.map_some, Function.comp_apply,
          bare_touch_of_not_calculated hi hv hcalc]
    · rw [Aggregate.addAt, Aggregate.addAt, hentry j hne]

/-- The positions and the one of the entry itself, when it is in the statistics. -/
def withIndex (index : ℕ) (stats : Interval) (js : List ℤ) : List ℤ :=
  if stats.start ≤ index ∧ index ≤ stats.stop then (index : ℤ) :: js else js

/-- The entry itself is added when it becomes present. -/
theorem updateProbeStats_self (hindex : (index : ℤ) ∉ js) :
    (updateProbeStats c f index stats (values, addProbes m n (statsOf c values js)) index).2 =
      addProbes m n (statsOf c (updateProbe f index values index) (withIndex index stats js)) := by
  have hself : entry (updateProbe f index values index) index =
      (entry values index).map (touch f index values index) := by
    rw [entry_updateProbe, if_pos rfl]
  have hrest : statsOf c (updateProbe f index values index) js = statsOf c values js := by
    apply Aggregate.addAll_congr
    intro j hj s
    have hne : j ≠ index := by
      rintro rfl
      exact hindex hj
    rw [Aggregate.addAt, Aggregate.addAt, entry_updateProbe_of_ne f index values hne]
  rw [updateProbeStats, withIndex]
  simp only
  by_cases hin : stats.start ≤ index ∧ index ≤ stats.stop
  · rw [if_pos hin, statsOf_cons, hrest, ← addAt_addProbes]
    by_cases hcalc : calculated f index values index = true
    · rw [if_pos ⟨hcalc, hin⟩]
      rfl
    · rw [if_neg (fun h => hcalc h.1), addAt_of_ne]
      intro v hv
      rw [hself] at hv
      obtain ⟨v₀, hv₀, rfl⟩ := Option.map_eq_some_iff.mp hv
      rw [calculated, hv₀, Option.any_some, decide_eq_true_iff, not_or] at hcalc
      rw [touch, if_pos rfl, if_pos (fun hcount => hcalc.1 ⟨rfl, hcount⟩)]
      exact ValueState.noConfusion
  · rw [if_neg hin, if_neg (fun h => hin h.2), hrest]

theorem foldl_updateProbeStats_fst (is : List ℤ) (t : List ValueInfo × Statistics) :
    (is.foldl (updateProbeStats c f index stats) t).1 = is.foldl (updateProbe f index) t.1 := by
  induction is generalizing t with
  | nil => rfl
  | cons i is ih => rw [List.foldl_cons, ih, List.foldl_cons, updateProbeStats_fst]

/-- The part of the loop before the entry itself, or after it. -/
theorem foldl_updateProbeStats {is : List ℤ} (his : is.Nodup) (hindex : (index : ℤ) ∉ is)
    (hjs : js.Nodup)
    (hmem : ∀ i ∈ is, calculated f index values i = true →
      (i ∈ js ↔ stats.start ≤ i ∧ i ≤ stats.stop)) :
    is.foldl (updateProbeStats c f index stats) (values, addProbes m n (statsOf c values js)) =
      (is.foldl (updateProbe f index) values,
        addProbes m n (statsOf c (is.foldl (updateProbe f index) values) js)) := by
  induction is generalizing values with
  | nil => rfl
  | cons i is ih =>
    obtain ⟨hi, his⟩ := List.nodup_cons.mp his
    rw [List.mem_cons, not_or] at hindex
    have hstep := updateProbeStats_of_ne c (m := m) (n := n) (Ne.symm hindex.1) hjs
      (hmem i List.mem_cons_self)
    have hpair : updateProbeStats c f index stats (values, addProbes m n (statsOf c values js)) i =
        (updateProbe f index values i,
          addProbes m n (statsOf c (updateProbe f index values i) js)) :=
      Prod.ext rfl hstep
    rw [List.foldl_cons, hpair, List.foldl_cons]
    apply ih his hindex.2
    intro j hj hcalc
    have hne : j ≠ i := by
      rintro rfl
      exact hi hj
    rw [calculated_congr (entry_updateProbe_of_ne f index values hne)] at hcalc
    exact hmem j (List.mem_cons_of_mem i hj) hcalc

theorem entry_foldl_updateProbe_of_notMem {is : List ℤ} (his : is.Nodup) {k : ℤ} (hk : k ∉ is) :
    entry (is.foldl (updateProbe f index) values) k = entry values k := by
  rw [entry_foldl_updateProbe f index his, if_neg hk]

/-- The statistics of some positions without the index become those with it. -/
theorem updateProbesStats_eq (hjs : js.Nodup) (hindex : (index : ℤ) ∉ js)
    (hmem : ∀ i : ℤ, i ≠ index → |i - index| ≤ f → calculated f index values i = true →
      (i ∈ js ↔ stats.start ≤ i ∧ i ≤ stats.stop)) :
    updateProbesStats c f stats (values, addProbes m n (statsOf c values js)) index =
      (updateProbesValues f values index,
        addProbes m n
          (statsOf c (updateProbesValues f values index) (withIndex index stats js))) := by
  have hself : (index : ℤ) ∈ window f index := by
    rw [mem_window, sub_self, abs_zero]
    omega
  have hnodup := nodup_window f index
  have hnear (i : ℤ) (hi : i ∈ window f index) := (mem_window f index i).mp hi
  rw [updateProbesStats, updateProbesValues]
  obtain ⟨before, after, hwindow⟩ := List.append_of_mem hself
  rw [hwindow] at hnodup hnear ⊢
  obtain ⟨hbefore, hrest, hdisjoint⟩ := List.nodup_append.mp hnodup
  obtain ⟨hnotAfter, hafter⟩ := List.nodup_cons.mp hrest
  have hnotBefore : (index : ℤ) ∉ before := fun h => hdisjoint index h index List.mem_cons_self rfl
  have hne (i : ℤ) (hi : i ∈ after) : i ≠ index := by
    rintro rfl
    exact hnotAfter hi
  have hwith : (withIndex index stats js).Nodup := by
    rw [withIndex]
    split
    · exact List.nodup_cons.mpr ⟨hindex, hjs⟩
    · exact hjs
  -- the window is the positions before the index, the index itself, and those behind it
  rw [List.foldl_append, List.foldl_append, List.foldl_cons, List.foldl_cons,
    foldl_updateProbeStats c hbefore hnotBefore hjs]
  · generalize hvalues : before.foldl (updateProbe f index) values = values'
    have hpair : updateProbeStats c f index stats (values', addProbes m n (statsOf c values' js))
        index = (updateProbe f index values' index,
          addProbes m n (statsOf c (updateProbe f index values' index)
            (withIndex index stats js))) :=
      Prod.ext rfl (updateProbeStats_self c hindex)
    rw [hpair, foldl_updateProbeStats c hafter hnotAfter hwith]
    intro i hi hcalc
    have hi' : i ∉ before := fun h => hdisjoint i h i (List.mem_cons_of_mem _ hi) rfl
    rw [calculated_congr (entry_updateProbe_of_ne f index values' (hne i hi)), ← hvalues,
      calculated_congr (entry_foldl_updateProbe_of_notMem hbefore hi')] at hcalc
    have hiff := hmem i (hne i hi)
      (hnear i (List.mem_append_right _ (List.mem_cons_of_mem _ hi))) hcalc
    rw [withIndex]
    split
    · rw [List.mem_cons, or_iff_right (hne i hi), hiff]
    · exact hiff
  · intro i hi hcalc
    have hi' : i ≠ index := by
      rintro rfl
      exact hnotBefore hi
    exact hmem i hi' (hnear i (List.mem_append_left _ hi)) hcalc

/-! ## A switch of the filter -/

theorem statsOf_perm (values : List ValueInfo) {is js : List ℤ} (h : is.Perm js) :
    statsOf c values is = statsOf c values js :=
  Aggregate.addAll_perm h clearStats

/-- Of the neighbours of a later entry those before `i` are less than the filter. -/
theorem neighbours_receivedBefore_lt (values : List ValueInfo) {i : ℕ} {k : ℤ} (h : (i : ℤ) < k)
    (h' : k - i ≤ f) : (neighbours f (receivedBefore values i) k : ℤ) < f := by
  have hsubset : (around f k).filter (fun j => receivedBefore values i j) ⊆
      Finset.Ico (k - f) i := by
    intro j hj
    obtain ⟨haround, hbefore⟩ := Finset.mem_filter.mp hj
    obtain ⟨-, hdist⟩ := mem_around.mp haround
    rw [receivedBefore, Bool.and_eq_true, decide_eq_true_iff] at hbefore
    rw [abs_le] at hdist
    rw [Finset.mem_Ico]
    omega
  have hcard := Finset.card_le_card hsubset
  rw [Int.card_Ico] at hcard
  rw [neighbours]
  omega

def positionsBefore (stats : Interval) (i : ℕ) : List ℤ := stats.positions.filter (· < i)

theorem mem_positionsBefore {i : ℕ} {k : ℤ} :
    k ∈ positionsBefore stats i ↔ (stats.start ≤ k ∧ k ≤ stats.stop) ∧ k < i := by
  rw [positionsBefore, List.mem_filter, mem_positions, decide_eq_true_iff]

theorem nodup_positionsBefore (stats : Interval) (i : ℕ) : (positionsBefore stats i).Nodup :=
  (nodup_positions stats).filter _

theorem positionsBefore_succ (stats : Interval) (i : ℕ) :
    (positionsBefore stats (i + 1)).Perm (withIndex i stats (positionsBefore stats i)) := by
  have hnodup : (withIndex i stats (positionsBefore stats i)).Nodup := by
    rw [withIndex]
    split
    · apply List.nodup_cons.mpr ⟨_, nodup_positionsBefore stats i⟩
      rw [mem_positionsBefore]
      omega
    · exact nodup_positionsBefore stats i
  rw [List.perm_ext_iff_of_nodup (nodup_positionsBefore stats (i + 1)) hnodup]
  intro k
  rw [mem_positionsBefore, withIndex]
  split
  · rw [List.mem_cons, mem_positionsBefore]
    omega
  · rw [mem_positionsBefore]
    omega

/-- The entries before `m` have been added, as far as they are present again. -/
theorem foldl_recountStats (hstart : 0 ≤ stats.start)
    (hzero : ∀ k v, entry values k = some v → v.nCount = 0) (i : ℕ) :
    (List.range i).foldl (recountStats c f stats) (values, clearStats) =
      ((List.range i).foldl (recount f) values,
        statsOf c ((List.range i).foldl (recount f) values) (positionsBefore stats i)) := by
  induction i with
  | zero =>
    have hnone : positionsBefore stats 0 = [] := by
      rw [positionsBefore, List.filter_eq_nil_iff]
      intro k hk
      have := (mem_positions.mp hk).1
      rw [decide_eq_true_iff]
      omega
    rw [hnone]
    rfl
  | succ i ih =>
    have hfront (k : ℤ) (v : ValueInfo) := @refilter_front f values hzero i k v
    rw [List.range_succ, List.foldl_append, List.foldl_append, ih]
    generalize (List.range i).foldl (recount f) values = X at hfront ⊢
    rw [List.foldl_cons, List.foldl_nil, List.foldl_cons, List.foldl_nil,
      statsOf_perm c _ (positionsBefore_succ stats i), recountStats, recount]
    split
    · have hupdate := @updateProbesStats_eq c f i stats X (positionsBefore stats i) 0 0
        (nodup_positionsBefore stats i) (by rw [mem_positionsBefore]; omega)
      rw [addProbes_zero, addProbes_zero] at hupdate
      apply hupdate
      intro k hne hdist hcalc
      rw [mem_positionsBefore]
      rcases lt_or_gt_of_ne hne with hlt | hgt
      · rw [and_iff_left hlt]
      · rw [abs_le] at hdist
        have hlate := @neighbours_receivedBefore_lt f values i k hgt (by omega)
        cases hv : entry X k with
        | none =>
          rw [calculated, hv] at hcalc
          contradiction
        | some v =>
          have hcount := (hfront k v hv).1
          rw [calculated, hv, Option.any_some, decide_eq_true_iff] at hcalc
          omega
    · rename_i hnot
      rw [withIndex]
      split
      · rw [statsOf_cons, addAt_of_ne]
        intro v hv hpresent
        rw [entry_natCast] at hv
        rw [hv, Option.any_some, hpresent] at hnot
        exact hnot rfl
      · rfl

end Scale

end Draw3
end Szarp
