import Szarp.Draw3.CountRuns
import Szarp.Draw3.StatisticsUpdate

/-!
# Statistics along runs

A response for an entry that is present without data adds the probes of the entry once more. Along
the runs in which there is nothing to add then, and only along them, the statistics stay those of
the entries.
-/

namespace Szarp
namespace Draw3
namespace StatsDraw

/-- The statistics are those that are calculated from the entries. -/
def Exact (d : StatsDraw) : Prop :=
  d.statistics = recalculateStats d.scale d.values d.stats

/-- The entry that a response is for is not in the statistics already, or has no probes there. -/
def CountsOnce (d : StatsDraw) (r : Response) : Prop :=
  ∀ v, entry d.values (d.position r.time) = some v → v.state = .present → v.val = none →
    d.stats.start ≤ d.position r.time → d.position r.time ≤ d.stats.stop →
    v.maxProbes = 0 ∧ v.countProbes = 0

def CountOnce : StatsDraw → List Response → Prop
  | _, [] => True
  | d, r :: vv => d.CountsOnce r ∧ CountOnce (d.insertValue r) vv

def Careful (d : StatsDraw) : Op → Prop
  | .draw (.insertValue r) => d.CountsOnce r
  | .draw (.addData vv) => d.CountOnce vv
  | _ => True

/-- The number of values is set, and the double cursor started at a shown value, when it is off. -/
def Domain (d : StatsDraw) : Op → Prop
  | .draw (.setNumberOfValues n) => d.doubleCursor = false ∧ 0 < n
  | .draw (.startDoubleCursor index) =>
    d.doubleCursor = false ∧ 0 ≤ index ∧ index < d.numberOfValues
  | .draw .stopDoubleCursor => d.doubleCursor = true
  | _ => True

/-- The statistics are exact after every value of a query. -/
def ExactWithin (d : StatsDraw) : Op → StatsDraw → Prop
  | .draw (.addData vv), _ => ∀ vv', vv' <+: vv → (d.addData vv').Exact
  | _, _ => True

/-! ## Statistics that are calculated again -/

theorem recalculated_exact (d : StatsDraw) (d' : Draw) : (d.recalculated d').Exact := rfl

theorem exact_congr {d d' : StatsDraw} (h : d.Exact) (hscale : d'.scale = d.scale)
    (hstatistics : d'.statistics = d.statistics) (hstats : d'.stats = d.stats)
    (hentry : ∀ k s, Aggregate.addAt (updateStats d.scale) (entry d'.values) s k =
      Aggregate.addAt (updateStats d.scale) (entry d.values) s k) : d'.Exact := by
  rw [Exact, hscale, hstatistics, hstats, h, recalculateStats_eq, recalculateStats_eq]
  exact Aggregate.addAll_congr (fun k _ s => (hentry k s).symm) clearStats

theorem recalculate_spec {d : StatsDraw} (h : d.Geometry) :
    ∃ d', d.recalculate = some d' ∧ d'.Geometry ∧ d'.Exact := by
  refine ⟨d.recalculated d.toDraw, ?_, h, recalculated_exact d d.toDraw⟩
  rw [recalculate, h.recalculateStats_eq, Option.map_some]

/-! ## Moves -/

/-- The statistics stay behind with their entries. -/
theorem statsOf_rebase (c : Scale) {d : Draw} (h : d.Geometry) (view : Interval) :
    recalculateStats c (d.rebase view d.stats).values (d.rebase view d.stats).stats =
      recalculateStats c d.values d.stats := by
  have hfin := Interval.widen_eq (view.union d.stats) d.filter
  have hstart := Interval.union_start view d.stats
  have hstop := Interval.union_stop view d.stats
  have hfront := h.stats_front
  have hback := h.stats_back
  change recalculateStats c (d.rebase view d.stats).values
    (d.stats.move (-(view.union d.stats).start + d.filter)) = _
  rw [recalculateStats_eq, recalculateStats_eq, statsOf, statsOf, positions_move,
    Aggregate.addAll_map]
  apply Aggregate.addAll_congr
  intro k hk s
  have hrange := mem_positions.mp hk
  have hbare := bareAt_moveValues d.filter
    ⟨(view.union d.stats).start - d.filter, (view.union d.stats).stop + d.filter⟩ d.values
    (show 0 ≤ k + (-(view.union d.stats).start + d.filter) by omega) (by omega)
  have hback' : k + (-(view.union d.stats).start + d.filter) +
      ((view.union d.stats).start - d.filter) = k := by omega
  rw [hfin.1, hback', if_pos (by omega)] at hbare
  rw [← addAt_bareAt c s k, Aggregate.addAt, Aggregate.addAt, ← hbare]
  exact (addAt_bareAt c s (k + (-(view.union d.stats).start + d.filter))).symm

/-- After a move the view has its new place, and the statistics are exact. -/
theorem moved_exact {d : StatsDraw} (h : d.Geometry) (hexact : d.Exact) {dist : ℤ} {d' : Draw}
    (hd' : { d.toDraw with startTime := d.startTime + dist }.moveView dist = some d') :
    (d.moved d').Exact := by
  have hgeometry : { d.toDraw with startTime := d.startTime + dist }.Geometry := { h with }
  have heq := Draw.moveView_some hd'
  rw [heq, moved]
  split
  · rename_i hcursor
    have hcarried : { d.toDraw with startTime := d.startTime + dist }.carried dist = d.stats :=
      if_pos hcursor
    have hstats := statsOf_rebase d.scale hgeometry (d.view.move dist)
    rw [Exact]
    simp only [hcarried]
    exact hexact.trans hstats.symm
  · exact recalculated_exact d _

theorem moveView_spec {d : StatsDraw} (h : d.Geometry) (hexact : d.Exact) (dist : ℤ) :
    ∃ d', d.moveView dist = some d' ∧ d'.Geometry ∧ d'.Exact := by
  obtain ⟨d', hd', hshifted⟩ := h.moveView_shifted dist
  refine ⟨d.moved d', ?_, ?_, moved_exact h hexact hd'⟩
  · rw [moveView, hd', Option.map_some]
  · rw [moved]
    split
    · exact hshifted.geometry
    · exact hshifted.geometry

theorem moveToTime_spec {d : StatsDraw} (h : d.Geometry) (hexact : d.Exact) (time : ℤ) :
    ∃ d', d.moveToTime time = some d' ∧ d'.Geometry ∧ d'.Exact := by
  rw [moveToTime]
  split
  · exact ⟨d, rfl, h, hexact⟩
  · rename_i hne
    have hmoved := moveView_spec h hexact (time - d.startTime)
    rw [moveView, add_sub_cancel] at hmoved
    rwa [Draw.moveToTime, if_neg hne]

theorem dragStats_spec {d : StatsDraw} (h : d.Geometry) (hexact : d.Exact) (disp : ℤ) :
    ∃ d', d.dragStats disp = some d' ∧ d'.Geometry ∧ d'.Exact := by
  obtain ⟨d', hd', hshifted⟩ := h.dragStats_shifted disp
  rw [dragStats, hd', Option.map_some]
  split
  · exact ⟨_, rfl, hshifted.geometry, recalculated_exact d d'⟩
  · rename_i hoff
    rw [Draw.dragStats, if_neg hoff] at hd'
    obtain rfl := Option.some.inj hd'
    exact ⟨_, rfl, hshifted.geometry, hexact⟩

/-! ## The double cursor -/

theorem startDoubleCursor_spec {d : StatsDraw} (h : d.Geometry) {index : ℤ}
    (hdomain : d.Domain (.draw (.startDoubleCursor index))) :
    ∃ d', d.startDoubleCursor index = some d' ∧ d'.Geometry ∧ d'.Exact := by
  obtain ⟨d', hd', hkept, -⟩ := h.startDoubleCursor_kept hdomain.1 hdomain.2.1 hdomain.2.2
  refine ⟨d.recalculated d', ?_, hkept.geometry, recalculated_exact d d'⟩
  rw [startDoubleCursor, hd', Option.map_some]

theorem stopDoubleCursor_spec {d : StatsDraw} (h : d.Geometry) :
    ∃ d', d.stopDoubleCursor = some d' ∧ d'.Geometry ∧ d'.Exact := by
  obtain ⟨d', hd', hkept, -⟩ := h.stopDoubleCursor_kept
  refine ⟨d.recalculated d', ?_, hkept.geometry, recalculated_exact d d'⟩
  rw [stopDoubleCursor, hd', Option.map_some]

/-! ## A switch of the filter -/

/-- All entries are taken out of the statistics, and added again when they become present. -/
theorem switchFilter_spec {d : StatsDraw} (h : d.Geometry) (t : ℕ) :
    ∃ d', d.switchFilter t = some d' ∧ d'.Geometry ∧ d'.Exact := by
  obtain ⟨d', hd', hshifted⟩ := h.switchFilter_shifted t
  have hgeometry := hshifted.geometry
  have hfront := h.view_front
  have hback := h.view_back
  have hle := d.view.start_le_stop
  obtain ⟨values, hvalues, hlength, hentry⟩ :=
    exists_resize (show (0 : ℤ) ≤ d.values.length + 2 * (t - d.filter) by omega)
  have hzero (k : ℤ) (v : ValueInfo) (hv : entry values k = some v) : v.nCount = 0 := by
    have hrange := entry_range hv
    rw [hentry k hrange.1 hrange.2] at hv
    split at hv
    · obtain ⟨v₀, -, rfl⟩ := Option.map_eq_some_iff.mp hv
      rfl
    · obtain rfl := Option.some.inj hv
      rfl
  rw [Draw.switchFilter_eq, hvalues, Option.map_some] at hd'
  obtain rfl := Option.some.inj hd'
  have hstart : (t : ℤ) ≤ (d.stats.move (t - d.filter)).start := hgeometry.stats_front
  have hstop : (d.stats.move (t - d.filter)).stop + t < (refilter t values).length :=
    hgeometry.stats_back
  rw [length_refilter] at hstop
  have hfold := @foldl_recountStats d.scale t (d.stats.move (t - d.filter)) values (by omega) hzero
    values.length
  have hall : positionsBefore (d.stats.move (t - d.filter)) values.length =
      (d.stats.move (t - d.filter)).positions := by
    rw [positionsBefore, List.filter_eq_self]
    intro k hk
    have hrange := mem_positions.mp hk
    rw [decide_eq_true_iff]
    omega
  rw [hall] at hfold
  rw [switchFilter]
  simp only
  rw [hvalues, Option.map_some]
  refine ⟨_, rfl, ?_, ?_⟩
  · simp only [hfold]
    exact hgeometry
  · rw [Exact]
    simp only [hfold]
    rfl

/-! ## Responses -/

/-- The probes of an entry that is in the statistics without data. -/
def probesOf (d : StatsDraw) (index : ℕ) (v : ValueInfo) : ℤ × ℤ :=
  if v.state = .present ∧ d.stats.start ≤ index ∧ index ≤ d.stats.stop then
    (v.maxProbes, v.countProbes)
  else (0, 0)

/-- The entry at `index` is taken out of the statistics, but for its probes. -/
theorem statistics_eq {d : StatsDraw} (hexact : d.Exact) {index : ℕ} {v : ValueInfo}
    (hv : entry d.values index = some v) (hnot : v.isData = false) (r : Response) :
    d.statistics = addProbes (d.probesOf index v).1 (d.probesOf index v).2
      (statsOf d.scale (stored r index d.toDraw) (d.stats.positions.erase index)) := by
  have hstored : statsOf d.scale (stored r index d.toDraw) (d.stats.positions.erase index) =
      statsOf d.scale d.values (d.stats.positions.erase index) := by
    apply Aggregate.addAll_congr
    intro k hk s
    have hne : k ≠ index := by
      rintro rfl
      exact (nodup_positions d.stats).not_mem_erase hk
    rw [Aggregate.addAt, Aggregate.addAt, stored, entry_modify, if_neg hne]
  rw [hstored, hexact, recalculateStats_eq, probesOf]
  by_cases hin : d.stats.start ≤ index ∧ index ≤ d.stats.stop
  · rw [statsOf, Aggregate.addAll_erase _ (mem_positions.mpr hin), ← statsOf, Aggregate.addAt, hv]
    by_cases hpresent : v.state = .present
    · have hval : v.val = none := by
        rw [ValueInfo.isData, hpresent] at hnot
        simpa using hnot
      rw [if_pos ⟨hpresent, hin⟩, Option.elim_some, updateStats_eq, if_neg (not_not.mpr hpresent),
        hval]
      rfl
    · rw [if_neg (fun h => hpresent h.1), addProbes_zero, Option.elim_some,
        updateStats_of_ne _ hpresent]
  · rw [if_neg (fun h => hin h.2), addProbes_zero,
      List.erase_of_not_mem (fun h => hin (mem_positions.mp h))]

/-- The statistics after a response are those of the entries, with the probes of the entry that was
in them. -/
theorem updateProbesStats_stored {d : StatsDraw} (hexact : d.Exact) {index : ℕ} {v : ValueInfo}
    (hv : entry d.values index = some v) (hnot : v.isData = false) (r : Response) :
    updateProbesStats d.scale d.filter d.stats (stored r index d.toDraw, d.statistics) index =
      (updateProbesValues d.filter (stored r index d.toDraw) index,
        addProbes (d.probesOf index v).1 (d.probesOf index v).2 (recalculateStats d.scale
          (updateProbesValues d.filter (stored r index d.toDraw) index) d.stats)) := by
  have hnodup := nodup_positions d.stats
  have hperm : (withIndex index d.stats (d.stats.positions.erase index)).Perm
      d.stats.positions := by
    rw [withIndex]
    split
    · rename_i hin
      exact (List.perm_cons_erase (mem_positions.mpr hin)).symm
    · rename_i hout
      rw [List.erase_of_not_mem (fun h => hout (mem_positions.mp h))]
  rw [statistics_eq hexact hv hnot r, updateProbesStats_eq _ (hnodup.erase _) hnodup.not_mem_erase,
    statsOf_perm _ _ hperm, recalculateStats_eq]
  intro i hi _ _
  rw [List.mem_erase_of_ne hi, mem_positions]

/-- A response changes nothing, or is stored in the entry of its slot. -/
theorem insertValue_cases (r : Response) (d : StatsDraw) :
    (d.insertValue r = d ∧ d.CountsOnce r) ∨
      ∃ (index : ℕ) (v : ValueInfo), (index : ℤ) = d.position r.time ∧
        entry d.values index = some v ∧ v.isData = false ∧
        d.insertValue r =
          let t := updateProbesStats d.scale d.filter d.stats
            (stored r index d.toDraw, d.statistics) index
          { d with values := t.1, statistics := t.2 } := by
  have hposition : d.position r.time = r.time - d.startTime + d.view.start := rfl
  unfold insertValue
  dsimp only
  split
  · rename_i hout
    refine Or.inl ⟨rfl, ?_⟩
    intro v hv
    have hrange := entry_range hv
    omega
  · rename_i hin
    obtain ⟨index, hindex⟩ := Int.eq_ofNat_of_zero_le
      (show 0 ≤ r.time - d.startTime + d.view.start by omega)
    obtain ⟨v, hv⟩ := exists_entry (show (0 : ℤ) ≤ index by omega)
      (show (index : ℤ) < d.values.length by omega)
    have hv' := hv
    rw [entry_natCast] at hv'
    rw [hindex, Int.toNat_natCast, hv', Option.any_some]
    cases hdata : v.isData with
    | true =>
      refine Or.inl ⟨rfl, ?_⟩
      intro w hw hpresent hnone
      rw [hposition, hindex, hv] at hw
      obtain rfl := Option.some.inj hw
      rw [ValueInfo.isData, hnone, hpresent] at hdata
      contradiction
    | false => exact Or.inr ⟨index, v, by rw [hposition, hindex], hv, hdata, rfl⟩

/-- The statistics stay exact if and only if there are no probes to be added once more. -/
theorem insertValue_iff {d : StatsDraw} (hexact : d.Exact) (r : Response) :
    (d.insertValue r).Exact ↔ d.CountsOnce r := by
  rcases insertValue_cases r d with ⟨hsame, hcounts⟩ | ⟨index, v, hindex, hv, hdata, heq⟩
  · rw [hsame]
    exact iff_of_true hexact hcounts
  · have hnone (hpresent : v.state = .present) : v.val = none := by
      rw [ValueInfo.isData, hpresent] at hdata
      simpa using hdata
    rw [heq, updateProbesStats_stored hexact hv hdata r, Exact]
    simp only
    rw [addProbes_eq_self, CountsOnce, ← hindex, probesOf]
    constructor
    · intro h w hw hpresent _ hstart hstop
      rw [hv] at hw
      obtain rfl := Option.some.inj hw
      rwa [if_pos ⟨hpresent, hstart, hstop⟩] at h
    · intro h
      split
      · rename_i hin
        exact h v hv hin.1 (hnone hin.1) hin.2.1 hin.2.2
      · exact ⟨rfl, rfl⟩

theorem updateProbesStats_fst (c : Scale) (f : ℕ) (stats : Interval)
    (t : List ValueInfo × Statistics) (index : ℕ) :
    (updateProbesStats c f stats t index).1 = updateProbesValues f t.1 index :=
  foldl_updateProbeStats_fst c _ t

theorem insertValue_geometry {d : StatsDraw} (h : d.Geometry) (r : Response) :
    (d.insertValue r).Geometry := by
  rcases insertValue_cases r d with ⟨hsame, -⟩ | ⟨index, v, -, -, -, heq⟩
  · rw [hsame]
    exact h
  · have hlength : ((updateProbesStats d.scale d.filter d.stats
        (stored r index d.toDraw, d.statistics) index).1.length : ℤ) = d.values.length := by
      rw [updateProbesStats_fst, length_updateProbesValues, stored, List.length_modify]
    have hback := h.view_back
    have hstats := h.stats_back
    rw [← hlength] at hback hstats
    rw [heq]
    exact { h with view_back := hback, stats_back := hstats }

theorem addData_geometry {d : StatsDraw} (h : d.Geometry) (vv : List Response) :
    (d.addData vv).Geometry := by
  induction vv generalizing d with
  | nil => exact h
  | cons r vv ih => exact ih (insertValue_geometry h r)

theorem addData_iff {d : StatsDraw} (hexact : d.Exact) (vv : List Response) :
    (∀ vv', vv' <+: vv → (d.addData vv').Exact) ↔ d.CountOnce vv := by
  induction vv generalizing d with
  | nil =>
    refine iff_of_true ?_ trivial
    intro vv' hprefix
    rw [List.prefix_nil.mp hprefix]
    exact hexact
  | cons r vv ih =>
    rw [CountOnce]
    constructor
    · intro h
      have hinsert : (d.insertValue r).Exact := h [r] (List.prefix_cons_inj r |>.mpr List.nil_prefix)
      refine ⟨(insertValue_iff hexact r).mp hinsert, (ih hinsert).mp ?_⟩
      intro vv' hprefix
      exact h (r :: vv') ((List.prefix_cons_inj r).mpr hprefix)
    · rintro ⟨hcounts, hrest⟩ vv' hprefix
      have hinsert := (insertValue_iff hexact r).mpr hcounts
      rcases List.prefix_cons_iff.mp hprefix with rfl | ⟨vv'', rfl, hprefix'⟩
      · exact hexact
      · exact (ih hinsert).mpr hrest vv'' hprefix'

/-! ## Requests and resets -/

theorem getDataToFetch_exact {d : StatsDraw} (hexact : d.Exact) :
    { d with toDraw := d.toDraw.getDataToFetch }.Exact := by
  refine @exact_congr d { d with toDraw := d.toDraw.getDataToFetch } hexact rfl rfl rfl ?_
  intro k s
  change Aggregate.addAt _ (entry d.toDraw.getDataToFetch.values) s k = _
  rw [Aggregate.addAt, Aggregate.addAt, Draw.entry_getDataToFetch]
  cases entry d.values k with
  | none => rfl
  | some v =>
    rw [Option.map_some, Option.elim_some, Option.elim_some, Draw.asked]
    split
    · rename_i hempty
      rw [updateStats_of_ne _ (fun h => ValueState.noConfusion h),
        updateStats_of_ne _ (by rw [hempty]; exact fun h => ValueState.noConfusion h)]
    · rfl

theorem geometry_of_values {d : Draw} (h : d.Geometry) {values : List ValueInfo}
    (hlength : values.length = d.values.length) : { d with values := values }.Geometry := by
  have hback := h.view_back
  have hstats := h.stats_back
  rw [← hlength] at hback hstats
  exact { h with view_back := hback, stats_back := hstats }

theorem resetValue_geometry {d : StatsDraw} (h : d.Geometry) (i : ℕ) :
    (d.resetValue i).Geometry :=
  geometry_of_values h (by rw [List.length_modify])

/-- However the entries are reset, the statistics are calculated again in the end. -/
theorem refreshData_spec {d : StatsDraw} (h : d.Geometry) (autoRefresh : Bool) :
    ∃ d', d.refreshData autoRefresh = some d' ∧ d'.Geometry ∧ d'.Exact := by
  rw [refreshData]
  split
  · rename_i hauto
    apply recalculate_spec
    clear hauto
    generalize List.range d.values.length = is
    induction is generalizing d with
    | nil => exact h
    | cons i is ih =>
      rw [List.foldl_cons]
      apply ih
      split
      · exact resetValue_geometry h i
      · exact h
  · exact recalculate_spec (geometry_of_values h (by rw [List.length_replicate]))

theorem setNumberOfValues_spec {d d' : StatsDraw} {n : ℕ} (hn : 0 < n)
    (h : d.setNumberOfValues n = some d') : d'.Geometry ∧ d'.Exact := by
  obtain ⟨d₁, hd₁, rfl⟩ := Option.map_eq_some_iff.mp h
  obtain ⟨hgeometry, -, hnew⟩ := Draw.setNumberOfValues_spec hn hd₁
  refine ⟨hgeometry, ?_⟩
  rw [Exact, recalculateStats_eq]
  simp only
  generalize d₁.stats.positions = is
  induction is with
  | nil => rfl
  | cons i is ih =>
    rw [statsOf_cons, ← ih, addAt_of_ne]
    intro v hv
    rw [hnew i v hv]
    exact fun h => ValueState.noConfusion h

/-! ## Runs -/

/-- The steps that keep the statistics exact are the careful ones. -/
theorem step_iff {d : StatsDraw} (h : d.Geometry) (hexact : d.Exact) {op : Op}
    (hdomain : d.Domain op) :
    ∃ d', d.step op = some d' ∧ d'.Geometry ∧ (d.ExactWithin op d' ∧ d'.Exact ↔ d.Careful op) := by
  have hkept {op : Op} (hwithin : ∀ d', d.ExactWithin op d') (hcareful : d.Careful op)
      (hstep : ∃ d', d.step op = some d' ∧ d'.Geometry ∧ d'.Exact) :
      ∃ d', d.step op = some d' ∧ d'.Geometry ∧
        (d.ExactWithin op d' ∧ d'.Exact ↔ d.Careful op) := by
    obtain ⟨d', hd', hgeometry, hexact'⟩ := hstep
    exact ⟨d', hd', hgeometry, iff_of_true ⟨hwithin d', hexact'⟩ hcareful⟩
  cases op with
  | refreshData autoRefresh =>
    exact hkept (fun _ => trivial) trivial (refreshData_spec h autoRefresh)
  | draw op =>
    cases op with
    | setNumberOfValues n =>
      have hset : ∃ d', d.setNumberOfValues n = some d' :=
        ⟨_, congrArg (Option.map _) (if_neg (Bool.eq_false_iff.mp hdomain.1))⟩
      obtain ⟨d', hd'⟩ := hset
      exact hkept (fun _ => trivial) trivial ⟨d', hd', setNumberOfValues_spec hdomain.2 hd'⟩
    | moveView dist => exact hkept (fun _ => trivial) trivial (moveView_spec h hexact dist)
    | moveToTime time => exact hkept (fun _ => trivial) trivial (moveToTime_spec h hexact time)
    | dragStats disp => exact hkept (fun _ => trivial) trivial (dragStats_spec h hexact disp)
    | startDoubleCursor index =>
      exact hkept (fun _ => trivial) trivial (startDoubleCursor_spec h hdomain)
    | stopDoubleCursor => exact hkept (fun _ => trivial) trivial (stopDoubleCursor_spec h)
    | switchFilter t => exact hkept (fun _ => trivial) trivial (switchFilter_spec h t)
    | insertValue r =>
      refine ⟨d.insertValue r, rfl, insertValue_geometry h r, ?_⟩
      rw [show d.ExactWithin (.draw (.insertValue r)) (d.insertValue r) = True from rfl, true_and]
      exact insertValue_iff hexact r
    | addData vv =>
      refine ⟨d.addData vv, rfl, addData_geometry h vv, ?_⟩
      have hwithin := addData_iff hexact vv
      constructor
      · exact fun hexact' => hwithin.mp hexact'.1
      · intro hcount
        have hall := hwithin.mpr hcount
        exact ⟨hall, hall vv List.prefix_rfl⟩
    | getDataToFetch =>
      exact hkept (fun _ => trivial) trivial
        ⟨_, rfl, h.getDataToFetch_shifted.geometry, getDataToFetch_exact hexact⟩

/-- Along the runs on a table that is set up for some number of values, no step fails, and the
statistics are exact in every state, and after every value of a query, exactly when every step is
careful. -/
theorem exact_iff_careful (d₀ d : StatsDraw) (n : ℕ) (hn : 0 < n)
    (h : d₀.setNumberOfValues n = some d) (ops : List Op)
    (hops : Run.LegalRun step Domain d ops) :
    Run.SafeRun step Exact ExactWithin d ops ↔ Run.LegalRun step Careful d ops := by
  obtain ⟨hgeometry, hexact⟩ := setNumberOfValues_spec hn h
  exact Run.safeRun_iff_of_domain (fun d : StatsDraw => d.Geometry)
    (fun _ _ hgeometry hexact hdomain => step_iff hgeometry hexact hdomain) hgeometry hexact hops

/-- One value is shown, it is asked for, and the answer that there is no data comes twice. -/
theorem answeredTwice_exact_iff :
    Run.SafeRun step Exact ExactWithin
        ⟨{ Draw.unset 0 with
            values := List.replicate 1 ValueInfo.new
            numberOfValues := 1 }, ⟨1, false⟩, clearStats⟩
        [.draw .getDataToFetch, .draw (.addData [⟨0, none, none, none, none, 0⟩]),
          .draw (.addData [⟨0, none, none, none, none, 0⟩])] ↔
      Run.LegalRun step Careful
        ⟨{ Draw.unset 0 with
            values := List.replicate 1 ValueInfo.new
            numberOfValues := 1 }, ⟨1, false⟩, clearStats⟩
        [.draw .getDataToFetch, .draw (.addData [⟨0, none, none, none, none, 0⟩]),
          .draw (.addData [⟨0, none, none, none, none, 0⟩])] :=
  exact_iff_careful ⟨Draw.unset 0, ⟨1, false⟩, clearStats⟩ _ 1 (by decide) rfl _
    ⟨trivial, fun _ _ => ⟨trivial, fun _ _ => ⟨trivial, fun _ _ => trivial⟩⟩⟩

/-- The probe of the value is counted twice. -/
theorem answeredTwice_not_exact :
    ∃ d, (⟨Draw.unset 0, ⟨1, false⟩, clearStats⟩ : StatsDraw).setNumberOfValues 1 = some d ∧
      Run.LegalRun step Domain d
        [.draw .getDataToFetch, .draw (.addData [⟨0, none, none, none, none, 0⟩]),
          .draw (.addData [⟨0, none, none, none, none, 0⟩])] ∧
      ∃ d', [Op.draw .getDataToFetch, .draw (.addData [⟨0, none, none, none, none, 0⟩]),
          .draw (.addData [⟨0, none, none, none, none, 0⟩])].foldlM step d = some d' ∧
        ¬d'.Exact := by
  refine ⟨_, rfl, ⟨trivial, fun _ _ => ⟨trivial, fun _ _ => ⟨trivial, fun _ _ => trivial⟩⟩⟩, _,
    rfl, ?_⟩
  intro hexact
  have hprobes := congrArg Statistics.probesCount hexact
  revert hprobes
  decide

end StatsDraw
end Draw3
end Szarp
