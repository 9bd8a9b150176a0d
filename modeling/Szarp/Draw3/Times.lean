import Szarp.Draw3.Update
import Szarp.Lib.Run

/-!
# Values keep their time

The view, the statistics and the positions of the deque are moved against each other; every entry
stays at the slot of time that its data was received for.
-/

namespace Szarp
namespace Draw3

def Response.data (method : AverageValueCalculationMethod) (r : Response) : Data :=
  ⟨r.sum, r.firstVal, r.lastVal, r.response, method.dbVal r, r.count⟩

/-! ## Intervals -/

theorem Interval.start_of_le {a b : ℤ} (h : a ≤ b) : (⟨a, b⟩ : Interval).start = a := min_eq_left h

theorem Interval.stop_of_le {a b : ℤ} (h : a ≤ b) : (⟨a, b⟩ : Interval).stop = b := max_eq_right h

/-- An interval with room for the filter on both sides. -/
theorem Interval.widen_eq (i : Interval) (f : ℕ) :
    (⟨i.start - f, i.stop + f⟩ : Interval).start = i.start - f ∧
      (⟨i.start - f, i.stop + f⟩ : Interval).stop = i.stop + f := by
  have hle : i.start - f ≤ i.stop + f := by
    have := i.start_le_stop
    omega
  exact ⟨Interval.start_of_le hle, Interval.stop_of_le hle⟩

theorem Interval.union_start (i j : Interval) : (i.union j).start = min i.start j.start := by
  have hi := i.start_le_stop
  have hj := j.start_le_stop
  simp only [Interval.union, Interval.start] at *
  omega

theorem Interval.union_stop (i j : Interval) : (i.union j).stop = max i.stop j.stop := by
  have hi := i.start_le_stop
  have hj := j.start_le_stop
  simp only [Interval.union, Interval.stop, Interval.start] at *
  omega

theorem Interval.move_start (i : Interval) (dr : ℤ) : (i.move dr).start = i.start + dr := by
  simp only [Interval.move, Interval.start]
  omega

theorem Interval.move_stop (i : Interval) (dr : ℤ) : (i.move dr).stop = i.stop + dr := by
  simp only [Interval.move, Interval.stop]
  omega

namespace Draw

/-! ## Slots -/

def position (d : Draw) (t : ℤ) : ℤ := t - d.startTime + d.view.start

/-- A slot of the range that is held. -/
def Held (d : Draw) (t : ℤ) : Prop := 0 ≤ d.position t ∧ d.position t < d.values.length

instance (d : Draw) (t : ℤ) : Decidable (d.Held t) := inferInstanceAs (Decidable (_ ∧ _))

def slot (d : Draw) (p : ℤ) : ℤ := d.startTime + (p - d.view.start)

theorem position_slot (d : Draw) (p : ℤ) : d.position (d.slot p) = p := by
  rw [position, slot]
  omega

/-- What is held for a slot. -/
def coreAt (d : Draw) (t : ℤ) : Option (Bool × Data) :=
  (entry d.values (d.position t)).map ValueInfo.core

theorem coreAt_eq (d : Draw) (t : ℤ) :
    d.coreAt t = (bareAt d.values (d.position t)).map ValueInfo.core := by
  rw [coreAt, bareAt, Option.map_map]
  rfl

/-- The slots that are held in `d'` have what was held for them, or nothing yet. -/
def Rebased (d d' : Draw) : Prop :=
  ∀ t, d'.Held t → d'.coreAt t = if d.Held t then d.coreAt t else some blank

structure Geometry (d : Draw) : Prop where
  number : 0 < d.numberOfValues
  view_size : d.view.mEnd = d.view.mStart + d.numberOfValues - 1
  view_front : d.filter ≤ d.view.start
  view_back : d.view.stop + d.filter < d.values.length
  stats_front : d.filter ≤ d.stats.start
  stats_back : d.stats.stop + d.filter < d.values.length
  single : d.doubleCursor = false → d.stats = d.view ∧ d.view.mStart = d.filter

theorem Geometry.start_eq {d : Draw} (h : d.Geometry) : d.view.start = d.view.mStart := by
  have hsize := h.view_size
  have hnumber := h.number
  rw [Interval.start]
  omega

theorem Geometry.stop_eq {d : Draw} (h : d.Geometry) : d.view.stop = d.view.mEnd := by
  have hsize := h.view_size
  have hnumber := h.number
  rw [Interval.stop]
  omega

theorem Geometry.recalculateStats_eq {d : Draw} (h : d.Geometry) : d.recalculateStats = some d := by
  have hfront := h.stats_front
  have hback := h.stats_back
  rw [recalculateStats, if_pos (by omega)]

theorem setNumberOfValues_spec {d d' : Draw} {n : ℕ} (hn : 0 < n)
    (h : d.setNumberOfValues n = some d') :
    d'.Geometry ∧ d'.doubleCursor = false ∧
      ∀ k v, entry d'.values k = some v → v = ValueInfo.new := by
  rw [setNumberOfValues] at h
  split at h
  · contradiction
  · rename_i hoff
    obtain rfl := Option.some.inj h
    let shown : Interval := ⟨d.filter, n - 1 + d.filter⟩
    have hstart : shown.start = d.filter := Interval.start_of_le (by omega)
    have hstop : shown.stop = n - 1 + d.filter := Interval.stop_of_le (by omega)
    have hlength : ((List.replicate (n + 2 * d.filter) ValueInfo.new).length : ℤ) =
        n + 2 * d.filter := by
      rw [List.length_replicate]
      omega
    have hback : shown.stop + d.filter <
        ((List.replicate (n + 2 * d.filter) ValueInfo.new).length : ℤ) := by omega
    refine ⟨⟨hn, ?_, hstart.ge, hback, hstart.ge, hback, fun _ => ⟨rfl, rfl⟩⟩, ?_, ?_⟩
    · change (n : ℤ) - 1 + d.filter = d.filter + n - 1
      omega
    · exact Bool.eq_false_iff.mpr hoff
    · intro k v hv
      obtain ⟨hpos, hlt⟩ := entry_range hv
      rw [entry_replicate_new _ hpos (by rwa [List.length_replicate] at hlt)] at hv
      exact (Option.some.inj hv).symm

/-! ## Moves -/

/-- The table around a view and statistics, given by positions. -/
def rebase (view stats : Interval) (d : Draw) : Draw :=
  { d with
    values := moveValues d.filter
      ⟨(view.union stats).start - d.filter, (view.union stats).stop + d.filter⟩ d.values
    view := view.move (-(view.union stats).start + d.filter)
    stats := stats.move (-(view.union stats).start + d.filter) }

theorem rebase_length (view stats : Interval) (d : Draw) :
    ((d.rebase view stats).values.length : ℤ) =
      max view.stop stats.stop - min view.start stats.start + 1 + 2 * d.filter := by
  have hfin := Interval.widen_eq (view.union stats) d.filter
  rw [rebase, length_moveValues, hfin.1, hfin.2, Interval.union_start, Interval.union_stop]
  omega

/-- What is shown and what the statistics are made of lies in the new table, with room for the
filter. -/
theorem rebase_geometry {view stats : Interval} {d : Draw} (hnumber : 0 < d.numberOfValues)
    (hsize : view.mEnd = view.mStart + d.numberOfValues - 1)
    (hsingle : d.doubleCursor = false → stats = view) : (d.rebase view stats).Geometry := by
  have hlength := d.rebase_length view stats
  have hview := view.start_le_stop
  have hstats := stats.start_le_stop
  have hstart : (view.union stats).start = min view.start stats.start := Interval.union_start ..
  constructor
  · exact hnumber
  · change view.mEnd + _ = view.mStart + _ + d.numberOfValues - 1
    omega
  · change d.filter ≤ (view.move _).start
    rw [Interval.move_start]
    omega
  · change (view.move _).stop + d.filter < _
    rw [Interval.move_stop, hlength]
    omega
  · change d.filter ≤ (stats.move _).start
    rw [Interval.move_start]
    omega
  · change (stats.move _).stop + d.filter < _
    rw [Interval.move_stop, hlength]
    omega
  · intro hcursor
    have heq := hsingle hcursor
    have hmin : (view.union stats).start = view.mStart := by
      rw [hstart, heq, min_self, Interval.start]
      omega
    refine ⟨?_, ?_⟩
    · change stats.move _ = view.move _
      rw [heq]
    · change view.mStart + (-(view.union stats).start + d.filter) = d.filter
      omega

section Rebase

variable {view stats : Interval} {d d' : Draw}

/-- The entries of the slots, when the start of the view is moved to the new start time. -/
theorem rebase_bareAt (hd : d'.startTime - view.start = d.startTime - d.view.start)
    (hvalues : d'.values = (d.rebase view stats).values)
    (hview : d'.view = (d.rebase view stats).view) {t : ℤ} (ht : d'.Held t) :
    bareAt d'.values (d'.position t) =
      if d.Held t then bareAt d.values (d.position t) else some ValueInfo.new := by
  have hlength := d.rebase_length view stats
  have hfin := Interval.widen_eq (view.union stats) d.filter
  have hstart : d'.view.start = view.start + (-(view.union stats).start + d.filter) := by
    rw [hview]
    exact Interval.move_start ..
  have hposition : d.position t = d'.position t + ((view.union stats).start - d.filter) := by
    rw [position, position, hstart]
    omega
  rw [Held, hvalues] at ht
  rw [hvalues, rebase, bareAt_moveValues d.filter _ _ ht.1]
  · rw [hfin.1, ← hposition]
    rfl
  · rw [hfin.1, hfin.2, Interval.union_start, Interval.union_stop]
    omega

theorem rebase_rebased (hd : d'.startTime - view.start = d.startTime - d.view.start)
    (hvalues : d'.values = (d.rebase view stats).values)
    (hview : d'.view = (d.rebase view stats).view) : d.Rebased d' := by
  intro t ht
  rw [coreAt_eq, rebase_bareAt hd hvalues hview ht]
  split
  · rw [coreAt_eq]
  · rfl

end Rebase

/-- The statistics stay behind when there is a double cursor. -/
def carried (dist : ℤ) (d : Draw) : Interval :=
  if d.doubleCursor then d.stats else d.stats.move dist

theorem moveView_eq (dist : ℤ) (d : Draw) :
    d.moveView dist =
      if d.doubleCursor then some (d.rebase (d.view.move dist) (d.carried dist))
      else (d.rebase (d.view.move dist) (d.carried dist)).recalculateStats := rfl

theorem dragStats_eq (disp : ℤ) {d : Draw} (h : d.doubleCursor = true) :
    d.dragStats disp =
      ({ d with statsStartTime := d.statsStartTime + disp }.rebase d.view
        (d.stats.drag disp)).recalculateStats := by
  have hstart : ∀ i j : Interval, (i.union j).mStart = (i.union j).start := by
    intro i j
    have hi := i.start_le_stop
    have hj := j.start_le_stop
    simp only [Interval.union, Interval.start, Interval.stop] at *
    omega
  have hstop : ∀ i j : Interval, (i.union j).mEnd = (i.union j).stop := by
    intro i j
    have hi := i.start_le_stop
    have hj := j.start_le_stop
    simp only [Interval.union, Interval.start, Interval.stop] at *
    omega
  simp only [dragStats, h, if_true, hstart, hstop]
  rfl

/-- A step that moves the table but keeps what is held for the slots. -/
structure Kept (d d' : Draw) : Prop where
  geometry : d'.Geometry
  rebased : d.Rebased d'
  method_eq : d'.method = d.method

/-- A step that also keeps what the statistics are made of, but for the end that is dragged. -/
structure Shifted (dragged : ℤ) (d d' : Draw) : Prop extends Kept d d' where
  cursor_eq : d'.doubleCursor = d.doubleCursor
  statsStartTime_eq : d'.statsStartTime = d.statsStartTime + dragged
  anchored : d.doubleCursor = true → d'.slot d'.stats.mEnd = d.slot d.stats.mEnd
  dragged_eq : d.doubleCursor = true →
    d'.slot d'.stats.mStart = d.slot d.stats.mStart + dragged

theorem rebased_refl (d : Draw) : d.Rebased d := fun _ ht => (if_pos ht).symm

theorem Geometry.moveView_shifted {d : Draw} (h : d.Geometry) (dist : ℤ) :
    ∃ d', { d with startTime := d.startTime + dist }.moveView dist = some d' ∧
      Shifted 0 d d' := by
  let moved : Draw := { d with startTime := d.startTime + dist }
  have hgeometry : (moved.rebase (d.view.move dist) (d.carried dist)).Geometry := by
    have hsize := h.view_size
    have hmoved : (d.view.move dist).mEnd =
        (d.view.move dist).mStart + moved.numberOfValues - 1 := by
      change d.view.mEnd + dist = d.view.mStart + dist + d.numberOfValues - 1
      omega
    apply rebase_geometry (show 0 < moved.numberOfValues from h.number) hmoved
    intro hcursor
    rw [carried, show d.doubleCursor = false from hcursor, (h.single hcursor).1]
    rfl
  refine ⟨moved.rebase (d.view.move dist) (d.carried dist), ?_, ⟨hgeometry, ?_, rfl⟩, rfl, ?_, ?_,
    ?_⟩
  · change moved.moveView dist = _
    rw [moveView_eq]
    split
    · rfl
    · exact hgeometry.recalculateStats_eq
  · have hstart : moved.startTime - (d.view.move dist).start = d.startTime - d.view.start := by
      change d.startTime + dist - _ = _
      rw [Interval.move_start]
      omega
    exact rebase_rebased hstart rfl rfl
  · exact (add_zero _).symm
  · intro hcursor
    have hstats : d.carried dist = d.stats := if_pos hcursor
    change d.startTime + dist + ((d.carried dist).mEnd + _ - ((d.view.move dist).move _).start) = _
    rw [Interval.move_start, Interval.move_start, hstats, slot]
    omega
  · intro hcursor
    have hstats : d.carried dist = d.stats := if_pos hcursor
    change d.startTime + dist + ((d.carried dist).mStart + _ - ((d.view.move dist).move _).start) = _
    rw [Interval.move_start, Interval.move_start, hstats, slot]
    omega

theorem Geometry.moveToTime_shifted {d : Draw} (h : d.Geometry) (time : ℤ) :
    ∃ d', d.moveToTime time = some d' ∧ Shifted 0 d d' := by
  rw [moveToTime]
  split
  · refine ⟨d, rfl, ⟨h, rebased_refl d, rfl⟩, rfl, ?_, fun _ => rfl, fun _ => ?_⟩
    · exact (add_zero _).symm
    · exact (add_zero _).symm
  · have hmoved := h.moveView_shifted (time - d.startTime)
    rwa [add_sub_cancel] at hmoved

theorem Geometry.dragStats_shifted {d : Draw} (h : d.Geometry) (disp : ℤ) :
    ∃ d', d.dragStats disp = some d' ∧ Shifted disp d d' := by
  cases hcursor : d.doubleCursor with
  | false =>
    let dragged : Draw := { d with statsStartTime := d.statsStartTime + disp }
    have hgeometry : dragged.Geometry := { h with }
    refine ⟨dragged, ?_, ⟨hgeometry, rebased_refl d, rfl⟩, rfl, rfl, ?_, ?_⟩
    · have hoff : ¬dragged.doubleCursor = true := Bool.eq_false_iff.mp hcursor
      exact if_neg hoff
    · intro hon
      rw [hcursor] at hon
      contradiction
    · intro hon
      rw [hcursor] at hon
      contradiction
  | true =>
    let dragged : Draw := { d with statsStartTime := d.statsStartTime + disp }
    have hgeometry : (dragged.rebase d.view (d.stats.drag disp)).Geometry := by
      apply rebase_geometry (show 0 < dragged.numberOfValues from h.number) h.view_size
      intro hoff
      rw [show d.doubleCursor = false from hoff] at hcursor
      contradiction
    refine ⟨_, ?_, ⟨hgeometry, ?_, rfl⟩, rfl, rfl, ?_, ?_⟩
    · rw [dragStats_eq disp hcursor, hgeometry.recalculateStats_eq]
    · exact rebase_rebased rfl rfl rfl
    · intro _
      change d.startTime + (d.stats.mEnd + _ - (d.view.move _).start) = _
      rw [Interval.move_start, slot]
      omega
    · intro _
      change d.startTime + (d.stats.mStart + disp + _ - (d.view.move _).start) = _
      rw [Interval.move_start, slot]
      omega

theorem switchFilter_eq (t : ℕ) (d : Draw) :
    d.switchFilter t = (resize (t - d.filter) d.values).map fun values =>
      { d with
        filter := t
        view := d.view.move (t - d.filter)
        stats := d.stats.move (t - d.filter)
        values := refilter t values } := rfl

theorem Geometry.switchFilter_shifted {d : Draw} (h : d.Geometry) (t : ℕ) :
    ∃ d', d.switchFilter t = some d' ∧ Shifted 0 d d' := by
  have hfront := h.view_front
  have hback := h.view_back
  have hstats := h.stats_front
  have hstats' := h.stats_back
  have hle := d.view.start_le_stop
  obtain ⟨values, hvalues, hlength, hcore⟩ :=
    exists_resize (show (0 : ℤ) ≤ d.values.length + 2 * (t - d.filter) by omega)
  have hstart := Interval.move_start d.view (t - d.filter)
  have hmoved : ({ d with
      filter := t
      view := d.view.move (t - d.filter)
      stats := d.stats.move (t - d.filter)
      values := refilter t values } : Draw).Geometry := by
    constructor
    · exact h.number
    · have hsize := h.view_size
      change d.view.mEnd + _ = d.view.mStart + _ + d.numberOfValues - 1
      omega
    · change (t : ℤ) ≤ (d.view.move _).start
      omega
    · change (d.view.move _).stop + t < ((refilter t values).length : ℤ)
      rw [Interval.move_stop, length_refilter]
      omega
    · change (t : ℤ) ≤ (d.stats.move _).start
      rw [Interval.move_start]
      omega
    · change (d.stats.move _).stop + t < ((refilter t values).length : ℤ)
      rw [Interval.move_stop, length_refilter]
      omega
    · intro hcursor
      obtain ⟨heq, hfilter⟩ := h.single hcursor
      refine ⟨congrArg (Interval.move · _) heq, ?_⟩
      change d.view.mStart + (t - d.filter) = t
      omega
  refine ⟨_, by rw [switchFilter_eq, hvalues, Option.map_some], ⟨hmoved, ?_, rfl⟩, rfl, ?_, ?_, ?_⟩
  · intro s hs
    change (entry (refilter t values) _).map ValueInfo.core = _
    have hposition : s - d.startTime + (d.view.move (t - d.filter)).start - (t - d.filter) =
        d.position s := by
      rw [position]
      omega
    have hrange : 0 ≤ s - d.startTime + (d.view.move (t - d.filter)).start ∧
        s - d.startTime + (d.view.move (t - d.filter)).start < (refilter t values).length := hs
    rw [length_refilter] at hrange
    rw [core_refilter, position]
    change (entry values (s - d.startTime + (d.view.move (t - d.filter)).start)).map _ = _
    rw [hcore _ hrange.1 hrange.2, hposition]
    by_cases hheld : d.Held s
    · rw [if_pos (show 0 ≤ d.position s ∧ d.position s < d.values.length from hheld),
        if_pos hheld, Option.map_map]
      rfl
    · rw [if_neg (show ¬(0 ≤ d.position s ∧ d.position s < d.values.length) from hheld),
        if_neg hheld]
      rfl
  · exact (add_zero _).symm
  · intro _
    change d.startTime + (d.stats.mEnd + _ - (d.view.move _).start) = _
    rw [hstart, slot]
    omega
  · intro _
    change d.startTime + (d.stats.mStart + _ - (d.view.move _).start) = _
    rw [hstart, slot]
    omega

/-! ## The double cursor -/

theorem Geometry.startDoubleCursor_kept {d : Draw} (h : d.Geometry) (hoff : d.doubleCursor = false)
    {index : ℤ} (hindex : 0 ≤ index) (hindex' : index < d.numberOfValues) :
    ∃ d', d.startDoubleCursor index = some d' ∧ Kept d d' ∧ d'.doubleCursor = true ∧
      d'.statsStartTime = d.startTime + index ∧
      d'.slot d'.stats.mStart = d.startTime + index ∧
      d'.slot d'.stats.mEnd = d.startTime + index := by
  obtain ⟨-, hfilter⟩ := h.single hoff
  have hstart := h.start_eq
  have hstop := h.stop_eq
  have hsize := h.view_size
  have hback := h.view_back
  have hpoint := Interval.start_of_le (le_refl (index + d.filter))
  have hpoint' := Interval.stop_of_le (le_refl (index + d.filter))
  let d' : Draw := { d with
    stats := ⟨index + d.filter, index + d.filter⟩
    statsStartTime := d.startTime + index
    doubleCursor := true }
  have hgeometry : d'.Geometry := by
    refine ⟨h.number, hsize, h.view_front, hback, ?_, ?_, ?_⟩
    · change (d.filter : ℤ) ≤ Interval.start ⟨_, _⟩
      omega
    · change Interval.stop ⟨_, _⟩ + (d.filter : ℤ) < (d.values.length : ℤ)
      omega
    · intro hcursor
      contradiction
  have hslot : d.startTime + (index + d.filter - d.view.start) = d.startTime + index := by omega
  refine ⟨d', ?_, ⟨hgeometry, rebased_refl d, rfl⟩, rfl, rfl, hslot, hslot⟩
  rw [startDoubleCursor, recalculateStats, if_pos]
  · rfl
  · refine ⟨?_, ?_⟩
    · change 0 ≤ Interval.start ⟨_, _⟩
      omega
    · change Interval.stop ⟨_, _⟩ < (d.values.length : ℤ)
      omega

theorem Geometry.stopDoubleCursor_kept {d : Draw} (h : d.Geometry) :
    ∃ d', d.stopDoubleCursor = some d' ∧ Kept d d' ∧ d'.doubleCursor = false := by
  have hnumber := h.number
  have hstart := h.start_eq
  have hstop := h.stop_eq
  have hsize := h.view_size
  have hfront := h.view_front
  have hback := h.view_back
  let pops := (d.view.mStart - d.filter).toNat
  let shown : Interval := ⟨d.filter, d.filter + (d.view.mEnd - d.view.mStart)⟩
  have hshown : shown.start = d.filter := Interval.start_of_le (by omega)
  have hshown' : shown.stop = d.filter + (d.view.mEnd - d.view.mStart) :=
    Interval.stop_of_le (by omega)
  let d' : Draw := { d with
    values := d.values.drop pops
    view := shown
    stats := shown
    doubleCursor := false }
  have hlength : (d'.values.length : ℤ) = d.values.length - pops := by
    change ((d.values.drop pops).length : ℤ) = _
    rw [List.length_drop]
    omega
  have hgeometry : d'.Geometry := by
    refine ⟨hnumber, ?_, hshown.ge, ?_, hshown.ge, ?_, fun _ => ⟨rfl, rfl⟩⟩
    · change (d.filter : ℤ) + (d.view.mEnd - d.view.mStart) = d.filter + d.numberOfValues - 1
      omega
    · change shown.stop + d.filter < _
      omega
    · change shown.stop + d.filter < _
      omega
  refine ⟨d', ?_, ⟨hgeometry, ?_, rfl⟩, rfl⟩
  · have hpops : pops ≤ d.values.length := by omega
    have hstats : 0 ≤ shown.start ∧ shown.stop < (d.values.drop pops).length := by
      change 0 ≤ shown.start ∧ shown.stop < (d'.values.length : ℤ)
      omega
    apply (if_pos hpops).trans
    exact congrArg (Option.map _) (if_pos hstats)
  · intro t ht
    have hposition : d'.position t + pops = d.position t := by
      change t - d.startTime + shown.start + pops = t - d.startTime + d.view.start
      omega
    have hheld : d.Held t := by
      have hrange : 0 ≤ d'.position t ∧ d'.position t < d'.values.length := ht
      rw [Held]
      omega
    rw [if_pos hheld, coreAt, coreAt]
    change (entry (d.values.drop pops) _).map _ = _
    rw [entry_drop _ _ ht.1, hposition]

/-! ## Responses -/

theorem insertValue_eq (r : Response) (d : Draw) :
    ∃ values, d.insertValue r = { d with values := values } ∧
      values.length = d.values.length := by
  unfold insertValue
  dsimp only
  split
  · exact ⟨_, rfl, rfl⟩
  · split
    · exact ⟨_, rfl, rfl⟩
    · exact ⟨_, rfl, by rw [length_updateProbesValues, List.length_modify]⟩

/-- The response is stored in the entry of its slot, or nothing is changed. -/
theorem coreAt_insertValue (r : Response) (d : Draw) :
    d.insertValue r = d ∨
      ∀ t, (d.insertValue r).coreAt t =
        if t = r.time then (d.coreAt t).map fun _ => (true, r.data d.method) else d.coreAt t := by
  unfold insertValue
  dsimp only
  split
  · exact Or.inl rfl
  · rename_i hheld
    split
    · exact Or.inl rfl
    · right
      intro t
      have hposition : (((r.time - d.startTime + d.view.start).toNat : ℕ) : ℤ) =
          d.position r.time := Int.toNat_of_nonneg (by omega)
      have heq : d.position t = d.position r.time ↔ t = r.time := by
        rw [position, position]
        omega
      simp only [coreAt]
      rw [core_updateProbesValues, entry_modify, hposition]
      change Option.map _ (if d.position t = _ then (entry d.values (d.position t)).map _
        else entry d.values (d.position t)) = _
      change Option.map (fun n => if d.position t = _ then _ else _) _ = _
      simp only [heq]
      split_ifs
      · rw [Option.map_map, Option.map_map]
        rfl
      · rfl

/-! ## Requests -/

def asked (d : Draw) (k : ℤ) (v : ValueInfo) : ValueInfo :=
  if v.state = .empty then { v with maxProbes := d.maxProbes (d.slot k), state := .pending } else v

theorem entry_getDataToFetch (d : Draw) (k : ℤ) :
    entry d.getDataToFetch.values k = (entry d.values k).map (d.asked k) := by
  change entry (d.values.mapIdx fun i => d.asked i) k = _
  rw [entry_mapIdx]
  rcases lt_or_ge k 0 with hneg | hpos
  · rw [entry_of_neg _ hneg, Option.map_none, Option.map_none]
  · rw [Int.toNat_of_nonneg hpos]

theorem coreAt_getDataToFetch (d : Draw) (t : ℤ) : d.getDataToFetch.coreAt t = d.coreAt t := by
  change (entry d.getDataToFetch.values (d.position t)).map _ = (entry d.values _).map _
  rw [entry_getDataToFetch, Option.map_map]
  congr 1
  funext v
  rw [Function.comp_apply, asked]
  split
  · rename_i hempty
    simp [ValueInfo.core, ValueInfo.isReceived, ValueInfo.data, hempty]
  · rfl

theorem Geometry.getDataToFetch_shifted {d : Draw} (h : d.Geometry) :
    Shifted 0 d d.getDataToFetch := by
  have hlength : d.getDataToFetch.values.length = d.values.length := List.length_mapIdx
  have hgeometry : d.getDataToFetch.Geometry := by
    refine ⟨h.number, h.view_size, h.view_front, ?_, h.stats_front, ?_, h.single⟩
    · rw [hlength]
      exact h.view_back
    · rw [hlength]
      exact h.stats_back
  refine ⟨⟨hgeometry, ?_, rfl⟩, rfl, (add_zero _).symm, fun _ => rfl, fun _ => (add_zero _).symm⟩
  intro t ht
  have hheld : d.Held t := by
    rw [Held, hlength] at ht
    exact ht
  rw [if_pos hheld, coreAt_getDataToFetch]

end Draw
end Draw3
end Szarp
