import Szarp.Draw3.Times

/-!
# Runs of a draw

Along with the draw go the responses that have come so far, and the slot at which the double cursor
was started.
-/

namespace Szarp
namespace Draw3

namespace Draw

def Op.responses : Op → List Response
  | .insertValue r => [r]
  | .addData vv => vv
  | _ => []

def Op.dragged : Op → ℤ
  | .dragStats disp => disp
  | _ => 0

/-- Every entry holds a response for its slot, or nothing. -/
def OnlyOf (history : List Response) (d : Draw) : Prop :=
  ∀ t c, d.coreAt t = some c →
    c = blank ∨ ∃ r ∈ history, r.time = t ∧ c = (true, r.data d.method)

/-- What has been received for the slots held in `d'` is still there, unless there is a new
response. -/
def Retains (responses : List Response) (d d' : Draw) : Prop :=
  ∀ t data, d.coreAt t = some (true, data) → d'.Held t → ∃ data',
    d'.coreAt t = some (true, data') ∧
      (data' = data ∨ ∃ r ∈ responses, r.time = t ∧ data' = r.data d.method)

theorem held_of_coreAt {d : Draw} {t : ℤ} {c : Bool × Data} (h : d.coreAt t = some c) :
    d.Held t := by
  obtain ⟨v, hv, -⟩ := Option.map_eq_some_iff.mp h
  exact entry_range hv

theorem Kept.onlyOf {d d' : Draw} (h : Kept d d') {history : List Response}
    (honly : d.OnlyOf history) : d'.OnlyOf history := by
  intro t c hc
  rw [h.rebased t (held_of_coreAt hc)] at hc
  rw [h.method_eq]
  split at hc
  · exact honly t c hc
  · left
    exact (Option.some.inj hc).symm

theorem Kept.retains {d d' : Draw} (h : Kept d d') (responses : List Response) :
    d.Retains responses d' := by
  intro t data hdata ht
  refine ⟨data, ?_, Or.inl rfl⟩
  rw [h.rebased t ht, if_pos (held_of_coreAt hdata), hdata]

/-! ## Responses -/

theorem onlyOf_insertValue (r : Response) {d : Draw} {history : List Response}
    (h : d.OnlyOf history) : (d.insertValue r).OnlyOf (history ++ [r]) := by
  have hmore : d.OnlyOf (history ++ [r]) := by
    intro t c hc
    apply (h t c hc).imp_right
    rintro ⟨r', hr', hrest⟩
    exact ⟨r', List.mem_append_left _ hr', hrest⟩
  obtain ⟨values, heq, -⟩ := insertValue_eq r d
  have hmethod : (d.insertValue r).method = d.method := by rw [heq]
  rcases coreAt_insertValue r d with hsame | hcore
  · rwa [hsame]
  · intro t c hc
    rw [hcore] at hc
    rw [hmethod]
    split at hc
    · rename_i ht
      obtain ⟨_, -, rfl⟩ := Option.map_eq_some_iff.mp hc
      exact Or.inr ⟨r, List.mem_append_right _ List.mem_cons_self, ht.symm, rfl⟩
    · exact hmore t c hc

theorem retains_insertValue (r : Response) (d : Draw) : d.Retains [r] (d.insertValue r) := by
  intro t data hdata _
  rcases coreAt_insertValue r d with hsame | hcore
  · exact ⟨data, by rw [hsame, hdata], Or.inl rfl⟩
  · rw [hcore]
    split
    · rename_i ht
      refine ⟨r.data d.method, ?_, Or.inr ⟨r, List.mem_cons_self, ht.symm, rfl⟩⟩
      rw [hdata, Option.map_some]
    · exact ⟨data, hdata, Or.inl rfl⟩

theorem addData_eq (vv : List Response) (d : Draw) :
    ∃ values, d.addData vv = { d with values := values } ∧ values.length = d.values.length := by
  induction vv generalizing d with
  | nil => exact ⟨d.values, rfl, rfl⟩
  | cons r vv ih =>
    obtain ⟨values, heq, hlength⟩ := insertValue_eq r d
    obtain ⟨values', heq', hlength'⟩ := ih (d.insertValue r)
    refine ⟨values', ?_, ?_⟩
    · change (d.insertValue r).addData vv = _
      rw [heq', heq]
    · rw [hlength', heq, hlength]

theorem onlyOf_addData (vv : List Response) {d : Draw} {history : List Response}
    (h : d.OnlyOf history) : (d.addData vv).OnlyOf (history ++ vv) := by
  induction vv generalizing d history with
  | nil => rwa [List.append_nil]
  | cons r vv ih =>
    have hrest := ih (onlyOf_insertValue r h)
    rwa [List.append_assoc] at hrest

theorem retains_addData (vv : List Response) (d : Draw) : d.Retains vv (d.addData vv) := by
  induction vv generalizing d with
  | nil => exact fun t data hdata _ => ⟨data, hdata, Or.inl rfl⟩
  | cons r vv ih =>
    intro t data hdata ht
    obtain ⟨values, heq, -⟩ := insertValue_eq r d
    have hmethod : (d.insertValue r).method = d.method := by rw [heq]
    obtain ⟨values', heq', hlength'⟩ := addData_eq vv (d.insertValue r)
    have hheld : (d.insertValue r).Held t := by
      have hrange : (d.addData (r :: vv)).Held t := ht
      change ((d.insertValue r).addData vv).Held t at hrange
      rw [heq'] at hrange
      simpa only [Held, position, hlength'] using hrange
    obtain ⟨data₁, hdata₁, hor₁⟩ := retains_insertValue r d t data hdata hheld
    obtain ⟨data₂, hdata₂, hor₂⟩ := ih (d.insertValue r) t data₁ hdata₁ ht
    refine ⟨data₂, hdata₂, ?_⟩
    rcases hor₂ with rfl | ⟨r', hr', hrest⟩
    · apply hor₁.imp_right
      rintro ⟨r', hr', hrest⟩
      rw [List.mem_singleton.mp hr'] at hrest
      exact ⟨r, List.mem_cons_self, hrest⟩
    · rw [hmethod] at hrest
      exact Or.inr ⟨r', List.mem_cons_of_mem r hr', hrest⟩

end Draw

/-! ## Runs -/

structure Tracked where
  draw : Draw
  history : List Response
  anchor : ℤ

namespace Tracked

open Draw (Op)

def anchorAfter (s : Tracked) : Op → ℤ
  | .startDoubleCursor index => s.draw.startTime + index
  | _ => s.anchor

def step (s : Tracked) (op : Op) : Option Tracked :=
  (s.draw.step op).map fun d => ⟨d, s.history ++ op.responses, s.anchorAfter op⟩

/-- The double cursor is started at a shown value, and only stopped when it is on. The number of
values stays as it is. -/
def Legal (s : Tracked) : Op → Prop
  | .setNumberOfValues _ => False
  | .startDoubleCursor index =>
    s.draw.doubleCursor = false ∧ 0 ≤ index ∧ index < s.draw.numberOfValues
  | .stopDoubleCursor => s.draw.doubleCursor = true
  | _ => True

structure Good (s : Tracked) : Prop where
  view_range : 0 ≤ s.draw.view.start ∧ s.draw.view.start ≤ s.draw.view.stop ∧
    s.draw.view.stop < s.draw.values.length
  stats_range : 0 ≤ s.draw.stats.start ∧ s.draw.stats.start ≤ s.draw.stats.stop ∧
    s.draw.stats.stop < s.draw.values.length
  view_size : s.draw.view.stop - s.draw.view.start + 1 = s.draw.numberOfValues
  front : s.draw.filter ≤ s.draw.view.start
  back : s.draw.view.stop + s.draw.filter < s.draw.values.length
  only_of_slot : ∀ p v, entry s.draw.values p = some v →
    v.core = blank ∨ ∃ r ∈ s.history, r.time = s.draw.slot p ∧
      v.core = (true, r.data s.draw.method)
  anchored : s.draw.doubleCursor = true → s.draw.slot s.draw.stats.mEnd = s.anchor
  dragged : s.draw.doubleCursor = true →
    s.draw.slot s.draw.stats.mStart = s.draw.statsStartTime

structure GoodStep (s : Tracked) (op : Op) (s' : Tracked) : Prop where
  retains : s.draw.Retains op.responses s'.draw
  ends : s.draw.doubleCursor = true → s'.draw.doubleCursor = true →
    s'.draw.slot s'.draw.stats.mEnd = s.draw.slot s.draw.stats.mEnd ∧
      s'.draw.slot s'.draw.stats.mStart = s.draw.slot s.draw.stats.mStart + op.dragged

structure Invariant (s : Tracked) : Prop where
  geometry : s.draw.Geometry
  onlyOf : s.draw.OnlyOf s.history
  anchored : s.draw.doubleCursor = true → s.draw.slot s.draw.stats.mEnd = s.anchor
  dragged : s.draw.doubleCursor = true →
    s.draw.slot s.draw.stats.mStart = s.draw.statsStartTime

theorem Invariant.good {s : Tracked} (h : s.Invariant) : s.Good := by
  have hstart := h.geometry.start_eq
  have hstop := h.geometry.stop_eq
  have hsize := h.geometry.view_size
  have hfront := h.geometry.view_front
  have hback := h.geometry.view_back
  have hstats := h.geometry.stats_front
  have hstats' := h.geometry.stats_back
  refine ⟨⟨by omega, s.draw.view.start_le_stop, by omega⟩,
    ⟨by omega, s.draw.stats.start_le_stop, by omega⟩, by omega, hfront, hback, ?_, h.anchored,
    h.dragged⟩
  intro p v hv
  apply h.onlyOf (s.draw.slot p) v.core
  rw [Draw.coreAt, Draw.position_slot, hv, Option.map_some]

theorem Invariant.of_shifted {s : Tracked} (h : s.Invariant) {op : Op} {d : Draw}
    (hstep : s.draw.step op = some d) (hshifted : Draw.Shifted op.dragged s.draw d)
    (hresponses : op.responses = []) (hanchor : s.anchorAfter op = s.anchor) :
    ∃ s', s.step op = some s' ∧ GoodStep s op s' ∧ s'.Invariant := by
  refine ⟨⟨d, s.history ++ op.responses, s.anchorAfter op⟩, ?_, ⟨?_, ?_⟩, ?_⟩
  · rw [step, hstep, Option.map_some]
  · exact hshifted.retains op.responses
  · intro hon _
    exact ⟨hshifted.anchored hon, hshifted.dragged_eq hon⟩
  · rw [hresponses, hanchor, List.append_nil]
    refine ⟨hshifted.geometry, hshifted.onlyOf h.onlyOf, ?_, ?_⟩
    · intro hon
      rw [hshifted.cursor_eq] at hon
      exact (hshifted.anchored hon).trans (h.anchored hon)
    · intro hon
      rw [hshifted.cursor_eq] at hon
      rw [hshifted.dragged_eq hon, hshifted.statsStartTime_eq, h.dragged hon]

theorem Invariant.of_addData {s : Tracked} (h : s.Invariant) {op : Op}
    (hstep : s.draw.step op = some (s.draw.addData op.responses)) (hdragged : op.dragged = 0)
    (hanchor : s.anchorAfter op = s.anchor) :
    ∃ s', s.step op = some s' ∧ GoodStep s op s' ∧ s'.Invariant := by
  have honly := Draw.onlyOf_addData op.responses h.onlyOf
  have hretains := Draw.retains_addData op.responses s.draw
  obtain ⟨values, heq, hlength⟩ := Draw.addData_eq op.responses s.draw
  rw [heq] at hstep honly hretains
  refine ⟨⟨{ s.draw with values := values }, s.history ++ op.responses, s.anchor⟩, ?_,
    ⟨hretains, fun _ _ => ⟨rfl, ?_⟩⟩, ⟨?_, honly, h.anchored, h.dragged⟩⟩
  · rw [step, hstep, Option.map_some, hanchor]
  · rw [hdragged, add_zero]
    rfl
  · have hback := h.geometry.view_back
    have hstats := h.geometry.stats_back
    rw [← hlength] at hback hstats
    exact { h.geometry with view_back := hback, stats_back := hstats }

theorem Invariant.step {s : Tracked} (h : s.Invariant) {op : Op} (hlegal : s.Legal op) :
    ∃ s', s.step op = some s' ∧ GoodStep s op s' ∧ s'.Invariant := by
  cases op with
  | setNumberOfValues n => exact absurd hlegal id
  | moveView dist =>
    obtain ⟨d, hd, hshifted⟩ := h.geometry.moveView_shifted dist
    exact h.of_shifted hd hshifted rfl rfl
  | moveToTime time =>
    obtain ⟨d, hd, hshifted⟩ := h.geometry.moveToTime_shifted time
    exact h.of_shifted hd hshifted rfl rfl
  | dragStats disp =>
    obtain ⟨d, hd, hshifted⟩ := h.geometry.dragStats_shifted disp
    exact h.of_shifted hd hshifted rfl rfl
  | startDoubleCursor index =>
    obtain ⟨hoff, hindex, hindex'⟩ := hlegal
    obtain ⟨d, hd, hkept, -, hstats, hstart, hend⟩ :=
      h.geometry.startDoubleCursor_kept hoff hindex hindex'
    refine ⟨⟨d, s.history ++ [], s.draw.startTime + index⟩, ?_, ⟨hkept.retains [], ?_⟩, ?_⟩
    · rw [Tracked.step, show s.draw.step (.startDoubleCursor index) = some d from hd]
      rfl
    · intro hon
      rw [hoff] at hon
      contradiction
    · rw [List.append_nil]
      exact ⟨hkept.geometry, hkept.onlyOf h.onlyOf, fun _ => hend, fun _ => hstart.trans hstats.symm⟩
  | stopDoubleCursor =>
    obtain ⟨d, hd, hkept, hoff⟩ := h.geometry.stopDoubleCursor_kept
    have hoff' : ¬d.doubleCursor = true := Bool.eq_false_iff.mp hoff
    refine ⟨⟨d, s.history ++ [], s.anchor⟩, ?_, ⟨hkept.retains [], ?_⟩, ?_⟩
    · rw [Tracked.step, show s.draw.step .stopDoubleCursor = some d from hd]
      rfl
    · intro _ hon
      exact absurd hon hoff'
    · rw [List.append_nil]
      exact ⟨hkept.geometry, hkept.onlyOf h.onlyOf, fun hon => absurd hon hoff',
        fun hon => absurd hon hoff'⟩
  | switchFilter t =>
    obtain ⟨d, hd, hshifted⟩ := h.geometry.switchFilter_shifted t
    exact h.of_shifted hd hshifted rfl rfl
  | insertValue r => exact h.of_addData rfl rfl rfl
  | addData vv => exact h.of_addData rfl rfl rfl
  | getDataToFetch => exact h.of_shifted rfl h.geometry.getDataToFetch_shifted rfl rfl

theorem invariant_setNumberOfValues {d₀ d : Draw} {n : ℕ} (hn : 0 < n)
    (h : d₀.setNumberOfValues n = some d) (anchor : ℤ) : (⟨d, [], anchor⟩ : Tracked).Invariant := by
  obtain ⟨hgeometry, hoff, hvalues⟩ := Draw.setNumberOfValues_spec hn h
  have hoff' : ¬d.doubleCursor = true := Bool.eq_false_iff.mp hoff
  refine ⟨hgeometry, ?_, fun hon => absurd hon hoff', fun hon => absurd hon hoff'⟩
  intro t c hc
  obtain ⟨v, hv, rfl⟩ := Option.map_eq_some_iff.mp hc
  left
  rw [hvalues _ v hv]
  rfl

theorem draw_keeps_time (d₀ d : Draw) (n : ℕ) (hn : 0 < n) (h : d₀.setNumberOfValues n = some d)
    (ops : List Op) (hops : Run.LegalRun step Legal ⟨d, [], 0⟩ ops) :
    Run.SafeRun step Good GoodStep ⟨d, [], 0⟩ ops :=
  Run.safeRun_of_inv Invariant (fun _ _ hs hlegal => hs.step hlegal) (fun _ hs => hs.good)
    (invariant_setNumberOfValues hn h 0) hops

/-- Statistics are dragged beyond what is shown, and the filter is switched off after a move. -/
theorem draggedRun_keeps_time :
    Run.SafeRun step Good GoodStep
      ⟨{ Draw.unset 1 with
          values := List.replicate 5 ValueInfo.new
          view := ⟨1, 3⟩
          stats := ⟨1, 3⟩
          numberOfValues := 3 }, [], 0⟩
      [.startDoubleCursor 1, .dragStats 5, .addData [⟨2, some 7, none, none, some 7, 1⟩],
        .moveToTime 1, .switchFilter 0] :=
  draw_keeps_time (Draw.unset 1) _ 3 (by decide) rfl _
    ⟨⟨rfl, by decide, by decide⟩, fun _ _ => ⟨trivial, fun _ _ => ⟨trivial, fun _ _ =>
      ⟨trivial, fun _ _ => ⟨trivial, fun _ _ => trivial⟩⟩⟩⟩⟩

end Tracked
end Draw3
end Szarp
