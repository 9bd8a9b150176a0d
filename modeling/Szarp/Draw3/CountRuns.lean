import Szarp.Draw3.Counts
import Szarp.Draw3.Times

/-!
# Counts along runs

Moves and the end of the double cursor drop entries that are still counted by others. The counts
are right along exactly those runs in which no such entry is dropped.
-/

namespace Szarp
namespace Draw3
namespace Draw

def neighboursAt (d : Draw) (k : ℤ) : ℕ := neighbours d.filter (receivedAt d.values) k

/-- Every count is right, and no entry waits for neighbours that have all been received. -/
def Counted (d : Draw) : Prop :=
  ∀ k v, entry d.values k = some v →
    v.nCount = d.neighboursAt k ∧
      (v.state = .neighbourWait → d.neighboursAt k ≠ 2 * d.filter)

/-- An entry only becomes present when all of its neighbours have been received. -/
def PresentWhenReceived (d : Draw) (_ : Op) (d' : Draw) : Prop :=
  ∀ t v', entry d'.values (d'.position t) = some v' → v'.state = .present →
    d'.neighboursAt (d'.position t) = 2 * d'.filter ∨
      d'.filter = d.filter ∧ ∃ v, entry d.values (d.position t) = some v ∧ v.state = .present

/-- The number of values is set, and the double cursor started, when it is off; a slot is given a
value when it has none. -/
def Domain (d : Draw) : Op → Prop
  | .setNumberOfValues n => d.doubleCursor = false ∧ 0 < n
  | .startDoubleCursor index => d.doubleCursor = false ∧ 0 ≤ index ∧ index < d.numberOfValues
  | .stopDoubleCursor => d.doubleCursor = true
  | .insertValue r => ∀ v, entry d.values (d.position r.time) = some v →
      v.state = .empty ∨ v.state = .pending
  | .addData _ => False
  | _ => True

def range (view stats : Interval) (d : Draw) : Interval :=
  ⟨(view.union stats).start - d.filter, (view.union stats).stop + d.filter⟩

/-- No entry that has been received is dropped while the entry at a distance of the filter is
kept. -/
def Remembers (fin : Interval) (d : Draw) : Prop :=
  ∀ p : ℤ, 0 ≤ p → p < d.values.length → fin.start ≤ p → p ≤ fin.stop →
    (p - d.filter < fin.start → receivedAt d.values (p - d.filter) = false) ∧
      (fin.stop < p + d.filter → receivedAt d.values (p + d.filter) = false)

/-- The steps that drop nothing that is counted. -/
def Careful (d : Draw) : Op → Prop
  | .moveView dist => d.Remembers (d.range (d.view.move dist) (d.carried dist))
  | .moveToTime time =>
    time ≠ d.startTime →
      d.Remembers (d.range (d.view.move (time - d.startTime)) (d.carried (time - d.startTime)))
  | .dragStats disp =>
    d.doubleCursor = true → d.Remembers (d.range d.view (d.stats.drag disp))
  | .stopDoubleCursor =>
    ∀ j p : ℤ, j < d.view.mStart - d.filter → d.view.mStart - d.filter ≤ p → p < d.values.length →
      p - j ≤ d.filter → receivedAt d.values j = false
  | _ => True

/-! ## Counts by excess -/

theorem counted_iff {d : Draw} :
    d.Counted ↔ (∀ k x, excessAt d.filter d.values k = some x → x = 0) ∧
      ∀ k v, entry d.values k = some v → v.state = .neighbourWait →
        d.neighboursAt k ≠ 2 * d.filter := by
  constructor
  · intro h
    refine ⟨?_, fun k v hv => (h k v hv).2⟩
    intro k x hx
    obtain ⟨v, hv, rfl⟩ := Option.map_eq_some_iff.mp hx
    exact sub_eq_zero.mpr (h k v hv).1
  · rintro ⟨hexcess, hwait⟩ k v hv
    refine ⟨?_, hwait k v hv⟩
    apply sub_eq_zero.mp (hexcess k _ _)
    rw [excessAt, hv]
    rfl

theorem bareAt_state {values : List ValueInfo} {k : ℤ} {v : ValueInfo}
    (h : entry values k = some v) : ((bareAt values k).map ValueInfo.state) = some v.state := by
  rw [bareAt, h]
  rfl

/-! ## Moves -/

section Move

variable {view stats : Interval} {d d' : Draw}

theorem counted_rebase_iff (hvalues : d'.values = (d.rebase view stats).values)
    (hfilter : d'.filter = d.filter) (h : d.Counted) :
    d'.Counted ↔ d.Remembers (d.range view stats) := by
  have hmoved : d'.values = moveValues d.filter (d.range view stats) d.values := hvalues
  obtain ⟨hexcess, hwait⟩ := counted_iff.mp h
  rw [counted_iff, hfilter, hmoved]
  constructor
  · rintro ⟨hexcess', -⟩ p hpos hlt hstart hstop
    have hmove := excessAt_moveValues d.filter (d.range view stats) d.values
      (show 0 ≤ p - (d.range view stats).start by omega) (by omega)
    rw [sub_add_cancel, if_pos ⟨hpos, hlt⟩] at hmove
    obtain ⟨v, hv⟩ := exists_entry hpos hlt
    have hx : excessAt d.filter d.values p = some (v.nCount - d.neighboursAt p) := by
      rw [excessAt, hv]
      rfl
    have hzero := hexcess p _ hx
    rw [hx, hzero, Option.map_some, zero_add] at hmove
    exact (forgotten_eq_zero d.filter).mp (hexcess' _ _ hmove)
  · intro hremembers
    refine ⟨?_, ?_⟩
    · intro k x hx
      obtain ⟨v, hv, -⟩ := Option.map_eq_some_iff.mp hx
      obtain ⟨hpos, hlt⟩ := entry_range hv
      rw [length_moveValues] at hlt
      rw [excessAt_moveValues d.filter _ _ hpos (by omega)] at hx
      split at hx
      · rename_i hheld
        obtain ⟨y, hy, rfl⟩ := Option.map_eq_some_iff.mp hx
        have hforgotten := (forgotten_eq_zero d.filter).mpr
          (hremembers (k + (d.range view stats).start) hheld.1 hheld.2 (by omega) (by omega))
        rw [hexcess _ y hy, hforgotten, add_zero]
      · exact (Option.some.inj hx).symm
    · intro k v hv hstate
      obtain ⟨hpos, hlt⟩ := entry_range hv
      rw [length_moveValues] at hlt
      have hbare := bareAt_state hv
      rw [bareAt_moveValues d.filter _ _ hpos (by omega), hstate] at hbare
      split at hbare
      · rw [bareAt, Option.map_map] at hbare
        obtain ⟨v₀, hv₀, hstate₀⟩ := Option.map_eq_some_iff.mp hbare
        have hfull := hwait _ v₀ hv₀ hstate₀
        have hmax : d.neighboursAt (k + (d.range view stats).start) ≤ 2 * d.filter :=
          neighbours_le ..
        have hmono : d'.neighboursAt k ≤ d.neighboursAt (k + (d.range view stats).start) := by
          rw [neighboursAt, neighboursAt, hfilter, hmoved,
            ← neighbours_shift d.filter (receivedAt d.values)]
          exact neighbours_mono fun j => receivedAt_moveValues d.filter
        omega
      · contradiction

theorem presentWhenReceived_rebase (hd : d'.startTime - view.start = d.startTime - d.view.start)
    (hvalues : d'.values = (d.rebase view stats).values)
    (hview : d'.view = (d.rebase view stats).view) (hfilter : d'.filter = d.filter) (op : Op) :
    d.PresentWhenReceived op d' := by
  intro t v' hv' hpresent
  right
  refine ⟨hfilter, ?_⟩
  have hbare := rebase_bareAt hd hvalues hview (entry_range hv')
  have hstate := bareAt_state hv'
  rw [hbare, hpresent] at hstate
  split at hstate
  · rw [bareAt, Option.map_map] at hstate
    obtain ⟨v, hv, hv'⟩ := Option.map_eq_some_iff.mp hstate
    exact ⟨v, hv, hv'⟩
  · contradiction

end Move

theorem counted_drop_iff {d d' : Draw} {n : ℕ} (hvalues : d'.values = d.values.drop n)
    (hfilter : d'.filter = d.filter) (h : d.Counted) :
    d'.Counted ↔ ∀ j p, j < (n : ℤ) → (n : ℤ) ≤ p → p < d.values.length → p - j ≤ d.filter →
      receivedAt d.values j = false := by
  obtain ⟨hexcess, hwait⟩ := counted_iff.mp h
  rw [counted_iff, hfilter, hvalues]
  constructor
  · rintro ⟨hexcess', -⟩ j p hj hp hlt hdist
    have hdrop := excessAt_drop d.filter n d.values (show 0 ≤ p - n by omega)
    rw [sub_add_cancel] at hdrop
    obtain ⟨v, hv⟩ := exists_entry (show 0 ≤ p by omega) hlt
    have hx : excessAt d.filter d.values p = some (v.nCount - d.neighboursAt p) := by
      rw [excessAt, hv]
      rfl
    have hzero := hexcess p _ hx
    rw [hx, hzero, Option.map_some, zero_add] at hdrop
    have hnone := neighbours_eq_zero.mp (Int.natCast_eq_zero.mp (hexcess' _ _ hdrop)) j (by omega)
      (abs_le.mpr (by omega))
    simpa only [hj, decide_true, Bool.and_true] using hnone
  · intro hnone
    refine ⟨?_, ?_⟩
    · intro k x hx
      obtain ⟨v, hv, -⟩ := Option.map_eq_some_iff.mp hx
      obtain ⟨hpos, hlt⟩ := entry_range hv
      rw [List.length_drop] at hlt
      rw [excessAt_drop d.filter n d.values hpos] at hx
      obtain ⟨y, hy, rfl⟩ := Option.map_eq_some_iff.mp hx
      have hzero : neighbours d.filter (fun j => receivedAt d.values j && decide (j < n))
          (k + n) = 0 := by
        rw [neighbours_eq_zero]
        intro j _ hdist
        rw [abs_le] at hdist
        by_cases hj : j < n
        · rw [hnone j (k + n) hj (by omega) (by omega) (by omega)]
          rfl
        · simp [hj]
      rw [hexcess _ y hy, hzero]
      rfl
    · intro k v hv hstate
      obtain ⟨hpos, -⟩ := entry_range hv
      rw [entry_drop _ _ hpos] at hv
      have hfull := hwait _ v hv hstate
      have hmax : d.neighboursAt (k + n) ≤ 2 * d.filter := neighbours_le ..
      have hmono : d'.neighboursAt k ≤ d.neighboursAt (k + n) := by
        rw [neighboursAt, neighboursAt, hfilter, hvalues,
          ← neighbours_shift d.filter (receivedAt d.values)]
        apply neighbours_mono
        intro j hj
        have hrange := receivedAt_range hj
        rwa [receivedAt, entry_drop _ _ hrange.1] at hj
      omega

/-! ## Tables that are filled anew -/

theorem counted_setNumberOfValues {d d' : Draw} {n : ℕ} (hn : 0 < n)
    (h : d.setNumberOfValues n = some d') : d'.Counted := by
  obtain ⟨-, -, hnew⟩ := setNumberOfValues_spec hn h
  intro k v hv
  have hnone : d'.neighboursAt k = 0 := by
    apply neighbours_eq_zero.mpr
    intro j _ _
    rw [receivedAt]
    cases hentry : entry d'.values j with
    | none => rfl
    | some w =>
      rw [hnew j w hentry]
      rfl
  rw [hnew k v hv, hnone]
  exact ⟨rfl, fun hwait => absurd hwait (by decide)⟩

theorem switchFilter_spec {d d' : Draw} (hgeometry : d.Geometry) {t : ℕ}
    (h : d.switchFilter t = some d') :
    d'.filter = t ∧ ∀ k v, entry d'.values k = some v →
      v.nCount = d'.neighboursAt k ∧ (v.isReceived → v.state = settled t v.nCount) := by
  have hfront := hgeometry.view_front
  have hback := hgeometry.view_back
  have hle := d.view.start_le_stop
  obtain ⟨values, hvalues, -, hentry⟩ :=
    exists_resize (show (0 : ℤ) ≤ d.values.length + 2 * (t - d.filter) by omega)
  rw [switchFilter_eq, hvalues, Option.map_some] at h
  obtain rfl := Option.some.inj h
  refine ⟨rfl, fun k v hv => refilter_spec t ?_ hv⟩
  intro j w hw
  obtain ⟨hpos, hlt⟩ := entry_range hw
  rw [hentry j hpos hlt] at hw
  split at hw
  · obtain ⟨w₀, -, rfl⟩ := Option.map_eq_some_iff.mp hw
    rfl
  · obtain rfl := Option.some.inj hw
    rfl

theorem counted_switchFilter {d d' : Draw} (hgeometry : d.Geometry) {t : ℕ}
    (h : d.switchFilter t = some d') (op : Op) : d.PresentWhenReceived op d' ∧ d'.Counted := by
  obtain ⟨hfilter, hspec⟩ := switchFilter_spec hgeometry h
  refine ⟨?_, ?_⟩
  · intro s v hv hpresent
    left
    obtain ⟨hcount, hstate⟩ := hspec _ v hv
    have hsettled := hstate (by simp [ValueInfo.isReceived, hpresent])
    rw [hpresent, settled] at hsettled
    split at hsettled
    · rw [hfilter]
      omega
    · contradiction
  · intro k v hv
    obtain ⟨hcount, hstate⟩ := hspec k v hv
    refine ⟨hcount, ?_⟩
    intro hwait
    have hsettled := hstate (by simp [ValueInfo.isReceived, hwait])
    rw [hwait, settled] at hsettled
    split at hsettled
    · contradiction
    · rw [hfilter]
      omega

/-! ## Responses -/

theorem counted_getDataToFetch {d : Draw} (h : d.Counted) (op : Op) :
    d.PresentWhenReceived op d.getDataToFetch ∧ d.getDataToFetch.Counted := by
  have hmarks : receivedAt d.getDataToFetch.values = receivedAt d.values := by
    funext j
    rw [receivedAt_eq_core, receivedAt_eq_core, entry_getDataToFetch, Option.map_map]
    congr 2
    funext v
    rw [Function.comp_apply, asked]
    split
    · rename_i hempty
      simp [ValueInfo.core, ValueInfo.isReceived, ValueInfo.data, hempty]
    · rfl
  refine ⟨?_, ?_⟩
  · intro t v hv hpresent
    rw [entry_getDataToFetch] at hv
    obtain ⟨w, hw, rfl⟩ := Option.map_eq_some_iff.mp hv
    right
    refine ⟨rfl, w, hw, ?_⟩
    rw [asked] at hpresent
    split at hpresent
    · exact ValueState.noConfusion hpresent
    · exact hpresent
  · intro k v hv
    rw [entry_getDataToFetch] at hv
    obtain ⟨w, hw, rfl⟩ := Option.map_eq_some_iff.mp hv
    obtain ⟨hcount, hwait⟩ := h k w hw
    rw [neighboursAt, hmarks, asked]
    split
    · exact ⟨hcount, fun hpending => ValueState.noConfusion hpending⟩
    · exact ⟨hcount, hwait⟩

/-- The data of a response is stored before the counts are updated. -/
theorem insertValue_cases (r : Response) {d : Draw} (h : d.Domain (.insertValue r)) :
    d.insertValue r = d ∨
      ∃ (index : ℕ) (values : List ValueInfo),
        index < values.length ∧ receivedAt values index = false ∧
        (∀ k, (entry values k).map (fun v => (v.state, v.nCount)) =
          (entry d.values k).map fun v => (v.state, v.nCount)) ∧
        d.insertValue r = { d with values := updateProbesValues d.filter values index } := by
  unfold insertValue
  dsimp only
  split
  · exact Or.inl rfl
  · rename_i hheld
    have hindex : (((r.time - d.startTime + d.view.start).toNat : ℕ) : ℤ) = d.position r.time :=
      Int.toNat_of_nonneg (by omega)
    obtain ⟨v, hv⟩ := exists_entry (show 0 ≤ d.position r.time by rw [position]; omega)
      (show d.position r.time < d.values.length by rw [position]; omega)
    have hstate := h v hv
    split
    · exact Or.inl rfl
    · right
      refine ⟨_, _, ?_, ?_, ?_, rfl⟩
      · rw [List.length_modify]
        omega
      · rw [receivedAt, entry_modify, hindex, if_pos rfl, hv]
        change v.isReceived = false
        rcases hstate with hempty | hpending
        · simp [ValueInfo.isReceived, hempty]
        · simp [ValueInfo.isReceived, hpending]
      · intro k
        rw [entry_modify]
        split
        · rw [Option.map_map]
          rfl
        · rfl

theorem receivedAt_of_states {values values' : List ValueInfo}
    (h : ∀ k, (entry values k).map (fun v => (v.state, v.nCount)) =
      (entry values' k).map fun v => (v.state, v.nCount)) : receivedAt values = receivedAt values' := by
  funext j
  have hj := congrArg (Option.any fun p : ValueState × ℤ =>
    p.1 = .present || p.1 = .neighbourWait) (h j)
  rw [Option.any_map, Option.any_map] at hj
  exact hj

/-- What a response changes is counted, and waits no longer than it must. -/
theorem counted_insertValue (r : Response) {d : Draw} (h : d.Counted)
    (hdomain : d.Domain (.insertValue r)) (op : Op) :
    d.PresentWhenReceived op (d.insertValue r) ∧ (d.insertValue r).Counted := by
  -- a response that is for no slot, or for one that has a response, changes nothing
  rcases insertValue_cases r hdomain with hsame | ⟨index, values, hlt, hnot, hstates, heq⟩
  · rw [hsame]
    exact ⟨fun t v hv hpresent => Or.inr ⟨rfl, v, hv, hpresent⟩, h⟩
  · have hmarks := receivedAt_of_states hstates
    have hlocal : ∀ k v', entry (d.insertValue r).values k = some v' →
        v'.nCount = (d.insertValue r).neighboursAt k ∧
          (v'.state = .neighbourWait → (d.insertValue r).neighboursAt k ≠ 2 * d.filter) ∧
          (v'.state = .present → (d.insertValue r).neighboursAt k = 2 * d.filter ∨
            ∃ v, entry d.values k = some v ∧ v.state = .present) := by
      intro k v' hv'
      rw [heq] at hv' ⊢
      change entry (updateProbesValues d.filter values index) k = some v' at hv'
      change v'.nCount = neighbours d.filter (receivedAt (updateProbesValues d.filter values index)) k
        ∧ (_ → neighbours d.filter (receivedAt (updateProbesValues d.filter values index)) k ≠ _)
        ∧ (_ → neighbours d.filter (receivedAt (updateProbesValues d.filter values index)) k = _ ∨ _)
      have hmax := neighbours_le d.filter
        (receivedAt (updateProbesValues d.filter values index)) k
      have hexcess := excessAt_updateProbesValues d.filter hlt hnot k
      rw [excessAt, excessAt, hv', Option.map_some, hmarks] at hexcess
      generalize neighbours d.filter (receivedAt (updateProbesValues d.filter values index)) k =
        count at hmax hexcess ⊢
      rw [entry_updateProbesValues] at hv'
      obtain ⟨v₁, hv₁, hexcess₁⟩ := Option.map_eq_some_iff.mp hexcess.symm
      have hstate := hstates k
      rw [hv₁, Option.map_some] at hstate
      obtain ⟨v, hv, hpair⟩ := Option.map_eq_some_iff.mp hstate.symm
      obtain ⟨hstate, hnCount⟩ := Prod.mk.inj hpair
      obtain ⟨hcount, hwait⟩ := h k v hv
      rw [neighboursAt] at hcount hwait
      have htotal : v'.nCount = count := by omega
      refine ⟨htotal, ?_⟩
      rw [hv₁, Option.map_some] at hv'
      -- entries farther away keep their state and their count
      by_cases hnear : |k - index| ≤ d.filter
      · rw [if_pos hnear] at hv'
        obtain rfl := Option.some.inj hv'
        rw [nCount_touch] at htotal
        -- the entry of the response itself, whose count was right before it was received
        rcases eq_or_ne k index with rfl | hne
        · rw [if_pos rfl] at htotal
          rw [state_touch_self, settled]
          split
          · exact ⟨fun hpresent => ValueState.noConfusion hpresent, fun _ => Or.inl (by omega)⟩
          · exact ⟨fun _ => by omega, fun hpresent => ValueState.noConfusion hpresent⟩
        -- a neighbour is counted up by one, and becomes present when that was the last one missing
        · rw [if_neg hne] at htotal
          rcases state_touch_of_ne d.filter hne values v₁ with ⟨hsame, hfew⟩ | ⟨hnew, hall⟩
          · rw [hsame, ← hstate]
            rw [← hstate] at hfew
            exact ⟨fun hwait' => by have := hfew hwait'; omega, fun hpresent =>
              Or.inr ⟨v, hv, hpresent⟩⟩
          · rw [hnew]
            exact ⟨fun hwait' => ValueState.noConfusion hwait', fun _ => Or.inl (by omega)⟩
      · rw [if_neg hnear] at hv'
        obtain rfl := Option.some.inj hv'
        rw [← hstate]
        refine ⟨fun hwait' => ?_, fun hpresent => Or.inr ⟨v, hv, hpresent⟩⟩
        have hfull := hwait hwait'
        omega
    have hfilter : (d.insertValue r).filter = d.filter := by rw [heq]
    refine ⟨?_, ?_⟩
    · intro t v' hv' hpresent
      have hposition : (d.insertValue r).position t = d.position t := by rw [heq]; rfl
      rw [hfilter]
      exact ((hlocal _ v' hv').2.2 hpresent).imp_right fun hold => ⟨rfl, hposition ▸ hold⟩
    · intro k v' hv'
      rw [hfilter]
      exact ⟨(hlocal k v' hv').1, (hlocal k v' hv').2.1⟩

/-! ## Steps -/

theorem recalculateStats_some {d d' : Draw} (h : d.recalculateStats = some d') : d' = d := by
  rw [recalculateStats] at h
  split at h
  · exact (Option.some.inj h).symm
  · contradiction

theorem moveView_some {d d' : Draw} {dist : ℤ} (h : d.moveView dist = some d') :
    d' = d.rebase (d.view.move dist) (d.carried dist) := by
  rw [moveView_eq] at h
  split at h
  · exact (Option.some.inj h).symm
  · exact recalculateStats_some h

theorem counted_congr {d d' : Draw} (hvalues : d'.values = d.values) (hfilter : d'.filter = d.filter)
    (hposition : ∀ t, d'.position t = d.position t) (h : d.Counted) (op : Op) :
    d.PresentWhenReceived op d' ∧ d'.Counted := by
  refine ⟨?_, ?_⟩
  · intro t v hv hpresent
    rw [hvalues, hposition] at hv
    exact Or.inr ⟨hfilter, v, hv, hpresent⟩
  · intro k v hv
    rw [hvalues] at hv
    rw [neighboursAt, hvalues, hfilter]
    exact h k v hv

theorem moveView_iff {d d' : Draw} {dist : ℤ}
    (h : { d with startTime := d.startTime + dist }.moveView dist = some d') (hcounted : d.Counted)
    (op : Op) :
    d.PresentWhenReceived op d' ∧ d'.Counted ↔
      d.Remembers (d.range (d.view.move dist) (d.carried dist)) := by
  have heq := moveView_some h
  have hvalues : d'.values = (d.rebase (d.view.move dist) (d.carried dist)).values := by
    rw [heq]
    rfl
  have hview : d'.view = (d.rebase (d.view.move dist) (d.carried dist)).view := by
    rw [heq]
    rfl
  have hfilter : d'.filter = d.filter := by
    rw [heq]
    rfl
  have hstart : d'.startTime - (d.view.move dist).start = d.startTime - d.view.start := by
    rw [heq, Interval.move_start]
    change d.startTime + dist - _ = _
    omega
  rw [and_iff_right (presentWhenReceived_rebase hstart hvalues hview hfilter op)]
  exact counted_rebase_iff hvalues hfilter hcounted

theorem dragStats_iff {d d' : Draw} {disp : ℤ} (h : d.dragStats disp = some d')
    (hcounted : d.Counted) (op : Op) :
    d.PresentWhenReceived op d' ∧ d'.Counted ↔
      (d.doubleCursor = true → d.Remembers (d.range d.view (d.stats.drag disp))) := by
  cases hcursor : d.doubleCursor with
  | false =>
    have hoff : ¬d.doubleCursor = true := Bool.eq_false_iff.mp hcursor
    obtain rfl := Option.some.inj ((if_neg hoff).symm.trans h)
    apply iff_of_true
    · exact counted_congr rfl rfl (fun _ => rfl) hcounted op
    · exact fun hon => Bool.noConfusion hon
  | true =>
    rw [dragStats_eq disp hcursor] at h
    have heq := recalculateStats_some h
    have hvalues : d'.values = (d.rebase d.view (d.stats.drag disp)).values := by
      rw [heq]
      rfl
    have hview : d'.view = (d.rebase d.view (d.stats.drag disp)).view := by
      rw [heq]
      rfl
    have hfilter : d'.filter = d.filter := by
      rw [heq]
      rfl
    have hstart : d'.startTime - d.view.start = d.startTime - d.view.start := by
      rw [heq]
      rfl
    rw [and_iff_right (presentWhenReceived_rebase hstart hvalues hview hfilter op), imp_iff_right rfl]
    exact counted_rebase_iff hvalues hfilter hcounted

theorem stopDoubleCursor_some {d d' : Draw} (h : d.stopDoubleCursor = some d') :
    d'.values = d.values.drop (d.view.mStart - d.filter).toNat ∧ d'.filter = d.filter ∧
      d'.startTime = d.startTime ∧
      d'.view = ⟨d.filter, d.filter + (d.view.mEnd - d.view.mStart)⟩ := by
  rw [stopDoubleCursor] at h
  dsimp only at h
  split at h
  · obtain ⟨d₁, hd₁, rfl⟩ := Option.map_eq_some_iff.mp h
    obtain rfl := recalculateStats_some hd₁
    exact ⟨rfl, rfl, rfl, rfl⟩
  · contradiction

theorem stopDoubleCursor_iff {d d' : Draw} (hgeometry : d.Geometry)
    (h : d.stopDoubleCursor = some d') (hcounted : d.Counted) (op : Op) :
    d.PresentWhenReceived op d' ∧ d'.Counted ↔ d.Careful .stopDoubleCursor := by
  have hfront := hgeometry.view_front
  have hstart := hgeometry.start_eq
  have hsize := hgeometry.view_size
  have hnumber := hgeometry.number
  obtain ⟨hvalues, hfilter, htime, hview⟩ := stopDoubleCursor_some h
  have hpops : ((d.view.mStart - d.filter).toNat : ℤ) = d.view.mStart - d.filter :=
    Int.toNat_of_nonneg (by omega)
  have hpresent : d.PresentWhenReceived op d' := by
    intro t v hv hpresent
    right
    refine ⟨hfilter, v, ?_, hpresent⟩
    have hpos := (entry_range hv).1
    rw [hvalues, entry_drop _ _ hpos, hpops] at hv
    have hshown : d'.view.start = d.filter := by
      rw [hview]
      exact Interval.start_of_le (by omega)
    have hposition : d'.position t + (d.view.mStart - d.filter) = d.position t := by
      rw [position, position, htime, hshown]
      omega
    rwa [hposition] at hv
  rw [and_iff_right hpresent, counted_drop_iff hvalues hfilter hcounted, hpops]
  rfl

theorem startDoubleCursor_same {d d' : Draw} {index : ℤ} (h : d.startDoubleCursor index = some d') :
    d'.values = d.values ∧ d'.filter = d.filter ∧ ∀ t, d'.position t = d.position t := by
  obtain ⟨d₁, hd₁, rfl⟩ := Option.map_eq_some_iff.mp h
  obtain rfl := recalculateStats_some hd₁
  exact ⟨rfl, rfl, fun _ => rfl⟩

/-- The steps that keep the counts right are the careful ones. -/
theorem step_iff {d : Draw} (hgeometry : d.Geometry) (hcounted : d.Counted) {op : Op}
    (hdomain : d.Domain op) :
    ∃ d', d.step op = some d' ∧ d'.Geometry ∧
      (d.PresentWhenReceived op d' ∧ d'.Counted ↔ d.Careful op) := by
  -- only moves, and the end of a double cursor, can drop something that is counted
  cases op with
  | setNumberOfValues n =>
    obtain ⟨hoff, hn⟩ := hdomain
    have hset : ∃ d', d.setNumberOfValues n = some d' :=
      ⟨_, if_neg (Bool.eq_false_iff.mp hoff)⟩
    obtain ⟨d', hd'⟩ := hset
    obtain ⟨hgeometry', -, hnew⟩ := setNumberOfValues_spec hn hd'
    refine ⟨d', hd', hgeometry', iff_of_true ⟨?_, counted_setNumberOfValues hn hd'⟩ trivial⟩
    intro t v hv hpresent
    rw [hnew _ v hv] at hpresent
    contradiction
  | moveView dist =>
    obtain ⟨d', hd', hshifted⟩ := hgeometry.moveView_shifted dist
    exact ⟨d', hd', hshifted.geometry, moveView_iff hd' hcounted _⟩
  | moveToTime time =>
    obtain ⟨d', hd', hshifted⟩ := hgeometry.moveToTime_shifted time
    refine ⟨d', hd', hshifted.geometry, ?_⟩
    rw [moveToTime] at hd'
    split at hd'
    · rename_i heq
      obtain rfl := Option.some.inj hd'
      apply iff_of_true (counted_congr rfl rfl (fun _ => rfl) hcounted _)
      -- `moveToTime` does nothing when the time is the one that is shown
      exact fun hne => absurd heq.symm hne
    · rename_i hne
      have hmoved : { d with startTime := d.startTime + (time - d.startTime) }.moveView
          (time - d.startTime) = some d' := by rwa [add_sub_cancel]
      rw [moveView_iff hmoved hcounted]
      exact ⟨fun h _ => h, fun h => h (Ne.symm hne)⟩
  | dragStats disp =>
    obtain ⟨d', hd', hshifted⟩ := hgeometry.dragStats_shifted disp
    exact ⟨d', hd', hshifted.geometry, dragStats_iff hd' hcounted _⟩
  | startDoubleCursor index =>
    obtain ⟨hoff, hindex, hindex'⟩ := hdomain
    obtain ⟨d', hd', hkept, -⟩ := hgeometry.startDoubleCursor_kept hoff hindex hindex'
    obtain ⟨hvalues, hfilter, hposition⟩ := startDoubleCursor_same hd'
    exact ⟨d', hd', hkept.geometry,
      iff_of_true (counted_congr hvalues hfilter hposition hcounted _) trivial⟩
  | stopDoubleCursor =>
    obtain ⟨d', hd', hkept, -⟩ := hgeometry.stopDoubleCursor_kept
    exact ⟨d', hd', hkept.geometry, stopDoubleCursor_iff hgeometry hd' hcounted _⟩
  | switchFilter t =>
    obtain ⟨d', hd', hshifted⟩ := hgeometry.switchFilter_shifted t
    exact ⟨d', hd', hshifted.geometry,
      iff_of_true (counted_switchFilter hgeometry hd' _) trivial⟩
  | insertValue r =>
    refine ⟨_, rfl, ?_, iff_of_true (counted_insertValue r hcounted hdomain _) trivial⟩
    obtain ⟨values, heq, hlength⟩ := insertValue_eq r d
    rw [heq]
    have hback := hgeometry.view_back
    have hstats := hgeometry.stats_back
    rw [← hlength] at hback hstats
    exact { hgeometry with view_back := hback, stats_back := hstats }
  | addData vv => exact absurd hdomain id
  | getDataToFetch =>
    exact ⟨_, rfl, hgeometry.getDataToFetch_shifted.geometry,
      iff_of_true (counted_getDataToFetch hcounted _) trivial⟩

/-- Along the runs on a table that is set up for some number of values, the counts are right
exactly when every step is careful. -/
theorem counted_iff_careful (d₀ d : Draw) (n : ℕ) (hn : 0 < n)
    (h : d₀.setNumberOfValues n = some d) (ops : List Op)
    (hops : Run.LegalRun step Domain d ops) :
    Run.SafeRun step Counted PresentWhenReceived d ops ↔ Run.LegalRun step Careful d ops :=
  Run.safeRun_iff_of_domain Geometry
    (fun _ _ hgeometry hcounted hdomain => step_iff hgeometry hcounted hdomain)
    (setNumberOfValues_spec hn h).1 (counted_setNumberOfValues hn h) hops

theorem firstDropped_careful :
    Run.SafeRun step Counted PresentWhenReceived
        { unset 1 with
          values := List.replicate 5 ValueInfo.new
          view := ⟨1, 3⟩
          stats := ⟨1, 3⟩
          numberOfValues := 3 }
        [.insertValue ⟨-1, some 7, none, none, some 7, 1⟩, .moveToTime 1] ↔
      Run.LegalRun step Careful
        { unset 1 with
          values := List.replicate 5 ValueInfo.new
          view := ⟨1, 3⟩
          stats := ⟨1, 3⟩
          numberOfValues := 3 }
        [.insertValue ⟨-1, some 7, none, none, some 7, 1⟩, .moveToTime 1] :=
  counted_iff_careful (unset 1) _ 3 (by decide) rfl _
    ⟨fun _ hv => Or.inl (Option.some.inj hv ▸ rfl), fun _ _ => ⟨trivial, fun _ _ => trivial⟩⟩

/-- The value before the shown ones is still counted by the first of them when the view has moved
past it. -/
theorem firstDropped_not_counted :
    ∃ d, (unset 1).setNumberOfValues 3 = some d ∧
      Run.LegalRun step Domain d
        [.insertValue ⟨-1, some 7, none, none, some 7, 1⟩, .moveToTime 1] ∧
      ¬Run.SafeRun step Counted PresentWhenReceived d
        [.insertValue ⟨-1, some 7, none, none, some 7, 1⟩, .moveToTime 1] := by
  refine ⟨_, rfl, ⟨fun _ hv => Or.inl (Option.some.inj hv ▸ rfl), fun _ _ =>
    ⟨trivial, fun _ _ => trivial⟩⟩, ?_⟩
  rintro ⟨-, d, hd, -, -, d', hd', -, hcounted⟩
  obtain rfl := Option.some.inj hd
  obtain rfl := Option.some.inj hd'
  have hcount := (hcounted 0 _ rfl).1
  revert hcount
  decide

end Draw
end Draw3
end Szarp
