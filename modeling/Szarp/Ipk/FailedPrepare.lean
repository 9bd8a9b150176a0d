import Szarp.Ipk.CheckConfiguration

/-!
# Preparations that fail

`TParam::PrepareDefinable` and the readers that call it, `szb_get_datablock` and
`szb_create_probe_block`, for parameters whose formulas cannot be prepared.
-/

namespace Szarp
namespace Ipk

open Params

/-! ## Parameters that cannot be prepared -/

section Broken

variable {cfg : Config}

/-- The formula has a parenthesis without an end, or names a parameter that is not there. -/
def Config.Unreadable (cfg : Config) (i : cfg.Param) : Prop :=
  ∃ o ∈ opened (cfg.param i).formula, ∀ name, o = some name → cfg.resolve i name = none

def Config.RefersTo (cfg : Config) (i j : cfg.Param) : Prop :=
  ∃ name, some name ∈ opened (cfg.param i).formula ∧ cfg.resolve i name = some j

/-- The formula of the parameter, or the one of a definable parameter that it refers to, directly or
through others, is unreadable. -/
def Config.Broken (cfg : Config) : cfg.Param → Prop :=
  Reach.Reaches cfg.RefersTo cfg.Unreadable fun i => cfg.isDefinable i = true

/-- The same over parameters that have not been prepared before, in whose formulas no parenthesis is
opened inside a name or directly behind one. -/
def Params.BrokenFresh (s : Params cfg) : cfg.Param → Prop :=
  Reach.Reaches cfg.RefersTo cfg.Unreadable fun i =>
    cfg.isDefinable i = true ∧ (s i).prepared = false ∧ Spaced (cfg.param i).formula

/-- Parameters that have not been prepared have the formulas of the configuration. -/
def Params.AsLoaded (s : Params cfg) : Prop :=
  ∀ i, (s i).prepared = false → (s i).formula = (cfg.param i).formula

theorem asLoaded_loaded : (loaded cfg).AsLoaded := fun _ _ => rfl

theorem Params.Grows.asLoaded {s s' : Params cfg} (h : Grows s s') (hs : s.AsLoaded) :
    s'.AsLoaded := by
  intro i hi
  rw [h.formula i hi]
  apply hs i
  by_contra hne
  rw [h.prepared i (Bool.not_eq_false _ ▸ hne)] at hi
  exact absurd hi (by decide)

theorem brokenFresh_of_ne {s s' : Params cfg} {i b : cfg.Param}
    (h : ∀ j, j ≠ b → (s j).prepared = false → (s' j).prepared = false)
    (hi : Reach.Reaches cfg.RefersTo cfg.Unreadable (fun j =>
      (cfg.isDefinable j = true ∧ (s j).prepared = false ∧ Spaced (cfg.param j).formula) ∧ j ≠ b) i) :
    s'.BrokenFresh i := by
  apply hi.mono
  rintro j ⟨⟨hdef, hp, hspaced⟩, hne⟩
  exact ⟨hdef, h j hne hp, hspaced⟩

end Broken

/-! ## One call -/

section Prepare

variable {cfg : Config} {m : Machine}

theorem mark_of_ne {s : Params cfg} {i j : cfg.Param} (h : j ≠ i) : s.mark i j = s j :=
  Function.update_of_ne h _ _

/-- Calls that return leave what cannot be prepared alone. -/
theorem calls_brokenFresh {call : Params cfg → cfg.Param → Option (Params cfg × Bool)}
    (hgrows : ∀ s tp s' e, call s tp = some (s', e) → Grows s s')
    (hcall : ∀ s tp s', s.AsLoaded → call s tp = some (s', false) →
      (∀ j, s.BrokenFresh j → s'.BrokenFresh j) ∧ ¬ s.BrokenFresh tp)
    {s t : Params cfg} {tps : List cfg.Param} (h : Calls call s tps t) (hs : s.AsLoaded) :
    (∀ j, s.BrokenFresh j → t.BrokenFresh j) ∧ ∀ tp ∈ tps, ¬ s.BrokenFresh tp := by
  induction h with
  | nil s => exact ⟨fun _ => id, nofun⟩
  | @cons s s' s'' tp tps h _ ih =>
    obtain ⟨hkeep, htp⟩ := hcall s tp s' hs h
    obtain ⟨hkeep', htps⟩ := ih ((hgrows s tp s' _ h).asLoaded hs)
    constructor
    · exact fun j hj => hkeep' j (hkeep j hj)
    · intro tp' hmem
      rcases List.mem_cons.mp hmem with rfl | hmem
      · exact htp
      · exact fun hj => htps tp' hmem (hkeep tp' hj)

/-- A parameter that can be prepared is not on a way to one that cannot. -/
theorem mark_brokenFresh {s : Params cfg} {i : cfg.Param}
    (hi : Spaced (cfg.param i).formula → ¬ cfg.Unreadable i ∧
      ∀ j, cfg.RefersTo i j → ¬ (s.mark i).BrokenFresh j) :
    (∀ j, s.BrokenFresh j → (s.mark i).BrokenFresh j) ∧ ¬ s.BrokenFresh i := by
  have hmark : ∀ j, j ≠ i → (s j).prepared = false → (s.mark i j).prepared = false := by
    intro j hne hp
    rwa [mark_of_ne hne]
  have hkeep : ∀ j, s.BrokenFresh j → (s.mark i).BrokenFresh j := by
    intro j hj
    rcases hj.avoid i with hj | ⟨⟨-, -, hspaced⟩, hgoal | ⟨c, hnext, hc⟩⟩
    · exact brokenFresh_of_ne hmark hj
    · exact absurd hgoal (hi hspaced).1
    · exact absurd (brokenFresh_of_ne hmark hc) ((hi hspaced).2 c hnext)
  refine ⟨hkeep, fun hbroken => ?_⟩
  have := (hkeep i hbroken).isFresh.2.1
  rw [mark_prepared] at this
  exact absurd this (by decide)

/-- A call that returns was not made for a parameter that cannot be prepared, and has prepared none
of them. -/
theorem prepareDefinable_returns {n : ℕ} {s s' : Params cfg} {i : cfg.Param} (hs : s.AsLoaded)
    (h : prepareDefinable m n s i = some (s', false)) :
    (∀ j, s.BrokenFresh j → s'.BrokenFresh j) ∧ ¬ s.BrokenFresh i := by
  -- The induction is on the depth of the calls.
  induction n using Nat.strong_induction_on generalizing s s' i with
  | _ n ih =>
    obtain ⟨hp, rfl, -⟩ | ⟨hp, hempty, rfl, -⟩ | ⟨hp, k, t, r, rfl, hloop, hfinish⟩ :=
      prepareDefinable_cases h
    · refine ⟨fun _ => id, fun hbroken => ?_⟩
      rw [hbroken.isFresh.2.1] at hp
      exact absurd hp (by decide)
    -- an empty formula opens no parenthesis
    · apply mark_brokenFresh
      intro _
      have hnone : opened (cfg.param i).formula = [] := by
        rw [← hs i hp, hempty]
        rfl
      constructor
      · rintro ⟨o, ho, -⟩
        rw [hnone] at ho
        exact absurd ho List.not_mem_nil
      · rintro j ⟨name, hname, -⟩
        rw [hnone] at hname
        exact absurd hname List.not_mem_nil
    · have hgrows : ∀ (s : Params cfg) tp s' e,
          prepareDefinable m k s tp = some (s', e) → Grows s s' :=
        fun _ _ _ _ hc => (prepareDefinable_grows hc).1
      obtain ⟨q, hq, hprepared, -, hdone⟩ := finish_update m t i r
      rw [hfinish] at hq hdone
      obtain rfl : s' = Function.update t i q := hq
      have hend := hdone rfl
      -- the loop has called all operands that the formula names, and each call returned
      obtain ⟨tps, t', htraced⟩ := prepareLoop_traced hloop
      obtain rfl : t = t' := htraced.returned (by rw [hend]; decide)
      rw [hs i hp] at htraced
      obtain ⟨hkeep, htps⟩ := calls_brokenFresh hgrows
        (fun s tp s' hs hc => ih k (by omega) hs hc) htraced.calls ((grows_mark s i).asLoaded hs)
      have hcomplete := htraced.complete hend
      obtain ⟨hmark, hi⟩ := mark_brokenFresh (s := s) (i := i) (by
        intro hspaced
        constructor
        · rintro ⟨o, ho, hnone⟩
          obtain ⟨name, tp, hname, hfind, -⟩ := hcomplete hspaced nofun o ho
          rw [hnone name hname] at hfind
          exact absurd hfind (by simp)
        · rintro j ⟨name, hname, hfind⟩ hj
          obtain ⟨name', tp, hname', hfind', htp⟩ := hcomplete hspaced nofun _ hname
          obtain rfl := Option.some.inj hname'
          obtain rfl := Option.some.inj (hfind.symm.trans hfind')
          exact htps j (htp hj.isFresh.1) hj)
      refine ⟨fun j hj => ?_, hi⟩
      have hjt := hkeep j (hmark j hj)
      have hit := (prepareLoop_grows hgrows hloop).prepared i (mark_prepared s i)
      apply Reach.Reaches.mono _ hjt
      rintro v ⟨hdef, hv, hspaced⟩
      have hne : v ≠ i := by
        rintro rfl
        rw [hit] at hv
        exact absurd hv (by decide)
      refine ⟨hdef, ?_, hspaced⟩
      rwa [Function.update_of_ne hne]

/-! ## Calls and readers -/

theorem prepare_throws {s : Params cfg} {i : cfg.Param} (hs : s.AsLoaded) (hi : s.BrokenFresh i) :
    (s.prepare m i).2 = true := by
  by_contra hreturn
  have h := prepare_eq (m := m) s i
  rw [← Prod.mk.eta (p := s.prepare m i), Bool.eq_false_iff.mpr hreturn] at h
  exact (prepareDefinable_returns hs h).2 hi

end Prepare

/-- The parameters, and the blocks of the buffer: their parameters, years and months. -/
structure Base (cfg : Config) where
  params : Params cfg
  blocks : List (cfg.Param × ℤ × ℕ)

/-- What is called; `initialized` tells whether a block that is made can be used. -/
inductive Call (cfg : Config) where
  | prepareDefinable (i : cfg.Param)
  | getDatablock (i : cfg.Param) (year : ℤ) (month : ℕ) (initialized : Bool)
  | createProbeBlock (i : cfg.Param) (time : ℤ)

/-- What a call gives: `block` is one that is computed from these operands. -/
inductive Answer (cfg : Config) where
  | returned
  | exception
  | null
  | found
  | block (operands : List cfg.Param)
deriving DecidableEq

namespace Base

variable {cfg : Config} (m : Machine)

/-- `szb_get_datablock`: a parameter that is not definable has no operands. -/
def szbGetDatablock (b : Base cfg) (i : cfg.Param) (year : ℤ) (month : ℕ) (initialized : Bool) :
    Base cfg × Answer cfg :=
  if (i, year, month) ∈ b.blocks then (b, .found)
  else
    let (params, threw) := if cfg.isDefinable i then b.params.prepare m i else (b.params, false)
    if threw then ({ b with params }, .null)
    else if initialized then
      ({ params, blocks := (i, year, month) :: b.blocks }, .block (params i).cache)
    else ({ b with params }, .block (params i).cache)

def szbCreateProbeBlock (b : Base cfg) (i : cfg.Param) : Base cfg × Answer cfg :=
  let (params, threw) := if cfg.isDefinable i then b.params.prepare m i else (b.params, false)
  if threw then ({ b with params }, .null)
  else ({ b with params }, .block (params i).cache)

def call (b : Base cfg) : Call cfg → Base cfg × Answer cfg
  | .prepareDefinable i =>
    let (params, threw) := b.params.prepare m i
    ({ b with params }, if threw then .exception else .returned)
  | .getDatablock i year month initialized => b.szbGetDatablock m i year month initialized
  | .createProbeBlock i _ => b.szbCreateProbeBlock m i

def step (b : Base cfg) (c : Call cfg) : Base cfg := (b.call m c).1

end Base

inductive Act (cfg : Config) where
  | call (c : Call cfg)
  | prepareDrawDefinable
  | szbDefinableSearchData (i : cfg.Param) (months : List (ℤ × ℕ × Bool))

/-- The calls that are made. The months of a search are those it comes to; an exception of
`PrepareDrawDefinable` is caught in its loop. -/
def Act.calls {cfg : Config} : Act cfg → List (Call cfg)
  | .call c => [c]
  | .prepareDrawDefinable =>
    cfg.drawDefinables.map .prepareDefinable
  | .szbDefinableSearchData i months =>
    months.map fun (year, month, initialized) => .getDatablock i year month initialized

def Call.param {cfg : Config} : Call cfg → cfg.Param
  | .prepareDefinable i => i
  | .getDatablock i _ _ _ => i
  | .createProbeBlock i _ => i

/-- A parameter that cannot be prepared throws, and is not read. -/
def StaysFailed {cfg : Config} (m : Machine) (b : Base cfg) (c : Call cfg) : Prop :=
  cfg.Broken c.param → (b.call m c).2 = .exception ∨ (b.call m c).2 = .null

/-- A parameter that cannot be prepared leads to an unreadable formula over parameters that have not
been prepared before. -/
def CallsFresh {cfg : Config} (b : Base cfg) (c : Call cfg) : Prop :=
  cfg.Broken c.param → b.params.BrokenFresh c.param

/-! ## Runs -/

section Runs

variable {cfg : Config} {m : Machine}

structure Base.Inv (b : Base cfg) : Prop where
  asLoaded : b.params.AsLoaded
  blocks : ∀ block ∈ b.blocks, ¬ cfg.Broken block.1

theorem reader_throws {b : Base cfg} {i : cfg.Param} (hb : b.Inv)
    (hi : cfg.Broken i → b.params.BrokenFresh i) :
    (if cfg.isDefinable i then b.params.prepare m i else (b.params, false)).1.AsLoaded ∧
      (cfg.Broken i →
        (if cfg.isDefinable i then b.params.prepare m i else (b.params, false)).2 = true) := by
  split
  case isTrue hdef =>
    exact ⟨(prepare_grows b.params i).asLoaded hb.asLoaded,
      fun hbroken => prepare_throws hb.asLoaded (hi hbroken)⟩
  case isFalse hdef => exact ⟨hb.asLoaded, fun hbroken => absurd hbroken.isFresh hdef⟩

theorem szbGetDatablock_inv {b : Base cfg} {i : cfg.Param} (hb : b.Inv)
    (hi : cfg.Broken i → b.params.BrokenFresh i) (year : ℤ) (month : ℕ) (initialized : Bool) :
    (b.szbGetDatablock m i year month initialized).1.Inv ∧
      (cfg.Broken i → (b.szbGetDatablock m i year month initialized).2 = .null) := by
  obtain ⟨hloaded, hthrows⟩ := reader_throws (m := m) hb hi
  unfold Base.szbGetDatablock
  generalize (if cfg.isDefinable i then b.params.prepare m i else (b.params, false)) = r at *
  by_cases hfound : (i, year, month) ∈ b.blocks
  · rw [if_pos hfound]
    exact ⟨hb, fun hbroken => absurd hbroken (hb.blocks _ hfound)⟩
  · rw [if_neg hfound]
    dsimp only
    by_cases hthrew : r.2 = true
    · rw [if_pos hthrew]
      exact ⟨⟨hloaded, hb.blocks⟩, fun _ => rfl⟩
    · have hnot : ¬ cfg.Broken i := fun hbroken => hthrew (hthrows hbroken)
      rw [if_neg hthrew]
      refine ⟨?_, fun hbroken => absurd hbroken hnot⟩
      cases initialized with
      | false => exact ⟨hloaded, hb.blocks⟩
      | true =>
        refine ⟨hloaded, ?_⟩
        intro block hblock
        rcases List.mem_cons.mp hblock with rfl | hblock
        · exact hnot
        · exact hb.blocks block hblock

theorem szbCreateProbeBlock_inv {b : Base cfg} {i : cfg.Param} (hb : b.Inv)
    (hi : cfg.Broken i → b.params.BrokenFresh i) :
    (b.szbCreateProbeBlock m i).1.Inv ∧
      (cfg.Broken i → (b.szbCreateProbeBlock m i).2 = .null) := by
  obtain ⟨hloaded, hthrows⟩ := reader_throws (m := m) hb hi
  unfold Base.szbCreateProbeBlock
  generalize (if cfg.isDefinable i then b.params.prepare m i else (b.params, false)) = r at *
  dsimp only
  by_cases hthrew : r.2 = true
  · rw [if_pos hthrew]
    exact ⟨⟨hloaded, hb.blocks⟩, fun _ => rfl⟩
  · rw [if_neg hthrew]
    exact ⟨⟨hloaded, hb.blocks⟩, fun hbroken => absurd (hthrows hbroken) hthrew⟩

theorem call_inv (b : Base cfg) (c : Call cfg) (hb : b.Inv) (hc : CallsFresh b c) :
    (b.step m c).Inv ∧ StaysFailed m b c := by
  cases c with
  | prepareDefinable i =>
    refine ⟨⟨(prepare_grows b.params i).asLoaded hb.asLoaded, hb.blocks⟩, ?_⟩
    intro hbroken
    exact .inl (if_pos (prepare_throws hb.asLoaded (hc hbroken)))
  | getDatablock i year month initialized =>
    obtain ⟨hinv, hnull⟩ := szbGetDatablock_inv (m := m) hb hc year month initialized
    exact ⟨hinv, fun hbroken => .inr (hnull hbroken)⟩
  | createProbeBlock i time =>
    obtain ⟨hinv, hnull⟩ := szbCreateProbeBlock_inv (m := m) hb hc
    exact ⟨hinv, fun hbroken => .inr (hnull hbroken)⟩

/-- In every run whose calls are fresh, a parameter that cannot be prepared throws at every call and
is never read. -/
theorem staysFailed (m : Machine) (cfg : Config) (acts : List (Act cfg))
    (h : Run.Along (Base.step m) CallsFresh ⟨loaded cfg, []⟩ (acts.flatMap Act.calls)) :
    Run.Along (Base.step m) (StaysFailed m) ⟨loaded cfg, []⟩ (acts.flatMap Act.calls) := by
  apply Run.along_of_inv (fun b c hb _ hc => (call_inv b c hb hc).1)
    (fun b c hb _ hc => (call_inv b c hb hc).2)
    ⟨asLoaded_loaded, fun _ hblock => absurd hblock List.not_mem_nil⟩ h h

/-- A parameter whose formula has a parenthesis without an end. -/
def unbalanced : Config where
  params := []
  drawdefinable := [⟨"A:B:C".toList, "5 (B".toList, .definable, .definable, 0, 0, [], false⟩]
  sends := []

def unbalancedParam : unbalanced.Param := ⟨0, by decide⟩

theorem staysFailed_once : Run.Along (Base.step .plain) (StaysFailed .plain)
    ⟨loaded unbalanced, []⟩ ([.call (.prepareDefinable unbalancedParam)].flatMap Act.calls) := by
  apply staysFailed
  exact ⟨fun _ => .here ⟨rfl, rfl, by decide⟩ ⟨none, by decide, nofun⟩, trivial⟩

/-- The second month that is asked for is computed without operands. -/
theorem unbalanced_read : ¬ Run.Along (Base.step .plain) (StaysFailed .plain)
    ⟨loaded unbalanced, []⟩ ([.szbDefinableSearchData unbalancedParam
      [(2000, 1, true), (2000, 2, true)]].flatMap Act.calls) := by
  rintro ⟨-, h, -⟩
  have hbroken : unbalanced.Broken unbalancedParam := .here rfl ⟨none, by decide, nofun⟩
  rcases h hbroken with h | h
  · exact absurd h (by decide)
  · exact absurd h (by decide)

end Runs

end Ipk
end Szarp
