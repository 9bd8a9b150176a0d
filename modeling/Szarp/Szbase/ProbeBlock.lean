import Szarp.Lib.Run
import Szarp.Szbase.CombinedDatablock
import Szarp.Szbase.Definable
import Szarp.Szbase.RealDatablock

/-!
# Blocks of 10-second probes

`probeblock.cc` and `proberconnection.cc`: blocks of probes that a server sends. The time of the
server grows, also between two requests that fill one block.
-/

namespace Szarp
namespace Szbase

open Definable

def probeSpan : ℤ := 10

def probesPerBlock : ℕ := 1800

/-- The probes server: what it has stored when its time is `now`, for every path and probe time.
Probes that are not later than its time do not change any more. -/
structure ProbesServer (π : Type) where
  store : ℤ → π → ℤ → Word
  stable : ∀ {now now' : ℤ} {path : π} {t : ℤ}, t ≤ now → now ≤ now' →
    store now' path t = store now path t

/-- How a request fares: how far the time of the server goes on before it, and whether it is
answered. -/
structure Reaction where
  delay : ℕ
  answered : Bool

inductive StoredParam (π : Type) where
  | real (path : π) (prec : ℕ)
  | combined (msw lsw : π) (prec : ℕ)

def StoredParam.prec {π : Type} : StoredParam π → ℕ
  | real _ prec => prec
  | combined _ _ prec => prec

structure FormulaParam (ι : Type) where
  formula : List Char
  prec : ℕ
  operands : List ι

structure ProbeSetup (ι κ π : Type) where
  stored : ι → StoredParam π
  definable : κ → FormulaParam ι
  env : Environment
  prepared : Bool

/-- `szb_probeblock_t` -/
structure ProbeBlock where
  data : ℕ → Cell
  fixedProbesCount : ℕ
  lastQueryId : ℤ

def ProbeBlock.new : ProbeBlock := ⟨fun _ => .nodata, 0, -1⟩

/-- The client: `net` is what will happen to its requests, in order. Blocks are given by a parameter
and a start time. -/
structure ProbeClient (ι κ : Type) where
  now : ℤ
  net : List Reaction
  queryId : ℤ
  rangeEnd : Option ℤ
  lastRangeQueryId : ℤ
  stored : ι → ℤ → ProbeBlock
  definable : κ → ℤ → ProbeBlock

namespace ProbeClient

variable {ι κ π : Type}

def new (now : ℤ) (net : List Reaction) : ProbeClient ι κ :=
  ⟨now, net, 0, none, -1, fun _ _ => .new, fun _ _ => .new⟩

def endTime (start : ℤ) : ℤ := start + (probesPerBlock - 1) * probeSpan

/-! ## Requests -/

/-- `PerformOperation`: the time at which the server answers; `none` on an error. -/
def request (c : ProbeClient ι κ) : Option ℤ × ProbeClient ι κ :=
  match c.net with
  | [] => (none, c)
  | r :: net =>
    (if r.answered then some (c.now + r.delay) else none,
      { c with now := c.now + r.delay, net := net })

/-- `ProberConnection::Get`: the server time and the probes of a range. -/
def get (server : ProbesServer π) (path : π) (first last : ℤ) (c : ProbeClient ι κ) :
    Option (ℤ × List Word) × ProbeClient ι κ :=
  let (answer, c) := c.request
  (answer.map fun now => (now, (List.range (((last - first) / probeSpan).toNat + 1)).map
    fun k : ℕ => server.store now path (first + probeSpan * k)), c)

/-- A `long` stored in an `int`. -/
def toInt32 (q : ℤ) : ℤ := (BitVec.ofInt 32 q).toInt

/-- `ProberConnection::GetRange`: the end of the range. -/
def getRange (c : ProbeClient ι κ) : Option ℤ × ProbeClient ι κ :=
  if c.lastRangeQueryId = c.queryId then (c.rangeEnd, c)
  else match c.request with
    | (none, c) => (none, c)
    | (some now, c) =>
      (some now, { c with rangeEnd := some now, lastRangeQueryId := toInt32 c.queryId })

/-! ## Blocks of stored parameters -/

/-- The loop over received probes. -/
def storeProbes (probes : List Cell) (b : ProbeBlock) : ProbeBlock :=
  { b with data := fun i =>
      if b.fixedProbesCount ≤ i then (probes[i - b.fixedProbesCount]?).getD (b.data i)
      else b.data i }

/-- What is fixed after an answer of the server. -/
def settle (start serverTime : ℤ) (b : ProbeBlock) : ProbeBlock :=
  if serverTime < start then b
  else
    let fixed := ((serverTime - start) / probeSpan).toNat + 1
    { b with fixedProbesCount := if fixed > probesPerBlock then probesPerBlock else fixed }

/-- `szb_probeblock_real_t::FetchProbes` -/
def fetchReal (server : ProbesServer π) (path : π) (prec : ℕ) (start : ℤ) (b : ProbeBlock)
    (c : ProbeClient ι κ) : ProbeBlock × ProbeClient ι κ :=
  match c.get server path (start + probeSpan * b.fixedProbesCount) (endTime start) with
  | (none, c) => (b, c)
  | (some (serverTime, values), c) =>
    let count := min values.length (probesPerBlock - b.fixedProbesCount)
    (settle start serverTime (storeProbes ((values.take count).map (realProbe prec)) b), c)

/-- `szb_probeblock_combined_t::FetchProbes` -/
def fetchCombined (server : ProbesServer π) (msw lsw : π) (prec : ℕ) (start : ℤ) (b : ProbeBlock)
    (c : ProbeClient ι κ) : ProbeBlock × ProbeClient ι κ :=
  let first := start + probeSpan * b.fixedProbesCount
  match c.get server msw first (endTime start) with
  | (none, c) => (b, c)
  | (some (serverTime, bufMsw), c) =>
    match c.get server lsw first (endTime start) with
    | (none, c) => (b, c)
    | (some (_, bufLsw), c) =>
      (settle start serverTime
        (storeProbes (List.zipWith (combinedProbe prec) bufMsw bufLsw) b), c)

def fetchStored (server : ProbesServer π) (start : ℤ) (b : ProbeBlock) (c : ProbeClient ι κ) :
    StoredParam π → ProbeBlock × ProbeClient ι κ
  | .real path prec => fetchReal server path prec start b c
  | .combined msw lsw prec => fetchCombined server msw lsw prec start b c

/-! ## Final values -/

variable {server : ProbesServer π}

/-- The value of a probe once the time of the server has reached it. -/
def finalProbe (server : ProbesServer π) (t : ℤ) : StoredParam π → Cell
  | .real path prec => realProbe prec (server.store t path t)
  | .combined msw lsw prec => combinedProbe prec (server.store t msw t) (server.store t lsw t)

/-- The fixed probes of a block are in range and final. -/
def Final (final : ℤ → Cell) (start : ℤ) (b : ProbeBlock) : Prop :=
  b.fixedProbesCount ≤ probesPerBlock ∧
    ∀ i < b.fixedProbesCount, b.data i = final (start + i * probeSpan)

def covered (start now : ℤ) : ℕ :=
  if now < start then 0 else min (((now - start) / probeSpan).toNat + 1) probesPerBlock

theorem lt_covered {start now : ℤ} {i : ℕ} :
    i < covered start now ↔ i < probesPerBlock ∧ start + i * probeSpan ≤ now := by
  unfold covered probeSpan
  split <;> omega

theorem covered_mono {start now now' : ℤ} (h : now ≤ now') :
    covered start now ≤ covered start now' := by
  by_contra hlt
  have hi := lt_covered.mp (not_le.mp hlt)
  exact absurd (lt_covered.mpr ⟨hi.1, hi.2.trans h⟩) (lt_irrefl _)

theorem covered_le (start now : ℤ) : covered start now ≤ probesPerBlock := by
  by_contra hlt
  exact lt_irrefl _ (lt_covered.mp (not_le.mp hlt)).1

theorem settle_fixed {start now : ℤ} {b : ProbeBlock} (h : b.fixedProbesCount ≤ covered start now) :
    (settle start now b).fixedProbesCount = covered start now := by
  unfold settle
  unfold covered at h ⊢
  split_ifs at h ⊢ with hlt
  · omega
  · simp only
    split <;> omega

theorem settle_data (start now : ℤ) (b : ProbeBlock) : (settle start now b).data = b.data := by
  unfold settle
  split <;> rfl

/-- Probes received at a server time are final up to it. -/
theorem final_settle {final : ℤ → Cell} {start now : ℤ} {b : ProbeBlock} (probes : List Cell)
    (hb : Final final start b) (hfixed : b.fixedProbesCount ≤ covered start now)
    (hprobes : ∀ k, b.fixedProbesCount + k < covered start now →
      probes[k]? = some (final (start + ↑(b.fixedProbesCount + k) * probeSpan))) :
    Final final start (settle start now (storeProbes probes b)) ∧
      (settle start now (storeProbes probes b)).fixedProbesCount = covered start now := by
  have hcount : (settle start now (storeProbes probes b)).fixedProbesCount = covered start now :=
    settle_fixed hfixed
  refine ⟨⟨hcount ▸ covered_le start now, ?_⟩, hcount⟩
  intro i hi
  rw [hcount] at hi
  rw [settle_data]
  by_cases hlt : b.fixedProbesCount ≤ i
  · have hk := hprobes (i - b.fixedProbesCount) (by omega)
    rw [show b.fixedProbesCount + (i - b.fixedProbesCount) = i by omega] at hk
    simp [storeProbes, hlt, hk]
  · simpa [storeProbes, hlt] using hb.2 i (by omega)

/-! ## Requests and time -/

/-- Nothing but the time of the server has changed, which has not decreased. -/
def Waits (c c' : ProbeClient ι κ) : Prop :=
  ∃ (delay : ℕ) (net : List Reaction), c' = { c with now := c.now + delay, net := net }

theorem Waits.refl (c : ProbeClient ι κ) : Waits c c := ⟨0, c.net, by simp⟩

theorem Waits.trans {c c' c'' : ProbeClient ι κ} (h : Waits c c') (h' : Waits c' c'') :
    Waits c c'' := by
  obtain ⟨delay, net, rfl⟩ := h
  obtain ⟨delay', net', rfl⟩ := h'
  exact ⟨delay + delay', net', by simp [add_assoc]⟩

theorem Waits.now_le {c c' : ProbeClient ι κ} (h : Waits c c') : c.now ≤ c'.now := by
  obtain ⟨delay, net, rfl⟩ := h
  simp

theorem request_cases (c : ProbeClient ι κ) :
    ∃ c', Waits c c' ∧ (c.request = (none, c') ∨ c.request = (some c'.now, c')) := by
  unfold request
  cases c.net with
  | nil => exact ⟨c, Waits.refl c, .inl rfl⟩
  | cons r net =>
    refine ⟨_, ⟨r.delay, net, rfl⟩, ?_⟩
    by_cases h : r.answered = true
    · exact .inr (by simp [h])
    · exact .inl (by simp [h])

/-- The probes of a range as they are stored at a server time. -/
def storedProbes (server : ProbesServer π) (now : ℤ) (path : π) (first last : ℤ) : List Word :=
  (List.range (((last - first) / probeSpan).toNat + 1)).map
    fun k : ℕ => server.store now path (first + probeSpan * k)

theorem get_cases (server : ProbesServer π) (path : π) (first last : ℤ) (c : ProbeClient ι κ) :
    ∃ c', Waits c c' ∧ (c.get server path first last = (none, c') ∨
      c.get server path first last =
        (some (c'.now, storedProbes server c'.now path first last), c')) := by
  obtain ⟨c', hwaits, h | h⟩ := request_cases c
  · exact ⟨c', hwaits, .inl (by rw [get, h]; rfl)⟩
  · exact ⟨c', hwaits, .inr (by rw [get, h]; rfl)⟩

theorem received_final {path : π} {start now now' : ℤ} {fixed k : ℕ} (hnow : now ≤ now')
    (hk : fixed + k < covered start now) :
    (storedProbes server now' path (start + probeSpan * fixed) (endTime start))[k]? =
      some (server.store (start + ↑(fixed + k) * probeSpan) path
        (start + ↑(fixed + k) * probeSpan)) := by
  obtain ⟨hlt, hle⟩ := lt_covered.mp hk
  have hrange : k < ((endTime start - (start + probeSpan * fixed)) / probeSpan).toNat + 1 := by
    unfold endTime probeSpan
    omega
  have htime : start + probeSpan * fixed + probeSpan * k = start + ↑(fixed + k) * probeSpan := by
    push_cast
    ring
  rw [storedProbes, List.getElem?_map, List.getElem?_range hrange, Option.map_some, htime,
    server.stable le_rfl (hle.trans hnow)]

/-- What a fetch of stored probes keeps. -/
structure Fetched (server : ProbesServer π) (p : StoredParam π) (start : ℤ) (b : ProbeBlock)
    (c : ProbeClient ι κ) (r : ProbeBlock × ProbeClient ι κ) : Prop where
  waits : Waits c r.2
  final : Final (finalProbe server · p) start r.1
  grows : b.fixedProbesCount ≤ r.1.fixedProbesCount
  reached : r.1.fixedProbesCount ≤ covered start r.2.now

theorem fetched_self {p : StoredParam π} {start : ℤ} {b : ProbeBlock} {c c' : ProbeClient ι κ}
    (hb : Final (finalProbe server · p) start b) (hfixed : b.fixedProbesCount ≤ covered start c.now)
    (h : Waits c c') : Fetched server p start b c (b, c') :=
  ⟨h, hb, le_rfl, hfixed.trans (covered_mono h.now_le)⟩

theorem fetchReal_spec {path : π} {prec : ℕ} {start : ℤ} {b : ProbeBlock} {c : ProbeClient ι κ}
    (hb : Final (finalProbe server · (.real path prec)) start b)
    (hfixed : b.fixedProbesCount ≤ covered start c.now) :
    Fetched server (.real path prec) start b c (fetchReal server path prec start b c) := by
  obtain ⟨c', hwaits, hget | hget⟩ := get_cases server path
    (start + probeSpan * b.fixedProbesCount) (endTime start) c
  · simp only [fetchReal, hget]
    exact fetched_self hb hfixed hwaits
  · have hnow := hfixed.trans (covered_mono hwaits.now_le)
    simp only [fetchReal, hget]
    generalize hprobes : List.map _ _ = probes
    have hsettle := final_settle probes hb hnow ?_
    · exact ⟨hwaits, hsettle.1, hsettle.2 ▸ hnow, hsettle.2.le⟩
    · intro k hk
      rw [← hprobes, List.getElem?_map, List.getElem?_take_of_lt, received_final le_rfl hk]
      · rfl
      · have := (lt_covered.mp hk).1
        simp only [storedProbes, List.length_map, List.length_range, endTime, probeSpan]
        omega

theorem fetchCombined_spec {msw lsw : π} {prec : ℕ} {start : ℤ} {b : ProbeBlock}
    {c : ProbeClient ι κ} (hb : Final (finalProbe server · (.combined msw lsw prec)) start b)
    (hfixed : b.fixedProbesCount ≤ covered start c.now) :
    Fetched server (.combined msw lsw prec) start b c
      (fetchCombined server msw lsw prec start b c) := by
  obtain ⟨c', hwaits, hget | hget⟩ := get_cases server msw
    (start + probeSpan * b.fixedProbesCount) (endTime start) c
  · simp only [fetchCombined, hget]
    exact fetched_self hb hfixed hwaits
  obtain ⟨c'', hwaits', hget' | hget'⟩ := get_cases server lsw
    (start + probeSpan * b.fixedProbesCount) (endTime start) c'
  · simp only [fetchCombined, hget, hget']
    exact fetched_self hb hfixed (hwaits.trans hwaits')
  · have hnow := hfixed.trans (covered_mono hwaits.now_le)
    simp only [fetchCombined, hget, hget']
    generalize hprobes : List.zipWith _ _ _ = probes
    have hsettle := final_settle probes hb hnow ?_
    · exact ⟨hwaits.trans hwaits', hsettle.1, hsettle.2 ▸ hnow,
        hsettle.2.le.trans (covered_mono hwaits'.now_le)⟩
    · intro k hk
      rw [← hprobes, List.getElem?_zipWith, received_final le_rfl hk,
        received_final hwaits'.now_le hk]
      rfl

theorem fetchStored_spec {p : StoredParam π} {start : ℤ} {b : ProbeBlock} {c : ProbeClient ι κ}
    (hb : Final (finalProbe server · p) start b)
    (hfixed : b.fixedProbesCount ≤ covered start c.now) :
    Fetched server p start b c (fetchStored server start b c p) := by
  cases p with
  | real path prec => exact fetchReal_spec hb hfixed
  | combined msw lsw prec => exact fetchCombined_spec hb hfixed

/-- What refreshing blocks of stored parameters can change. -/
structure Extends (c c' : ProbeClient ι κ) : Prop where
  now : c.now ≤ c'.now
  queryId : c'.queryId = c.queryId
  rangeEnd : c'.rangeEnd = c.rangeEnd
  definable : c'.definable = c.definable
  grows : ∀ o start, (c.stored o start).fixedProbesCount ≤ (c'.stored o start).fixedProbesCount

theorem Extends.refl (c : ProbeClient ι κ) : Extends c c :=
  ⟨le_rfl, rfl, rfl, rfl, fun _ _ => le_rfl⟩

theorem Extends.trans {c c' c'' : ProbeClient ι κ} (h : Extends c c') (h' : Extends c' c'') :
    Extends c c'' where
  now := h.now.trans h'.now
  queryId := h'.queryId.trans h.queryId
  rangeEnd := h'.rangeEnd.trans h.rangeEnd
  definable := h'.definable.trans h.definable
  grows o start := (h.grows o start).trans (h'.grows o start)

theorem Waits.extends {c c' : ProbeClient ι κ} (h : Waits c c') : Extends c c' := by
  obtain ⟨delay, net, rfl⟩ := h
  exact ⟨by simp, rfl, rfl, rfl, fun _ _ => le_rfl⟩

/-! ## Refreshing -/

variable [DecidableEq ι] (server : ProbesServer π) (setup : ProbeSetup ι κ π)

def refreshStored (o : ι) (start : ℤ) (c : ProbeClient ι κ) : ProbeClient ι κ :=
  let b := c.stored o start
  if b.fixedProbesCount = probesPerBlock then c
  else if c.queryId = b.lastQueryId then c
  else if !setup.prepared then c
  else
    let (b, c) := fetchStored server start b c (setup.stored o)
    let b := { b with lastQueryId := c.queryId }
    { c with stored := fun o' s => if o' = o ∧ s = start then b else c.stored o' s }

/-! ## Blocks of definable parameters -/

/-- What a formula gets for a probe of an operand. -/
def operandValue (prec : ℕ) : Cell → Definable.Value
  | .value v => some (v * 10 ^ prec)
  | _ => none

/-- A result of a formula over the precision; `uninit` comes from a stack cell not written. -/
def probeCell (prec : ℕ) : Outcome → Cell
  | .value v => .value (v / 10 ^ prec)
  | .undefined => .uninit
  | _ => .nodata

/-- One probe of a definable parameter from the probes of its operands. -/
def formulaProbe (p : FormulaParam ι) (probe : ι → Cell) (time : ℤ) : Cell :=
  probeCell p.prec (szbDefinableCalculate setup.env p.formula
    (p.operands.map fun o => operandValue (setup.stored o).prec (probe o)) time)

/-- The number of probes up to the end of the range; `none` when the block is from the future. -/
def rangeCount (start rangeEnd : ℤ) : Option ℕ :=
  if rangeEnd > endTime start then some probesPerBlock
  else if start > rangeEnd then none
  else some (((rangeEnd - start) / probeSpan).toNat + 1)

/-- The loop over the operands: their blocks are refreshed and the least fixed count is kept. -/
def refreshOperands (start : ℤ) : List ι → ℕ → ProbeClient ι κ → ℕ × ProbeClient ι κ
  | [], newFixed, c => (newFixed, c)
  | o :: os, newFixed, c =>
    let c := c.refreshStored server setup o start
    refreshOperands start os (min newFixed (c.stored o start).fixedProbesCount) c

def computeProbes (p : FormulaParam ι) (start : ℤ) (count : ℕ) (c : ProbeClient ι κ)
    (b : ProbeBlock) : ProbeBlock :=
  { b with data := fun i =>
      if b.fixedProbesCount ≤ i ∧ i < count then
        formulaProbe setup p (fun o => (c.stored o start).data i) (start + i * probeSpan)
      else b.data i }

/-- `szb_probeblock_definable_t::FetchProbes` -/
def fetchDefinable (p : FormulaParam ι) (start : ℤ) (b : ProbeBlock) (c : ProbeClient ι κ) :
    ProbeBlock × ProbeClient ι κ :=
  match c.getRange with
  | (none, c) => (b, c)
  | (some rangeEnd, c) =>
    match rangeCount start rangeEnd with
    | none => (b, c)
    | some count =>
      let (newFixed, c) := refreshOperands server setup start p.operands probesPerBlock c
      let newFixed := if p.operands = [] then count else newFixed
      ({ computeProbes setup p start count c b with fixedProbesCount := newFixed }, c)

/-- `Refresh` of a definable parameter's block. -/
def refreshDefinable [DecidableEq κ] (d : κ) (start : ℤ) (c : ProbeClient ι κ) : ProbeClient ι κ :=
  let b := c.definable d start
  if b.fixedProbesCount = probesPerBlock then c
  else if c.queryId = b.lastQueryId then c
  else if !setup.prepared then c
  else
    let (b, c) := fetchDefinable server setup (setup.definable d) start b c
    let b := { b with lastQueryId := c.queryId }
    { c with definable := fun d' s => if d' = d ∧ s = start then b else c.definable d' s }

def nextQuery (c : ProbeClient ι κ) : ProbeClient ι κ :=
  { c with queryId := (if c.queryId = 2 ^ 63 - 1 then 0 else c.queryId) + 1 }

inductive Call (ι κ : Type) where
  | nextQuery
  | refreshStored (o : ι) (start : ℤ)
  | refreshDefinable (d : κ) (start : ℤ)

def step [DecidableEq κ] (c : ProbeClient ι κ) : Call ι κ → ProbeClient ι κ
  | .nextQuery => c.nextQuery
  | .refreshStored o start => c.refreshStored server setup o start
  | .refreshDefinable d start => c.refreshDefinable server setup d start

/-- The value of a definable parameter from the final values of its operands. -/
def finalFormula (server : ProbesServer π) (setup : ProbeSetup ι κ π) (p : FormulaParam ι)
    (t : ℤ) : Cell :=
  formulaProbe setup p (fun o => finalProbe server t (setup.stored o)) t

theorem rangeCount_eq_some {start rangeEnd : ℤ} {count : ℕ}
    (h : rangeCount start rangeEnd = some count) : count = covered start rangeEnd := by
  unfold rangeCount endTime probeSpan probesPerBlock at h
  unfold covered probeSpan probesPerBlock
  split_ifs at h ⊢ <;> simp only [Option.some.injEq] at h <;> omega

/-! ## The invariant -/

variable {server setup}

/-- The blocks of stored parameters are fixed up to a time the server has reached. -/
def StoredInv (server : ProbesServer π) (setup : ProbeSetup ι κ π) (c : ProbeClient ι κ) : Prop :=
  ∀ o start, Final (finalProbe server · (setup.stored o)) start (c.stored o start) ∧
    (c.stored o start).fixedProbesCount ≤ covered start c.now

theorem refreshStored_spec (o : ι) (start : ℤ) {c : ProbeClient ι κ}
    (h : StoredInv server setup c) :
    Extends c (c.refreshStored server setup o start) ∧
      StoredInv server setup (c.refreshStored server setup o start) := by
  unfold refreshStored
  simp only
  split_ifs with hfull hquery hprepared
  · exact ⟨Extends.refl c, h⟩
  · exact ⟨Extends.refl c, h⟩
  · exact ⟨Extends.refl c, h⟩
  · obtain ⟨hwaits, hfinal, hgrows, hreached⟩ := fetchStored_spec (h o start).1 (h o start).2
    generalize fetchStored server start (c.stored o start) c (setup.stored o) = r at *
    obtain ⟨b, c'⟩ := r
    obtain ⟨delay, net, rfl⟩ := hwaits
    refine ⟨⟨by simp, rfl, rfl, rfl, ?_⟩, ?_⟩
    · intro o' s
      simp only
      split
      · next hos => exact hos.1 ▸ hos.2 ▸ hgrows
      · exact le_rfl
    · intro o' s
      simp only
      split
      · next hos => exact hos.1 ▸ hos.2 ▸ ⟨hfinal, hreached⟩
      · exact ⟨(h o' s).1, (h o' s).2.trans (covered_mono (by simp))⟩

/-- The operands' blocks are refreshed, and the count kept is the least one. -/
structure OperandsRead (server : ProbesServer π) (setup : ProbeSetup ι κ π) (start : ℤ)
    (os : List ι) (n : ℕ) (c : ProbeClient ι κ) (r : ℕ × ProbeClient ι κ) : Prop where
  keeps : Extends c r.2
  inv : StoredInv server setup r.2
  le : r.1 ≤ n
  least : ∀ o ∈ os, r.1 ≤ (r.2.stored o start).fixedProbesCount
  ge : ∀ k ≤ n, (∀ o ∈ os, k ≤ (c.stored o start).fixedProbesCount) → k ≤ r.1

theorem refreshOperands_spec (start : ℤ) (os : List ι) (n : ℕ) {c : ProbeClient ι κ}
    (h : StoredInv server setup c) :
    OperandsRead server setup start os n c (refreshOperands server setup start os n c) := by
  induction os generalizing n c with
  | nil => exact ⟨Extends.refl c, h, le_rfl, nofun, fun k hk _ => hk⟩
  | cons o os ih =>
    obtain ⟨hext, hinv⟩ := refreshStored_spec o start h
    have hread := ih (min n ((c.refreshStored server setup o start).stored o
      start).fixedProbesCount) hinv
    refine ⟨hext.trans hread.keeps, hread.inv, hread.le.trans (min_le_left _ _), ?_, ?_⟩
    · intro o' ho'
      obtain rfl | ho' := List.mem_cons.mp ho'
      · exact hread.le.trans ((min_le_right _ _).trans (hread.keeps.grows o' start))
      · exact hread.least o' ho'
    · intro k hk hos
      apply hread.ge k
      · exact le_min hk ((hos o List.mem_cons_self).trans (hext.grows o start))
      · intro o' ho'
        exact (hos o' (List.mem_cons_of_mem o ho')).trans (hext.grows o' start)

/-- The blocks of definable parameters are final, and fixed no further than what they are computed
from. -/
structure Inv (server : ProbesServer π) (setup : ProbeSetup ι κ π) (c : ProbeClient ι κ) :
    Prop where
  stored : StoredInv server setup c
  definable : ∀ d start,
    Final (finalFormula server setup (setup.definable d)) start (c.definable d start)
  operands : ∀ d start, ∀ o ∈ (setup.definable d).operands,
    (c.definable d start).fixedProbesCount ≤ (c.stored o start).fixedProbesCount
  constant : ∀ d start, (setup.definable d).operands = [] →
    (c.definable d start).fixedProbesCount ≤ (c.rangeEnd.map (covered start)).getD 0
  range : ∀ rangeEnd, c.rangeEnd = some rangeEnd → rangeEnd ≤ c.now

omit [DecidableEq ι] in
theorem inv_new (now : ℤ) (net : List Reaction) :
    Inv server setup (ProbeClient.new now net : ProbeClient ι κ) where
  stored _ _ := ⟨⟨Nat.zero_le _, nofun⟩, Nat.zero_le _⟩
  definable _ _ := ⟨Nat.zero_le _, nofun⟩
  operands _ _ _ _ := Nat.zero_le _
  constant _ _ _ := Nat.zero_le _
  range := nofun

omit [DecidableEq ι] in
theorem Inv.extends {c c' : ProbeClient ι κ} (h : Inv server setup c) (hext : Extends c c')
    (hstored : StoredInv server setup c') : Inv server setup c' where
  stored := hstored
  definable := hext.definable ▸ h.definable
  operands d start o ho := by
    rw [hext.definable]
    exact (h.operands d start o ho).trans (hext.grows o start)
  constant d start := by
    rw [hext.definable, hext.rangeEnd]
    exact h.constant d start
  range rangeEnd hr := (h.range rangeEnd (hext.rangeEnd ▸ hr)).trans hext.now

/-! ## Calls -/

/-- The state in which a definable block reads its operands. -/
def readOperands (server : ProbesServer π) (setup : ProbeSetup ι κ π) (p : FormulaParam ι)
    (start : ℤ) (c : ProbeClient ι κ) : ProbeClient ι κ :=
  (refreshOperands server setup start p.operands probesPerBlock c).2

/-- When a definable block is computed, the block of some operand is fixed no further than the end
of the range reaches. -/
def Steady (server : ProbesServer π) (setup : ProbeSetup ι κ π) (c : ProbeClient ι κ) :
    Call ι κ → Prop
  | .refreshDefinable d start =>
    (c.definable d start).fixedProbesCount ≠ probesPerBlock →
    c.queryId ≠ (c.definable d start).lastQueryId → setup.prepared = true →
    ∀ rangeEnd count, c.getRange.1 = some rangeEnd → rangeCount start rangeEnd = some count →
      (setup.definable d).operands ≠ [] →
      ∃ o ∈ (setup.definable d).operands, ((readOperands server setup (setup.definable d) start
        c.getRange.2).stored o start).fixedProbesCount ≤ count
  | _ => True

/-- From any operands the formulas compute a number or no data. -/
def Defined (setup : ProbeSetup ι κ π) : Prop :=
  ∀ d row time, szbDefinableCalculate setup.env (setup.definable d).formula row time ≠ .undefined

structure AllFinal (server : ProbesServer π) (setup : ProbeSetup ι κ π) (c : ProbeClient ι κ) :
    Prop where
  stored : ∀ o start, Final (finalProbe server · (setup.stored o)) start (c.stored o start)
  definable : ∀ d start,
    Final (finalFormula server setup (setup.definable d)) start (c.definable d start)
  computed : ∀ d start, ∀ i < (c.definable d start).fixedProbesCount,
    (c.definable d start).data i ≠ .uninit

structure Grows (c c' : ProbeClient ι κ) : Prop where
  stored : ∀ o start, (c.stored o start).fixedProbesCount ≤ (c'.stored o start).fixedProbesCount
  definable : ∀ d start,
    (c.definable d start).fixedProbesCount ≤ (c'.definable d start).fixedProbesCount

omit [DecidableEq ι] in
theorem Waits.inv {c c' : ProbeClient ι κ} (hwaits : Waits c c') (h : Inv server setup c) :
    Inv server setup c' := by
  apply h.extends hwaits.extends
  obtain ⟨delay, net, rfl⟩ := hwaits
  intro o start
  exact ⟨(h.stored o start).1, (h.stored o start).2.trans (covered_mono (by simp))⟩

omit [DecidableEq ι] in
theorem Inv.newRange {c : ProbeClient ι κ} (h : Inv server setup c) (q : ℤ) :
    Inv server setup { c with rangeEnd := some c.now, lastRangeQueryId := q } where
  stored := h.stored
  definable := h.definable
  operands := h.operands
  constant d start hd := by
    refine (h.constant d start hd).trans ?_
    cases hr : c.rangeEnd with
    | none => exact Nat.zero_le _
    | some rangeEnd => exact covered_mono (h.range rangeEnd hr)
  range _ hr := (Option.some.inj hr).symm.le

omit [DecidableEq ι] in
theorem getRange_spec {c : ProbeClient ι κ} (h : Inv server setup c) :
    Inv server setup c.getRange.2 ∧ c.getRange.2.stored = c.stored ∧
      c.getRange.2.definable = c.definable ∧
      ∀ rangeEnd, c.getRange.1 = some rangeEnd → c.getRange.2.rangeEnd = some rangeEnd := by
  unfold getRange
  split
  · exact ⟨h, rfl, rfl, fun _ hr => hr⟩
  · obtain ⟨c', hwaits, hr | hr⟩ := request_cases c
    · rw [hr]
      refine ⟨hwaits.inv h, ?_, ?_, nofun⟩ <;> obtain ⟨delay, net, rfl⟩ := hwaits <;> rfl
    · rw [hr]
      refine ⟨(hwaits.inv h).newRange _, ?_, ?_, fun _ hr => hr⟩ <;>
        obtain ⟨delay, net, rfl⟩ := hwaits <;> rfl

/-- What a fetch for a definable block keeps. -/
structure FormulaFetched (server : ProbesServer π) (setup : ProbeSetup ι κ π) (p : FormulaParam ι)
    (start : ℤ) (b : ProbeBlock) (c : ProbeClient ι κ) (r : ProbeBlock × ProbeClient ι κ) :
    Prop where
  inv : Inv server setup r.2
  same : r.2.definable = c.definable
  stored : ∀ o s, (c.stored o s).fixedProbesCount ≤ (r.2.stored o s).fixedProbesCount
  final : Final (finalFormula server setup p) start r.1
  grows : b.fixedProbesCount ≤ r.1.fixedProbesCount
  operands : ∀ o ∈ p.operands, r.1.fixedProbesCount ≤ (r.2.stored o start).fixedProbesCount
  constant : p.operands = [] →
    r.1.fixedProbesCount ≤ (r.2.rangeEnd.map (covered start)).getD 0

omit [DecidableEq ι] in
theorem final_computeProbes {p : FormulaParam ι} {start : ℤ} {count n : ℕ} {c : ProbeClient ι κ}
    {b : ProbeBlock} (hc : StoredInv server setup c) (hb : Final (finalFormula server setup p) start b)
    (hn : n ≤ probesPerBlock) (hcount : n ≤ count)
    (hoperands : ∀ o ∈ p.operands, n ≤ (c.stored o start).fixedProbesCount) :
    Final (finalFormula server setup p) start
      { computeProbes setup p start count c b with fixedProbesCount := n } := by
  refine ⟨hn, ?_⟩
  intro i hi
  simp only at hi
  simp only [computeProbes]
  split
  · next hcomputed =>
    have hprobe : p.operands.map (fun o => operandValue (setup.stored o).prec
          ((c.stored o start).data i)) =
        p.operands.map (fun o => operandValue (setup.stored o).prec
          (finalProbe server (start + i * probeSpan) (setup.stored o))) := by
      apply List.map_congr_left
      intro o ho
      rw [(hc o start).1.2 i (hi.trans_le (hoperands o ho))]
    rw [finalFormula, formulaProbe, hprobe, formulaProbe]
  · next hcomputed => exact hb.2 i (by omega)

omit [DecidableEq ι] in
theorem formulaFetched_self {d : κ} {start : ℤ} {c c' : ProbeClient ι κ} (h : Inv server setup c')
    (hstored : c'.stored = c.stored) (hdefinable : c'.definable = c.definable) :
    FormulaFetched server setup (setup.definable d) start (c.definable d start) c
      (c.definable d start, c') where
  inv := h
  same := hdefinable
  stored o s := by rw [hstored]
  final := hdefinable ▸ h.definable d start
  grows := le_rfl
  operands := hdefinable ▸ h.operands d start
  constant := hdefinable ▸ h.constant d start

theorem fetchDefinable_spec {d : κ} {start : ℤ} {c : ProbeClient ι κ} (h : Inv server setup c)
    (hsteady : ∀ rangeEnd count, c.getRange.1 = some rangeEnd →
      rangeCount start rangeEnd = some count → (setup.definable d).operands ≠ [] →
      ∃ o ∈ (setup.definable d).operands, ((readOperands server setup (setup.definable d) start
        c.getRange.2).stored o start).fixedProbesCount ≤ count) :
    FormulaFetched server setup (setup.definable d) start (c.definable d start) c
      (fetchDefinable server setup (setup.definable d) start (c.definable d start) c) := by
  obtain ⟨hrange, hstored, hdefinable, hend⟩ := getRange_spec h
  unfold fetchDefinable
  generalize c.getRange = r at *
  obtain ⟨_ | rangeEnd, c₁⟩ := r
  · exact formulaFetched_self hrange hstored hdefinable
  simp only at hrange hstored hdefinable hend hsteady ⊢
  cases hcount : rangeCount start rangeEnd with
  | none => exact formulaFetched_self hrange hstored hdefinable
  | some count =>
    have hread := refreshOperands_spec start (setup.definable d).operands probesPerBlock
      hrange.stored
    have hlag := hsteady rangeEnd count rfl hcount
    unfold readOperands at hlag
    generalize refreshOperands server setup start (setup.definable d).operands probesPerBlock c₁ = r
      at *
    obtain ⟨n, c₂⟩ := r
    obtain ⟨hkeeps, hinv, hle, hleast, hge⟩ := hread
    simp only at hkeeps hinv hle hleast hge hlag ⊢
    have hcovered : count = covered start rangeEnd := rangeCount_eq_some hcount
    have hrangeEnd : c₁.rangeEnd = some rangeEnd := hend rangeEnd rfl
    have hreach : (c₂.rangeEnd.map (covered start)).getD 0 = count := by
      rw [hkeeps.rangeEnd, hrangeEnd, hcovered]
      rfl
    by_cases hnil : (setup.definable d).operands = []
    · -- without operands the end of the range decides what is fixed
      rw [if_pos hnil]
      refine ⟨hrange.extends hkeeps hinv, hkeeps.definable.trans hdefinable, ?_, ?_, ?_, ?_, ?_⟩
      · exact fun o s => hstored ▸ hkeeps.grows o s
      · apply final_computeProbes hinv (h.definable d start) _ le_rfl (by simp [hnil])
        exact hcovered ▸ covered_le start rangeEnd
      · have hconstant := hrange.constant d start hnil
        rw [hrangeEnd, hdefinable] at hconstant
        exact hconstant.trans hcovered.symm.le
      · simp [hnil]
      · exact fun _ => hreach.symm.le
    -- the operand that is not ahead of the range bounds what is fixed
    · rw [if_neg hnil]
      obtain ⟨o, ho, hlag⟩ := hlag hnil
      refine ⟨hrange.extends hkeeps hinv, hkeeps.definable.trans hdefinable, ?_, ?_, ?_, ?_, ?_⟩
      · exact fun o s => hstored ▸ hkeeps.grows o s
      · exact final_computeProbes hinv (h.definable d start) hle ((hleast o ho).trans hlag) hleast
      · apply hge _ (h.definable d start).1
        exact hstored ▸ h.operands d start
      · exact hleast
      · exact fun hnil' => absurd hnil' hnil

variable [DecidableEq κ]

theorem refreshDefinable_spec {d : κ} {start : ℤ} {c : ProbeClient ι κ} (h : Inv server setup c)
    (hsteady : Steady server setup c (.refreshDefinable d start)) :
    Inv server setup (c.refreshDefinable server setup d start) ∧
      Grows c (c.refreshDefinable server setup d start) := by
  unfold refreshDefinable
  simp only
  split_ifs with hfull hquery hprepared
  · exact ⟨h, fun _ _ => le_rfl, fun _ _ => le_rfl⟩
  · exact ⟨h, fun _ _ => le_rfl, fun _ _ => le_rfl⟩
  · exact ⟨h, fun _ _ => le_rfl, fun _ _ => le_rfl⟩
  -- a new answer of the server: the block is computed from its operands
  · have hfetched := fetchDefinable_spec h (hsteady hfull hquery (by simpa using hprepared))
    generalize fetchDefinable server setup (setup.definable d) start (c.definable d start) c = r
      at *
    obtain ⟨b, c'⟩ := r
    obtain ⟨hinv, hsame, hstored, hfinal, hgrows, hoperands, hconstant⟩ := hfetched
    simp only at hinv hsame hstored hfinal hgrows hoperands hconstant ⊢
    refine ⟨⟨hinv.stored, ?_, ?_, ?_, hinv.range⟩, hstored, ?_⟩
    · intro d' s
      simp only
      split
      · next hds => exact hds.1 ▸ hds.2 ▸ hfinal
      · exact hinv.definable d' s
    · intro d' s
      simp only
      split
      · next hds => exact hds.1 ▸ hds.2 ▸ hoperands
      · exact hinv.operands d' s
    · intro d' s
      simp only
      split
      · next hds => exact hds.1 ▸ hds.2 ▸ hconstant
      · exact hinv.constant d' s
    · intro d' s
      simp only
      split
      · next hds => exact hds.1 ▸ hds.2 ▸ hgrows
      · rw [hsame]

theorem step_inv {c : ProbeClient ι κ} (call : Call ι κ) (h : Inv server setup c)
    (hsteady : Steady server setup c call) :
    Inv server setup (c.step server setup call) ∧ Grows c (c.step server setup call) := by
  cases call with
  | nextQuery =>
    exact ⟨⟨h.stored, h.definable, h.operands, h.constant, h.range⟩, fun _ _ => le_rfl,
      fun _ _ => le_rfl⟩
  | refreshStored o start =>
    obtain ⟨hext, hstored⟩ := refreshStored_spec o start h.stored
    exact ⟨h.extends hext hstored, hext.grows, fun d s => by rw [step, hext.definable]⟩
  | refreshDefinable d start => exact refreshDefinable_spec h hsteady

omit [DecidableEq ι] [DecidableEq κ] in
theorem formulaProbe_ne_uninit {setup : ProbeSetup ι κ π} (hdefined : Defined setup) (d : κ)
    (probe : ι → Cell) (time : ℤ) : formulaProbe setup (setup.definable d) probe time ≠ .uninit := by
  have hvalue := hdefined d ((setup.definable d).operands.map fun o =>
    operandValue (setup.stored o).prec (probe o)) time
  unfold formulaProbe probeCell
  split
  · exact Cell.noConfusion
  · rename_i hundefined
    exact absurd hundefined hvalue
  · exact Cell.noConfusion

/-- With formulas that compute a value, in every run in which definable blocks are computed while
some operand is not ahead of the range, fixed counts stay in range, never decrease, and cover only
final probes. -/
theorem run_final (server : ProbesServer π) (setup : ProbeSetup ι κ π) (hdefined : Defined setup)
    (now : ℤ) (net : List Reaction) (calls : List (Call ι κ))
    (h : Run.Along (step server setup) (Steady server setup) (new now net) calls) :
    Run.Along (step server setup) (fun c call => AllFinal server setup (c.step server setup call) ∧
      Grows c (c.step server setup call)) (new now net) calls := by
  have hnew : Inv server setup (new now net) := inv_new now net
  refine Run.along_of_inv ?_ ?_ hnew h h
  · intro c call hc _ hsteady
    exact (step_inv call hc hsteady).1
  · intro c call hc _ hsteady
    obtain ⟨hinv, hgrows⟩ := step_inv call hc hsteady
    refine ⟨⟨fun o s => (hinv.stored o s).1, hinv.definable, fun d s i hi => ?_⟩, hgrows⟩
    rw [(hinv.definable d s).2 i hi]
    exact formulaProbe_ne_uninit hdefined d _ _

def sevens : ProbesServer ℕ where
  store now _ t := if t ≤ now then 7 else fileNodata
  stable h h' := by simp [h, h.trans h']

def copySetup : ProbeSetup ℕ ℕ ℕ where
  stored path := .real path 0
  definable _ := ⟨['0', ' '], 0, [0]⟩
  env := .plain
  prepared := true

theorem defined_copySetup : Defined copySetup := by
  intro d row time
  cases row with
  | nil => exact Outcome.noConfusion
  | cons v row =>
    cases v with
    | none => exact Outcome.noConfusion
    | some x => exact Outcome.noConfusion

/-- The time of the server enters the second slot between the range and the probes of the operand:
the second slot is fixed without a value. -/
theorem late_operand_not_final :
    ¬ Run.Along (step sevens copySetup) (fun c call => AllFinal sevens copySetup
      (c.step sevens copySetup call) ∧ Grows c (c.step sevens copySetup call))
      (new 0 [⟨0, true⟩, ⟨10, true⟩]) [.refreshDefinable 0 0] := by
  intro h
  have hfinal := h.1.1.definable 0 0
  have hslot := hfinal.2 1 (by decide)
  revert hslot
  decide

/-- A run in which the time of the server goes on between two refreshes. -/
theorem run_final_two_queries :
    Run.Along (step sevens copySetup) (fun c call => AllFinal sevens copySetup
      (c.step sevens copySetup call) ∧ Grows c (c.step sevens copySetup call))
      (new 0 [⟨0, true⟩, ⟨5, true⟩, ⟨10, true⟩, ⟨0, true⟩])
      [.refreshDefinable 0 0, .nextQuery, .refreshDefinable 0 0] := by
  apply run_final sevens copySetup defined_copySetup
  refine ⟨?_, trivial, ?_, trivial⟩
  · intro _ _ _ rangeEnd count hend hcount _
    obtain rfl : 0 = rangeEnd := Option.some.inj hend
    obtain rfl : 1 = count := Option.some.inj hcount
    exact ⟨0, List.mem_singleton.mpr rfl, by decide⟩
  · intro _ _ _ rangeEnd count hend hcount _
    obtain rfl : 15 = rangeEnd := Option.some.inj hend
    obtain rfl : 2 = count := Option.some.inj hcount
    exact ⟨0, List.mem_singleton.mpr rfl, by decide⟩

end ProbeClient
end Szbase
end Szarp
