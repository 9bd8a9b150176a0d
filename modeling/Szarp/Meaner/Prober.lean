import Mathlib.Data.List.Chain
import Mathlib.Order.Monotone.Basic
import Szarp.Lib.Gregorian
import Szarp.Lib.Run

/-!
# The cycles of `prober`

`prober.cc` waits for the end of a ten-second cycle, in which time its remover goes through the
cached files, and then writes the probes of the cycle that has begun.
-/

namespace Szarp
namespace Meaner
open Gregorian

def Prober.basePeriod : ℤ := 10

abbrev Path := List Char

/-- `FileRemover`; the iterator holds the entries that are left, the current one first. -/
structure FileRemover where
  iter : List Path
  lastMonth : ℤ
  currentYear : ℤ
  currentMonth : ℤ

structure Cycle where
  dir : List Path
  elapsed : ℕ → ℤ

namespace FileRemover

def timeToYearMonth (t : ℤ) (r : FileRemover) : FileRemover :=
  { r with currentYear := (gmtime t).tmYear + 1900, currentMonth := (gmtime t).tmMon + 1 }

def reset (dir : List Path) (r : FileRemover) : FileRemover := { r with iter := dir }

/-- The loop of `Go`, and the last reading of the clock; an interrupted loop stays at its entry. -/
def goLoop (elapsed : ℕ → ℤ) (first maxtime : ℤ) : ℕ → ℤ → List Path → List Path × ℤ
  | _, t, [] => ([], t)
  | k, _, p :: ps =>
    let t := first + elapsed k
    if maxtime ≤ t then (p :: ps, t) else goLoop elapsed first maxtime (k + 1) t ps

/-- `Go`, called at `now`: what it returns, and the time at which it does. -/
def go (c : Cycle) (now maxtime : ℤ) (r : FileRemover) : FileRemover × ℤ × ℤ :=
  let r := r.timeToYearMonth now
  if r.iter = [] ∧ r.lastMonth = r.currentMonth then (r, 0, now)
  else
    let r := if r.iter = [] then r.reset c.dir else r
    let r := { r with lastMonth := r.currentMonth }
    let loop := goLoop c.elapsed now maxtime 0 now r.iter
    ({ r with iter := loop.1 }, now - loop.2, loop.2)

def toCheck (c : Cycle) (now : ℤ) (r : FileRemover) : List Path :=
  if r.iter ≠ [] then r.iter
  else if r.lastMonth = (gmtime now).tmMon + 1 then [] else c.dir

end FileRemover

/-- The main loop: the clock, the time of the last cycle, and the remover. -/
structure Prober where
  now : ℤ
  lastCycle : ℤ
  fr : FileRemover

namespace Prober

def new (start : ℕ) (fr : FileRemover) : Prober := ⟨start, 0, fr⟩

/-- `WaitForCycle`, where `sleep` ends when it should. -/
def waitForCycle (c : Cycle) (period t : ℤ) (p : Prober) : Prober × ℤ :=
  let tosleep := period - t % period
  let r := p.fr.go c p.now (p.now + tosleep)
  ({ p with fr := r.1, now := r.2.2 + max (tosleep - r.2.1) 0 }, tosleep)

def writeParams (p : Prober) : ℤ := p.now - p.now % basePeriod

/-- An iteration of the main loop, and the slot that it writes. -/
def cycle (c : Cycle) (p : Prober) : Prober × Option ℤ :=
  let t := p.now
  let w := p.waitForCycle c basePeriod t
  if ¬ (basePeriod < t - p.lastCycle ∧ 0 < p.lastCycle) ∧
      t / basePeriod ≤ p.lastCycle / basePeriod then (w.1, none)
  else ({ w.1 with lastCycle := t }, some w.1.writeParams)

def step (p : Prober) (c : Cycle) : Prober := (p.cycle c).1

def slots : Prober → List Cycle → List ℤ
  | _, [] => []
  | p, c :: cs => (p.cycle c).2.toList ++ slots (p.step c) cs

/-- The clock does not go back, and the remover ends when its time is over. -/
def Timely (p : Prober) (c : Cycle) : Prop :=
  Monotone c.elapsed ∧ ∀ k, 0 ≤ c.elapsed k ∧ c.elapsed k ≤ basePeriod - p.now % basePeriod

/-- Behind the first cycle that is written, the checks are over within five seconds. -/
def Prompt (p : Prober) (c : Cycle) : Prop :=
  p.lastCycle ≠ 0 → ∀ k < (p.fr.toCheck c p.now).length, c.elapsed k < 5

end Prober

/-! ## One cycle -/

namespace FileRemover

theorem goLoop_time {elapsed : ℕ → ℤ} (hmono : Monotone elapsed) {wait : ℤ}
    (hwait : ∀ k, elapsed k ≤ wait) (first : ℤ) (k : ℕ) (t : ℤ) (p : Path) (ps : List Path) :
    (goLoop elapsed first (first + wait) k t (p :: ps)).2 = first + elapsed (k + ps.length) := by
  induction ps generalizing k t p with
  | nil =>
    rw [goLoop]
    split_ifs <;> rfl
  | cons p' ps ih =>
    rw [goLoop]
    split_ifs with hend
    · -- the time is over, and later readings are the same
      have hlater := hmono (Nat.le_add_right k (p' :: ps).length)
      have hmax := hwait (k + (p' :: ps).length)
      dsimp only
      omega
    · rw [ih, List.length_cons]
      congr 2
      omega

def busy (c : Cycle) (now : ℤ) (r : FileRemover) : ℤ :=
  match r.toCheck c now with
  | [] => 0
  | _ :: ps => c.elapsed ps.length

theorem go_time {c : Cycle} (hmono : Monotone c.elapsed) {wait : ℤ}
    (hwait : ∀ k, c.elapsed k ≤ wait) (now : ℤ) (r : FileRemover) :
    (r.go c now (now + wait)).2 = (-r.busy c now, now + r.busy c now) := by
  have hloop : ∀ ps : List Path, toCheck c now r = ps →
      (goLoop c.elapsed now (now + wait) 0 now ps).2 = now + r.busy c now := by
    intro ps hps
    rw [busy, hps]
    cases ps with
    | nil => exact (add_zero now).symm
    | cons p ps =>
      have h := goLoop_time hmono hwait now 0 now p ps
      rwa [zero_add] at h
  unfold go toCheck at *
  by_cases hiter : r.iter = []
  · by_cases hmonth : r.lastMonth = (gmtime now).tmMon + 1
    · have hbusy : r.busy c now = 0 := by simp [busy, toCheck, hiter, hmonth]
      simp [timeToYearMonth, hiter, hmonth, hbusy]
    · have h := hloop c.dir (by simp [hiter, hmonth])
      simp [timeToYearMonth, reset, hiter, hmonth, h]
  · have h := hloop r.iter (by simp [hiter])
    simp [timeToYearMonth, hiter, h]

theorem busy_lt_iff {c : Cycle} (hmono : Monotone c.elapsed) {bound : ℤ} (hbound : 0 < bound)
    (now : ℤ) (r : FileRemover) :
    r.busy c now < bound ↔ ∀ k < (r.toCheck c now).length, c.elapsed k < bound := by
  unfold busy
  cases r.toCheck c now with
  | nil => simp [hbound]
  | cons p ps =>
    constructor
    · intro h k hk
      exact (hmono (Nat.le_of_lt_succ hk)).trans_lt h
    · intro h
      exact h ps.length (Nat.lt_succ_self _)

end FileRemover

namespace Prober

theorem busy_bounds {p : Prober} {c : Cycle} (h : p.Timely c) :
    0 ≤ p.fr.busy c p.now ∧ p.fr.busy c p.now ≤ basePeriod - p.now % basePeriod := by
  unfold FileRemover.busy
  cases p.fr.toCheck c p.now with
  | nil =>
    have hmod := Int.emod_lt_of_pos p.now (show 0 < basePeriod by decide)
    exact ⟨le_rfl, sub_nonneg.mpr hmod.le⟩
  | cons _ ps => exact h.2 ps.length

/-- The time of the remover is added to the wait, so the cycle ends late by twice that time. -/
theorem waitForCycle_now {p : Prober} {c : Cycle} (h : p.Timely c) :
    (p.waitForCycle c basePeriod p.now).1.now =
      p.now - p.now % basePeriod + basePeriod + 2 * p.fr.busy c p.now := by
  obtain ⟨hmono, hwait⟩ := h
  obtain ⟨hlow, hhigh⟩ := busy_bounds ⟨hmono, hwait⟩
  rw [waitForCycle]
  dsimp only
  rw [FileRemover.go_time hmono (fun k => (hwait k).2)]
  dsimp only
  rw [max_eq_left (by omega)]
  ring

/-! ## Runs -/

/-- A cycle that has been written lies before the current one. -/
structure Inv (p : Prober) : Prop where
  clock : 0 ≤ p.now
  last : p.lastCycle = 0 ∨ 0 < p.lastCycle ∧ p.lastCycle / basePeriod < p.now / basePeriod

/-- Where a cycle is written, it is the one that begins when the clock is read behind the wait. -/
theorem cycle_writes {p : Prober} (hinv : Inv p) (hlater : p.lastCycle ≠ 0 ∨ basePeriod ≤ p.now)
    (c : Cycle) : (p.cycle c).2 = some (p.step c).writeParams ∧ (p.step c).lastCycle = p.now ∧
      (p.step c).now = (p.waitForCycle c basePeriod p.now).1.now := by
  have hcond : ¬ (¬ (basePeriod < p.now - p.lastCycle ∧ 0 < p.lastCycle) ∧
      p.now / basePeriod ≤ p.lastCycle / basePeriod) := by
    rintro ⟨-, hle⟩
    rcases hinv.last with hzero | ⟨-, hlt⟩
    · rw [hzero] at hle
      have hnow := hlater.resolve_left (not_not.mpr hzero)
      unfold basePeriod at hle hnow
      omega
    · omega
  rw [step, cycle]
  dsimp only
  rw [if_neg hcond]
  exact ⟨rfl, rfl, rfl⟩

theorem cycle_skips {p : Prober} (hinv : Inv p) (hlast : p.lastCycle = 0) (hnow : p.now < basePeriod)
    (c : Cycle) : (p.cycle c).2 = none ∧ (p.step c).lastCycle = 0 ∧
      (p.step c).now = (p.waitForCycle c basePeriod p.now).1.now := by
  have hcond : ¬ (basePeriod < p.now - p.lastCycle ∧ 0 < p.lastCycle) ∧
      p.now / basePeriod ≤ p.lastCycle / basePeriod := by
    have hclock := hinv.clock
    rw [hlast]
    unfold basePeriod at hnow ⊢
    omega
  rw [step, cycle]
  dsimp only
  rw [if_pos hcond]
  exact ⟨rfl, hlast, rfl⟩

theorem inv_step {p : Prober} (hinv : Inv p) {c : Cycle} (h : p.Timely c) : Inv (p.step c) := by
  have hwait := waitForCycle_now h
  have hbusy := (busy_bounds h).1
  have hclock := hinv.clock
  by_cases hlater : p.lastCycle ≠ 0 ∨ basePeriod ≤ p.now
  · obtain ⟨-, hlast, hnow⟩ := cycle_writes hinv hlater c
    unfold basePeriod at *
    refine ⟨by omega, ?_⟩
    rw [hlast, hnow, hwait]
    have hpos : p.now ≠ 0 := by
      have := hinv.last
      unfold basePeriod at this
      omega
    unfold basePeriod
    omega
  · rw [not_or, not_not, not_le] at hlater
    obtain ⟨-, hlast, hnow⟩ := cycle_skips hinv hlater.1 hlater.2 c
    unfold basePeriod at *
    exact ⟨by omega, Or.inl hlast⟩

/-- The slot behind the last one is written only by a prompt cycle. -/
theorem next_slot {p : Prober} (hinv : Inv p) (hlast : p.lastCycle ≠ 0) {c : Cycle}
    (h : p.Timely c) : (p.step c).writeParams = p.writeParams + basePeriod ↔ Prompt p c := by
  obtain ⟨-, -, hnow⟩ := cycle_writes hinv (Or.inl hlast) c
  have hbusy := (busy_bounds h).1
  rw [Prompt, ← FileRemover.busy_lt_iff h.1 (by decide), imp_iff_right hlast, writeParams,
    writeParams, hnow, waitForCycle_now h]
  unfold basePeriod
  omega

theorem isChain_from {p : Prober} (hinv : Inv p) (hlast : p.lastCycle ≠ 0) {cycles : List Cycle}
    (h : Run.Along step Timely p cycles) :
    (p.writeParams :: slots p cycles).IsChain (fun s s' => s' = s + basePeriod) ↔
      Run.Along step Prompt p cycles := by
  induction cycles generalizing p with
  | nil => simp [slots, Run.Along]
  | cons c cycles ih =>
    obtain ⟨hc, hrest⟩ := h
    obtain ⟨hslot, hcycle, -⟩ := cycle_writes hinv (Or.inl hlast) c
    have hpos : (p.step c).lastCycle ≠ 0 := by
      rw [hcycle]
      have hnow := hinv.last.resolve_left hlast
      unfold basePeriod at hnow
      omega
    rw [slots, hslot, Option.toList_some, List.singleton_append, List.isChain_cons_cons,
      next_slot hinv hlast hc, ih (inv_step hinv hc) hpos hrest, Run.Along]

/-- The first slot that is written does not matter. -/
theorem isChain_slots {p : Prober} (hinv : Inv p) (hnow : basePeriod ≤ p.now)
    {cycles : List Cycle} (h : Run.Along step Timely p cycles) (hlast : p.lastCycle = 0) :
    (slots p cycles).IsChain (fun s s' => s' = s + basePeriod) ↔
      Run.Along step Prompt p cycles := by
  cases cycles with
  | nil => simp [slots, Run.Along]
  | cons c cycles =>
    obtain ⟨hc, hrest⟩ := h
    obtain ⟨hslot, hcycle, -⟩ := cycle_writes hinv (Or.inr hnow) c
    have hpos : (p.step c).lastCycle ≠ 0 := by
      rw [hcycle]
      unfold basePeriod at hnow
      omega
    rw [slots, hslot, Option.toList_some, List.singleton_append,
      isChain_from (inv_step hinv hc) hpos hrest, Run.Along]
    exact (and_iff_right fun hne => absurd hlast hne).symm

/-- The slots are consecutive in exactly those runs in which, behind the first written cycle, the
remover is always done within five seconds. -/
theorem consecutive_iff (start : ℕ) (fr : FileRemover) {cycles : List Cycle}
    (h : Run.Along step Timely (new start fr) cycles) :
    (slots (new start fr) cycles).IsChain (fun s s' => s' = s + basePeriod) ↔
      Run.Along step Prompt (new start fr) cycles := by
  have hinv : Inv (new start fr) := ⟨Int.natCast_nonneg start, Or.inl rfl⟩
  by_cases hnow : basePeriod ≤ (new start fr).now
  · exact isChain_slots hinv hnow h rfl
  · -- before the first ten seconds of the epoch are over nothing is written
    cases cycles with
    | nil => simp [slots, Run.Along]
    | cons c cycles =>
      obtain ⟨hc, hrest⟩ := h
      obtain ⟨hslot, hlast, hthen⟩ := cycle_skips hinv rfl (not_le.mp hnow) c
      have hclock := hinv.clock
      have hbusy := (busy_bounds hc).1
      have hlater : basePeriod ≤ ((new start fr).step c).now := by
        rw [hthen, waitForCycle_now hc]
        unfold basePeriod at *
        omega
      rw [slots, hslot, Option.toList_none, List.nil_append,
        isChain_slots (inv_step hinv hc) hlater hrest hlast, Run.Along]
      exact (and_iff_right fun hne => absurd rfl hne).symm

def newRemover : FileRemover := ⟨[], 0, 0, 0⟩

/-- A cycle with three files, where the check of the first entry ends after `first` seconds and the
next ones after `later`. -/
def threeFiles (first later : ℤ) : Cycle :=
  ⟨[['a'], ['b'], ['c']], fun k => if k = 0 then first else later⟩

theorem timely_threeFiles {p : Prober} {first later : ℤ} (hlow : 0 ≤ first) (hle : first ≤ later)
    (hhigh : later ≤ basePeriod - p.now % basePeriod) : p.Timely (threeFiles first later) := by
  constructor
  · intro i k hik
    dsimp only [threeFiles]
    split_ifs with hi hk <;> omega
  · intro k
    dsimp only [threeFiles]
    split_ifs <;> omega

/-- The check of the second file is interrupted, and the next cycle has it and the third one left. -/
theorem consecutive_iff_fourSeconds :
    (slots (new 100 newRemover) [threeFiles 4 10, threeFiles 2 4]).IsChain
      (fun s s' => s' = s + basePeriod) :=
  (@consecutive_iff 100 newRemover [threeFiles 4 10, threeFiles 2 4]
    ⟨timely_threeFiles (by decide) (by decide) (by decide),
      timely_threeFiles (by decide) (by decide) (by decide), trivial⟩).mpr
    ⟨fun hne => absurd rfl hne, fun _ k _ => show (if k = 0 then (2 : ℤ) else 4) < 5 by
      split_ifs <;> decide, trivial⟩

/-- The two files that are left take six seconds, and the slot between the two cycles is left
out. -/
theorem slots_not_consecutive :
    ¬ (slots (new 100 newRemover) [threeFiles 4 10, threeFiles 3 6]).IsChain
      (fun s s' => s' = s + basePeriod) := by
  decide

end Prober

end Meaner
end Szarp
