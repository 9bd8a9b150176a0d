import Szarp.Szbase.AvgProbe
import Szarp.Szbase.Search

/-!
# Averages of ten-minute probes

`szb_get_avg_data`: the sum and the number of the probes of an interval, read month by month.
-/

namespace Szarp
namespace Szbase

/-- What is read of the block of a month. -/
structure AvgBlock (V : Type) extends MonthBlock V where
  fixedProbesCount : ℤ

/-- The index of the last data is the greatest one with data, and negative when there is none. -/
structure AvgBlock.LastIsGreatest {V : Type} (b : AvgBlock V) : Prop where
  greatest : ∀ i : ℕ, i < b.maxProbes → b.data i ≠ none → i ≤ b.lastDataProbeIdx
  inside : 0 ≤ b.lastDataProbeIdx →
    b.lastDataProbeIdx < b.maxProbes ∧ b.data b.lastDataProbeIdx.toNat ≠ none

/-- A parameter and its buffer, as the averages see them: the blocks of its months, and the value of
a constant parameter with the dates between which it is available. A missing date is -1. -/
structure AvgParam (V : Type) where
  block : ℤ → ℕ → Option (AvgBlock V)
  constValue : Option V
  firstAvDate : ℤ
  searchLast : ℤ
  block_valid : ∀ y m b, block y m = some b → b.maxProbes = szbProbecnt y m ∧ b.LastIsGreatest
  first_slot : firstAvDate = -1 ∨ dataSpan ∣ firstAvDate
  last_slot : searchLast = -1 ∨ dataSpan ∣ searchLast

namespace AvgParam

variable {V : Type}

def szbGetData (p : AvgParam V) (time : ℤ) : Option V :=
  match p.constValue with
  | some v => if time ≥ p.firstAvDate ∧ time ≤ p.searchLast then some v else none
  | none => (p.block (szbTime2my time).1 (szbTime2my time).2).bind fun b =>
      b.data (szbProbeind time dataSpan).toNat

variable [Add V] {p : AvgParam V} {t endTime : ℤ}

section Average

variable {V : Type} [AddMonoid V] (nodata : V) {p : AvgParam V} {startTime endTime : ℤ}

end Average

section Const

variable {V : Type} {p : AvgParam V} {v : V} {startTime endTime : ℤ}

def afterLast (p : AvgParam V) : ℤ := p.searchLast - p.searchLast % dataSpan + dataSpan

theorem szbGetData_const (hconst : p.constValue = some v) (s : ℤ) :
    p.szbGetData s = if p.firstAvDate ≤ s ∧ s ≤ p.searchLast then some v else none := by
  rw [szbGetData, hconst]

variable [AddMonoid V] (nodata : V)

end Const

end AvgParam
end Szbase
end Szarp
