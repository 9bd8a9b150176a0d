import Szarp.Draw3.Times
import Szarp.Lib.Aggregate
import Mathlib.Algebra.Order.Ring.Rat
import Mathlib.Data.List.Range

/-!
# The statistics of a draw

`draw.cpp`: the statistics are added to when an entry becomes present, and are calculated again when
the table is moved. The values are exact here; the deviation and the ratio of probes, which follow
from the rest, are left out.
-/

namespace Szarp
namespace Draw3

/-- `m_count` to `m_hsum`; `none` is not a number. -/
structure Statistics where
  count : ℕ
  probesCount : ℤ
  dataProbesCount : ℤ
  max : Option ℚ
  min : Option ℚ
  sum : Option ℚ
  sum2 : Option ℚ
  hsum : Option ℚ
deriving DecidableEq

def clearStats : Statistics := ⟨0, 0, 0, none, none, none, none, none⟩

/-- What `UpdateStats` uses of the draw info and of the controller. -/
structure Scale where
  sumDivisor : ℚ
  is30min : Bool

section Scale

variable (c : Scale)

def Scale.hsum (v : ValueInfo) : Option ℚ :=
  v.sum.map fun sum => if c.is30min then sum / c.sumDivisor / 60 else sum / c.sumDivisor

def updateStats (s : Statistics) (v : ValueInfo) : Statistics :=
  if v.state ≠ .present then s
  else
    let s := { s with
      probesCount := s.probesCount + v.maxProbes
      dataProbesCount := s.dataProbesCount + v.countProbes }
    match v.val with
    | none => s
    | some val =>
      if s.count ≠ 0 then
        { s with
          max := s.max.map (max val)
          min := s.min.map (min val)
          sum := s.sum.map (· + val)
          sum2 := s.sum2.map (· + val * val)
          hsum := s.hsum.bind fun hsum => (c.hsum v).map (hsum + ·)
          count := s.count + 1 }
      else
        { s with
          max := some val
          min := some val
          sum := some val
          sum2 := some (val * val)
          hsum := c.hsum v
          count := s.count + 1 }

def Interval.positions (i : Interval) : List ℤ :=
  (List.range (i.stop - i.start + 1).toNat).map fun k : ℕ => i.start + k

def recalculateStats (values : List ValueInfo) (stats : Interval) : Statistics :=
  stats.positions.foldl (fun s i => (entry values i).elim s (updateStats c s)) clearStats

/-- The value of an entry is calculated in the loop of `UpdateProbesValues` for `index`. -/
def calculated (f index : ℕ) (values : List ValueInfo) (i : ℤ) : Bool :=
  (entry values i).any fun n : ValueInfo =>
    i = index ∧ n.nCount = 2 * f ∨
      i ≠ index ∧ n.state = .neighbourWait ∧ 2 * f ≤ n.nCount + 1

/-- The body of the loop of `UpdateProbesValues`, with statistics. -/
def updateProbeStats (f index : ℕ) (stats : Interval) (t : List ValueInfo × Statistics) (i : ℤ) :
    List ValueInfo × Statistics :=
  let values := updateProbe f index t.1 i
  (values,
    if calculated f index t.1 i ∧ stats.start ≤ i ∧ i ≤ stats.stop then
      (entry values i).elim t.2 (updateStats c t.2)
    else t.2)

def updateProbesStats (f : ℕ) (stats : Interval) (t : List ValueInfo × Statistics) (index : ℕ) :
    List ValueInfo × Statistics :=
  (window f index).foldl (updateProbeStats c f index stats) t

/-- The body of the loop of `SwitchFilter`. -/
def recountStats (f : ℕ) (stats : Interval) (t : List ValueInfo × Statistics) (i : ℕ) :
    List ValueInfo × Statistics :=
  if t.1[i]?.any fun v => v.state ≠ .empty ∧ v.state ≠ .pending then
    updateProbesStats c f stats t i
  else t

end Scale

/-! ## The draw -/

structure StatsDraw extends Draw where
  scale : Scale
  statistics : Statistics

namespace StatsDraw

def recalculated (d : StatsDraw) (d' : Draw) : StatsDraw :=
  { d with toDraw := d', statistics := recalculateStats d.scale d'.values d'.stats }

def setNumberOfValues (n : ℕ) (d : StatsDraw) : Option StatsDraw :=
  (d.toDraw.setNumberOfValues n).map fun d' => { d with toDraw := d', statistics := clearStats }

/-- The view alone is moved when there is a double cursor. -/
def moved (d : StatsDraw) (d' : Draw) : StatsDraw :=
  if d'.doubleCursor then { d with toDraw := d' } else d.recalculated d'

def moveView (dist : ℤ) (d : StatsDraw) : Option StatsDraw :=
  ({ d.toDraw with startTime := d.startTime + dist }.moveView dist).map d.moved

def moveToTime (time : ℤ) (d : StatsDraw) : Option StatsDraw :=
  if d.startTime = time then some d else (d.toDraw.moveToTime time).map d.moved

def dragStats (disp : ℤ) (d : StatsDraw) : Option StatsDraw :=
  (d.toDraw.dragStats disp).map fun d' =>
    if d.doubleCursor then d.recalculated d' else { d with toDraw := d' }

def startDoubleCursor (index : ℤ) (d : StatsDraw) : Option StatsDraw :=
  (d.toDraw.startDoubleCursor index).map d.recalculated

def stopDoubleCursor (d : StatsDraw) : Option StatsDraw :=
  d.toDraw.stopDoubleCursor.map d.recalculated

def switchFilter (t : ℕ) (d : StatsDraw) : Option StatsDraw :=
  let df : ℤ := t - d.filter
  (resize df d.values).map fun values =>
    let stats := d.stats.move df
    let (values, statistics) :=
      (List.range values.length).foldl (recountStats d.scale t stats) (values, clearStats)
    { d with
      filter := t
      view := d.view.move df
      stats := stats
      values := values
      statistics := statistics }

def stored (r : Response) (index : ℕ) (d : Draw) : List ValueInfo :=
  d.values.modify index fun vi =>
    { vi with
      avVal := r.response
      sum := r.sum
      firstVal := r.firstVal
      lastVal := r.lastVal
      countProbes := r.count
      dbVal := d.method.dbVal r }

def insertValue (r : Response) (d : StatsDraw) : StatsDraw :=
  let index := r.time - d.startTime + d.view.start
  if index < 0 ∨ index ≥ d.values.length then d
  else if d.values[index.toNat]?.any ValueInfo.isData then d
  else
    let (values, statistics) := updateProbesStats d.scale d.filter d.stats
      (stored r index.toNat d.toDraw, d.statistics) index.toNat
    { d with values := values, statistics := statistics }

def addData (vv : List Response) (d : StatsDraw) : StatsDraw :=
  vv.foldl (fun d r => d.insertValue r) d

def resetValue (d : StatsDraw) (i : ℕ) : StatsDraw :=
  { d with
    values := d.values.modify i fun v => { v with state := .empty }
    statistics :=
      if d.stats.start ≤ i ∧ i ≤ d.stats.stop then
        { d.statistics with
          probesCount := d.statistics.probesCount - (d.values[i]?.elim 0 ValueInfo.maxProbes) }
      else d.statistics }

def recalculate (d : StatsDraw) : Option StatsDraw := d.toDraw.recalculateStats.map d.recalculated

def clean (d : StatsDraw) : Option StatsDraw :=
  { d with values := List.replicate d.values.length ValueInfo.new }.recalculate

def refreshData (autoRefresh : Bool) (d : StatsDraw) : Option StatsDraw :=
  if autoRefresh ∧ d.filter = 0 then
    ((List.range d.values.length).foldl (fun d i =>
      if d.values[i]?.any fun v => v.state = .present ∧ ¬v.isData then d.resetValue i
      else d) d).recalculate
  else d.clean

inductive Op where
  | draw (op : Draw.Op)
  | refreshData (autoRefresh : Bool)

def step (d : StatsDraw) : Op → Option StatsDraw
  | .draw (.setNumberOfValues n) => d.setNumberOfValues n
  | .draw (.moveView dist) => d.moveView dist
  | .draw (.moveToTime time) => d.moveToTime time
  | .draw (.dragStats disp) => d.dragStats disp
  | .draw (.startDoubleCursor index) => d.startDoubleCursor index
  | .draw .stopDoubleCursor => d.stopDoubleCursor
  | .draw (.switchFilter t) => d.switchFilter t
  | .draw (.insertValue r) => some (d.insertValue r)
  | .draw (.addData vv) => some (d.addData vv)
  | .draw .getDataToFetch => some { d with toDraw := d.toDraw.getDataToFetch }
  | .refreshData autoRefresh => d.refreshData autoRefresh

end StatsDraw
end Draw3
end Szarp
