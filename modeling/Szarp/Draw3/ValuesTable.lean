import Mathlib.Algebra.Order.Ring.Int
import Mathlib.Data.List.Basic
import Mathlib.Algebra.Ring.Rat
import Mathlib.Data.Rat.Defs

/-!
# The table of values of a draw

`draw.cpp`: the values of a draw are held in a deque, which is moved along with what is displayed and
what statistics are made of. Times are counted in slots. Of the statistics there is only which
entries they are made of.
-/

namespace Szarp
namespace Draw3

/-! ## Intervals -/

structure Interval where
  mStart : ℤ
  mEnd : ℤ
deriving DecidableEq

namespace Interval

def start (i : Interval) : ℤ := min i.mStart i.mEnd

def stop (i : Interval) : ℤ := max i.mStart i.mEnd

def move (i : Interval) (dr : ℤ) : Interval := ⟨i.mStart + dr, i.mEnd + dr⟩

def drag (i : Interval) (d : ℤ) : Interval := ⟨i.mStart + d, i.mEnd⟩

def union (i j : Interval) : Interval := ⟨min i.start j.start, max i.stop j.stop⟩

end Interval

/-! ## Entries -/

inductive ValueState where
  | empty
  | pending
  | present
  | neighbourWait
deriving DecidableEq

/-- `none` is `SZB_NODATA`. -/
structure ValueInfo where
  state : ValueState
  val : Option ℚ
  sum : Option ℚ
  firstVal : Option ℚ
  lastVal : Option ℚ
  avVal : Option ℚ
  dbVal : Option ℚ
  nCount : ℤ
  countProbes : ℤ
  maxProbes : ℤ
deriving DecidableEq

namespace ValueInfo

def new : ValueInfo := ⟨.empty, none, none, none, none, none, none, 0, 0, -1⟩

def isData (v : ValueInfo) : Bool := v.state = .present && v.val.isSome

def isReceived (v : ValueInfo) : Bool := v.state = .present || v.state = .neighbourWait

end ValueInfo

structure Response where
  time : ℤ
  response : Option ℚ
  sum : Option ℚ
  firstVal : Option ℚ
  lastVal : Option ℚ
  count : ℤ
deriving DecidableEq

inductive AverageValueCalculationMethod where
  | average
  | last
  | lastFirst

def AverageValueCalculationMethod.dbVal (r : Response) : AverageValueCalculationMethod → Option ℚ
  | average => r.response
  | last => r.lastVal
  | lastFirst => r.lastVal.bind fun l => r.firstVal.map fun f => l - f

/-! ## The deque -/

section Deque

-- `f` is the filter of the controller
variable (f : ℕ)

/-- Front and back are only taken from a deque that is not empty. -/
def popFront (values : List ValueInfo) : List ValueInfo :=
  match values with
  | [] => []
  | vi :: rest =>
    if vi.isReceived then
      rest.mapIdx fun i v => if i + 1 < f then { v with nCount := v.nCount - 1 } else v
    else rest

def popBack (values : List ValueInfo) : List ValueInfo :=
  if values.getLast?.any ValueInfo.isReceived then
    (values.mapIdx fun i v =>
      if (i : ℤ) > values.length - f - 1 then { v with nCount := v.nCount - 1 } else v).dropLast
  else values.dropLast

def pushBack (values : List ValueInfo) : List ValueInfo :=
  values ++ [{ ValueInfo.new with
    nCount := (values.drop (values.length - f)).countP ValueInfo.isReceived }]

def pushFront (values : List ValueInfo) : List ValueInfo :=
  { ValueInfo.new with nCount := (values.take f).countP ValueInfo.isReceived } :: values

def moveValues (fin : Interval) (values : List ValueInfo) : List ValueInfo :=
  if fin.stop < 0 ∨ fin.start ≥ values.length then
    List.replicate (fin.stop - fin.start + 1).toNat ValueInfo.new
  else
    let values := (popBack f)^[(values.length - (fin.stop + 1)).toNat] values
    let values := (popFront f)^[fin.start.toNat] values
    let values := (pushFront f)^[(-fin.start).toNat] values
    (pushBack f)^[(fin.stop - fin.start + 1 - values.length).toNat] values

def window (index : ℕ) : List ℤ := (List.range (2 * f + 1)).map fun k : ℕ => (index : ℤ) - f + k

def calculateProbeValue (values : List ValueInfo) (index : ℕ) : Option ℚ :=
  let dbVals := (window f index).filterMap fun i : ℤ =>
    if i < 0 ∨ i ≥ values.length then none else values[i.toNat]?.bind ValueInfo.dbVal
  if dbVals ≠ [] ∧ (values[index]?.bind ValueInfo.dbVal).isSome then
    some (dbVals.sum / dbVals.length)
  else none

def updateProbe (index : ℕ) (values : List ValueInfo) (i : ℤ) : List ValueInfo :=
  if i < 0 ∨ i ≥ values.length then values
  else
    values.modify i.toNat fun n : ValueInfo =>
      if i = index then
        if n.nCount ≠ 2 * f then { n with state := .neighbourWait }
        else { n with state := .present, val := calculateProbeValue f values i.toNat }
      else
        let n : ValueInfo := { n with nCount := n.nCount + 1 }
        if n.state ≠ .neighbourWait ∨ n.nCount < 2 * f then n
        else { n with state := .present, val := calculateProbeValue f values i.toNat }

def updateProbesValues (values : List ValueInfo) (index : ℕ) : List ValueInfo :=
  (window f index).foldl (updateProbe f index) values

end Deque

/-! ## The draw -/

/-- A draw with a draw info, its table of values, and what they use of the controller. How many
probes there are in a slot is given by the period and the draw info. -/
structure Draw where
  startTime : ℤ
  statsStartTime : ℤ
  values : List ValueInfo
  view : Interval
  stats : Interval
  numberOfValues : ℕ
  filter : ℕ
  doubleCursor : Bool
  method : AverageValueCalculationMethod
  maxProbes : ℤ → ℤ

namespace Draw

def unset (filter : ℕ) : Draw :=
  ⟨0, 0, [], ⟨0, 0⟩, ⟨0, 0⟩, 0, filter, false, .average, fun _ => 1⟩

/-- `RecalculateStats`: the entries of the statistics are accessed; `none` when one is out of
range. -/
def recalculateStats (d : Draw) : Option Draw :=
  if 0 ≤ d.stats.start ∧ d.stats.stop < d.values.length then some d else none

/-- `SetNumberOfValues`; it asserts that there is no double cursor. -/
def setNumberOfValues (numberOfValues : ℕ) (d : Draw) : Option Draw :=
  if d.doubleCursor then none
  else
    let shown : Interval := ⟨d.filter, numberOfValues - 1 + d.filter⟩
    some { d with
      values := List.replicate (numberOfValues + 2 * d.filter) ValueInfo.new
      view := shown
      stats := shown
      numberOfValues := numberOfValues }

def moveView (dist : ℤ) (d : Draw) : Option Draw :=
  let view := d.view.move dist
  let stats := if d.doubleCursor then d.stats else d.stats.move dist
  let inner := view.union stats
  let fin : Interval := ⟨inner.start - d.filter, inner.stop + d.filter⟩
  let d := { d with
    values := moveValues d.filter fin d.values
    view := view.move (-inner.start + d.filter)
    stats := stats.move (-inner.start + d.filter) }
  if d.doubleCursor then some d else d.recalculateStats

def moveToTime (time : ℤ) (d : Draw) : Option Draw :=
  if d.startTime = time then some d
  else { d with startTime := time }.moveView (time - d.startTime)

def dragStats (disp : ℤ) (d : Draw) : Option Draw :=
  let d := { d with statsStartTime := d.statsStartTime + disp }
  if d.doubleCursor then
    let stats := d.stats.drag disp
    let inner := d.view.union stats
    let fin : Interval := ⟨inner.mStart - d.filter, inner.mEnd + d.filter⟩
    let d := { d with
      values := moveValues d.filter fin d.values
      view := d.view.move (-inner.start + d.filter)
      stats := stats.move (-inner.start + d.filter) }
    d.recalculateStats
  else some d

/-- `Draw::StartDoubleCursor`; the controller sets its flag afterwards. -/
def startDoubleCursor (index : ℤ) (d : Draw) : Option Draw :=
  let d := { d with stats := ⟨index + d.filter, index + d.filter⟩ }
  d.recalculateStats.map fun d =>
    { d with statsStartTime := d.startTime + index, doubleCursor := true }

/-- `Draw::StopDoubleCursor`; `none` when an empty deque is popped. -/
def stopDoubleCursor (d : Draw) : Option Draw :=
  let pops := (d.view.mStart - d.filter).toNat
  if pops ≤ d.values.length then
    let shown : Interval := ⟨d.filter, d.filter + (d.view.mEnd - d.view.mStart)⟩
    let d := { d with
      values := d.values.drop pops
      view := shown
      stats := shown }
    d.recalculateStats.map fun d => { d with doubleCursor := false }
  else none

/-- `SwitchFilter` after the filter of the controller is set to `t`. -/
def switchFilter (t : ℕ) (d : Draw) : Option Draw :=
  let df : ℤ := t - d.filter
  let values := d.values.map fun v => { v with nCount := 0 }
  let resized :=
    if df > 0 then
      some (List.replicate df.toNat ValueInfo.new ++ values ++
        List.replicate df.toNat ValueInfo.new)
    else if 2 * (-df).toNat ≤ values.length then
      some ((values.take (values.length - (-df).toNat)).drop (-df).toNat)
    else none
  resized.map fun values =>
    { d with
      filter := t
      view := d.view.move df
      stats := d.stats.move df
      values := (List.range values.length).foldl (fun values i =>
        if values[i]?.any fun v => v.state ≠ .empty ∧ v.state ≠ .pending then
          updateProbesValues t values i
        else values) values }

def insertValue (r : Response) (d : Draw) : Draw :=
  let index := r.time - d.startTime + d.view.start
  if index < 0 ∨ index ≥ d.values.length then d
  else if d.values[index.toNat]?.any ValueInfo.isData then d
  else
    let values := d.values.modify index.toNat fun vi =>
      { vi with
        avVal := r.response
        sum := r.sum
        firstVal := r.firstVal
        lastVal := r.lastVal
        countProbes := r.count
        dbVal := d.method.dbVal r }
    { d with values := updateProbesValues d.filter values index.toNat }

/-- `AddData` with a query of the period and the draw info of the draw. -/
def addData (vv : List Response) (d : Draw) : Draw := vv.foldl (fun d r => d.insertValue r) d

def getDataToFetch (d : Draw) : Draw :=
  { d with values := d.values.mapIdx fun i v =>
      if v.state = .empty then
        { v with maxProbes := d.maxProbes (d.startTime + (i - d.view.start)), state := .pending }
      else v }

inductive Op where
  | setNumberOfValues (n : ℕ)
  | moveView (dist : ℤ)
  | moveToTime (time : ℤ)
  | dragStats (disp : ℤ)
  | startDoubleCursor (index : ℤ)
  | stopDoubleCursor
  | switchFilter (t : ℕ)
  | insertValue (r : Response)
  | addData (vv : List Response)
  | getDataToFetch

/-- `none` is an access out of range, or a failed assertion. A view that is moved by itself is moved
along with the time. -/
def step (d : Draw) : Op → Option Draw
  | .setNumberOfValues n => d.setNumberOfValues n
  | .moveView dist => { d with startTime := d.startTime + dist }.moveView dist
  | .moveToTime time => d.moveToTime time
  | .dragStats disp => d.dragStats disp
  | .startDoubleCursor index => d.startDoubleCursor index
  | .stopDoubleCursor => d.stopDoubleCursor
  | .switchFilter t => d.switchFilter t
  | .insertValue r => some (d.insertValue r)
  | .addData vv => some (d.addData vv)
  | .getDataToFetch => some d.getDataToFetch

end Draw
end Draw3
end Szarp
