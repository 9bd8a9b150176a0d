import Szarp.Lib.Cells
import Szarp.Szbase.Definable

/-!
# The stack of `szb_definable_calculate`

The function evaluates a formula on an array that its caller gives it.  Here every pass of its loop
is a program over the cells of that array; `sp` is the number of elements on the stack.
-/

namespace Szarp
namespace Szbase
namespace StackMachine

open Definable (Value stackSize rint behindBlank)

/-- Programs over the memory that holds the stack; the array has the cells from 0 to `stackSize`. -/
abbrev Stack (α : Type) : Type := Cells ℤ Value α

/-- The conversions of a number to `short`, `int` and `unsigned short` are not defined for numbers
out of range, nor for a missing one. -/
structure Conversions where
  toShort : Value → ℤ
  toInt : Value → ℤ
  toUshort : Value → ℕ
  toShort_rint : ∀ q : ℚ, -2 ^ 15 ≤ rint q → rint q < 2 ^ 15 → toShort (some q) = rint q
  toInt_rint : ∀ q : ℚ, -2 ^ 31 ≤ rint q → rint q < 2 ^ 31 → toInt (some q) = rint q
  toUshort_floor : ∀ q : ℚ, 0 ≤ q → q.floor < 2 ^ 16 → toUshort (some q) = q.floor.toNat

/-- What formulas use besides the operands: `IsSummerSeason` when the configuration has seasons,
`pow`, `wcstod`, and the tables of the functions. -/
structure Environment extends Conversions where
  seasons : Option (ℤ → Bool)
  pow : ℚ → ℚ → Value
  wcstod : List Char → Value
  fixo : ℤ → ℤ → ℤ → ℚ
  tabRegZas : ℤ → ℚ
  tabRegPow : ℤ → ℚ
  waterTank : Value → Value

/-- What an index token pushes: a probe of a block, nothing where there is no block, or the value of
an averaging parameter. -/
inductive Operand where
  | probe (v : Value) (prec : ℕ)
  | missing
  | average (v : Value) (prec : ℕ)

/-- Where the evaluation is: at a character of the formula with the text behind it, the number of
the next operand and `sp`; behind the loop; or at its end.  `outside` is a scan pointer that has
left the formula. -/
inductive Control where
  | scan (c : Char) (text : List Char) (it : ℕ) (sp : ℤ)
  | finish (sp : ℤ)
  | returned (v : Value)
  | outside

/-- `return SZB_NODATA` -/
def nodata : Stack Control := pure (.returned none)

/-- `*(++chptr) != 0` -/
def onward (text : List Char) (it : ℕ) (sp : ℤ) : Control :=
  match text with
  | [] => .finish sp
  | c :: text => .scan c text it sp

/-! ## Functions

`base` is the cell that `parlst` points at. -/

section Functions

variable (env : Environment) (base : ℤ)

def szbFixo : Stack Value := do
  let x ← Cells.get base
  let y ← Cells.get (base + 1)
  let z ← Cells.get (base + 2)
  return some (env.fixo (env.toShort x) (env.toShort y) (env.toShort z))

def szbTabReg (table : ℤ → ℚ) : Stack Value := do
  let x ← Cells.get base
  return some (table (env.toShort (x.map (· * 100))))

def szbPositive : Stack Value := do
  let x ← Cells.get base
  return match x with
    | some x => if x > 0 then some x else some 0
    | none => some 0

/-- The existing numbers among the `n` cells from `i` on. -/
def existing : ℕ → ℤ → Stack (List ℚ)
  | 0, _ => return []
  | n + 1, i => do
    let v ← Cells.get i
    let rest ← existing n (i + 1)
    return match v with
      | some q => if q > -10 ^ 20 then q :: rest else rest
      | none => rest

def szbSumExisting : Stack Value := do
  let max ← Cells.get base
  let numbers ← existing (env.toInt max).toNat (base + 1)
  return some numbers.sum

def szbCntExisting : Stack Value := do
  let max ← Cells.get base
  let numbers ← existing (env.toInt max).toNat (base + 1)
  return some numbers.length

/-- The parameter is limited to the range of the tank in its cell. -/
def szbWaterTankSuwa : Stack Value := do
  let x ← Cells.get base
  let x := match x with
    | some x => if x < 0 then some 0 else if x > 100 then some 100 else some x
    | none => none
  Cells.set base x
  return env.waterTank x

def szbBitOfLog : Stack Value := do
  let val ← Cells.get base
  let sh ← Cells.get (base + 1)
  return some (if (BitVec.ofInt 32 (env.toInt val)).getLsbD (env.toInt sh % 32).toNat then 1 else 0)

def szbDefinableChooseFunction (funid : Value) : Stack Value :=
  match env.toUshort funid with
  | 0 => szbFixo env base
  | 1 => szbTabReg env base env.tabRegZas
  | 2 => szbTabReg env base env.tabRegPow
  | 3 => szbPositive base
  | 4 => szbSumExisting env base
  | 5 => szbCntExisting env base
  | 6 => szbWaterTankSuwa env base
  | 7 => szbBitOfLog env base
  | _ => return some 0

end Functions

/-! ## Operators -/

/-- The operators of one character; `season` falls through where there are no seasons. -/
inductive Operator where
  | swap
  | duplicate
  | call
  | binary (f : ℚ → ℚ → Option Value)
  | replaceNodata
  | push
  | season
  | skip

/-- Operators on two numbers; a result is `none` where the evaluation is given up. -/
def arithmetic (env : Environment) (c : Char) : Option (ℚ → ℚ → Option Value) :=
  match c with
  | '+' => some fun x y => some (some (x + y))
  | '-' => some fun x y => some (some (x - y))
  | '*' => some fun x y => some (some (x * y))
  | '/' => some fun x y => if y ≠ 0 then some (some (x / y)) else none
  | '>' => some fun x y => some (some (if x > y then 1 else 0))
  | '<' => some fun x y => some (some (if x < y then 1 else 0))
  | '~' => some fun x y => some (some (if x = y then 1 else 0))
  | ':' => some fun x y =>
    let i1 := BitVec.ofInt 32 (env.toShort (some x))
    let i2 := BitVec.ofInt 32 (env.toShort (some y))
    some (some (i1 <<< 16 ||| i2).toInt)
  | '^' => some fun x y =>
    if y = 0 then some (some 1) else if 0 ≤ x then some (env.pow x y) else none
  | _ => none

def operator (env : Environment) (c : Char) : Operator :=
  match c with
  | '&' => .swap
  | '!' => .duplicate
  | '$' => .call
  | 'N' => .replaceNodata
  | 'X' => .push
  | 'S' => .season
  | c =>
    match arithmetic env c with
    | some f => .binary f
    | none => .skip

section Operators

variable (env : Environment) (sp : ℤ) (next : ℤ → Control)

def swap : Stack Control :=
  if sp < 2 then nodata
  else do
    let some y ← Cells.get (sp - 1) | nodata
    let some x ← Cells.get (sp - 2) | nodata
    Cells.set (sp - 1) (some x)
    Cells.set (sp - 2) (some y)
    return next sp

/-- The top is read before anything is checked. -/
def duplicate : Stack Control := do
  let some x ← Cells.get (sp - 1) | nodata
  if stackSize ≤ sp then nodata
  else
    Cells.set sp (some x)
    return next (sp + 1)

/-- Whether one of the `n` cells from `i` downwards has no number. -/
def anyNodata : ℕ → ℤ → Stack Bool
  | 0, _ => return false
  | n + 1, i => do
    let some _ ← Cells.get i | return true
    anyNodata n (i - 1)

theorem anyNodata_succ (n : ℕ) (i : ℤ) :
    anyNodata (n + 1) i = Cells.read i fun v =>
      match v with
      | some _ => anyNodata n (i - 1)
      | none => Cells.done true := by
  change Cells.read i _ = Cells.read i _
  congr
  funext v
  cases v <;> rfl

/-- A function call: its number is on the top, and the number of its parameters below. -/
def call : Stack Control :=
  if sp < 2 then nodata
  else do
    let sp := sp - 1
    let parCnt := env.toShort (← Cells.get (sp - 1))
    if sp < parCnt + 1 then nodata
    else
      if ← anyNodata parCnt.toNat (sp - 2) then nodata
      else
        let base := sp - parCnt - 1
        let funid ← Cells.get sp
        let v ← szbDefinableChooseFunction env base funid
        Cells.set base v
        return next (sp - parCnt)

/-- `<par1> <par2> <cond> ?f` -/
def choose : Stack Control :=
  if sp < 3 then nodata
  else do
    let sp := sp - 1
    let cond ← Cells.get sp
    if cond = some 0 then
      let b ← Cells.get (sp - 1)
      Cells.set (sp - 2) b
      return next (sp - 1)
    else return next (sp - 1)

def binary (f : ℚ → ℚ → Option Value) : Stack Control :=
  if sp < 2 then nodata
  else do
    let sp := sp - 1
    let some y ← Cells.get sp | nodata
    let some x ← Cells.get (sp - 1) | nodata
    match f x y with
    | none => nodata
    | some v =>
      Cells.set (sp - 1) v
      return next sp

def replaceNodata : Stack Control :=
  if sp < 2 then nodata
  else do
    let sp := sp - 1
    match ← Cells.get (sp - 1) with
    | some _ => return next sp
    | none => do
      let y ← Cells.get sp
      Cells.set (sp - 1) y
      return next sp

def push (v : Value) : Stack Control :=
  if stackSize ≤ sp then nodata
  else do
    Cells.set sp v
    return next (sp + 1)

def season (time : ℤ) : Stack Control :=
  if stackSize ≤ sp then nodata
  else
    match env.seasons with
    | some isSummerSeason => do
      Cells.set sp (some (if isSummerSeason time then 1 else 0))
      return next (sp + 1)
    | none => return next sp

def operate (time : ℤ) : Operator → Stack Control
  | .swap => swap sp next
  | .duplicate => duplicate sp next
  | .call => call env sp next
  | .binary f => binary sp next f
  | .replaceNodata => replaceNodata sp next
  | .push => push sp next none
  | .season => season env sp next time
  | .skip => return next sp

/-- An operand is pushed; behind an averaging parameter, the cell above the top is scaled. -/
def pushOperand (operand : Operand) : Stack Control :=
  match operand with
  | .probe v prec => do
    Cells.set sp (v.map (· * 10 ^ prec))
    return next (sp + 1)
  | .missing => do
    Cells.set sp none
    return next (sp + 1)
  | .average v prec => do
    Cells.set sp v
    Cells.update (sp + 1) fun w => w.map (· * 10 ^ prec)
    return next (sp + 1)

end Operators

/-! ## Passes -/

/-- One pass of the loop, and what is behind it. -/
def step (env : Environment) (operands : List Operand) (time : ℤ) : Control → Stack Control
  | .scan c text it sp =>
    if c.isDigit then
      if stackSize ≤ sp then nodata
      else
        match operands[it]? with
        | none => nodata
        | some operand => pushOperand sp (onward (behindBlank text) (it + 1)) operand
    else if c = '#' then push sp (onward (behindBlank text) it) (env.wcstod text)
    else if c = '?' then
      match text with
      | [] => return .outside
      | 'f' :: text => choose sp (onward text it)
      | _ :: text => return onward text it sp
    else operate env sp (onward text it) time (operator env c)
  | .finish sp =>
    if sp < 0 then nodata
    else do
      let v ← Cells.get 0
      return .returned v
  | c => return c

/-- The evaluation starts at the first character of the formula; an empty formula is an error. -/
def start (formula : List Char) : Control :=
  if formula = [] then .returned none else onward formula 0 0

end StackMachine
end Szbase
end Szarp
