import Szarp.Szbase.Definable

/-!
# Formulas of draw definable parameters

`TParam::PrepareDefinable` collects the parameters that a formula names, and
`TParam::GetDrawFormula` compiles its text for `szb_definable_calculate`.
-/

namespace Szarp
namespace Ipk
namespace DrawFormula

open Szbase.Definable

/-! ## Parameters -/

/-- A parameter that a formula can name. `constant` is what its own `PrepareDefinable` finds: `none`
when that fails, and the number that replaces the parameter when it is constant. -/
structure Operand where
  name : List Char
  virtualBaseInd : ℕ
  constant : Option (Option ℤ)
deriving DecidableEq

def upToLastColon (s : List Char) : List Char :=
  if ':' ∈ s then ((s.reverse.dropWhile (· ≠ ':')).tail).reverse else s

def absoluteName (name ref : List Char) : List Char :=
  if name.length > 4 ∧ name.take 4 = ['*', ':', '*', ':'] then upToLastColon ref ++ name.drop 3
  else if name.length > 2 ∧ name.take 2 = ['*', ':'] then
    ref.takeWhile (· ≠ ':') ++ name.drop 1
  else name

def getParamByName (params : List Operand) (name : List Char) : Option Operand :=
  params.find? fun p => p.name ≠ [] ∧ name ≠ [] ∧ p.name = name

/-- The parameter that a formula of `self` names; `none` also for a failed assertion. -/
def resolve (params : List Operand) (self name : List Char) : Option Operand :=
  if name = [] ∨ self = [] then none else getParamByName params (absoluteName name self)

/-! ## Collecting -/

/-- An integer as a stream prints it. -/
def intText (v : ℤ) : List Char :=
  if v < 0 then '-' :: Nat.toDigits 10 v.natAbs else Nat.toDigits 10 v.natAbs

section Scanners

variable (find : List Char → Option Operand)

/-- The loop of `PrepareDefinable` from a position on: the formula with constants put in, and the
cache. `some n`: `n` characters are replaced, and the one behind them is not looked at. `none` as a
result is `TCheckException`. -/
def prepareLoop : Option ℕ → List Char → Option (List Char × List Operand)
  | _, [] => some ([], [])
  | some (n + 1), _ :: text => prepareLoop (some n) text
  | some 0, c :: text => (prepareLoop none text).map fun (f, cache) => (c :: f, cache)
  | none, c :: text =>
    if c ≠ '(' then (prepareLoop none text).map fun (f, cache) => (c :: f, cache)
    else if ')' ∉ text then none
    else
      let name := text.takeWhile (· ≠ ')')
      match find name with
      | none => none
      | some tp =>
        match tp.constant with
        | none => none
        | some (some v) => (prepareLoop (some (name.length + 1)) text).map
            fun (f, cache) => (intText v ++ f, cache)
        | some none => (prepareLoop none text).map fun (f, cache) => ('(' :: f, tp :: cache)

/-! ## Compiling -/

/-- The states 0, 1 and 2 of `GetDrawFormula`; the last one holds the name read so far. -/
inductive DrawState where
  | text
  | number
  | name (read : List Char)

def drawLoop : DrawState → List Char → Option (List Char)
  | _, [] => some []
  | .text, c :: text =>
    if c.isDigit ∨ c = '-' ∧ (text.head?.map Char.isDigit).getD false then
      (drawLoop .number text).map fun f => '#' :: c :: f
    else if c = '(' then drawLoop (.name []) text
    else (drawLoop .text text).map fun f => c :: f
  | .number, c :: text => (drawLoop (if c.isDigit then .number else .text) text).map fun f => c :: f
  | .name read, c :: text =>
    if c ≠ ')' then drawLoop (.name (read ++ [c])) text
    else match find read with
      | none => none
      | some tp => (drawLoop .text text).map fun f => Nat.toDigits 10 tp.virtualBaseInd ++ f

end Scanners

/-- The old text for no data. -/
def oldNodata : List Char := ['#', '-', '3', '2', '7', '6', '8']

/-- `#-32768` is replaced by `X` wherever it is found; the first argument counts characters that are
replaced. -/
def replaceNodata : ℕ → List Char → List Char
  | _, [] => []
  | n + 1, _ :: text => replaceNodata n text
  | 0, c :: text =>
    if oldNodata.isPrefixOf (c :: text) then 'X' :: replaceNodata 6 text
    else c :: replaceNodata 0 text

def getDrawFormula (find : List Char → Option Operand) (formula : List Char) : Option (List Char) :=
  (drawLoop find .text formula).map (replaceNodata 0)

/-- `PrepareDefinable`: the cache and the compiled formula. -/
def prepareDefinable (params : List Operand) (self formula : List Char) :
    Option (List Operand × List Char) :=
  match prepareLoop (resolve params self) none formula with
  | none => none
  | some (formula, cache) => (getDrawFormula (resolve params self) formula).map fun f => (cache, f)

/-! ## Scanning -/

/-- What `szb_definable_calculate` meets in a compiled formula. -/
inductive Lexeme where
  | index (digits : List Char)
  | literal (v : ℚ)
  | condition (c : Char)
  | operator (c : Char)
deriving DecidableEq

/-- Where the scan is: at a lexeme, looking for the next blank, or behind a question mark. -/
inductive ScanState where
  | lexeme
  | blank
  | condition

/-- The scan of `szb_definable_calculate`. -/
def scan : ScanState → List Char → List Lexeme
  | _, [] => []
  | .blank, c :: text => scan (if c = ' ' then .lexeme else .blank) text
  | .condition, c :: text => .condition c :: scan .lexeme text
  | .lexeme, c :: text =>
    if c.isDigit then .index (c :: text.takeWhile (· ≠ ' ')) :: scan .blank text
    else if c = '#' then .literal (wcstod text) :: scan .blank text
    else if c = '?' then scan .condition text
    else .operator c :: scan .lexeme text

/-- Whether a lexeme stands for a parameter. -/
def Lexeme.isIndex : Lexeme → Bool
  | .index _ => true
  | _ => false

end DrawFormula
end Ipk
end Szarp
