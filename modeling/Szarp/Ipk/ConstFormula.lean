import Szarp.Szbase.Definable

/-!
# Constant formulas

`TParam::calculateConst`: the value of a formula without operands, read from the text of the
configuration.
-/

namespace Szarp
namespace Ipk
namespace ConstFormula

open Szbase.Definable (Outcome Environment)

abbrev Stack : Type := List Szbase.Definable.Value

/-- The operators that `calculateConst` knows. -/
def operate (env : Environment) (c : Char) (stack : Stack) : Except Outcome Stack :=
  match c with
  | '&' => Szbase.Definable.swap stack
  | '!' => Szbase.Definable.duplicate stack
  | '+' => Szbase.Definable.binary (fun x y => .ok (x + y)) stack
  | '-' => Szbase.Definable.binary (fun x y => .ok (x - y)) stack
  | '*' => Szbase.Definable.binary (fun x y => .ok (x * y)) stack
  | '/' => Szbase.Definable.binary (fun x y => if y = 0 then .error .nodata else .ok (x / y)) stack
  | '~' => Szbase.Definable.binary (fun x y => Szbase.Definable.truth (x = y)) stack
  | '^' => Szbase.Definable.binary (Szbase.Definable.power env) stack
  | 'N' => Szbase.Definable.replaceNodata stack
  | 'X' => Szbase.Definable.push none stack
  | c => if c.isWhitespace then .ok stack else .error .nodata

def pass (env : Environment) (c : Char) (rest : List Char) (stack : Stack) :
    Except Outcome (List Char × Stack) :=
  if c.isDigit then
    (Szbase.Definable.push (some (Szbase.Definable.wcstod (c :: rest))) stack).map
      fun stack => (Szbase.Definable.behindBlank rest, stack)
  else (operate env c stack).map fun stack => (rest, stack)

/-- The first argument bounds the passes. -/
def calculateLoop (env : Environment) : ℕ → List Char → Stack → Outcome
  | n + 1, c :: text, stack =>
    match pass env c text stack with
    | .error o => o
    | .ok (text, stack) => calculateLoop env n text stack
  | _, _, stack => Szbase.Definable.finish stack

/-- `TParam::calculateConst`, before the division by the precision. -/
def calculateConst (env : Environment) (formula : List Char) : Outcome :=
  calculateLoop env formula.length formula []

end ConstFormula
end Ipk
end Szarp
