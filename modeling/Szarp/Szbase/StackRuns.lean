import Szarp.Szbase.StackEffects

/-!
# Evaluations on one stack

The probes of a block are evaluated on one array, which is not cleared between them.  When does a
result not depend on what the evaluations before it have left there?
-/

namespace Szarp
namespace Szbase
namespace StackMachine

open Definable (Value stackSize behindBlank)

section Results

variable (env : Environment) (operands : List Operand) (time : ℤ) (formula : List Char)

def after (n : ℕ) (m : ℤ → Value) : Cells.Run ℤ Value Control :=
  (Cells.steps (step env operands time) n (start formula)).run m

end Results

def blank : ℤ → Value := fun _ => none

variable {env : Environment} {operands : List Operand} {time : ℤ} {formula : List Char}
  {m m' : ℤ → Value}

/-! ## Ends -/

def Control.rest : Control → ℕ
  | .scan _ text _ _ => text.length + 2
  | .finish _ => 1
  | _ => 0

/-- All cells below the top have been written, and only such cells have been read. -/
def Fresh (c : Control) (as : List (Cells.Access ℤ)) : Prop :=
  (∃ v, c = .returned v) ∨ (InRange c blank ∧ Cells.ReadsWithin ∅ as ∧
    ∀ i, 0 ≤ i → i < c.sp → .write i ∈ as)

def sum : List Char := ['0', ' ', '1', ' ', '+']

end StackMachine
end Szbase
end Szarp
