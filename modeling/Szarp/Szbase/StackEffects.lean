import Szarp.Szbase.StackSafety

/-!
# What operators leave

How many elements an operator leaves on the stack, what it writes, and where it gives the
evaluation up: all of this is seen on the stack before it.
-/

namespace Szarp
namespace Szbase
namespace StackMachine

open Definable (Value stackSize behindBlank)

/-- The number of elements behind an operator that goes on. -/
def Operator.leaves (env : Environment) (sp : ℤ) (m : ℤ → Value) : Operator → ℤ
  | .swap => sp
  | .duplicate => sp + 1
  | .call => sp - 1 - env.toShort (m (sp - 2))
  | .binary _ => sp - 1
  | .replaceNodata => sp - 1
  | .push => sp + 1
  | .season => if env.seasons.isSome then sp + 1 else sp
  | .skip => sp

def leaves (env : Environment) (c : Char) (text : List Char) (sp : ℤ) (m : ℤ → Value) : ℤ :=
  if c.isDigit then sp + 1
  else if c = '#' then sp + 1
  else if c = '?' then if text.head? = some 'f' then sp - 2 else sp
  else (operator env c).leaves env sp m

/-- The formula behind a token. -/
def behind (c : Char) (text : List Char) : List Char :=
  if c.isDigit then behindBlank text
  else if c = '#' then behindBlank text
  else if c = '?' then text.tail
  else text

/-- What a program does that gives up or goes on with `leaves` elements: the top that it leaves is
written unless elements are taken away only, and the bottom changes only together with the top. -/
structure Effect (x : Stack Control) (m : ℤ → Value) (sp : ℤ) (next : ℤ → Control)
    (givesUp : Prop) (leaves : ℤ) : Prop where
  early : givesUp → (x.run m).result = .returned none
  onward : ¬ givesUp → (x.run m).result = next leaves
  writes : ¬ givesUp → leaves ≤ sp ∨ .write (leaves - 1) ∈ (x.run m).accesses
  idle : ¬ givesUp → leaves = 0 → (x.run m).accesses = []
  bottom : ¬ givesUp → 1 < leaves → ((x.run m).cells 0 = none ↔ m 0 = none)

variable {env : Environment} {operands : List Operand} {time : ℤ} {m : ℤ → Value} {sp : ℤ}
  {next : ℤ → Control}

section Effect

variable {givesUp : Prop} {leaves : ℤ}

theorem Effect.of_nodata (h : givesUp) : Effect nodata m sp next givesUp leaves where
  early _ := rfl
  onward hnot := absurd h hnot
  writes hnot := absurd h hnot
  idle hnot := absurd h hnot
  bottom hnot := absurd h hnot

theorem Effect.of_next (hle : leaves ≤ sp) (hnot : ¬ givesUp) :
    Effect (Cells.done (next leaves)) m sp next givesUp leaves where
  early h := absurd h hnot
  onward _ := rfl
  writes _ := Or.inl hle
  idle _ _ := rfl
  bottom _ _ := Iff.rfl

theorem Effect.read {i : ℤ} {k : Value → Stack Control} (hpos : ¬ givesUp → leaves ≠ 0)
    (h : Effect (k (m i)) m sp next givesUp leaves) :
    Effect (Cells.read i k) m sp next givesUp leaves where
  early := h.early
  onward := h.onward
  writes hnot := (h.writes hnot).imp_right (List.mem_cons_of_mem _)
  idle hnot hzero := absurd hzero (hpos hnot)
  bottom := h.bottom

theorem Effect.bind {α : Type} {x : Stack α} {f : α → Stack Control}
    (hpos : ¬ givesUp → leaves ≠ 0) (hcells : (x.run m).cells = m)
    (h : Effect (f (x.run m).result) m sp next givesUp leaves) :
    Effect (x >>= f) m sp next givesUp leaves := by
  constructor
  · intro hup
    rw [Cells.run_bind, hcells]
    exact h.early hup
  · intro hnot
    rw [Cells.run_bind, hcells]
    exact h.onward hnot
  · intro hnot
    rw [Cells.run_bind, hcells]
    exact (h.writes hnot).imp_right (List.mem_append_right _)
  · intro hnot hzero
    exact absurd hzero (hpos hnot)
  · intro hnot
    rw [Cells.run_bind, hcells]
    exact h.bottom hnot

end Effect

/-! ## Operators -/

end StackMachine
end Szbase
end Szarp
