import Mathlib.Algebra.Group.Int.Defs
import Mathlib.Data.Int.Notation
import Mathlib.Data.List.TakeWhile
import Mathlib.Logic.Function.Basic
import Mathlib.Tactic.Common

/-!
# Formulas of `parcook`

`Calcul` of `parcook.cc`: a formula is evaluated with a stack of values and a stack of flags for
missing ones. Arithmetic is that of any type of numbers.
-/

namespace Szarp
namespace Parcook

def ss : ℤ := 30

def szarpNoData : ℤ := -32768

/-- What goes wrong: an access outside of a stack, a pointer that is `NULL`, or one behind the
formula. -/
inductive Fault where
  | index (i : ℤ)
  | null
  | past
deriving DecidableEq

/-- The operations on `float` that are used, with the conversions and `wcstof`, which reads from the
front of a text; `address` and `memory` are the two parts of the reference to a value, `leRint` is
`i <= rint(x)`, and `existing` is `x > -1e20`. The last ones are the tables of `funtable.cc`, as
functions of the parameters that they are entered with. -/
structure Arith (F : Type) where
  add : F → F → F
  sub : F → F → F
  mul : F → F → F
  div : F → F → F
  lt : F → F → Bool
  eq : F → F → Bool
  isZero : F → Bool
  zero : F
  one : F
  ofShort : ℤ → F
  toShort : F → ℤ
  toUShort : F → ℕ
  wcstof : List Char → F
  address : F → ℕ
  memory : F → ℕ
  truncUShort : F → ℕ
  leRint : ℕ → F → Bool
  existing : F → Bool
  fixo : F → F → F → F
  tabRegZas : F → F
  tabRegPow : F → F
  waterTankSuwa : F → F
  bitOfLog : F → F → F

/-- What a formula is evaluated with: the arithmetic, `VTlen`, and the values of the shared
memory. -/
structure Env (F : Type) extends Arith F where
  vtLen : ℕ
  shmGetValue : ℕ → ℕ → ℤ

structure Calc (F : Type) where
  chptr : List Char
  sp : ℤ
  stack : ℤ → F
  nodata : ℤ → Bool
  calculNoData : Bool
  nullFormula : Bool

/-- A pass of the loop goes on, or returns with what is put into `Probe`. -/
inductive Pass (F : Type) where
  | next (s : Calc F)
  | done (probe : Option (ℕ × ℤ))

namespace Calcul

variable {F : Type} (e : Env F)

def get {α : Type} (a : ℤ → α) (i : ℤ) : Except Fault α :=
  if 0 ≤ i ∧ i ≤ ss then .ok (a i) else .error (.index i)

def put {α : Type} (a : ℤ → α) (i : ℤ) (v : α) : Except Fault (ℤ → α) :=
  if 0 ≤ i ∧ i ≤ ss then .ok (Function.update a i v) else .error (.index i)

/-- The condition of the loop, where `rest` is behind the pointer. -/
def goOn (s : Calc F) (rest : List Char) : Pass F :=
  if rest = [] then .done none else .next { s with chptr := rest }

/-- An operation on two values, which may set `CalculNoData`. -/
def binary (f : F → F → F × Bool) (s : Calc F) (rest : List Char) : Except Fault (Pass F) := do
  if s.sp < 2 then return .done none
  let s := { s with sp := s.sp - 1 }
  if (← get s.nodata s.sp) || (← get s.nodata (s.sp - 1)) then
    return goOn { s with calculNoData := true } rest
  let r := f (← get s.stack (s.sp - 1)) (← get s.stack s.sp)
  let stack ← put s.stack (s.sp - 1) r.1
  return goOn { s with stack := stack, calculNoData := s.calculNoData || r.2 } rest

def limit (f : F → F → Bool) (s : Calc F) (rest : List Char) : Except Fault (Pass F) := do
  if s.sp < 2 then return .done none
  let s := { s with sp := s.sp - 1 }
  if (← get s.nodata s.sp) || (← get s.nodata (s.sp - 1)) then
    return goOn { s with calculNoData := true } rest
  if f (← get s.stack (s.sp - 1)) (← get s.stack s.sp) then
    let nodata ← put s.nodata (s.sp - 1) true
    return goOn { s with nodata := nodata } rest
  return goOn s rest

def value (s : Calc F) : Except Fault (Pass F) := do
  let tmp := e.wcstof s.chptr
  match s.chptr.dropWhile (· ≠ ' ') with
  | [] => throw .null
  | _ :: rest =>
    if e.vtLen ≤ e.address tmp then return .done none
    let val := e.shmGetValue (e.address tmp) (e.memory tmp)
    let nodata ← put s.nodata s.sp (val = szarpNoData)
    let stack ← put s.stack s.sp (e.ofShort val)
    return goOn { s with nodata := nodata, stack := stack, sp := s.sp + 1 } rest

def swap (s : Calc F) (rest : List Char) : Except Fault (Pass F) := do
  if s.sp < 2 then return .done none
  let tmp ← get s.stack (s.sp - 1)
  let stack ← put s.stack (s.sp - 1) (← get s.stack (s.sp - 2))
  let stack ← put stack (s.sp - 2) tmp
  return goOn { s with stack := stack } rest

def duplicate (s : Calc F) (rest : List Char) : Except Fault (Pass F) := do
  let stack ← put s.stack s.sp (← get s.stack (s.sp - 1))
  return goOn { s with stack := stack, sp := s.sp + 1 } rest

/-! ### Functions

`base` is the index that `parlst` points at. -/

section Functions

variable (base : ℤ) (stack : ℤ → F)

/-- The loop over the parameters from `i` on while `i <= rint(parlst[0])`; at the latest the
parameter behind the stack ends it. -/
def overExisting {α : Type} (f : α → F → α) : ℕ → ℕ → α → Except Fault α
  | 0, _, a => .ok a
  | n + 1, i, a => do
    if e.leRint i (← get stack base) then
      let x ← get stack (base + i)
      overExisting f n (i + 1) (if e.existing x then f a x else a)
    else return a

/-- `FunTable`: a function returns its value, the stack and `CalculNoData`. -/
def funTable (fid : ℕ) (noData : Bool) : Except Fault (F × (ℤ → F) × Bool) := do
  match fid with
  | 0 =>
    return (e.fixo (← get stack base) (← get stack (base + 1)) (← get stack (base + 2)),
      stack, noData)
  | 1 => return (e.tabRegZas (← get stack base), stack, noData)
  | 2 => return (e.tabRegPow (← get stack base), stack, noData)
  | 3 =>
    let x ← get stack base
    return (if e.lt e.zero x then x else e.zero, stack, noData)
  | 4 =>
    let r ← overExisting e base stack (fun a x => (e.add a.1 x, true)) 31 1 (e.zero, false)
    return (r.1, stack, !r.2)
  | 5 =>
    let r ← overExisting e base stack (fun a _ => e.add a e.one) 31 1 e.zero
    return (r, stack, false)
  | 6 =>
    let x ← get stack base
    let x := if e.lt x e.zero then e.zero else x
    let x := if e.lt (e.ofShort 100) x then e.ofShort 100 else x
    let stack ← put stack base x
    return (e.waterTankSuwa x, stack, noData)
  | 7 => return (e.bitOfLog (← get stack base) (← get stack (base + 1)), stack, noData)
  | _ => return (e.zero, stack, noData)

def chooseFun (funid : F) (noData : Bool) : Except Fault (F × (ℤ → F) × Bool) :=
  funTable e base stack (e.truncUShort funid) noData

end Functions

def callFunction (s : Calc F) (rest : List Char) : Except Fault (Pass F) := do
  if s.sp < 2 then return .done none
  let sp := s.sp - 1
  let parcnt := e.toShort (← get s.stack (sp - 1))
  if sp < parcnt + 1 then return .done none
  let r ← chooseFun e (sp - parcnt - 1) s.stack (← get s.stack sp) s.calculNoData
  let stack ← put r.2.1 (sp - parcnt - 1) r.1
  return goOn { s with stack := stack, calculNoData := r.2.2, sp := sp - parcnt } rest

def constant (s : Calc F) (rest : List Char) : Except Fault (Pass F) := do
  let nodata ← put s.nodata s.sp false
  let stack ← put s.stack s.sp (e.wcstof rest)
  match rest.dropWhile (· ≠ ' ') with
  | [] => throw .null
  | _ :: rest => return goOn { s with nodata := nodata, stack := stack, sp := s.sp + 1 } rest

def choose (s : Calc F) (rest : List Char) : Except Fault (Pass F) := do
  if s.sp < 3 then return .done none
  let s := { s with sp := s.sp - 1 }
  if ← get s.nodata s.sp then return goOn { s with calculNoData := true } rest
  if e.isZero (← get s.stack s.sp) then
    let stack ← put s.stack (s.sp - 2) (← get s.stack (s.sp - 1))
    return goOn { s with stack := stack, sp := s.sp - 1 } rest
  return goOn { s with sp := s.sp - 1 } rest

def replace (s : Calc F) (rest : List Char) : Except Fault (Pass F) := do
  if s.sp < 2 then return .done none
  let s := { s with sp := s.sp - 1 }
  if ← get s.nodata (s.sp - 1) then
    let stack ← put s.stack (s.sp - 1) (← get s.stack s.sp)
    let nodata ← put s.nodata (s.sp - 1) (← get s.nodata s.sp)
    return goOn { s with stack := stack, nodata := nodata } rest
  return goOn s rest

def assign (s : Calc F) : Except Fault (Pass F) := do
  if s.sp < 2 then return .done none
  let s := { s with sp := s.sp - 1 }
  let adr := e.toUShort (← get s.stack s.sp)
  if e.vtLen ≤ adr then return .done none
  if s.calculNoData then return .done (some (adr, szarpNoData))
  if s.nullFormula then return .done none
  if ← get s.nodata (s.sp - 1) then return .done (some (adr, szarpNoData))
  return .done (some (adr, e.toShort (← get s.stack (s.sp - 1))))

/-- One pass of the loop. -/
def step (s : Calc F) : Except Fault (Pass F) :=
  if ss ≤ s.sp then .ok (.done none)
  else
    match s.chptr with
    | [] => .error .past
    | c :: rest =>
      if c.isDigit then value e s
      else
        match c with
        | '&' => swap s rest
        | '!' => duplicate s rest
        | '$' => callFunction e s rest
        | '#' => constant e s rest
        | 'i' =>
          match rest with
          | [] => .error .past
          | c :: rest => if c = 'f' then choose e s rest else .ok (goOn s rest)
        | 'n' =>
          match rest with
          | _ :: _ :: _ :: rest => .ok (goOn { s with nullFormula := true } rest)
          | _ => .error .past
        | '+' => binary (fun x y => (e.add x y, false)) s rest
        | '-' => binary (fun x y => (e.sub x y, false)) s rest
        | '*' => binary (fun x y => (e.mul x y, false)) s rest
        | '/' => binary (fun x y => if e.isZero y then (e.one, true) else (e.div x y, false)) s rest
        | '>' => binary (fun x y => (if e.lt y x then e.one else e.zero, false)) s rest
        | '<' => binary (fun x y => (if e.lt x y then e.one else e.zero, false)) s rest
        | '~' => binary (fun x y => (if e.eq x y then e.one else e.zero, false)) s rest
        | 'N' => replace s rest
        | 'm' => limit e.lt s rest
        | 'M' => limit (fun x y => e.lt y x) s rest
        | '=' => assign e s
        | _ => .ok (goOn s rest)

def run : ℕ → Calc F → Except Fault (Option (ℕ × ℤ))
  | 0, _ => .ok none
  | n + 1, s =>
    match step e s with
    | .error f => .error f
    | .ok (.done probe) => .ok probe
    | .ok (.next s) => run n s

def start (stack : ℤ → F) (nodata : ℤ → Bool) (formula : List Char) : Calc F where
  chptr := formula
  sp := 0
  stack := stack
  nodata := nodata
  calculNoData := false
  nullFormula := false

/-- What `Calcul` puts into `Probe`. -/
def calcul (stack : ℤ → F) (nodata : ℤ → Bool) (formula : List Char) :
    Except Fault (Option (ℕ × ℤ)) :=
  run e (formula.length + 1) (start stack nodata formula)

/-! ## Accesses -/

/-- A call writes its result to `base`, and its function reads inside the stack. -/
def Inside (base : ℤ) (stack : ℤ → F) (fid : ℕ) : Prop :=
  base ≤ ss ∧
    match fid with
    | 0 => base + 2 ≤ ss
    | 4 | 5 => ∃ i : ℕ, 0 < i ∧ base + i ≤ ss + 1 ∧ e.leRint i (stack base) = false
    | 7 => base + 1 ≤ ss
    | _ => True

/-- What the next pass needs. -/
def Guard (s : Calc F) : Prop :=
  s.sp < ss →
    match s.chptr with
    | [] => False
    | c :: rest =>
      if c.isDigit then ' ' ∈ rest
      else
        match c with
        | '!' => 1 ≤ s.sp
        | '$' => 2 ≤ s.sp → e.toShort (s.stack (s.sp - 2)) + 1 ≤ s.sp - 1 →
            Inside e (s.sp - e.toShort (s.stack (s.sp - 2)) - 2) s.stack
              (e.truncUShort (s.stack (s.sp - 1)))
        | '#' => ' ' ∈ rest
        | 'i' => rest ≠ []
        | 'n' => 3 ≤ rest.length
        | _ => True

/-- A pass meets no fault, and goes on with fewer than `n` characters. -/
def Fine (n : ℕ) (r : Except Fault (Pass F)) : Prop :=
  ∃ p, r = .ok p ∧ ∀ s, p = .next s → 0 ≤ s.sp ∧ s.chptr.length < n

/-- Where `g` holds a pass is fine, elsewhere it meets a fault. -/
def Judged (n : ℕ) (r : Except Fault (Pass F)) (g : Prop) : Prop :=
  g ∧ Fine n r ∨ ¬ g ∧ ∃ f, r = .error f

section Accesses

variable {s : Calc F} {rest : List Char} {n : ℕ}

theorem get_ok {α : Type} {a : ℤ → α} {i : ℤ} (h : 0 ≤ i) (h' : i ≤ 30) : get a i = .ok (a i) :=
  if_pos ⟨h, h'⟩

theorem put_ok {α : Type} {a : ℤ → α} {i : ℤ} {v : α} (h : 0 ≤ i) (h' : i ≤ 30) :
    put a i v = .ok (Function.update a i v) :=
  if_pos ⟨h, h'⟩

theorem fine_done (probe : Option (ℕ × ℤ)) :
    Fine n (.ok (.done probe : Pass F)) :=
  ⟨_, rfl, fun _ h => nomatch h⟩

theorem fine_goOn (h : 0 ≤ s.sp) (hn : rest.length < n) : Fine n (.ok (goOn s rest)) := by
  refine ⟨_, rfl, fun s' hs' => ?_⟩
  unfold goOn at hs'
  split_ifs at hs'
  cases hs'
  exact ⟨h, hn⟩

theorem fine_binary (f : F → F → F × Bool) (h : s.sp < 30) (hn : rest.length < n) :
    Fine n (binary f s rest) := by
  unfold binary
  by_cases hsp : s.sp < 2
  · rw [if_pos hsp]
    exact fine_done none
  · rw [if_neg hsp]
    simp (disch := omega) only [get_ok, put_ok, bind, Except.bind]
    split_ifs
    · exact fine_goOn (by dsimp only; omega) hn
    · exact fine_goOn (by dsimp only; omega) hn

theorem fine_limit (f : F → F → Bool) (h : s.sp < 30) (hn : rest.length < n) :
    Fine n (limit f s rest) := by
  unfold limit
  by_cases hsp : s.sp < 2
  · rw [if_pos hsp]
    exact fine_done none
  · rw [if_neg hsp]
    simp (disch := omega) only [get_ok, put_ok, bind, Except.bind]
    split_ifs <;> exact fine_goOn (by dsimp only; omega) hn

theorem fine_swap (h : s.sp < 30) (hn : rest.length < n) : Fine n (swap s rest) := by
  unfold swap
  by_cases hsp : s.sp < 2
  · rw [if_pos hsp]
    exact fine_done none
  · rw [if_neg hsp]
    simp (disch := omega) only [get_ok, put_ok, bind, Except.bind]
    exact fine_goOn (by dsimp only; omega) hn

theorem fine_choose (h : s.sp < 30) (hn : rest.length < n) : Fine n (choose e s rest) := by
  unfold choose
  by_cases hsp : s.sp < 3
  · rw [if_pos hsp]
    exact fine_done none
  · rw [if_neg hsp]
    simp (disch := omega) only [get_ok, put_ok, bind, Except.bind]
    split_ifs <;> exact fine_goOn (by dsimp only; omega) hn

theorem fine_replace (h : s.sp < 30) (hn : rest.length < n) : Fine n (replace s rest) := by
  unfold replace
  by_cases hsp : s.sp < 2
  · rw [if_pos hsp]
    exact fine_done none
  · rw [if_neg hsp]
    simp (disch := omega) only [get_ok, put_ok, bind, Except.bind]
    split_ifs <;> exact fine_goOn (by dsimp only; omega) hn

theorem fine_assign (h : s.sp < 30) : Fine n (assign e s) := by
  unfold assign
  by_cases hsp : s.sp < 2
  · rw [if_pos hsp]
    exact fine_done none
  · rw [if_neg hsp]
    simp (disch := omega) only [get_ok, bind, Except.bind]
    split_ifs <;> exact fine_done _

/-- The element below the bottom of an empty stack is not there. -/
theorem judged_duplicate (h0 : 0 ≤ s.sp) (h : s.sp < 30) (hn : rest.length < n) :
    Judged n (duplicate s rest) (1 ≤ s.sp) := by
  unfold duplicate
  by_cases hsp : 1 ≤ s.sp
  · left
    simp (disch := omega) only [get_ok, put_ok, bind, Except.bind]
    exact ⟨hsp, fine_goOn (by dsimp only; omega) hn⟩
  · right
    have hzero : s.sp = 0 := by omega
    rw [get, hzero, if_neg (by decide)]
    exact ⟨by decide, _, rfl⟩

theorem get_error {α : Type} {a : ℤ → α} {i : ℤ} (h : 30 < i) : get a i = .error (.index i) :=
  if_neg fun hi => absurd hi.2 (by unfold ss; omega)

/-- The loop stays inside the stack exactly when a parameter that is not counted comes before its
end. -/
theorem judged_overExisting {α : Type} (f : α → F → α) {base : ℤ} (hbase : 0 ≤ base)
    (stack : ℤ → F) {n i : ℕ} (hpos : 1 ≤ i) (hi : base + i ≤ 31) (hn : 32 ≤ base + i + n) (a : α) :
    (∃ j : ℕ, i ≤ j ∧ base + j ≤ 31 ∧ e.leRint j (stack base) = false) ∧
        (∃ r, overExisting e base stack f n i a = .ok r) ∨
      ¬ (∃ j : ℕ, i ≤ j ∧ base + j ≤ 31 ∧ e.leRint j (stack base) = false) ∧
        ∃ fault, overExisting e base stack f n i a = .error fault := by
  induction n generalizing i a with
  | zero => omega
  | succ n ih =>
    rw [overExisting, get_ok hbase (by omega)]
    dsimp only [bind, Except.bind]
    cases hcount : e.leRint i (stack base) with
    | false => exact Or.inl ⟨⟨i, le_rfl, hi, hcount⟩, a, rfl⟩
    | true =>
      rw [if_pos rfl]
      have hlater : ∀ j : ℕ, i ≤ j → e.leRint j (stack base) = false → i + 1 ≤ j := by
        intro j hj hfalse
        rcases Nat.eq_or_lt_of_le hj with rfl | hlt
        · exact absurd (hcount.symm.trans hfalse) (by decide)
        · exact hlt
      by_cases hlast : base + i ≤ 30
      · rw [get_ok (by omega) hlast]
        dsimp only
        rcases ih (Nat.le_add_left 1 i) (by omega) (by omega) (if e.existing (stack (base + i)) then
            f a (stack (base + i)) else a) with ⟨⟨j, hj, hrest⟩, hr⟩ | ⟨hnone, hr⟩
        · exact Or.inl ⟨⟨j, by omega, hrest⟩, hr⟩
        · exact Or.inr ⟨fun ⟨j, hj, hj31, hfalse⟩ =>
            hnone ⟨j, hlater j hj hfalse, hj31, hfalse⟩, hr⟩
      · rw [get_error (by omega)]
        refine Or.inr ⟨?_, _, rfl⟩
        rintro ⟨j, hj, hj31, hfalse⟩
        have := hlater j hj hfalse
        omega

/-- A call is inside the stack exactly when its function and the result are. -/
theorem judged_funTable {base : ℤ} (hbase : 0 ≤ base) (hle : base ≤ 30) (stack : ℤ → F) (fid : ℕ)
    (noData : Bool) :
    Inside e base stack fid ∧ (∃ r, funTable e base stack fid noData = .ok r) ∨
      ¬ Inside e base stack fid ∧ ∃ fault, funTable e base stack fid noData = .error fault := by
  have hss : base ≤ ss := hle
  unfold Inside
  rw [and_iff_right hss]
  match fid with
  | 0 =>
    -- `Fixo` reads three cells
    unfold funTable
    dsimp only
    by_cases hfit : base + 2 ≤ 30
    · simp (disch := omega) only [get_ok, bind, Except.bind]
      exact Or.inl ⟨hfit, _, rfl⟩
    · refine Or.inr ⟨hfit, ?_⟩
      by_cases hone : base + 1 ≤ 30
      · rw [get_ok hbase hle, get_ok (by omega) hone, get_error (i := base + 2) (by omega)]
        exact ⟨_, rfl⟩
      · rw [get_ok hbase hle, get_error (i := base + 1) (by omega)]
        exact ⟨_, rfl⟩
  | 1 | 2 | 3 =>
    unfold funTable
    rw [get_ok hbase hle]
    exact Or.inl ⟨trivial, _, rfl⟩
  | 4 =>
    -- the sums read as many cells as the first one says
    unfold funTable
    rcases judged_overExisting e (fun a x => (e.add a.1 x, true)) hbase stack (n := 31)
        le_rfl (by omega) (by omega) (e.zero, false) with ⟨hin, r, hr⟩ | ⟨hout, fault, hr⟩
    · rw [hr]
      exact Or.inl ⟨hin, _, rfl⟩
    · rw [hr]
      exact Or.inr ⟨hout, _, rfl⟩
  | 5 =>
    unfold funTable
    rcases judged_overExisting e (fun a _ => e.add a e.one) hbase stack (n := 31)
        le_rfl (by omega) (by omega) e.zero with ⟨hin, r, hr⟩ | ⟨hout, fault, hr⟩
    · rw [hr]
      exact Or.inl ⟨hin, _, rfl⟩
    · rw [hr]
      exact Or.inr ⟨hout, _, rfl⟩
  | 6 =>
    unfold funTable
    simp (disch := omega) only [get_ok, put_ok, bind, Except.bind]
    exact Or.inl ⟨trivial, _, rfl⟩
  | 7 =>
    unfold funTable
    dsimp only
    by_cases hfit : base + 1 ≤ 30
    · simp (disch := omega) only [get_ok, bind, Except.bind]
      exact Or.inl ⟨hfit, _, rfl⟩
    · rw [get_ok hbase hle, get_error (i := base + 1) (by omega)]
      exact Or.inr ⟨hfit, _, rfl⟩
  | _ + 8 => exact Or.inl ⟨trivial, _, rfl⟩

/-- A negative number of arguments may lead above the stack, and a function may read there. -/
theorem judged_callFunction (h0 : 0 ≤ s.sp) (h : s.sp < 30) (hn : rest.length < n) :
    Judged n (callFunction e s rest)
      (2 ≤ s.sp → e.toShort (s.stack (s.sp - 2)) + 1 ≤ s.sp - 1 →
        Inside e (s.sp - e.toShort (s.stack (s.sp - 2)) - 2) s.stack
          (e.truncUShort (s.stack (s.sp - 1)))) := by
  unfold callFunction
  by_cases hsp : s.sp < 2
  · rw [if_pos hsp]
    exact Or.inl ⟨fun hle => absurd hle (by omega), fine_done none⟩
  · rw [if_neg hsp]
    have htwo : s.sp - 1 - 1 = s.sp - 2 := by omega
    simp (disch := omega) only [get_ok, bind, Except.bind]
    rw [htwo]
    generalize e.toShort (s.stack (s.sp - 2)) = parcnt
    by_cases hcount : s.sp - 1 < parcnt + 1
    · rw [if_pos hcount]
      exact Or.inl ⟨fun _ hle => absurd hle (by omega), fine_done none⟩
    · rw [if_neg hcount]
      have hbase : s.sp - 1 - parcnt - 1 = s.sp - parcnt - 2 := by omega
      rw [hbase, imp_iff_right (by omega : 2 ≤ s.sp), imp_iff_right (by omega : parcnt + 1 ≤ s.sp - 1)]
      by_cases hle : s.sp - parcnt - 2 ≤ 30
      · unfold chooseFun
        rcases judged_funTable e (by omega) hle s.stack (e.truncUShort (s.stack (s.sp - 1)))
          s.calculNoData with ⟨hin, r, hr⟩ | ⟨hout, fault, hr⟩
        · left
          refine ⟨hin, ?_⟩
          rw [hr]
          dsimp only
          rw [put_ok (by omega) hle]
          exact fine_goOn (by dsimp only; omega) hn
        · right
          refine ⟨hout, ?_⟩
          rw [hr]
          exact ⟨_, rfl⟩
      · right
        refine ⟨fun hin => hle hin.1, ?_⟩
        -- with a first parameter above the stack, the function or the write of its result faults
        cases chooseFun e (s.sp - parcnt - 2) s.stack (s.stack (s.sp - 1)) s.calculNoData with
        | error fault => exact ⟨_, rfl⟩
        | ok r =>
          dsimp only
          rw [put, if_neg fun hand => hle hand.2]
          exact ⟨_, rfl⟩

theorem length_dropWhile_lt {c : Char} {text : List Char}
    (h : text.dropWhile (· ≠ ' ') = c :: rest) (hn : text.length ≤ n) : rest.length < n := by
  have hlen := List.length_dropWhile_le (· ≠ ' ') text
  rw [h, List.length_cons] at hlen
  omega

theorem dropWhile_eq_nil {text : List Char} :
    text.dropWhile (· ≠ ' ') = [] ↔ ' ' ∉ text := by
  rw [List.dropWhile_eq_nil_iff]
  constructor
  · intro h hmem
    exact absurd (h ' ' hmem) (by decide)
  · intro h c hc
    refine decide_eq_true ?_
    rintro rfl
    exact h hc

theorem judged_constant (h0 : 0 ≤ s.sp) (h : s.sp < 30) (hn : rest.length ≤ n) :
    Judged n (constant e s rest) (' ' ∈ rest) := by
  unfold constant
  simp (disch := omega) only [put_ok, bind, Except.bind]
  cases hdrop : rest.dropWhile (· ≠ ' ') with
  | nil => exact Or.inr ⟨dropWhile_eq_nil.mp hdrop, _, rfl⟩
  | cons c rest' =>
    left
    constructor
    · by_contra hmem
      rw [dropWhile_eq_nil.mpr hmem] at hdrop
      exact nomatch hdrop
    · exact fine_goOn (by dsimp only; omega) (length_dropWhile_lt hdrop hn)

theorem judged_value (h0 : 0 ≤ s.sp) (h : s.sp < 30) (hn : s.chptr.length ≤ n) :
    Judged n (value e s) (' ' ∈ s.chptr) := by
  unfold value
  cases hdrop : s.chptr.dropWhile (· ≠ ' ') with
  | nil => exact Or.inr ⟨dropWhile_eq_nil.mp hdrop, _, rfl⟩
  | cons c rest' =>
    left
    constructor
    · by_contra hmem
      rw [dropWhile_eq_nil.mpr hmem] at hdrop
      exact nomatch hdrop
    · dsimp only
      by_cases hadr : e.vtLen ≤ e.address (e.wcstof s.chptr)
      · rw [if_pos hadr]
        exact fine_done none
      · rw [if_neg hadr]
        simp (disch := omega) only [put_ok, bind, Except.bind]
        exact fine_goOn (by dsimp only; omega) (length_dropWhile_lt hdrop hn)

/-- A pass from a state of the loop meets no fault exactly when its guard holds. -/
theorem judged_step (h0 : 0 ≤ s.sp) : Judged s.chptr.length (step e s) (Guard e s) := by
  unfold step Guard
  by_cases hsp : ss ≤ s.sp
  -- a full stack ends the loop
  · rw [if_pos hsp]
    exact Or.inl ⟨fun hlt => absurd hsp (by omega), fine_done none⟩
  · rw [if_neg hsp, imp_iff_right (by omega)]
    have h : s.sp < 30 := by
      unfold ss at hsp
      omega
    cases hchptr : s.chptr with
    | nil => exact Or.inr ⟨not_false, _, rfl⟩
    | cons c rest =>
      have hn : rest.length < (c :: rest).length := Nat.lt_succ_self _
      dsimp only
      by_cases hdigit : c.isDigit = true
      · rw [if_pos hdigit, if_pos hdigit]
        have hmem : ' ' ∈ rest ↔ ' ' ∈ s.chptr := by
          rw [hchptr, List.mem_cons, or_iff_right]
          rintro rfl
          exact absurd hdigit (by decide)
        rw [hmem]
        exact judged_value e h0 h (by rw [hchptr])
      · rw [if_neg hdigit, if_neg hdigit]
        split
        · exact Or.inl ⟨trivial, fine_swap h hn⟩
        · exact judged_duplicate h0 h hn
        · exact judged_callFunction e h0 h hn
        · exact judged_constant e h0 h (Nat.le_succ _)
        -- `i` looks at the next character, whatever is left
        · cases rest with
          | nil => exact Or.inr ⟨fun hne => hne rfl, _, rfl⟩
          | cons c' rest =>
            refine Or.inl ⟨List.cons_ne_nil _ _, ?_⟩
            have hn' : rest.length < ('i' :: c' :: rest).length := by
              simp only [List.length_cons]
              omega
            dsimp only
            split_ifs
            · exact fine_choose e h hn'
            · exact fine_goOn h0 hn'
        · split
          -- `n` goes three characters further
          · refine Or.inl ⟨?_, fine_goOn h0 ?_⟩
            · simp only [List.length_cons]
              omega
            · simp only [List.length_cons]
              omega
          · rename_i hnot
            refine Or.inr ⟨fun hlen => ?_, _, rfl⟩
            have hlen : 3 ≤ rest.length := hlen
            obtain ⟨c1, c2, c3, rest', rfl⟩ : ∃ c1 c2 c3 rest', rest = c1 :: c2 :: c3 :: rest' := by
              rcases rest with _ | ⟨c1, _ | ⟨c2, _ | ⟨c3, rest'⟩⟩⟩
              · exact absurd hlen (by decide)
              · exact absurd hlen (by simp)
              · exact absurd hlen (by simp)
              · exact ⟨c1, c2, c3, rest', rfl⟩
            exact (hnot c1 c2 c3 rest' rfl).elim
        -- the operators on two values do nothing with fewer elements
        · exact Or.inl ⟨trivial, fine_binary _ h hn⟩
        · exact Or.inl ⟨trivial, fine_binary _ h hn⟩
        · exact Or.inl ⟨trivial, fine_binary _ h hn⟩
        · exact Or.inl ⟨trivial, fine_binary _ h hn⟩
        · exact Or.inl ⟨trivial, fine_binary _ h hn⟩
        · exact Or.inl ⟨trivial, fine_binary _ h hn⟩
        · exact Or.inl ⟨trivial, fine_binary _ h hn⟩
        · exact Or.inl ⟨trivial, fine_replace h hn⟩
        · exact Or.inl ⟨trivial, fine_limit _ h hn⟩
        · exact Or.inl ⟨trivial, fine_limit _ h hn⟩
        · exact Or.inl ⟨trivial, fine_assign e h⟩
        · -- the other characters are skipped
          refine Or.inl ⟨?_, fine_goOn h0 hn⟩
          split <;> trivial

end Accesses

/-! ## Runs -/

inductive Reached (s : Calc F) : Calc F → Prop
  | start : Reached s s
  | next {s' s'' : Calc F} : Reached s s' → step e s' = .ok (.next s'') → Reached s s''

theorem Reached.trans {s s' s'' : Calc F} (h : Reached e s s') (h' : Reached e s' s'') :
    Reached e s s'' := by
  induction h' with
  | start => exact h
  | next _ hstep ih => exact ih.next hstep

/-- A state that is reached is this one, or is reached from the next one. -/
theorem Reached.cases_head {s s' : Calc F} (h : Reached e s s') :
    s' = s ∨ ∃ t, step e s = .ok (.next t) ∧ Reached e t s' := by
  induction h with
  | start => exact Or.inl rfl
  | next _ hstep ih =>
    right
    rcases ih with rfl | ⟨t, ht, hreached⟩
    · exact ⟨_, hstep, .start⟩
    · exact ⟨t, ht, hreached.next hstep⟩

theorem run_ok_iff {n : ℕ} {s : Calc F} (h0 : 0 ≤ s.sp) (hn : s.chptr.length < n) :
    (∃ probe, run e n s = .ok probe) ↔ ∀ s', Reached e s s' → Guard e s' := by
  induction n generalizing s with
  | zero => exact absurd hn (Nat.not_lt_zero _)
  | succ n ih =>
    rcases judged_step e h0 with ⟨hguard, p, hstep, hnext⟩ | ⟨hguard, f, hstep⟩
    · rw [run, hstep]
      cases p with
      | done probe =>
        refine iff_of_true ⟨probe, rfl⟩ fun s' hs' => ?_
        rcases hs'.cases_head with rfl | ⟨t, ht, -⟩
        · exact hguard
        · exact nomatch hstep.symm.trans ht
      | next t =>
        obtain ⟨ht0, hlen⟩ := hnext t rfl
        dsimp only
        rw [ih ht0 (by omega)]
        constructor
        · intro h s' hs'
          rcases hs'.cases_head with rfl | ⟨t', ht', hreached⟩
          · exact hguard
          · cases hstep.symm.trans ht'
            exact h s' hreached
        · exact fun h s' hs' => h s' (Reached.trans e (.next .start hstep) hs')
    · rw [run, hstep]
      exact iff_of_false (fun ⟨_, h⟩ => (nomatch h)) fun h => hguard (h s .start)

/-- A formula is evaluated without a fault exactly when every pass that is reached has what it
needs. -/
theorem calcul_ok_iff (stack : ℤ → F) (nodata : ℤ → Bool) (formula : List Char) :
    (∃ probe, calcul e stack nodata formula = .ok probe) ↔
      ∀ s, Reached e (start stack nodata formula) s → Guard e s :=
  run_ok_iff e (Int.le_refl 0) (Nat.lt_succ_self _)

/-- Formulas on whole numbers, of which there are ten in the shared memory. -/
def wholeNumbers (probe : ℕ → ℤ) : Env ℤ where
  add := (· + ·)
  sub := (· - ·)
  mul := (· * ·)
  div := Int.tdiv
  lt x y := decide (x < y)
  eq x y := decide (x = y)
  isZero x := decide (x = 0)
  zero := 0
  one := 1
  ofShort := id
  toShort := id
  toUShort := Int.toNat
  wcstof text := (text.takeWhile Char.isDigit).foldl (fun v c => 10 * v + (c.toNat - '0'.toNat)) 0
  address := Int.toNat
  memory _ := 0
  vtLen := 10
  shmGetValue adr _ := probe adr
  truncUShort := Int.toNat
  leRint i x := decide (i ≤ x)
  existing _ := true
  fixo _ _ _ := 1
  tabRegZas _ := 65
  tabRegPow _ := 49
  waterTankSuwa x := 10 * x
  bitOfLog x y := x / 2 ^ y.toNat % 2

/-- `!` on an empty stack reads below it. -/
theorem duplicate_unsafe : ¬ ∃ probe,
    calcul (wholeNumbers fun _ => 0) (fun _ => 0) (fun _ => false) ['!'] = .ok probe := by
  rintro ⟨_, h⟩
  exact nomatch h

end Calcul
end Parcook
end Szarp
