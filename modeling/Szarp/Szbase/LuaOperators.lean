import Mathlib.Data.Rat.Floor
import Mathlib.Tactic.Common
import Mathlib.Tactic.NormNum

/-!
# Operators of optimised Lua formulas

The expressions of `loptcalculate.cc` compute with `double` values only; a boolean is 1 or 0. The
values of Lua are numbers and booleans.
-/

namespace Szarp
namespace Szbase
namespace LuaOpt

inductive UnOp where
  | negate
  | logicalNot

inductive BinOp where
  | plus
  | minus
  | multiplies
  | divides
  | modulus
  | pow
  | less
  | lessEqual
  | equalTo
  | greaterEqual
  | greater
  | notEqualTo
deriving DecidableEq

/-- What the converter makes of an expression; a chain of operators of one kind leans to the left,
and an operand is an integer or a boolean. -/
inductive Expression where
  | int (n : ℤ)
  | bool (b : Bool)
  | un (op : UnOp) (e : Expression)
  | bin (op : BinOp) (e1 e2 : Expression)
  | logicalAnd (e1 e2 : Expression)
  | logicalOr (e1 e2 : Expression)

/-! ## Optimised values -/

def ofBool (b : Bool) : ℚ := if b then 1 else 0

/-- `int(v)`, where it is defined. -/
def toInt (v : ℚ) : Option ℤ :=
  let n := v.num.tdiv v.den
  if -2 ^ 31 ≤ n ∧ n < 2 ^ 31 then some n else none

/-- `%` of `int`, where it is defined. -/
def intModulus (v1 v2 : ℚ) : Option ℚ := do
  let n1 ← toInt v1
  let n2 ← toInt v2
  if n2 = 0 ∨ n1 = -2 ^ 31 ∧ n2 = -1 then none else some (n1.tmod n2)

section Values

-- division and `pow` are the same for Lua
variable (div pow : ℚ → ℚ → ℚ)

def UnOp.apply : UnOp → ℚ → ℚ
  | .negate, v => -v
  | .logicalNot, v => ofBool (v = 0)

def BinOp.apply : BinOp → ℚ → ℚ → Option ℚ
  | .plus, v1, v2 => some (v1 + v2)
  | .minus, v1, v2 => some (v1 - v2)
  | .multiplies, v1, v2 => some (v1 * v2)
  | .divides, v1, v2 => some (div v1 v2)
  | .modulus, v1, v2 => intModulus v1 v2
  | .pow, v1, v2 => some (pow v1 v2)
  | .less, v1, v2 => some (ofBool (v1 < v2))
  | .lessEqual, v1, v2 => some (ofBool (v1 ≤ v2))
  | .equalTo, v1, v2 => some (ofBool (v1 = v2))
  | .greaterEqual, v1, v2 => some (ofBool (v2 ≤ v1))
  | .greater, v1, v2 => some (ofBool (v2 < v1))
  | .notEqualTo, v1, v2 => some (ofBool (v1 ≠ v2))

/-- `Value`, where it is defined. -/
def Expression.value : Expression → Option ℚ
  | .int n => some n
  | .bool b => some (ofBool b)
  | .un op e => e.value.map op.apply
  | .bin op e1 e2 => e1.value.bind fun v1 => e2.value.bind fun v2 => op.apply div pow v1 v2
  | .logicalAnd e1 e2 => e1.value.bind fun v1 =>
      if v1 ≠ 0 then e2.value.map fun v2 => ofBool (v2 ≠ 0) else some 0
  | .logicalOr e1 e2 => e1.value.bind fun v1 =>
      if v1 ≠ 0 then some 1 else e2.value.map fun v2 => ofBool (v2 ≠ 0)

end Values

/-! ## Lua -/

inductive LuaVal where
  | num (q : ℚ)
  | bool (b : Bool)
deriving DecidableEq

/-- The `double` that stands for a value. -/
def LuaVal.val : LuaVal → ℚ
  | .num q => q
  | .bool b => ofBool b

/-- Every number counts as true. -/
def LuaVal.truthy : LuaVal → Bool
  | .num _ => true
  | .bool b => b

def numeric {α : Type} (f : ℚ → ℚ → α) : LuaVal → LuaVal → Option α
  | .num x, .num y => some (f x y)
  | _, _ => none

section Lua

variable (div pow : ℚ → ℚ → ℚ)

def UnOp.lua : UnOp → LuaVal → Option LuaVal
  | .negate, .num x => some (.num (-x))
  | .negate, .bool _ => none
  | .logicalNot, v => some (.bool !v.truthy)

/-- An operator of Lua on two values; `none`: an error, or no finite number. -/
def BinOp.lua : BinOp → LuaVal → LuaVal → Option LuaVal
  | .plus, v1, v2 => numeric (fun x y => .num (x + y)) v1 v2
  | .minus, v1, v2 => numeric (fun x y => .num (x - y)) v1 v2
  | .multiplies, v1, v2 => numeric (fun x y => .num (x * y)) v1 v2
  | .divides, v1, v2 => numeric (fun x y => .num (div x y)) v1 v2
  | .modulus, v1, v2 =>
    (numeric (fun x y => if y = 0 then none else some (.num (x - ⌊x / y⌋ * y))) v1 v2).join
  | .pow, v1, v2 => numeric (fun x y => .num (pow x y)) v1 v2
  | .less, v1, v2 => numeric (fun x y => .bool (x < y)) v1 v2
  | .lessEqual, v1, v2 => numeric (fun x y => .bool (x ≤ y)) v1 v2
  | .equalTo, v1, v2 => some (.bool (v1 = v2))
  | .greaterEqual, v1, v2 => numeric (fun x y => .bool (y ≤ x)) v1 v2
  | .greater, v1, v2 => numeric (fun x y => .bool (y < x)) v1 v2
  | .notEqualTo, v1, v2 => some (.bool (v1 ≠ v2))

def Expression.lua : Expression → Option LuaVal
  | .int n => some (.num n)
  | .bool b => some (.bool b)
  | .un op e => e.lua.bind op.lua
  | .bin op e1 e2 => e1.lua.bind fun v1 => e2.lua.bind fun v2 => op.lua div pow v1 v2
  | .logicalAnd e1 e2 => e1.lua.bind fun v1 => if v1.truthy then e2.lua else some v1
  | .logicalOr e1 e2 => e1.lua.bind fun v1 => if v1.truthy then some v1 else e2.lua

end Lua

/-! ## Agreement -/

section Agreement

variable (div pow : ℚ → ℚ → ℚ)

/-- The optimised value is the value in Lua. -/
def Agrees (e : Expression) : Prop :=
  ∀ v, e.lua div pow = some v → e.value div pow = some v.val

/-- The optimised values of an expression, and of all parts of it that are evaluated here or in Lua,
are those of Lua, and `%` of two numbers is defined. -/
def Right : Expression → Prop
  | .int _ => True
  | .bool _ => True
  | .un op e => Right e ∧ Agrees div pow (.un op e)
  | .bin op e1 e2 => Right e1 ∧ (e1.lua div pow ≠ none → Right e2) ∧
      Agrees div pow (.bin op e1 e2) ∧
      (op = .modulus → ∀ x y, e1.lua div pow = some (.num x) → e2.lua div pow = some (.num y) →
        Expression.value div pow (.bin op e1 e2) ≠ none)
  | .logicalAnd e1 e2 => Right e1 ∧
      (∀ v, e1.lua div pow = some v → v.truthy = true → Right e2) ∧
      Agrees div pow (.logicalAnd e1 e2)
  | .logicalOr e1 e2 => Right e1 ∧
      (∀ v, e1.lua div pow = some v → v.val = 0 → Right e2) ∧
      -- Lua has no use for the second operand, but it is evaluated here
      (∀ v, e1.lua div pow = some v → v.truthy = true → v.val = 0 → e2.lua div pow ≠ none) ∧
      Agrees div pow (.logicalOr e1 e2)

/-- What `not` needs: a boolean, or a number other than 0. -/
def UnOp.Fits : UnOp → LuaVal → Prop
  | .negate, _ => True
  | .logicalNot, v => v ≠ .num 0

/-- What an operator needs: `%` a divisor that is not 0 and a remainder of its sign, and comparisons
for equality no boolean with the number that stands for it. -/
def BinOp.Fits : BinOp → LuaVal → LuaVal → Prop
  | .modulus, .num x, .num y => ∃ n1 n2 : ℤ, toInt x = some n1 ∧ toInt y = some n2 ∧ n2 ≠ 0 ∧
      ¬ (n1 = -2 ^ 31 ∧ n2 = -1) ∧ (n1.tmod n2 : ℚ) = x - ⌊x / y⌋ * y
  | .equalTo, v1, v2 => v1 = v2 ∨ v1.val ≠ v2.val
  | .notEqualTo, v1, v2 => v1 = v2 ∨ v1.val ≠ v2.val
  | _, _, _ => True

/-- The operators that are reached have what they need. -/
def Meets : Expression → Prop
  | .int _ => True
  | .bool _ => True
  | .un op e => Meets e ∧ ∀ v, e.lua div pow = some v → op.Fits v
  | .bin op e1 e2 => Meets e1 ∧ (e1.lua div pow ≠ none → Meets e2) ∧
      ∀ v1 v2, e1.lua div pow = some v1 → e2.lua div pow = some v2 → op.Fits v1 v2
  | .logicalAnd e1 e2 => Meets e1 ∧
      (∀ v, e1.lua div pow = some v → v.truthy = true → Meets e2) ∧
      ∀ v1 v2, e1.lua div pow = some v1 → e2.lua div pow = some v2 → v1.truthy = true →
        v2.val = 0 ∨ v1.val ≠ 0 ∧ v2.val = 1
  | .logicalOr e1 e2 => Meets e1 ∧
      (∀ v, e1.lua div pow = some v → v.val = 0 → Meets e2) ∧
      (∀ v1, e1.lua div pow = some v1 → v1.truthy = true →
        v1.val = 1 ∨ v1.val = 0 ∧ ∃ v2, e2.lua div pow = some v2 ∧ v2.val = 0) ∧
      ∀ v1 v2, e1.lua div pow = some v1 → e2.lua div pow = some v2 → v1.truthy = false →
        v2.val = 0 ∨ v2.val = 1

variable {div pow}

attribute [local simp] Expression.value Expression.lua

theorem Right.agrees {e : Expression} (h : Right div pow e) : Agrees div pow e := by
  cases e with
  | int n =>
    intro v hv
    cases hv
    rfl
  | bool b =>
    intro v hv
    cases hv
    rfl
  | un op e => exact h.2
  | bin op e1 e2 => exact h.2.2.1
  | logicalAnd e1 e2 => exact h.2.2
  | logicalOr e1 e2 => exact h.2.2.2

theorem UnOp.fits_iff (op : UnOp) (v : LuaVal) :
    (∀ w, op.lua v = some w → op.apply v.val = w.val) ↔ op.Fits v := by
  cases op with
  | negate =>
    refine iff_of_true (fun w hw => ?_) trivial
    cases v with
    | num q =>
      cases hw
      rfl
    | bool b => exact nomatch hw
  | logicalNot =>
    constructor
    · rintro h rfl
      exact absurd (h _ rfl) (by decide)
    · rintro h w hw
      cases hw
      cases v with
      | num q =>
        have hq : q ≠ 0 := fun hq => h (congrArg LuaVal.num hq)
        simp [UnOp.apply, LuaVal.val, LuaVal.truthy, ofBool, hq]
      | bool b => cases b <;> simp [UnOp.apply, LuaVal.val, LuaVal.truthy, ofBool]

theorem intModulus_eq_some {x y r : ℚ} : intModulus x y = some r ↔
    ∃ n1 n2 : ℤ, toInt x = some n1 ∧ toInt y = some n2 ∧ n2 ≠ 0 ∧ ¬ (n1 = -2 ^ 31 ∧ n2 = -1) ∧
      (n1.tmod n2 : ℚ) = r := by
  unfold intModulus
  cases toInt x with
  | none => simp
  | some n1 =>
    cases toInt y with
    | none => simp
    | some n2 => simp [and_assoc]

theorem toInt_zero : toInt 0 = some 0 := by decide

theorem modulus_fits_iff (x y : ℚ) :
    ((∀ w, BinOp.lua div pow .modulus (.num x) (.num y) = some w → intModulus x y = some w.val) ∧
      intModulus x y ≠ none) ↔ BinOp.Fits .modulus (.num x) (.num y) := by
  constructor
  · rintro ⟨hagree, hdef⟩
    obtain ⟨r, hr⟩ := Option.ne_none_iff_exists'.mp hdef
    obtain ⟨n1, n2, h1, h2, hzero, hmin, hmod⟩ := intModulus_eq_some.mp hr
    have hy : y ≠ 0 := by
      rintro rfl
      rw [toInt_zero] at h2
      exact hzero (Option.some.inj h2).symm
    have hlua := hagree (.num (x - ⌊x / y⌋ * y)) (by simp [BinOp.lua, numeric, hy])
    obtain rfl := Option.some.inj (hr.symm.trans hlua)
    exact ⟨n1, n2, h1, h2, hzero, hmin, hmod⟩
  · rintro ⟨n1, n2, h1, h2, hzero, hmin, hmod⟩
    have hr : intModulus x y = some (x - ⌊x / y⌋ * y) :=
      intModulus_eq_some.mpr ⟨n1, n2, h1, h2, hzero, hmin, hmod⟩
    refine ⟨fun w hw => ?_, by rw [hr]; exact Option.some_ne_none _⟩
    by_cases hy : y = 0
    · simp [BinOp.lua, numeric, hy] at hw
    · simp [BinOp.lua, numeric, hy] at hw
      rw [hr, ← hw]
      rfl

theorem numeric_agrees {f : ℚ → ℚ → LuaVal} {g : ℚ → ℚ → ℚ} (h : ∀ x y, g x y = (f x y).val)
    {v1 v2 w : LuaVal} (hw : numeric f v1 v2 = some w) : some (g v1.val v2.val) = some w.val := by
  cases v1 with
  | num x =>
    cases v2 with
    | num y =>
      cases hw
      exact congrArg some (h x y)
    | bool b => exact nomatch hw
  | bool b => exact nomatch hw

theorem equal_fits_iff (v1 v2 : LuaVal) :
    ofBool (v1.val = v2.val) = ofBool (v1 = v2) ↔ v1 = v2 ∨ v1.val ≠ v2.val := by
  by_cases heq : v1 = v2
  · simp [heq]
  · by_cases hval : v1.val = v2.val
    · simp [heq, hval, ofBool]
    · simp [heq, hval]

theorem notEqual_fits_iff (v1 v2 : LuaVal) :
    ofBool (v1.val ≠ v2.val) = ofBool (v1 ≠ v2) ↔ v1 = v2 ∨ v1.val ≠ v2.val := by
  by_cases heq : v1 = v2
  · simp [heq]
  · by_cases hval : v1.val = v2.val
    · simp [heq, hval, ofBool]
    · simp [heq, hval]

/-- An operator gives what it gives in Lua exactly when it has what it needs. -/
theorem BinOp.fits_iff (op : BinOp) (v1 v2 : LuaVal) :
    ((∀ w, op.lua div pow v1 v2 = some w → op.apply div pow v1.val v2.val = some w.val) ∧
      (op = .modulus → ∀ x y, v1 = .num x → v2 = .num y →
        op.apply div pow v1.val v2.val ≠ none)) ↔ op.Fits v1 v2 := by
  cases op with
  | plus => exact iff_of_true ⟨fun w hw => numeric_agrees (fun _ _ => rfl) hw, nofun⟩ trivial
  | minus => exact iff_of_true ⟨fun w hw => numeric_agrees (fun _ _ => rfl) hw, nofun⟩ trivial
  | multiplies => exact iff_of_true ⟨fun w hw => numeric_agrees (fun _ _ => rfl) hw, nofun⟩ trivial
  | divides => exact iff_of_true ⟨fun w hw => numeric_agrees (fun _ _ => rfl) hw, nofun⟩ trivial
  | pow => exact iff_of_true ⟨fun w hw => numeric_agrees (fun _ _ => rfl) hw, nofun⟩ trivial
  | less => exact iff_of_true ⟨fun w hw => numeric_agrees (fun _ _ => rfl) hw, nofun⟩ trivial
  | lessEqual => exact iff_of_true ⟨fun w hw => numeric_agrees (fun _ _ => rfl) hw, nofun⟩ trivial
  | greaterEqual => exact iff_of_true ⟨fun w hw => numeric_agrees (fun _ _ => rfl) hw, nofun⟩ trivial
  | greater => exact iff_of_true ⟨fun w hw => numeric_agrees (fun _ _ => rfl) hw, nofun⟩ trivial
  | modulus =>
    cases v1 with
    | num x =>
      cases v2 with
      | num y =>
        rw [← @modulus_fits_iff div pow]
        refine and_congr_right fun _ => ⟨fun h => h rfl x y rfl rfl, fun h _ x' y' hx hy => ?_⟩
        cases hx
        cases hy
        exact h
      | bool b => exact iff_of_true ⟨nofun, fun _ _ _ _ => nofun⟩ trivial
    | bool b => exact iff_of_true ⟨nofun, fun _ _ _ => nofun⟩ trivial
  | equalTo =>
    refine Iff.trans ⟨fun h => ?_, fun h => ⟨fun w hw => ?_, nofun⟩⟩ (equal_fits_iff v1 v2)
    · exact Option.some.inj (h.1 _ rfl)
    · cases hw
      exact congrArg some h
  | notEqualTo =>
    refine Iff.trans ⟨fun h => ?_, fun h => ⟨fun w hw => ?_, nofun⟩⟩ (notEqual_fits_iff v1 v2)
    · exact Option.some.inj (h.1 _ rfl)
    · cases hw
      exact congrArg some h

/-- Two boolean tests give the operand that Lua gives. -/
theorem ofBool_ne_zero (v : ℚ) : ofBool (v ≠ 0) = v ↔ v = 0 ∨ v = 1 := by
  by_cases hv : v = 0
  · simp [hv, ofBool]
  · simp [hv, ofBool, eq_comm]

theorem forall_values {P : LuaVal → LuaVal → Prop} {v1 v2 : LuaVal} :
    (∀ w1 w2, some v1 = some w1 → some v2 = some w2 → P w1 w2) ↔ P v1 v2 := by
  constructor
  · exact fun h => h v1 v2 rfl rfl
  · intro h w1 w2 h1 h2
    cases h1
    cases h2
    exact h

theorem bin_iff {op : BinOp} {e1 e2 : Expression} (h1 : Agrees div pow e1)
    (h2 : e1.lua div pow ≠ none → Agrees div pow e2) :
    (Agrees div pow (.bin op e1 e2) ∧
      (op = .modulus → ∀ x y, e1.lua div pow = some (.num x) → e2.lua div pow = some (.num y) →
        Expression.value div pow (.bin op e1 e2) ≠ none)) ↔
      ∀ v1 v2, e1.lua div pow = some v1 → e2.lua div pow = some v2 → op.Fits v1 v2 := by
  unfold Agrees
  rw [Expression.lua, Expression.value]
  cases hv1 : e1.lua div pow with
  | none => exact iff_of_true ⟨nofun, fun _ _ _ => nofun⟩ nofun
  | some v1 =>
    rw [h1 v1 hv1]
    cases hv2 : e2.lua div pow with
    | none => exact iff_of_true ⟨nofun, fun _ _ _ _ => nofun⟩ fun _ _ _ => nofun
    | some v2 =>
      rw [h2 (by rw [hv1]; exact Option.some_ne_none _) v2 hv2, forall_values,
        ← @BinOp.fits_iff div pow]
      simp only [Option.bind_some, Option.some.injEq]

/-- A value that does not count as true stands for 0. -/
theorem val_of_not_truthy {v : LuaVal} (h : v.truthy = false) : v.val = 0 := by
  cases v with
  | num q =>
    have htrue : true = false := h
    exact absurd htrue (by decide)
  | bool b =>
    have hb : b = false := h
    rw [hb]
    rfl

theorem logicalAnd_iff {e1 e2 : Expression} (h1 : Agrees div pow e1)
    (h2 : ∀ v, e1.lua div pow = some v → v.truthy = true → Agrees div pow e2) :
    Agrees div pow (.logicalAnd e1 e2) ↔
      ∀ v1 v2, e1.lua div pow = some v1 → e2.lua div pow = some v2 → v1.truthy = true →
        v2.val = 0 ∨ v1.val ≠ 0 ∧ v2.val = 1 := by
  unfold Agrees
  rw [Expression.lua, Expression.value]
  cases hv1 : e1.lua div pow with
  | none => exact iff_of_true nofun nofun
  | some v1 =>
    rw [h1 v1 hv1, Option.bind_some, Option.bind_some]
    cases htrue : v1.truthy with
    | false =>
      refine iff_of_true (fun v hv => ?_) fun w1 w2 hw1 _ ht => ?_
      · cases hv
        rw [val_of_not_truthy htrue, if_neg (not_not.mpr rfl)]
      · cases hw1
        exact absurd (htrue.symm.trans ht) (by decide)
    | true =>
      rw [if_pos rfl]
      cases hv2 : e2.lua div pow with
      | none => exact iff_of_true nofun fun _ _ _ => nofun
      | some v2 =>
        rw [h2 v1 hv1 htrue v2 hv2, forall_values, htrue, imp_iff_right rfl]
        simp only [Option.some.injEq, forall_eq', Option.map_some]
        by_cases hzero : v1.val = 0
        · rw [if_neg (not_not.mpr hzero), Option.some.injEq, hzero]
          simp only [ne_eq, not_true_eq_false, false_and, or_false]
          exact eq_comm
        · rw [if_pos hzero, Option.some.injEq, ofBool_ne_zero]
          simp only [ne_eq, hzero, not_false_eq_true, true_and]

theorem logicalOr_iff {e1 e2 : Expression} (h1 : Agrees div pow e1)
    (h2 : ∀ v, e1.lua div pow = some v → v.val = 0 → Agrees div pow e2) :
    ((∀ v, e1.lua div pow = some v → v.truthy = true → v.val = 0 → e2.lua div pow ≠ none) ∧
      Agrees div pow (.logicalOr e1 e2)) ↔
      (∀ v1, e1.lua div pow = some v1 → v1.truthy = true →
        v1.val = 1 ∨ v1.val = 0 ∧ ∃ v2, e2.lua div pow = some v2 ∧ v2.val = 0) ∧
      ∀ v1 v2, e1.lua div pow = some v1 → e2.lua div pow = some v2 → v1.truthy = false →
        v2.val = 0 ∨ v2.val = 1 := by
  unfold Agrees
  rw [Expression.lua, Expression.value]
  cases hv1 : e1.lua div pow with
  | none => exact iff_of_true ⟨nofun, nofun⟩ ⟨nofun, nofun⟩
  | some v1 =>
    rw [h1 v1 hv1, Option.bind_some, Option.bind_some]
    cases htrue : v1.truthy with
    -- `nil` and `false` stand for 0, so both evaluations go on with the second operand
    | false =>
      have hzero := val_of_not_truthy htrue
      simp only [Option.some.injEq, forall_eq', htrue, Bool.false_eq_true, false_imp_iff, true_and,
        if_false, hzero, ne_eq, not_true_eq_false]
      cases hv2 : e2.lua div pow with
      | none => exact iff_of_true nofun fun _ _ => nofun
      | some v2 =>
        rw [h2 v1 hv1 hzero v2 hv2]
        simp only [Option.some.injEq, forall_eq', Option.map_some]
        rw [forall_comm]
        simp only [forall_eq', htrue, forall_const]
        exact ofBool_ne_zero v2.val
    -- a number counts as true in Lua, even 0
    | true =>
      have hsecond : ∀ w1 w2, some v1 = some w1 → e2.lua div pow = some w2 →
          w1.truthy = false → w2.val = 0 ∨ w2.val = 1 := by
        intro w1 w2 hw1 _ ht
        cases hw1
        exact absurd (htrue.symm.trans ht) (by decide)
      rw [and_iff_left hsecond, if_pos rfl]
      simp only [Option.some.injEq, forall_eq', htrue, forall_const]
      by_cases hzero : v1.val = 0
      · rw [if_neg (not_not.mpr hzero), hzero, imp_iff_right rfl, and_iff_right rfl,
          or_iff_right (by decide)]
        cases hv2 : e2.lua div pow with
        | none => exact iff_of_false (fun h => h.1 rfl) nofun
        | some v2 =>
          rw [h2 v1 hv1 hzero v2 hv2, and_iff_right (Option.some_ne_none _), Option.map_some,
            Option.some.injEq]
          simp only [Option.some.injEq, exists_eq_left']
          by_cases hval : v2.val = 0
          · simp [hval, ofBool]
          · simp [hval, ofBool]
      · rw [if_pos hzero, Option.some.injEq, or_iff_left fun h => hzero h.1,
          and_iff_right fun h => absurd h hzero]
        exact eq_comm

theorem un_iff {op : UnOp} {e : Expression} (h : Agrees div pow e) :
    Agrees div pow (.un op e) ↔ ∀ v, e.lua div pow = some v → op.Fits v := by
  unfold Agrees
  rw [Expression.lua, Expression.value]
  cases hv : e.lua div pow with
  | none => exact iff_of_true nofun nofun
  | some v =>
    rw [h v hv]
    simp only [Option.bind_some, Option.map_some, Option.some.injEq, forall_eq']
    exact UnOp.fits_iff op v

/-- An expression has its value in Lua, with all its parts that are evaluated there, exactly when
every operator that is reached has what it needs. -/
theorem right_iff_meets (div pow : ℚ → ℚ → ℚ) (e : Expression) :
    Right div pow e ↔ Meets div pow e := by
  induction e with
  | int n => exact Iff.rfl
  | bool b => exact Iff.rfl
  | un op e ih =>
    rw [Right, Meets, ← ih]
    exact and_congr_right fun h => un_iff h.agrees
  | bin op e1 e2 ih1 ih2 =>
    rw [Right, Meets, ← ih1, ← ih2]
    refine and_congr_right fun h1 => and_congr_right fun h2 => ?_
    exact bin_iff h1.agrees fun hne => (h2 hne).agrees
  | logicalAnd e1 e2 ih1 ih2 =>
    rw [Right, Meets, ← ih1, ← ih2]
    refine and_congr_right fun h1 => and_congr_right fun h2 => ?_
    exact logicalAnd_iff h1.agrees fun v hv ht => (h2 v hv ht).agrees
  | logicalOr e1 e2 ih1 ih2 =>
    rw [Right, Meets, ← ih1, ← ih2]
    refine and_congr_right fun h1 => and_congr_right fun h2 => ?_
    exact logicalOr_iff h1.agrees fun v hv hzero => (h2 v hv hzero).agrees

/-- `2 and 3` is 3 in Lua. -/
theorem logicalAnd_disagrees :
    ¬ Agrees (· / ·) (fun _ _ => 0) (.logicalAnd (.int 2) (.int 3)) := by
  intro h
  exact absurd (h (.num 3) (by decide)) (by decide)

end Agreement

end LuaOpt
end Szbase
end Szarp
