import Szarp.Boruta.ModbusConfigure
import Mathlib.Data.Rat.Floor
import Mathlib.Tactic.FieldSimp
import Mathlib.Tactic.IntervalCases
import Mathlib.Tactic.Linarith

/-!
# Values of Modbus registers

`modbus_register` and the operations that put values of the sender into registers and read values
for parcook from them. A `double` is a rational number; what words a `float` consists of is a parameter.
-/

namespace Szarp
namespace Boruta

def szarpNoData : Short := 0x8000

/-! ## Floating point -/

/-- The conversion of a `double` to an integer. -/
def truncate (q : ℚ) : ℤ := if 0 ≤ q then ⌊q⌋ else ⌈q⌉

/-- `modf`: the integral part and the fraction. -/
def modf (q : ℚ) : ℚ × ℚ := (truncate q, q - truncate q)

/-- `nearbyint`: a half is rounded to the even neighbour. -/
def nearbyint (q : ℚ) : ℤ :=
  let r := q - ⌊q⌋
  if r < 1 / 2 ∨ r = 1 / 2 ∧ ⌊q⌋ % 2 = 0 then ⌊q⌋ else ⌊q⌋ + 1

def toShort (q : ℚ) : Short := BitVec.ofInt 16 (truncate q)

/-! ## Registers -/

def registerValExpired (expirationTime currentTime time : ℤ) : Prop :=
  expirationTime = 0 ∨ currentTime - expirationTime ≤ time

instance (expirationTime currentTime time : ℤ) :
    Decidable (registerValExpired expirationTime currentTime time) :=
  inferInstanceAs (Decidable (_ ∨ _))

/-- `get_val`, when the value is `valid`. -/
def Register.getVal (expirationTime currentTime : ℤ) (reg : Register) : Option Short :=
  if 0 ≤ reg.modTime ∧ registerValExpired expirationTime currentTime reg.modTime then some reg.val
  else none

/-! ## Operations -/

/-- The words that `decimal2_sender_modbus_val_op::set_val` puts into its registers. -/
def decimal2Words (prec : ℤ) (val : Short) : Short × Short :=
  if val = szarpNoData then (szarpNoData, szarpNoData)
  else
    let (integral, fraction) := modf (val.toInt / prec)
    (toShort integral, toShort fraction)

/-- `set_val` of the operations: the words in the order in which they are put into registers. -/
def SenderOp.words {ρ : Type} (floatWords : ℚ → Short × Short) (nodataValue : ℚ) (val : Short) :
    SenderOp ρ → List (ρ × Short)
  | .short reg => [(reg, if val = szarpNoData then toShort nodataValue else val)]
  | .float lsw msw prec =>
    let iv := floatWords (if val = szarpNoData then nodataValue else val.toInt / prec)
    [(msw, iv.1), (lsw, iv.2)]
  | .decimal2 integer fraction prec =>
    [(integer, (decimal2Words prec val).1), (fraction, (decimal2Words prec val).2)]

def decimal2Val (expirationTime currentTime : ℤ) (integer fraction : Register) (prec : ℤ)
    (isLsw : Bool) : Short :=
  match integer.getVal expirationTime currentTime, fraction.getVal expirationTime currentTime with
  | some rinteger, some rfraction =>
    let v : ℚ := rinteger.toNat + rfraction.toNat / 1000
    let iv := BitVec.ofInt 32 (nearbyint (v * prec))
    if isLsw then iv.setWidth 16 else (iv >>> 16).setWidth 16
  | _, _ => szarpNoData

/-! ## Round trip -/

theorem truncate_intCast (n : ℤ) : truncate n = n := by
  rw [truncate]
  split
  · exact Int.floor_intCast n
  · exact Int.ceil_intCast n

theorem truncate_div {n : ℤ} (hn : 0 ≤ n) (p : ℕ) : truncate (n / p) = n / p := by
  have hpos : (0 : ℚ) ≤ n / p := div_nonneg (Int.cast_nonneg hn) (Nat.cast_nonneg p)
  rw [truncate, if_pos hpos, Rat.floor_intCast_div_natCast]

theorem truncate_fract {q : ℚ} (hq : 0 ≤ q) : truncate (q - truncate q) = 0 := by
  rw [truncate.eq_1 q, if_pos hq, Int.self_sub_floor, truncate, if_pos (Int.fract_nonneg q),
    Int.floor_fract]

theorem nearbyint_intCast (n : ℤ) : nearbyint n = n := by
  rw [nearbyint, Int.floor_intCast, if_pos (Or.inl (by norm_num))]

/-- The word for the fraction is zero: a fraction below 1 is converted. -/
theorem decimal2Words_eq {v : Short} (hv : 0 ≤ v.toInt) (p : ℕ) :
    decimal2Words p v = (BitVec.ofInt 16 (v.toInt / p), 0) := by
  have hne : v ≠ szarpNoData := by
    rintro rfl
    exact absurd hv (by decide)
  have hpos : (0 : ℚ) ≤ (v.toInt : ℚ) / ((p : ℤ) : ℚ) := by positivity
  have hfract := truncate_fract hpos
  have hint : truncate ((v.toInt : ℚ) / ((p : ℤ) : ℚ)) = v.toInt / p := by
    rw [Int.cast_natCast]
    exact truncate_div hv p
  rw [decimal2Words, if_neg hne, modf]
  simp only [toShort]
  rw [hfract, hint, truncate_intCast]
  rfl

theorem toNat_ofInt_of_nonneg {n : ℤ} (h0 : 0 ≤ n) (hlt : n < 65536) :
    ((BitVec.ofInt 16 n).toNat : ℤ) = n := by
  rw [BitVec.toNat_ofInt]
  omega

/-- A value comes back when it is a multiple of the precision, as long as the registers are valid. -/
theorem decimal2Val_decimal2Words_iff (k : ℕ) (v : Short) (hv : 0 ≤ v.toInt)
    (expirationTime currentTime received : ℤ) :
    decimal2Val expirationTime currentTime ⟨(decimal2Words (10 ^ k) v).1, received⟩
        ⟨(decimal2Words (10 ^ k) v).2, received⟩ (10 ^ k) true = v ↔
      (0 ≤ received ∧ registerValExpired expirationTime currentTime received) ∧
        (10 ^ k : ℤ) ∣ v.toInt := by
  have hne : szarpNoData ≠ v := by
    rintro rfl
    exact absurd hv (by decide)
  by_cases hvalid : 0 ≤ received ∧ registerValExpired expirationTime currentTime received
  · have hpow : (10 ^ k : ℤ) = ((10 ^ k : ℕ) : ℤ) := by push_cast; rfl
    have hlt : v.toInt < 32768 := by
      have h := BitVec.toInt_lt (x := v)
      omega
    have hquot : 0 ≤ v.toInt / ((10 ^ k : ℕ) : ℤ) := Int.ediv_nonneg hv (Int.natCast_nonneg _)
    have hquot' : v.toInt / ((10 ^ k : ℕ) : ℤ) ≤ v.toInt := Int.ediv_le_self _ hv
    have hmul : v.toInt / ((10 ^ k : ℕ) : ℤ) * ((10 ^ k : ℕ) : ℤ) ≤ v.toInt :=
      Int.ediv_mul_le _ (by positivity)
    rw [hpow, decimal2Words_eq hv]
    simp only [decimal2Val, Register.getVal, if_pos hvalid]
    have hval : ((BitVec.ofInt 16 (v.toInt / ((10 ^ k : ℕ) : ℤ))).toNat : ℚ) +
        ((0 : Short).toNat : ℚ) / 1000 = ((v.toInt / ((10 ^ k : ℕ) : ℤ) : ℤ) : ℚ) := by
      have h := toNat_ofInt_of_nonneg hquot (by omega)
      have h' : ((BitVec.ofInt 16 (v.toInt / ((10 ^ k : ℕ) : ℤ))).toNat : ℚ) =
          ((v.toInt / ((10 ^ k : ℕ) : ℤ) : ℤ) : ℚ) := by
        rw [← Int.cast_natCast, h]
      have hzero : (0 : Short).toNat = 0 := rfl
      rw [h', hzero]
      norm_num
    rw [hval, ← Int.cast_mul, nearbyint_intCast]
    simp only [if_true, hvalid, true_and, and_self]
    generalize hq : v.toInt / ((10 ^ k : ℕ) : ℤ) * ((10 ^ k : ℕ) : ℤ) = q at hmul ⊢
    have hq0 : 0 ≤ q := by
      rw [← hq]
      positivity
    -- the product of the words is not larger than the value, so the conversion changes nothing
    have hback : (BitVec.setWidth 16 (BitVec.ofInt 32 q)).toInt = q := by
      rw [BitVec.toInt_setWidth, BitVec.toNat_ofInt]
      norm_num
      rw [Int.bmod_def]
      omega
    rw [← BitVec.toInt_inj, hback, ← hq]
    constructor
    · intro h
      exact Dvd.intro_left _ h
    · intro h
      exact Int.ediv_mul_cancel h
  -- a register that is not valid gives no data, which is no value from 0 on
  · simp only [decimal2Val, Register.getVal, if_neg hvalid]
    constructor
    · intro h
      exact absurd h hne
    · intro h
      exact absurd h.1 hvalid

/-- 2.0 with one decimal place comes back. -/
theorem decimal2Val_decimal2Words_twenty :
    decimal2Val 60 1000 ⟨(decimal2Words (10 ^ 1) 20).1, 990⟩ ⟨(decimal2Words (10 ^ 1) 20).2, 990⟩
        (10 ^ 1) true = 20 :=
  (decimal2Val_decimal2Words_iff 1 20 (by decide) 60 1000 990).mpr
    ⟨⟨by decide, Or.inr (by decide)⟩, by decide⟩

/-- 2.5 with one decimal place does not. -/
theorem decimal2Val_decimal2Words_twentyFive :
    ¬∀ (k : ℕ) (v : Short) (expirationTime currentTime received : ℤ), k ≤ 3 → v ≠ szarpNoData →
      0 ≤ v.toInt → 0 ≤ received → registerValExpired expirationTime currentTime received →
      decimal2Val expirationTime currentTime ⟨(decimal2Words (10 ^ k) v).1, received⟩
        ⟨(decimal2Words (10 ^ k) v).2, received⟩ (10 ^ k) true = v := by
  intro h
  have hval := h 1 25 60 1000 990 (by decide) (by decide) (by decide) (by decide) (Or.inr (by decide))
  revert hval
  decide +kernel

end Boruta
end Szarp
