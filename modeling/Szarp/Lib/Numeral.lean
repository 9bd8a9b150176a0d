import Mathlib.Algebra.Order.Ring.Int
import Mathlib.Data.Int.Notation
import Mathlib.Tactic.Common
import Mathlib.Tactic.Linarith

/-!
# Integers as text

What the C library and `boost::lexical_cast` make of a text that should be an `int`, and the text
that `printf` makes of one.
-/

namespace Szarp
namespace Numeral

def intText (v : ℤ) : List Char :=
  if v < 0 then '-' :: Nat.toDigits 10 v.natAbs else Nat.toDigits 10 v.natAbs

def isSpace (c : Char) : Bool := c = ' ' ∨ 9 ≤ c.toNat ∧ c.toNat ≤ 13

def splitSign : List Char → ℤ × List Char
  | '-' :: cs => (-1, cs)
  | '+' :: cs => (1, cs)
  | cs => (1, cs)

/-- A number that is read as `long` and then stored as `int`. -/
def toInt32 (v : ℤ) : ℤ := (max (-2 ^ 63) (min v (2 ^ 63 - 1))).bmod (2 ^ 32)

/-- What `sscanf` reads by `%d`; `none` when there is no number. -/
def scanInt (s : String) : Option ℤ :=
  let number := splitSign (s.toList.dropWhile isSpace)
  let digits := number.2.takeWhile Char.isDigit
  if digits = [] then none else some (toInt32 (number.1 * Nat.ofDigitChars 10 digits 0))

def atoi (s : String) : ℤ := (scanInt s).getD 0

/-- `boost::lexical_cast<int>` takes the whole text or nothing. -/
def lexicalCast (s : String) : Option ℤ :=
  let number := splitSign s.toList
  let v := number.1 * Nat.ofDigitChars 10 number.2 0
  if number.2 ≠ [] ∧ number.2.all Char.isDigit ∧ -2 ^ 31 ≤ v ∧ v < 2 ^ 31 then some v else none

theorem toInt32_eq {v : ℤ} (h : -2 ^ 31 ≤ v) (h' : v < 2 ^ 31) : toInt32 v = v := by
  have hmin : min v (2 ^ 63 - 1) = v := min_eq_left (by omega)
  have hmax : max (-2 ^ 63) v = v := max_eq_right (by omega)
  rw [toInt32, hmin, hmax, Int.bmod_def]
  omega

theorem not_isSpace_of_isDigit {c : Char} (h : c.isDigit) : isSpace c = false := by
  have hc : 48 ≤ c.toNat := by
    rw [Char.isDigit, Bool.and_eq_true, decide_eq_true_iff] at h
    exact h.1
  have hne : c ≠ ' ' := by
    rintro rfl
    exact absurd hc (by decide)
  rw [isSpace, decide_eq_false_iff_not]
  rintro (hc' | hc')
  · exact hne hc'
  · omega

/-- A text that starts with a sign or a digit starts with no blank. -/
theorem dropWhile_isSpace {cs : List Char} (h : (splitSign cs).2 ≠ [])
    (hd : ∀ c ∈ (splitSign cs).2, c.isDigit) : cs.dropWhile isSpace = cs := by
  match cs with
  | [] => rfl
  | c :: cs =>
    rw [List.dropWhile_cons_of_neg]
    by_cases hm : c = '-'
    · rw [hm]
      decide
    · by_cases hp : c = '+'
      · rw [hp]
        decide
      · have hsplit : splitSign (c :: cs) = (1, c :: cs) := by
          rw [splitSign]
          · exact fun _ h => hm (List.cons.inj h).1
          · exact fun _ h => hp (List.cons.inj h).1
        rw [hsplit] at hd
        rw [not_isSpace_of_isDigit (hd c List.mem_cons_self)]
        decide

theorem takeWhile_isDigit {cs : List Char} (h : ∀ c ∈ cs, c.isDigit) :
    cs.takeWhile Char.isDigit = cs := by
  induction cs with
  | nil => rfl
  | cons c cs ih =>
    rw [List.takeWhile_cons_of_pos (h c List.mem_cons_self),
      ih fun d hd => h d (List.mem_cons_of_mem c hd)]

/-- Where `lexical_cast` accepts a text, the C library reads the same number. -/
theorem scanInt_of_lexicalCast {s : String} {v : ℤ} (h : lexicalCast s = some v) :
    scanInt s = some v := by
  obtain ⟨⟨hne, hdigits, hlow, hhigh⟩, hv⟩ := Option.ite_none_right_eq_some.mp h
  have hd := List.all_eq_true.mp hdigits
  simp only [scanInt, dropWhile_isSpace hne hd, takeWhile_isDigit hd]
  rw [if_neg hne, toInt32_eq hlow hhigh]
  exact hv

theorem atoi_of_lexicalCast {s : String} {v : ℤ} (h : lexicalCast s = some v) : atoi s = v := by
  rw [atoi, scanInt_of_lexicalCast h, Option.getD_some]

theorem isDigit_toDigits {n : ℕ} {d : Char} (h : d ∈ Nat.toDigits 10 n) : d.isDigit :=
  Nat.isDigit_of_mem_toDigits (by decide) (by decide) h

theorem splitSign_intText (v : ℤ) (r : List Char) :
    splitSign ((intText v ++ r).dropWhile isSpace) =
      (if v < 0 then -1 else 1, Nat.toDigits 10 v.natAbs ++ r) := by
  unfold intText
  split
  · rw [List.cons_append, List.dropWhile_cons_of_neg (by decide)]
    rfl
  · obtain ⟨d, s, hds⟩ := List.exists_cons_of_ne_nil (Nat.toDigits_ne_nil (n := v.natAbs) (b := 10))
    have hd : d.isDigit := isDigit_toDigits (by rw [hds]; exact List.mem_cons_self)
    rw [hds, List.cons_append,
      List.dropWhile_cons_of_neg (by rw [not_isSpace_of_isDigit hd]; decide), splitSign]
    · rintro cs heq
      rw [(List.cons.inj heq).1] at hd
      exact absurd hd (by decide)
    · rintro cs heq
      rw [(List.cons.inj heq).1] at hd
      exact absurd hd (by decide)

theorem sign_mul_natAbs (v : ℤ) : (if v < 0 then -1 else 1) * (v.natAbs : ℤ) = v := by
  split <;> omega

theorem scanInt_intText {v : ℤ} (h : -2 ^ 31 ≤ v) (h' : v < 2 ^ 31) :
    scanInt (String.ofList (intText v)) = some v := by
  have hsplit := splitSign_intText v []
  rw [List.append_nil, List.append_nil] at hsplit
  simp only [scanInt, String.toList_ofList, hsplit, takeWhile_isDigit fun d => isDigit_toDigits,
    Nat.ofDigitChars_ten_toDigits, sign_mul_natAbs, toInt32_eq h h']
  rw [if_neg Nat.toDigits_ne_nil]

example : atoi " -12x" = -12 ∧ lexicalCast "-12" = some (-12) ∧ lexicalCast "-12x" = none := by decide

/-! ## Padded numbers -/

def padded (width n : ℕ) : List Char := (Nat.toDigits 10 n).leftpad width '0'

theorem padded_succ {width : ℕ} (hw : 0 < width) (n : ℕ) :
    padded (width + 1) n = padded width (n / 10) ++ [Nat.digitChar (n % 10)] := by
  obtain ⟨w, rfl⟩ := Nat.exists_eq_add_one_of_ne_zero hw.ne'
  by_cases hn : n < 10
  · rw [padded, padded, Nat.toDigits_of_lt_base hn, Nat.div_eq_of_lt hn, Nat.mod_eq_of_lt hn,
      Nat.toDigits_zero, List.leftpad, List.leftpad]
    simp [List.replicate_succ']
  · rw [padded, padded, Nat.toDigits_of_base_le (by decide) (by omega), List.leftpad, List.leftpad]
    simp [Nat.add_sub_add_right]

theorem length_padded {width n : ℕ} (hw : 0 < width) (h : n < 10 ^ width) :
    (padded width n).length = width := by
  have hle := (Nat.length_toDigits_le_iff (b := 10) (by decide) hw).mpr h
  simp [padded, List.leftpad, hle]

theorem append_lt_of_lt {l l' : List Char} (h : l < l') (hlen : l.length = l'.length)
    (r r' : List Char) : l ++ r < l' ++ r' := by
  induction l generalizing l' with
  | nil =>
    cases l' with
    | nil => exact absurd h (List.not_lt_nil [])
    | cons _ _ => exact nomatch hlen
  | cons c l ih =>
    cases l' with
    | nil => exact nomatch hlen
    | cons c' l' =>
      rw [List.cons_append, List.cons_append, List.cons_lt_cons_iff]
      rw [List.cons_lt_cons_iff] at h
      obtain h | ⟨rfl, h⟩ := h
      · exact .inl h
      · exact .inr ⟨rfl, ih h (by simpa using hlen)⟩

theorem append_lt_append {l r r' : List Char} (h : r < r') : l ++ r < l ++ r' := by
  induction l with
  | nil => exact h
  | cons c l ih => exact List.cons_lt_cons_iff.mpr (.inr ⟨rfl, ih⟩)

theorem padded_lt {width a b : ℕ} (hw : 0 < width) (h : a < b) (hb : b < 10 ^ width) :
    padded width a < padded width b := by
  induction width, hw using Nat.le_induction generalizing a b with
  | base =>
    have hdigit : ∀ b < 10, ∀ a < b, Nat.digitChar a < Nat.digitChar b := by decide
    rw [padded, padded, Nat.toDigits_of_lt_base (by omega), Nat.toDigits_of_lt_base (by omega)]
    exact List.cons_lt_cons_iff.mpr (.inl (hdigit b (by omega) a h))
  | succ width hw ih =>
    rw [padded_succ hw, padded_succ hw]
    have hpow : b / 10 < 10 ^ width := by
      rw [pow_succ] at hb
      omega
    by_cases hdiv : a / 10 < b / 10
    · apply append_lt_of_lt (ih hdiv hpow)
      rw [length_padded hw hpow, length_padded hw (by omega)]
    · have hdigit : ∀ b < 10, ∀ a < b, Nat.digitChar a < Nat.digitChar b := by decide
      have heq : a / 10 = b / 10 := by omega
      rw [heq]
      apply append_lt_append
      exact List.cons_lt_cons_iff.mpr (.inl (hdigit (b % 10) (by omega) (a % 10) (by omega)))

end Numeral
end Szarp
