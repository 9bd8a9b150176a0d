import Szarp.Lib.Numeral

/-!
# Texts in Python

The operations of Python on byte strings and on the names of files.  A byte is a character.
-/

namespace Szarp
namespace PyText

open Numeral

def strip (s : List Char) : List Char := ((s.dropWhile isSpace).reverse.dropWhile isSpace).reverse

/-- `s.split(None, n)` -/
def splitSpace : ℕ → List Char → List (List Char)
  | 0, s => if s.dropWhile isSpace = [] then [] else [s.dropWhile isSpace]
  | n + 1, s =>
    let rest := s.dropWhile isSpace
    if rest = [] then []
    else rest.takeWhile (fun c => !isSpace c) :: splitSpace n (rest.dropWhile fun c => !isSpace c)

def int (s : List Char) : Option ℤ :=
  let number := splitSign (strip s)
  if number.2 ≠ [] ∧ number.2.all Char.isDigit then
    some (number.1 * Nat.ofDigitChars 10 number.2 0)
  else none

def zeroPadded (width : ℕ) (v : ℤ) : List Char :=
  if v < 0 then '-' :: padded (width - 1) v.natAbs else padded width v.natAbs

/-- What follows the last `c` of a text, all of it when there is none. -/
def afterLast (c : Char) (s : List Char) : List Char :=
  (s.reverse.takeWhile fun d => d ≠ c).reverse

/-- What precedes the last `c` of a text, nothing when there is none. -/
def beforeLast (c : Char) (s : List Char) : List Char :=
  ((s.reverse.dropWhile fun d => d ≠ c).drop 1).reverse

/-- `s.rsplit(c, 2)[1]`, for a text that has a `c`. -/
def rsplitSecond (c : Char) (s : List Char) : List Char :=
  if c ∈ beforeLast c s then afterLast c (beforeLast c s) else afterLast c s

/-! ## Splitting at the last separator -/

theorem takeWhile_ne_append {c : Char} {t : List Char} (h : c ∉ t) (s : List Char) :
    (t ++ c :: s).takeWhile (fun d => d ≠ c) = t := by
  induction t with
  | nil => simp
  | cons d t ih =>
    rw [List.mem_cons, not_or] at h
    rw [List.cons_append, List.takeWhile_cons_of_pos (by simpa using Ne.symm h.1), ih h.2]

theorem dropWhile_ne_append {c : Char} {t : List Char} (h : c ∉ t) (s : List Char) :
    (t ++ c :: s).dropWhile (fun d => d ≠ c) = c :: s := by
  induction t with
  | nil => simp
  | cons d t ih =>
    rw [List.mem_cons, not_or] at h
    rw [List.cons_append, List.dropWhile_cons_of_pos (by simpa using Ne.symm h.1), ih h.2]

theorem afterLast_append {c : Char} {t : List Char} (h : c ∉ t) (s : List Char) :
    afterLast c (s ++ c :: t) = t := by
  have hrev : (s ++ c :: t).reverse = t.reverse ++ c :: s.reverse := by simp
  rw [afterLast, hrev, takeWhile_ne_append (by simpa using h), List.reverse_reverse]

theorem beforeLast_append {c : Char} {t : List Char} (h : c ∉ t) (s : List Char) :
    beforeLast c (s ++ c :: t) = s := by
  have hrev : (s ++ c :: t).reverse = t.reverse ++ c :: s.reverse := by simp
  rw [beforeLast, hrev, dropWhile_ne_append (by simpa using h), List.drop_one, List.tail_cons,
    List.reverse_reverse]

theorem isDigit_padded {width n : ℕ} : ∀ c ∈ padded width n, c.isDigit := by
  intro c hc
  rw [padded, List.leftpad, List.mem_append] at hc
  obtain hc | hc := hc
  · obtain rfl := List.eq_of_mem_replicate hc
    rfl
  · exact Nat.isDigit_of_mem_toDigits (by decide) (by decide) hc

theorem ofDigitChars_padded (width n : ℕ) : Nat.ofDigitChars 10 (padded width n) 0 = n := by
  rw [padded, List.leftpad, Nat.ofDigitChars_append, Nat.ofDigitChars_replicate_zero,
    Nat.mul_zero, Nat.ofDigitChars_ten_toDigits]

theorem padded_ne_nil (width n : ℕ) : padded width n ≠ [] := by
  have h := Nat.toDigits_ne_nil (b := 10) (n := n)
  simp [padded, List.leftpad, h]

theorem dropWhile_isSpace_of_isDigit {s : List Char} (h : ∀ c ∈ s, c.isDigit) :
    s.dropWhile isSpace = s := by
  cases s with
  | nil => rfl
  | cons c s =>
    rw [List.dropWhile_cons_of_neg]
    rw [not_isSpace_of_isDigit (h c List.mem_cons_self)]
    decide

theorem strip_of_isDigit {s : List Char} (h : ∀ c ∈ s, c.isDigit) : strip s = s := by
  rw [strip, dropWhile_isSpace_of_isDigit h,
    dropWhile_isSpace_of_isDigit fun c hc => h c (List.mem_reverse.mp hc), List.reverse_reverse]

theorem splitSign_of_isDigit {s : List Char} (h : ∀ c ∈ s, c.isDigit) :
    splitSign s = (1, s) := by
  cases s with
  | nil => rfl
  | cons c s =>
    have hc := h c List.mem_cons_self
    rw [splitSign]
    · rintro cs heq
      rw [(List.cons.inj heq).1] at hc
      exact absurd hc (by decide)
    · rintro cs heq
      rw [(List.cons.inj heq).1] at hc
      exact absurd hc (by decide)

theorem int_of_isDigit {s : List Char} (hne : s ≠ []) (h : ∀ c ∈ s, c.isDigit) :
    int s = some (Nat.ofDigitChars 10 s 0 : ℤ) := by
  have hall : s.all Char.isDigit := List.all_eq_true.mpr h
  simp only [int, strip_of_isDigit h, splitSign_of_isDigit h]
  rw [if_pos ⟨hne, hall⟩, one_mul]

theorem int_padded (width n : ℕ) : int (padded width n) = some (n : ℤ) := by
  rw [int_of_isDigit (padded_ne_nil width n) isDigit_padded, ofDigitChars_padded]

theorem int_zeroPadded (width : ℕ) (v : ℤ) : int (zeroPadded width v) = some v := by
  unfold zeroPadded
  split
  · have hdigits : ∀ c ∈ padded (width - 1) v.natAbs, c.isDigit := isDigit_padded
    have hall : (padded (width - 1) v.natAbs).all Char.isDigit := List.all_eq_true.mpr hdigits
    have hrev : ∀ c ∈ (padded (width - 1) v.natAbs).reverse, c.isDigit := fun c hc =>
      hdigits c (List.mem_reverse.mp hc)
    have hne : (padded (width - 1) v.natAbs).reverse ≠ [] := by
      rw [Ne, List.reverse_eq_nil_iff]
      exact padded_ne_nil _ _
    have hstrip : strip ('-' :: padded (width - 1) v.natAbs) =
        '-' :: padded (width - 1) v.natAbs := by
      rw [strip, List.dropWhile_cons_of_neg (by decide), List.reverse_cons, List.dropWhile_append,
        dropWhile_isSpace_of_isDigit hrev, if_neg (by rw [List.isEmpty_iff]; exact hne),
        List.reverse_append, List.reverse_reverse, List.reverse_singleton, List.singleton_append]
    have hvalue : -1 * (v.natAbs : ℤ) = v := by omega
    simp only [int, hstrip, splitSign]
    rw [if_pos ⟨padded_ne_nil _ _, hall⟩, ofDigitChars_padded, hvalue]
  · rw [int_padded]
    congr 1
    omega

end PyText
end Szarp
