import Szarp.Ipk.DrawTokens

/-!
# Scanning a compiled formula

What is left of a compiled formula when the old text for no data is replaced, and the operands that
`szb_definable_calculate` then finds in it.
-/

namespace Szarp
namespace Ipk
namespace DrawFormula

open Szbase.Definable

/-! ## The old no data -/

/-- A text does not reach beyond a character that it does not have. -/
theorem prefix_append_iff {p w r : List Char} (hr : r = [] ∨ ∃ c r', r = c :: r' ∧ c ∉ p) :
    p <+: w ++ r ↔ p <+: w := by
  obtain rfl | ⟨c, r', rfl, hc⟩ := hr
  · rw [List.append_nil]
  refine ⟨?_, fun h => h.trans (List.prefix_append _ _)⟩
  intro h
  by_cases hlen : p.length ≤ w.length
  · exact List.prefix_of_prefix_length_le h (List.prefix_append _ _) hlen
  · obtain ⟨t, ht⟩ := h
    have hat : (p ++ t)[w.length]? = some c := by
      rw [ht, List.getElem?_append_right le_rfl]
      simp
    rw [List.getElem?_append_left (not_le.mp hlen)] at hat
    exact absurd (List.mem_of_getElem? hat) hc

theorem oldNodata_isPrefixOf (w : List Char) {r : List Char} (hr : Boundary r) :
    oldNodata.isPrefixOf (w ++ r) = oldNodata.isPrefixOf w := by
  rw [Bool.eq_iff_iff, List.isPrefixOf_iff_prefix, List.isPrefixOf_iff_prefix]
  apply prefix_append_iff
  obtain hr | ⟨r', hr⟩ := hr
  · exact .inl hr
  · exact .inr ⟨' ', r', hr, by decide⟩

theorem replaceNodata_append (w : List Char) {r : List Char} (hr : Boundary r) {n : ℕ}
    (hn : n ≤ w.length) :
    replaceNodata n (w ++ r) = replaceNodata n w ++ replaceNodata 0 r := by
  induction w generalizing n with
  | nil =>
    obtain rfl : n = 0 := Nat.le_zero.mp hn
    rfl
  | cons c w ih =>
    cases n with
    | succ n => exact ih (Nat.le_of_succ_le_succ hn)
    | zero =>
      have hold := oldNodata_isPrefixOf (c :: w) hr
      rw [List.cons_append, replaceNodata, replaceNodata, ← List.cons_append, hold]
      split
      · next h =>
        have hlen : 6 ≤ w.length :=
          Nat.le_of_succ_le_succ (List.isPrefixOf_iff_prefix.mp h).length_le
        rw [ih hlen, List.cons_append]
      · rw [ih (Nat.zero_le _), List.cons_append]

theorem replaceNodata_copy {w : List Char} (hw : '#' ∉ w) (r : List Char) :
    replaceNodata 0 (w ++ r) = w ++ replaceNodata 0 r := by
  induction w with
  | nil => rfl
  | cons c w ih =>
    rw [List.mem_cons, not_or] at hw
    have hold : ¬ oldNodata.isPrefixOf (c :: (w ++ r)) = true := by
      simp [oldNodata, List.isPrefixOf, hw.1]
    rw [List.cons_append, replaceNodata, if_neg hold, ih hw.2, List.cons_append]

theorem replaceNodata_skip (w r : List Char) :
    replaceNodata w.length (w ++ r) = replaceNodata 0 r := by
  induction w with
  | nil => rfl
  | cons c w ih => exact ih

theorem not_mem_of_digits {w : List Char} (hw : ∀ c ∈ w, c.isDigit) {c : Char} (hc : ¬ c.isDigit) :
    c ∉ w := fun h => hc (hw c h)

/-- A mark before a digit is kept. -/
theorem replaceNodata_mark {w : List Char} (hne : w ≠ []) (hw : ∀ c ∈ w, c.isDigit)
    (r : List Char) : replaceNodata 0 ('#' :: (w ++ r)) = '#' :: (w ++ replaceNodata 0 r) := by
  obtain ⟨c, v, rfl⟩ := List.exists_cons_of_ne_nil hne
  have hc : '-' ≠ c := by
    rintro rfl
    exact absurd (hw '-' List.mem_cons_self) (by decide)
  have hold : ¬ oldNodata.isPrefixOf ('#' :: (c :: v ++ r)) = true := by
    simp [oldNodata, List.isPrefixOf, hc]
  rw [replaceNodata, if_neg hold, replaceNodata_copy (not_mem_of_digits hw (by decide))]

theorem replaceNodata_markedFraction (l : Literal) :
    replaceNodata 0 l.markedFraction = l.markedFraction := by
  cases hf : l.fraction with
  | none => simp [Literal.markedFraction, hf, replaceNodata]
  | some f =>
    have hdigits := l.fraction_digits f hf
    have hmark := replaceNodata_mark hdigits.1 hdigits.2 []
    simp only [Literal.markedFraction, hf]
    rw [← List.singleton_append, replaceNodata_copy (by decide)]
    rw [List.append_nil] at hmark
    simpa [replaceNodata] using hmark

def oldDigits : List Char := ['3', '2', '7', '6', '8']

def Literal.Old (l : Literal) : Prop := l.sign = .minus ∧ oldDigits <+: l.whole

instance (l : Literal) : Decidable l.Old := inferInstanceAs (Decidable (_ ∧ _))

def Literal.replaced (l : Literal) : List Char :=
  if l.Old then 'X' :: (l.whole.drop 5 ++ l.markedFraction) else l.marked

theorem oldDigits_prefix (l : Literal) :
    oldDigits <+: l.whole ++ l.markedFraction ↔ oldDigits <+: l.whole := by
  apply prefix_append_iff
  cases hf : l.fraction with
  | none => exact .inl (by simp [Literal.markedFraction, hf])
  | some f => exact .inr ⟨'.', '#' :: f, by simp [Literal.markedFraction, hf], by decide⟩

theorem replaceNodata_marked (l : Literal) : replaceNodata 0 l.marked = l.replaced := by
  have hmark : replaceNodata 0 ('#' :: (l.whole ++ l.markedFraction)) =
      '#' :: (l.whole ++ l.markedFraction) := by
    rw [replaceNodata_mark l.whole_ne l.whole_digits, replaceNodata_markedFraction]
  have hwhole : '#' ∉ l.whole := not_mem_of_digits l.whole_digits (by decide)
  cases hs : l.sign with
  | none => simp [Literal.replaced, Literal.Old, Literal.marked, hs, hmark]
  | plus =>
    have hplus := replaceNodata_copy (w := ['+']) (by decide)
      ('#' :: (l.whole ++ l.markedFraction))
    rw [hmark] at hplus
    simpa [Literal.replaced, Literal.Old, Literal.marked, hs] using hplus
  | minus =>
    have hold : oldNodata.isPrefixOf ('#' :: '-' :: (l.whole ++ l.markedFraction)) = true ↔
        oldDigits <+: l.whole := by
      rw [← oldDigits_prefix, List.isPrefixOf_iff_prefix, oldNodata, List.cons_prefix_cons,
        List.cons_prefix_cons]
      simp [oldDigits]
    have hOld : l.Old ↔ oldDigits <+: l.whole := by simp [Literal.Old, hs]
    have hmarked : l.marked = '#' :: '-' :: (l.whole ++ l.markedFraction) := by
      simp [Literal.marked, hs]
    rw [Literal.replaced, hmarked, replaceNodata]
    by_cases hpre : oldDigits <+: l.whole
    · obtain ⟨d, hd⟩ := hpre
      have hskip := replaceNodata_skip ('-' :: oldDigits) (d ++ l.markedFraction)
      have hdigits : '#' ∉ d := fun h => hwhole (hd ▸ List.mem_append_right _ h)
      rw [replaceNodata_copy hdigits, replaceNodata_markedFraction] at hskip
      rw [if_pos (hold.mpr ⟨d, hd⟩), if_pos (hOld.mpr ⟨d, hd⟩), ← hd]
      simpa [oldDigits] using hskip
    · have hcopy := replaceNodata_copy (w := '-' :: l.whole) (by simp [hwhole]) l.markedFraction
      rw [replaceNodata_markedFraction] at hcopy
      rw [if_neg fun h => hpre (hold.mp h), if_neg fun h => hpre (hOld.mp h)]
      exact congrArg _ hcopy

/-! ## Scanning what is compiled -/

/-- A text with which no number goes on. -/
def NumberEnds (t : List Char) : Prop :=
  Boundary t ∨ ∃ t', t = '.' :: '#' :: t'

theorem numberEnds_markedFraction (l : Literal) {r : List Char} (hr : Boundary r) :
    NumberEnds (l.markedFraction ++ r) := by
  cases hf : l.fraction with
  | none => exact Or.inl (by simpa [Literal.markedFraction, hf] using hr)
  | some f => exact Or.inr ⟨f ++ r, by simp [Literal.markedFraction, hf]⟩

theorem ne_of_isDigit {c d : Char} (h : c.isDigit) (hd : d.isDigit = false) : c ≠ d := by
  rintro rfl
  simp [hd] at h

theorem isWhitespace_of_isDigit {c : Char} (h : c.isDigit) : c.isWhitespace = false := by
  simp [Char.isWhitespace, ne_of_isDigit h (d := ' ') (by decide),
    ne_of_isDigit h (d := '\t') (by decide), ne_of_isDigit h (d := '\r') (by decide),
    ne_of_isDigit h (d := '\n') (by decide)]

theorem toLower_ne_of_isDigit {c : Char} (h : c.isDigit) : c.toLower ≠ 'x' := by
  have hlower : c.toLower = c := by
    refine dif_neg ?_
    simp only [Char.isDigit, Bool.and_eq_true, decide_eq_true_eq] at h
    have h9 := UInt32.le_iff_toNat_le.mp h.2
    rintro ⟨hA, -⟩
    have hA := UInt32.le_iff_toNat_le.mp hA
    exact absurd (hA.trans h9) (by decide)
  rw [hlower]
  exact ne_of_isDigit h (by decide)

/-- Without a mark of base 16 a number is decimal. -/
theorem number_eq {text : List Char} (h : ∀ x, text[1]? = some x → x.toLower ≠ 'x') :
    number text = (significand 10 text).1 * 10 ^ exponent 'e' (significand 10 text).2 := by
  unfold number
  split
  · rw [if_neg fun hx => h _ rfl hx.1]
  · rfl

theorem number_digits {w : List Char} (hne : w ≠ []) (hw : ∀ c ∈ w, c.isDigit) {t : List Char}
    (ht : NumberEnds t) : number (w ++ t) = digitsValue w := by
  have hten : isDigitOf 10 = Char.isDigit := by
    funext c
    rfl
  have hfirst : t.takeWhile Char.isDigit = [] := by
    obtain (rfl | ⟨t', rfl⟩) | ⟨t', rfl⟩ := ht
    · rfl
    · rfl
    · rfl
  have htake : (w ++ t).takeWhile Char.isDigit = w := by
    rw [List.takeWhile_append_of_pos hw, hfirst, List.append_nil]
  have hdrop : (w ++ t).dropWhile Char.isDigit = t := by
    have happend := List.takeWhile_append_dropWhile (p := Char.isDigit) (l := w ++ t)
    rw [htake] at happend
    exact List.append_cancel_left happend
  have hsecond : ∀ x, (w ++ t)[1]? = some x → x.toLower ≠ 'x' := by
    intro x hx
    obtain ⟨c, v, rfl⟩ := List.exists_cons_of_ne_nil hne
    rw [List.cons_append, List.getElem?_cons_succ] at hx
    cases v with
    | cons d v =>
      obtain rfl := Option.some.inj hx
      exact toLower_ne_of_isDigit (hw d (by simp))
    | nil =>
      obtain (rfl | ⟨t', rfl⟩) | ⟨t', rfl⟩ := ht
      · exact nomatch hx
      · obtain rfl := Option.some.inj hx
        decide
      · obtain rfl := Option.some.inj hx
        decide
  have hvalue : (digits 10 w : ℚ) = digitsValue w := by rw [digits_ten hw]
  rw [number_eq hsecond, significand, hten, htake, hdrop, ← hvalue]
  obtain (rfl | ⟨t', rfl⟩) | ⟨t', rfl⟩ := ht
  · simp [exponent]
  · simp [exponent]
  · simp [exponent, digits]

theorem wcstod_digits {w : List Char} (hne : w ≠ []) (hw : ∀ c ∈ w, c.isDigit) {t : List Char}
    (ht : NumberEnds t) : wcstod (w ++ t) = digitsValue w ∧
      wcstod ('-' :: (w ++ t)) = -1 * digitsValue w := by
  have hnumber := number_digits hne hw ht
  constructor
  · have hsigned : signed (w ++ t) = (1, w ++ t) := by
      obtain ⟨c, v, rfl⟩ := List.exists_cons_of_ne_nil hne
      have hc : c.isDigit := hw c List.mem_cons_self
      rw [signed, List.cons_append, List.dropWhile_cons,
        if_neg (by simp [isWhitespace_of_isDigit hc])]
      split
      · next heq => exact absurd ((List.cons.inj heq).1 ▸ hc) (by decide)
      · next heq => exact absurd ((List.cons.inj heq).1 ▸ hc) (by decide)
      · rfl
    rw [wcstod, hsigned, hnumber, one_mul]
  · have hsigned : signed ('-' :: (w ++ t)) = (-1, w ++ t) := rfl
    rw [wcstod, hsigned, hnumber]

def Lexeme.isOperand : Lexeme → Bool
  | .index _ => true
  | .literal _ => true
  | .operator c => c = 'X'
  | .condition _ => false

/-- The operands that the scan finds. -/
def operands (text : List Char) : List Lexeme := (scan .lexeme text).filter Lexeme.isOperand

theorem operands_blanks (n : ℕ) (r : List Char) :
    operands (List.replicate n ' ' ++ r) = operands r := by
  induction n with
  | zero => rfl
  | succ n ih => exact ih

theorem scan_blank_append {w : List Char} (hw : ' ' ∉ w) (r : List Char) :
    scan .blank (w ++ r) = scan .blank r := by
  induction w with
  | nil => rfl
  | cons c w ih =>
    rw [List.mem_cons, not_or] at hw
    rw [List.cons_append, scan, if_neg (Ne.symm hw.1), ih hw.2]

theorem filter_scan_blank {r : List Char} (hr : Boundary r) :
    (scan .blank r).filter Lexeme.isOperand = operands r := by
  obtain rfl | ⟨r', rfl⟩ := hr
  · rfl
  · rfl

theorem takeWhile_boundary {w : List Char} (hw : ' ' ∉ w) {r : List Char} (hr : Boundary r) :
    (w ++ r).takeWhile (· ≠ ' ') = w := by
  have hpos : ∀ c ∈ w, decide (c ≠ ' ') = true := by
    intro c hc
    simpa using fun h : c = ' ' => hw (h ▸ hc)
  rw [List.takeWhile_append_of_pos hpos]
  obtain rfl | ⟨r', rfl⟩ := hr <;> simp

/-- A token that starts with a digit is an index. -/
theorem operands_index {w : List Char} (hw : ' ' ∉ w) {c : Char} (hc : c.isDigit) {r : List Char}
    (hr : Boundary r) : operands (c :: w ++ r) = .index (c :: w) :: operands r := by
  rw [operands, List.cons_append, scan, if_pos hc, takeWhile_boundary hw hr,
    scan_blank_append hw, List.filter_cons_of_pos rfl, filter_scan_blank hr]

theorem operands_literal {w : List Char} (hw : ' ' ∉ w) {r : List Char} (hr : Boundary r) :
    operands ('#' :: (w ++ r)) = .literal (wcstod (w ++ r)) :: operands r := by
  rw [operands, scan, if_neg (by decide), if_pos rfl, scan_blank_append hw,
    List.filter_cons_of_pos rfl, filter_scan_blank hr]

def Literal.lexemes (l : Literal) : List Lexeme :=
  if l.Old then
    .operator 'X' ::
      match l.whole.drop 5, l.fraction with
      | [], none => []
      | [], some f => [.literal (digitsValue f)]
      | c :: w, _ => [.index (c :: w ++ l.markedFraction)]
  else [.literal (l.factor * digitsValue l.whole)]

theorem blank_not_mem_markedFraction (l : Literal) : ' ' ∉ l.markedFraction := by
  cases hf : l.fraction with
  | none => simp [Literal.markedFraction, hf]
  | some f =>
    simpa [Literal.markedFraction, hf] using
      not_mem_of_digits (l.fraction_digits f hf).2 (by decide)

theorem operands_replaced (l : Literal) {r : List Char} (hr : Boundary r) :
    operands (l.replaced ++ r) = l.lexemes ++ operands r := by
  have hblank : ' ' ∉ l.whole ++ l.markedFraction := by
    simpa [blank_not_mem_markedFraction l] using not_mem_of_digits l.whole_digits (by decide)
  have hends := numberEnds_markedFraction l hr
  have hvalue := wcstod_digits l.whole_ne l.whole_digits hends
  by_cases hold : l.Old
  · have hnodata : ∀ t, operands ('X' :: t) = .operator 'X' :: operands t := fun _ => rfl
    have hpoint : ∀ t, operands ('.' :: t) = operands t := fun _ => rfl
    rw [Literal.replaced, if_pos hold, Literal.lexemes, if_pos hold, List.cons_append, hnodata]
    cases hd : l.whole.drop 5 with
    | nil =>
      cases hf : l.fraction with
      | none => simp [Literal.markedFraction, hf]
      | some f =>
        have hdigits := l.fraction_digits f hf
        have hfv := wcstod_digits hdigits.1 hdigits.2 (Or.inl hr)
        have hlit := operands_literal (not_mem_of_digits hdigits.2 (by decide)) hr
        rw [hfv.1] at hlit
        simpa [Literal.markedFraction, hf, hpoint] using hlit
    | cons c w =>
      have hmem : ∀ x ∈ c :: w, x ∈ l.whole := fun x hx => List.mem_of_mem_drop (hd ▸ hx)
      have hw : ' ' ∉ w ++ l.markedFraction := by
        rw [List.mem_append, not_or] at hblank ⊢
        exact ⟨fun h => hblank.1 (hmem _ (List.mem_cons_of_mem c h)), hblank.2⟩
      have hindex := operands_index hw (l.whole_digits c (hmem c List.mem_cons_self)) hr
      simpa using hindex
  · rw [Literal.replaced, if_neg hold, Literal.lexemes, if_neg hold]
    cases hs : l.sign with
    | none =>
      have hlit := operands_literal hblank hr
      rw [List.append_assoc, hvalue.1] at hlit
      simpa [Literal.marked, Literal.factor, hs] using hlit
    | plus =>
      have hplus : ∀ t, operands ('+' :: t) = operands t := fun _ => rfl
      have hlit := operands_literal hblank hr
      rw [List.append_assoc, hvalue.1] at hlit
      simpa [Literal.marked, Literal.factor, hs, hplus] using hlit
    | minus =>
      have hminus : ' ' ∉ '-' :: (l.whole ++ l.markedFraction) := by simpa using hblank
      have hlit := operands_literal hminus hr
      rw [List.cons_append, List.append_assoc, hvalue.2] at hlit
      simpa [Literal.marked, Literal.factor, hs] using hlit

def Operator.lexemes (o : Operator) : List Lexeme := if o = .nodata then [.operator 'X'] else []

def Compiled.lexemes : Compiled → List Lexeme
  | index tp => [.index (Nat.toDigits 10 tp.virtualBaseInd)]
  | literal l => l.lexemes
  | operator o => o.lexemes

theorem operands_compiled (c : Compiled) {r : List Char} (hr : Boundary r) :
    operands (replaceNodata 0 c.text ++ r) = c.lexemes ++ operands r := by
  cases c with
  | index tp =>
    have hdigits : ∀ c ∈ Nat.toDigits 10 tp.virtualBaseInd, c.isDigit :=
      fun c hc => Nat.isDigit_of_mem_toDigits (by decide) (by decide) hc
    have hcopy := replaceNodata_copy (not_mem_of_digits hdigits (c := '#') (by decide)) []
    rw [List.append_nil] at hcopy
    obtain ⟨d, w, hw⟩ := List.exists_cons_of_ne_nil (Nat.toDigits_ne_nil (n := tp.virtualBaseInd)
      (b := 10))
    have hblank := not_mem_of_digits hdigits (c := ' ') (by decide)
    rw [Compiled.text, hcopy, Compiled.lexemes]
    rw [hw] at hdigits hblank ⊢
    rw [List.mem_cons, not_or] at hblank
    simpa [replaceNodata] using operands_index hblank.2 (hdigits d List.mem_cons_self) hr
  | literal l =>
    rw [Compiled.text, replaceNodata_marked, operands_replaced l hr]
    rfl
  | operator o => cases o <;> rfl

theorem operands_spaced {cs : List (Compiled × ℕ)} (h : Spaced cs) :
    operands (replaceNodata 0 (spacedText Compiled.text cs)) =
      cs.flatMap fun c => c.1.lexemes := by
  induction cs with
  | nil => rfl
  | cons q cs ih =>
    obtain ⟨c, n⟩ := q
    have hr : Boundary (List.replicate n ' ' ++ spacedText Compiled.text cs) := Spaced.boundary h.1
    have hblanks : replaceNodata 0 (List.replicate n ' ' ++ spacedText Compiled.text cs) =
        List.replicate n ' ' ++ replaceNodata 0 (spacedText Compiled.text cs) :=
      replaceNodata_copy (by simp) _
    have hr' : Boundary (replaceNodata 0 (List.replicate n ' ' ++ spacedText Compiled.text cs)) := by
      obtain hr | ⟨r', hr⟩ := hr
      · exact .inl (by rw [hr]; rfl)
      · exact .inr ⟨replaceNodata 0 r', by rw [hr]; rfl⟩
    rw [spacedText, replaceNodata_append _ hr (Nat.zero_le _), operands_compiled c hr', hblanks,
      operands_blanks, ih h.2, List.flatMap_cons]

end DrawFormula
end Ipk
end Szarp
