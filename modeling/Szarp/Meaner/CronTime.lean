import Mathlib.Data.Int.Notation
import Mathlib.Data.List.Basic
import Mathlib.Data.List.TakeWhile
import Mathlib.Tactic.Common
import Mathlib.Tactic.Linarith
import Szarp.Lib.PyText

/-!
# Times of executed sections

`parse_cron_time` makes a mask of one field of a description in the style of crontab: a star, or
numbers and ranges behind each other. An automaton reads it.
-/

namespace Szarp
namespace Meaner
namespace CronTime

inductive PtAutoStates where
  | start
  | digit
  | comma
  | period
  | all
deriving DecidableEq

structure Automaton where
  state : PtAutoStates
  bits : BitVec 32
  n : ℤ
  m : ℤ

/-- What a character leads to. `overflow`: the number is no `int`, and the language says nothing. -/
inductive Pass where
  | next (a : Automaton)
  | done (bits : BitVec 32)
  | error
  | overflow

def digitValue (c : Char) : ℤ := (c.toNat - '0'.toNat : ℕ)

/-- `1 << i` -/
def bit (i : ℤ) : BitVec 32 := BitVec.twoPow 32 i.toNat

/-- The loop that marks the bits from `i` on, as many as it is told. -/
def markBits (bits : BitVec 32) (i : ℤ) : ℕ → BitVec 32
  | 0 => bits
  | k + 1 => markBits (bits ||| bit i) (i + 1) k

section Parser

variable (max min : ℤ) (minutes : Bool)

/-- `if (minutes) v = v / 10` -/
def scaled (v : ℤ) : ℤ := if minutes then v.tdiv 10 else v

/-- `n * 10 + d`, as long as that is an `int`. -/
def more (n d : ℤ) (next : ℤ → Automaton) : Pass :=
  if n * 10 + d < 2 ^ 31 then .next (next (n * 10 + d)) else .overflow

def number (a : Automaton) (next : ℤ → Pass) : Pass :=
  let n := scaled minutes a.n
  if n < min then .error else if n > max then .error else next n

/-- The end of a range in front of a comma or the end. -/
def period (a : Automaton) (next : Automaton → Pass) : Pass :=
  let m := scaled minutes a.m
  if m < min then .error
  else if m > max then .error
  else if a.n > m then .error
  else next { a with m := m, bits := markBits a.bits (a.n - min) (m - a.n).toNat }

def pass (c : Option Char) (a : Automaton) : Pass :=
  match a.state, c with
  | .start, none => .done a.bits
  | .start, some '*' =>
    .next { a with state := .all, bits := markBits a.bits 0 (max - min + 1).toNat }
  | .start, some c =>
    if c.isDigit then .next { a with state := .digit, n := digitValue c } else .error
  | .all, none => .done a.bits
  | .all, some _ => .error
  | .digit, none => number max min minutes a fun n => .done (a.bits ||| bit (n - min))
  | .digit, some ',' => number max min minutes a fun n =>
      .next { a with state := .comma, n := n, bits := a.bits ||| bit (n - min) }
  | .digit, some '-' => number max min minutes a fun n =>
      .next { a with state := .period, n := n, m := -1 }
  | .digit, some c =>
    if c.isDigit then more a.n (digitValue c) fun n => { a with n := n } else .error
  | .comma, none => .error
  | .comma, some c =>
    if c.isDigit then .next { a with state := .digit, n := digitValue c } else .error
  | .period, none => period max min minutes a fun a => .done a.bits
  | .period, some ',' => period max min minutes a .next
  | .period, some c =>
    if c.isDigit then
      if a.m < 0 then .next { a with m := digitValue c }
      else more a.m (digitValue c) fun m => { a with m := m }
    else .error

/-- The loop: the mask, or `none` for an error; `none` as a result is an overflow. Every state ends
at the end of the string. -/
def parseLoop (a : Automaton) : List Char → Option (Option (BitVec 32))
  | [] =>
    match pass max min minutes none a with
    | .done bits => some (some bits)
    | .error => some none
    | _ => none
  | c :: string =>
    match pass max min minutes (some c) a with
    | .next a => parseLoop a string
    | .done bits => some (some bits)
    | .error => some none
    | .overflow => none

def parseCronTime (string : List Char) (mask : BitVec 32) : Option (ℤ × BitVec 32) :=
  (parseLoop max min minutes ⟨.start, 0, 0, 0⟩ string).map fun
    | some bits => (0, bits)
    | none => (1, mask)

/-! ## What a description lists -/

def digits (n : ℤ) (text : List Char) : ℤ := text.foldl (fun n c => n * 10 + digitValue c) n

def cronNumber (text : List Char) : Option ℤ :=
  let v := scaled minutes (digits 0 text)
  if text ≠ [] ∧ text.all Char.isDigit ∧ min ≤ v ∧ v ≤ max then some v else none

/-- The numbers from `n` to `m`. -/
def interval (n m : ℤ) : List ℤ := (List.range (m + 1 - n).toNat).map fun i : ℕ => n + i

/-- A number, or a range with both ends. -/
def cronElement (text : List Char) : Option (List ℤ) :=
  match text.splitOn '-' with
  | [n] => (cronNumber max min minutes n).map fun n => [n]
  | [n, m] =>
    (cronNumber max min minutes n).bind fun n => (cronNumber max min minutes m).bind fun m =>
      if n ≤ m then some (interval n m) else none
  | _ => none

/-- A star, nothing, or elements with commas between them. -/
def cronValues (string : List Char) : Option (List ℤ) :=
  if string = ['*'] then some (interval min max)
  else if string = [] then some []
  else ((string.splitOn ',').mapM (cronElement max min minutes)).map List.flatten

/-- The mask has the bits of these values. -/
def Marks (bits : BitVec 32) (vals : List ℤ) : Prop :=
  ∀ i : ℕ, bits.getLsbD i = decide (min + i ∈ vals)

/-- Exactly the descriptions are accepted, with the bits of the values that they list, and an error
leaves the mask. -/
def Exact (string : List Char) : Prop :=
  ∀ mask, ∃ r mask', parseCronTime max min minutes string mask = some (r, mask') ∧
    (r = 0 ↔ (cronValues max min minutes string).isSome) ∧ (r ≠ 0 → mask' = mask) ∧
    ∀ vals, cronValues max min minutes string = some vals → Marks min mask' vals

/-! ## Where it goes wrong -/

/-- The ends of a range when each comma closes it and the digits behind the comma are written on the
end. -/
def ends (m : ℤ) : List (List Char) → List ℤ
  | [] => []
  | text :: fields =>
    scaled minutes (digits m text) :: ends (scaled minutes (digits m text)) fields

/-- These numbers are read up to an error, and each is an `int`. -/
def Fits (n m : ℤ) : List (List Char) → Prop
  | [] => True
  | text :: fields =>
    digits m (text.takeWhile Char.isDigit) < 2 ^ 31 ∧
      (text.all Char.isDigit → n ≤ scaled minutes (digits m text) →
        scaled minutes (digits m text) ≤ max → Fits n (scaled minutes (digits m text)) fields)

/-- Only digits are found behind the dash and the commas, and all ends are inside. -/
def Closes (n m : ℤ) (fields : List (List Char)) : Prop :=
  (∀ text ∈ fields, text.all Char.isDigit) ∧ ∀ e ∈ ends minutes m fields, n ≤ e ∧ e ≤ max

/-- The first range, from `n` on, does no harm: the fields from there on are no elements and do not
close it, or they close it and list, with the values `vals` in front of it, the same values as the
range without its ends. -/
def Harmless (vals : List ℤ) (n : ℤ) (range behind : List Char) (fields : List (List Char)) : Prop :=
  let closes := (behind ≠ [] ∨ minutes) ∧ Closes max minutes n 0 (behind :: fields)
  let elements := (range :: fields).mapM (cronElement max min minutes)
  (behind ≠ [] ∨ minutes → Fits max minutes n 0 (behind :: fields)) ∧
    (elements = none → ¬ closes) ∧
    ∀ listed, elements = some listed → closes ∧ ∀ v, v ∈ vals ∨ v ∈ listed.flatten ↔
      v ∈ vals ∨ ∃ e ∈ ends minutes 0 (behind :: fields), n ≤ v ∧ v < e

/-- The numbers up to the first range or error are `int`s, and that range does no harm. -/
def Careful (vals : List ℤ) : List (List Char) → Prop
  | [] => True
  | text :: fields =>
    let n := digits 0 (text.takeWhile Char.isDigit)
    text.takeWhile Char.isDigit ≠ [] → n < 2 ^ 31 ∧
      (min ≤ scaled minutes n → scaled minutes n ≤ max →
        match text.dropWhile Char.isDigit with
        | [] => Careful (scaled minutes n :: vals) fields
        | '-' :: behind => Harmless max min minutes vals (scaled minutes n) text behind fields
        | _ => True)

/-! ## Numbers -/

theorem digitValue_nonneg (c : Char) : 0 ≤ digitValue c := Int.natCast_nonneg _

theorem digitValue_lt {c : Char} (hc : c.isDigit) : digitValue c < 10 := by
  have hle : c.toNat ≤ 57 := (Char.isDigit_iff_toNat.mp hc).2
  have hzero : '0'.toNat = 48 := rfl
  rw [digitValue, hzero]
  omega

theorem le_digits {n : ℤ} (hn : 0 ≤ n) (text : List Char) : n ≤ digits n text := by
  induction text generalizing n with
  | nil => exact le_refl n
  | cons c text ih =>
    have hc := digitValue_nonneg c
    have hle := ih (n := n * 10 + digitValue c) (by omega)
    rw [digits, List.foldl_cons]
    rw [digits] at hle
    omega

theorem digits_cons (n : ℤ) (c : Char) (text : List Char) :
    digits n (c :: text) = digits (n * 10 + digitValue c) text := rfl

theorem scaled_nonneg {v : ℤ} (hv : 0 ≤ v) : 0 ≤ scaled minutes v := by
  rw [scaled]
  split_ifs
  · exact Int.tdiv_nonneg hv (by decide)
  · exact hv

theorem scaled_le {v : ℤ} (hv : 0 ≤ v) : scaled minutes v ≤ v := by
  rw [scaled]
  split_ifs
  · rw [Int.tdiv_eq_ediv_of_nonneg hv]
    omega
  · exact le_refl v

theorem markBits_getLsbD (bits : BitVec 32) (i : ℤ) (k : ℕ) (hi : 0 ≤ i) (hk : i + k ≤ 32)
    (j : ℕ) :
    (markBits bits i k).getLsbD j = (bits.getLsbD j || decide (i ≤ j ∧ (j : ℤ) < i + k)) := by
  induction k generalizing bits i with
  | zero =>
    rw [markBits, decide_eq_false (by omega), Bool.or_false]
  | succ k ih =>
    rw [markBits, ih _ (i + 1) (by omega) (by omega), BitVec.getLsbD_or, bit,
      BitVec.getLsbD_twoPow, Bool.or_assoc]
    congr 1
    rw [decide_eq_true (by omega : i.toNat < 32), Bool.true_and, ← Bool.decide_or]
    apply decide_eq_decide.mpr
    omega

/-! ## Runs over digits -/

theorem isDigit_ne {c d : Char} (hc : c.isDigit) (hd : d.isDigit = false) : c ≠ d := by
  rintro rfl
  rw [hc] at hd
  exact Bool.noConfusion hd

attribute [local simp] pass

theorem pass_start (a : Automaton) (hstate : a.state = .start ∨ a.state = .comma) {c : Char}
    (hc : c.isDigit) : pass max min minutes (some c) a =
      .next { a with state := .digit, n := digitValue c } := by
  have hstar : c ≠ '*' := isDigit_ne hc (by decide)
  rcases hstate with h | h
  · simp [pass, h, hc]
  · simp [pass, h, hc]

theorem pass_digit (bits : BitVec 32) (n m : ℤ) {c : Char} (hc : c.isDigit) :
    pass max min minutes (some c) ⟨.digit, bits, n, m⟩ =
      more n (digitValue c) fun n => ⟨.digit, bits, n, m⟩ := by
  have hcomma : c ≠ ',' := isDigit_ne hc (by decide)
  have hdash : c ≠ '-' := isDigit_ne hc (by decide)
  simp [pass, hc]

theorem pass_period (bits : BitVec 32) (n m : ℤ) {c : Char} (hc : c.isDigit) :
    pass max min minutes (some c) ⟨.period, bits, n, m⟩ =
      if m < 0 then .next ⟨.period, bits, n, digitValue c⟩
      else more m (digitValue c) fun m => ⟨.period, bits, n, m⟩ := by
  have hcomma : c ≠ ',' := isDigit_ne hc (by decide)
  simp [pass, hc]

theorem parseLoop_digits (bits : BitVec 32) (m : ℤ) {n : ℤ} (hn : 0 ≤ n) {text : List Char}
    (htext : ∀ c ∈ text, c.isDigit) (rest : List Char) :
    (digits n text < 2 ^ 31 → parseLoop max min minutes ⟨.digit, bits, n, m⟩ (text ++ rest) =
      parseLoop max min minutes ⟨.digit, bits, digits n text, m⟩ rest) ∧
    (n < 2 ^ 31 → ¬ digits n text < 2 ^ 31 →
      parseLoop max min minutes ⟨.digit, bits, n, m⟩ (text ++ rest) = none) := by
  induction text generalizing n with
  | nil => exact ⟨fun _ => rfl, fun hlt hnot => absurd hlt hnot⟩
  | cons c text ih =>
    have hc := digitValue_nonneg c
    have hn' : 0 ≤ n * 10 + digitValue c := by omega
    have hle := le_digits hn' text
    obtain ⟨hfits, hnot⟩ := ih hn' fun d hd => htext d (List.mem_cons_of_mem c hd)
    rw [digits_cons, List.cons_append, parseLoop,
      pass_digit max min minutes _ _ _ (htext c List.mem_cons_self), more]
    constructor
    · intro h
      rw [if_pos (by omega)]
      exact hfits h
    · intro _ h
      split_ifs with hlt
      · exact hnot hlt h
      · rfl

theorem parseLoop_range (bits : BitVec 32) (n : ℤ) {m : ℤ} (hm : 0 ≤ m) {text : List Char}
    (htext : ∀ c ∈ text, c.isDigit) (rest : List Char) :
    (digits m text < 2 ^ 31 → parseLoop max min minutes ⟨.period, bits, n, m⟩ (text ++ rest) =
      parseLoop max min minutes ⟨.period, bits, n, digits m text⟩ rest) ∧
    (m < 2 ^ 31 → ¬ digits m text < 2 ^ 31 →
      parseLoop max min minutes ⟨.period, bits, n, m⟩ (text ++ rest) = none) := by
  induction text generalizing m with
  | nil => exact ⟨fun _ => rfl, fun hlt hnot => absurd hlt hnot⟩
  | cons c text ih =>
    have hc := digitValue_nonneg c
    have hm' : 0 ≤ m * 10 + digitValue c := by omega
    have hle := le_digits hm' text
    obtain ⟨hfits, hnot⟩ := ih hm' fun d hd => htext d (List.mem_cons_of_mem c hd)
    rw [digits_cons, List.cons_append, parseLoop,
      pass_period max min minutes _ _ _ (htext c List.mem_cons_self), if_neg (by omega), more]
    constructor
    · intro h
      rw [if_pos (by omega)]
      exact hfits h
    · intro _ h
      split_ifs with hlt
      · exact hnot hlt h
      · rfl

/-! ## Ranges -/

/-- The text of the fields behind a field. -/
def joined : List (List Char) → List Char
  | [] => []
  | text :: fields => ',' :: (text ++ joined fields)

theorem period_eq (bits : BitVec 32) {n m : ℤ} (hmin : min ≤ n) (next : Automaton → Pass) :
    period max min minutes ⟨.period, bits, n, m⟩ next =
      if n ≤ scaled minutes m ∧ scaled minutes m ≤ max then
        next ⟨.period, markBits bits (n - min) (scaled minutes m - n).toNat, n, scaled minutes m⟩
      else .error := by
  rw [period]
  dsimp only
  split_ifs <;> first | rfl | omega

theorem number_eq (a : Automaton) (next : ℤ → Pass) :
    number max min minutes a next =
      if min ≤ scaled minutes a.n ∧ scaled minutes a.n ≤ max then next (scaled minutes a.n)
      else .error := by
  rw [number]
  split_ifs <;> first | rfl | omega

/-- The first character of a text that is no digit does not go on. -/
theorem pass_period_error {bits : BitVec 32} {n m : ℤ} {c : Char} (hc : ¬ c.isDigit)
    (hcomma : c ≠ ',') : pass max min minutes (some c) ⟨.period, bits, n, m⟩ = .error := by
  simp [pass, hc]

/-- A comma or the end closes a range. -/
theorem parseLoop_close (bits : BitVec 32) {n m : ℤ} (hmin : min ≤ n) (fields : List (List Char)) :
    parseLoop max min minutes ⟨.period, bits, n, m⟩ (joined fields) =
      if n ≤ scaled minutes m ∧ scaled minutes m ≤ max then
        match fields with
        | [] => some (some (markBits bits (n - min) (scaled minutes m - n).toNat))
        | text :: fields => parseLoop max min minutes ⟨.period, markBits bits (n - min)
            (scaled minutes m - n).toNat, n, scaled minutes m⟩ (text ++ joined fields)
      else some none := by
  have hend : pass max min minutes none ⟨.period, bits, n, m⟩ =
      period max min minutes ⟨.period, bits, n, m⟩ fun a => .done a.bits := rfl
  have hcomma : pass max min minutes (some ',') ⟨.period, bits, n, m⟩ =
      period max min minutes ⟨.period, bits, n, m⟩ .next := rfl
  cases fields with
  | nil =>
    rw [joined, parseLoop, hend, period_eq max min minutes bits hmin]
    split_ifs <;> rfl
  | cons text fields =>
    rw [joined, parseLoop, hcomma, period_eq max min minutes bits hmin]
    split_ifs <;> rfl

theorem closes_cons {n m : ℤ} {text : List Char} {fields : List (List Char)} :
    Closes max minutes n m (text :: fields) ↔ text.all Char.isDigit ∧
      (n ≤ scaled minutes (digits m text) ∧ scaled minutes (digits m text) ≤ max) ∧
      Closes max minutes n (scaled minutes (digits m text)) fields := by
  rw [Closes, Closes, List.forall_mem_cons, ends, List.forall_mem_cons]
  tauto

variable {max min minutes}

theorem takeWhile_of_all {text : List Char} (h : text.all Char.isDigit) :
    text.takeWhile Char.isDigit = text :=
  List.takeWhile_eq_self_iff.mpr fun c hc => List.all_eq_true.mp h c hc

theorem all_or_split (text : List Char) : text.all Char.isDigit ∨
    ∃ c t, ¬ c.isDigit ∧ text.takeWhile Char.isDigit ++ c :: t = text := by
  have htake := List.takeWhile_append_dropWhile (p := Char.isDigit) (l := text)
  cases hdrop : text.dropWhile Char.isDigit with
  | nil =>
    left
    exact List.all_eq_true.mpr fun c hc => List.dropWhile_eq_nil_iff.mp hdrop c hc
  | cons c t =>
    right
    refine ⟨c, t, fun hc => ?_, by rw [← hdrop, htake]⟩
    have hhead := List.head?_dropWhile_not Char.isDigit text
    rw [hdrop] at hhead
    simp [hc] at hhead

theorem fits_cons {n m : ℤ} {text : List Char} {fields : List (List Char)}
    (h : text.all Char.isDigit) :
    Fits max minutes n m (text :: fields) ↔ digits m text < 2 ^ 31 ∧
      (n ≤ scaled minutes (digits m text) ∧ scaled minutes (digits m text) ≤ max →
        Fits max minutes n (scaled minutes (digits m text)) fields) := by
  rw [Fits, takeWhile_of_all h]
  exact and_congr_right fun _ => ⟨fun hf hb => hf h hb.1 hb.2, fun hf _ h1 h2 => hf ⟨h1, h2⟩⟩

/-- The scan stops in front of a character that is no digit. -/
theorem parseLoop_range_error {n m : ℤ} (hm : 0 ≤ m) (hm' : m < 2 ^ 31) (bits : BitVec 32)
    {text t : List Char} {c : Char} (hc : ¬ c.isDigit) (hcomma : c ≠ ',')
    (hsplit : text.takeWhile Char.isDigit ++ c :: t = text) (fields : List (List Char)) :
    (¬ Fits max minutes n m (text :: fields) →
      parseLoop max min minutes ⟨.period, bits, n, m⟩ (text ++ joined fields) = none) ∧
    (Fits max minutes n m (text :: fields) →
      parseLoop max min minutes ⟨.period, bits, n, m⟩ (text ++ joined fields) = some none) ∧
    ¬ Closes max minutes n m (text :: fields) := by
  have hall : ¬ text.all Char.isDigit := by
    intro h
    apply hc
    apply List.all_eq_true.mp h
    rw [← hsplit]
    simp
  have hfits : Fits max minutes n m (text :: fields) ↔
      digits m (text.takeWhile Char.isDigit) < 2 ^ 31 := by
    rw [Fits]
    exact and_iff_left fun h => absurd h hall
  have hdigits : ∀ c ∈ text.takeWhile Char.isDigit, c.isDigit := fun c h => List.mem_takeWhile_imp h
  have htext : text ++ joined fields =
      text.takeWhile Char.isDigit ++ c :: (t ++ joined fields) := by
    rw [← List.cons_append, ← List.append_assoc, hsplit]
  obtain ⟨hrun, hover⟩ := parseLoop_range max min minutes bits n hm hdigits
    (c :: (t ++ joined fields))
  rw [hfits, htext]
  refine ⟨hover hm', fun h => ?_, fun h => hall (closes_cons max minutes |>.mp h).1⟩
  rw [hrun h, parseLoop, pass_period_error max min minutes hc hcomma]

theorem parseLoop_period {n : ℤ} (hmin : min ≤ n) (hmax : max - min < 32) (text : List Char)
    (fields : List (List Char)) (htext : ∀ t ∈ text :: fields, ',' ∉ t) {m : ℤ} (hm : 0 ≤ m)
    (hm' : m < 2 ^ 31) (bits : BitVec 32) :
    (¬ Fits max minutes n m (text :: fields) →
      parseLoop max min minutes ⟨.period, bits, n, m⟩ (text ++ joined fields) = none) ∧
    (Fits max minutes n m (text :: fields) → ¬ Closes max minutes n m (text :: fields) →
      parseLoop max min minutes ⟨.period, bits, n, m⟩ (text ++ joined fields) = some none) ∧
    (Fits max minutes n m (text :: fields) → Closes max minutes n m (text :: fields) →
      ∃ bits', parseLoop max min minutes ⟨.period, bits, n, m⟩ (text ++ joined fields) =
          some (some bits') ∧
        ∀ j : ℕ, bits'.getLsbD j = (bits.getLsbD j ||
          decide (∃ e ∈ ends minutes m (text :: fields), n ≤ min + j ∧ min + j < e))) := by
  rcases all_or_split text with hall | ⟨c, t, hc, hsplit⟩
  · have hD := le_digits hm text
    have he := scaled_nonneg minutes (v := digits m text) (by omega)
    have he' := scaled_le minutes (v := digits m text) (by omega)
    obtain ⟨hrun, hover⟩ := parseLoop_range max min minutes bits n hm
      (fun c hc => List.all_eq_true.mp hall c hc) (joined fields)
    rw [fits_cons hall, closes_cons]
    by_cases hfits : digits m text < 2 ^ 31
    · rw [hrun hfits, parseLoop_close max min minutes bits hmin]
      generalize hend : scaled minutes (digits m text) = e at he he'
      by_cases hclose : n ≤ e ∧ e ≤ max
      · have hmark := markBits_getLsbD bits (n - min) (e - n).toNat (by omega) (by omega)
        rw [if_pos hclose, ends, hend]
        cases fields with
        | nil =>
          refine ⟨fun h => absurd ⟨hfits, fun _ => trivial⟩ h, fun _ h => ?_, fun _ _ => ?_⟩
          · exact absurd ⟨hall, hclose, by simp [Closes, ends]⟩ h
          · refine ⟨_, rfl, fun j => ?_⟩
            rw [hmark j]
            congr 1
            apply decide_eq_decide.mpr
            rw [ends, List.exists_mem_cons_iff]
            simp only [List.not_mem_nil, false_and, exists_false, or_false]
            omega
        -- behind the comma a range may be closed once more, from the number that is there
        | cons behind fields =>
          obtain ⟨h1, h2, h3⟩ := parseLoop_period hmin hmax behind fields
            (fun t ht => htext t (List.mem_cons_of_mem _ ht))
            he (by omega) (markBits bits (n - min) (e - n).toNat)
          refine ⟨fun h => h1 fun hf => h ⟨hfits, fun _ => hf⟩, fun hf h => ?_, fun hf h => ?_⟩
          · exact h2 (hf.2 hclose) fun hc => h ⟨hall, hclose, hc⟩
          · obtain ⟨bits', hok, hbits⟩ := h3 (hf.2 hclose) h.2.2
            refine ⟨bits', hok, fun j => ?_⟩
            rw [hbits j, hmark j, Bool.or_assoc, ← Bool.decide_or]
            congr 1
            apply decide_eq_decide.mpr
            rw [List.exists_mem_cons_iff]
            apply or_congr_left
            omega
      -- a range whose end is not inside is an error
      · rw [if_neg hclose]
        refine ⟨fun h => absurd ⟨hfits, fun hc => absurd hc hclose⟩ h, fun _ _ => rfl, fun _ h => ?_⟩
        exact absurd h.2.1 hclose
    · exact ⟨fun _ => hover hm' hfits, fun h => absurd h.1 hfits, fun h => absurd h.1 hfits⟩
  -- a character that is neither a digit nor a comma is an error behind the dash
  · have hcomma : c ≠ ',' := by
      rintro rfl
      exact htext text List.mem_cons_self (by rw [← hsplit]; simp)
    obtain ⟨h1, h2, h3⟩ := parseLoop_range_error hm hm' bits hc hcomma hsplit fields
    exact ⟨h1, fun hf _ => h2 hf, fun _ hclose => absurd hclose h3⟩
termination_by fields.length

/-- Nothing behind the dash counts as zero when minutes are read, and is an error otherwise. -/
theorem parseLoop_behind (hmin : 0 ≤ min) {n : ℤ} (hn : min ≤ n) (bits : BitVec 32)
    {behind : List Char} (hcomma : ',' ∉ behind) (fields : List (List Char)) :
    parseLoop max min minutes ⟨.period, bits, n, -1⟩ (behind ++ joined fields) =
      if behind ≠ [] ∨ minutes then
        parseLoop max min minutes ⟨.period, bits, n, 0⟩ (behind ++ joined fields)
      else some none := by
  cases behind with
  | nil =>
    rw [List.nil_append, parseLoop_close max min minutes bits hn,
      parseLoop_close max min minutes bits hn]
    cases minutes with
    | true =>
      have hzero : scaled true (-1) = scaled true 0 := rfl
      rw [hzero, if_pos (Or.inr rfl)]
    | false =>
      have hneg : scaled false (-1) = -1 := rfl
      have hno : ¬ (n ≤ -1 ∧ -1 ≤ max) := by omega
      have hnil : ¬ (([] : List Char) ≠ [] ∨ false = true) := by simp
      rw [hneg, if_neg hno, if_neg hnil]
  | cons c behind =>
    rw [if_pos (Or.inl (List.cons_ne_nil _ _)), List.cons_append, parseLoop, parseLoop]
    by_cases hc : c.isDigit
    · have hlt : (0 : ℤ) * 10 + digitValue c < 2 ^ 31 := by
        rw [zero_mul, zero_add]
        exact lt_trans (digitValue_lt hc) (by norm_num)
      rw [pass_period max min minutes _ _ _ hc, pass_period max min minutes _ _ _ hc,
        if_pos (by decide), if_neg (by decide), more, if_pos hlt, zero_mul, zero_add]
    · have hne : c ≠ ',' := by
        rintro rfl
        exact hcomma List.mem_cons_self
      rw [pass_period_error max min minutes hc hne, pass_period_error max min minutes hc hne]

/-! ## Elements -/

variable (max min minutes)

theorem cronElement_eq_none {text : List Char}
    (h : cronNumber max min minutes (text.takeWhile (· ≠ '-')) = none) :
    cronElement max min minutes text = none := by
  by_cases hdash : '-' ∈ text
  · obtain ⟨a, b, rfl, ha⟩ := List.eq_append_cons_of_mem hdash
    rw [PyText.takeWhile_ne_append ha] at h
    rw [cronElement, List.splitOn_append_cons_self_of_not_mem ha]
    have hne := List.splitOn_ne_nil '-' b
    split
    · rename_i heq
      exact absurd (List.cons.inj heq).2 hne
    · rename_i heq
      rw [← (List.cons.inj heq).1, h]
      rfl
    · rfl
  · have htake : text.takeWhile (· ≠ '-') = text :=
      List.takeWhile_eq_self_iff.mpr fun c hc => by simpa using ne_of_mem_of_not_mem hc hdash
    rw [htake] at h
    rw [cronElement, List.splitOn_eq_singleton hdash]
    dsimp only
    rw [h]
    rfl

/-- What is no number in front of a dash is no element. -/
theorem cronNumber_eq_none {text : List Char} {c : Char} (hc : c ∈ text) (hdigit : ¬ c.isDigit) :
    cronNumber max min minutes text = none := by
  rw [cronNumber]
  apply if_neg
  rintro ⟨-, hall, -⟩
  exact hdigit (List.all_eq_true.mp hall c hc)

theorem dash_not_mem {text : List Char} (h : ∀ c ∈ text, c.isDigit) : '-' ∉ text :=
  fun hmem => absurd (h '-' hmem) (by decide)

theorem cronElement_digits {text : List Char} (h : ∀ c ∈ text, c.isDigit) :
    cronElement max min minutes text = (cronNumber max min minutes text).map fun n => [n] := by
  rw [cronElement, List.splitOn_eq_singleton (dash_not_mem h)]

theorem min_le_cronNumber {text : List Char} {n : ℤ}
    (h : cronNumber max min minutes text = some n) : min ≤ n := by
  rw [cronNumber] at h
  split_ifs at h with hn
  obtain rfl := Option.some.inj h
  exact hn.2.2.1

theorem min_le_of_mem_cronElement {text : List Char} {listed : List ℤ}
    (h : cronElement max min minutes text = some listed) {v : ℤ} (hv : v ∈ listed) : min ≤ v := by
  rw [cronElement] at h
  split at h
  · obtain ⟨n, hn, rfl⟩ := Option.map_eq_some_iff.mp h
    rw [List.mem_singleton.mp hv]
    exact min_le_cronNumber max min minutes hn
  · obtain ⟨n, hn, h⟩ := Option.bind_eq_some_iff.mp h
    obtain ⟨m, hm, h⟩ := Option.bind_eq_some_iff.mp h
    split_ifs at h
    obtain rfl := Option.some.inj h
    obtain ⟨i, -, rfl⟩ := List.mem_map.mp hv
    have hle := min_le_cronNumber max min minutes hn
    omega
  · exact absurd h (by simp)

theorem min_le_of_mem_listed {fields : List (List Char)} {listed : List (List ℤ)}
    (h : fields.mapM (cronElement max min minutes) = some listed) {v : ℤ}
    (hv : v ∈ listed.flatten) : min ≤ v := by
  induction fields generalizing listed with
  | nil =>
    obtain rfl : [] = listed := by simpa using h
    exact absurd hv (by simp)
  | cons text fields ih =>
    rw [List.mapM_cons] at h
    obtain ⟨vals, hvals, h⟩ := Option.bind_eq_some_iff.mp h
    obtain ⟨rest, hrest, h⟩ := Option.bind_eq_some_iff.mp h
    obtain rfl : vals :: rest = listed := by simpa using h
    rcases List.mem_append.mp hv with hv | hv
    · exact min_le_of_mem_cronElement max min minutes hvals hv
    · exact ih hrest hv

/-! ## Agreement -/

/-- The result for fields behind each other, when `vals` are the values in front of them. -/
def Right (vals : List ℤ) (fields : List (List Char)) (r : Option (Option (BitVec 32))) : Prop :=
  match fields.mapM (cronElement max min minutes) with
  | none => r = some none
  | some listed => ∃ bits, r = some (some bits) ∧ Marks min bits (vals ++ listed.flatten)

theorem marks_congr {bits : BitVec 32} {vals vals' : List ℤ} (h : ∀ v, v ∈ vals ↔ v ∈ vals') :
    Marks min bits vals ↔ Marks min bits vals' := by
  simp only [Marks, h]

theorem right_cons {vals : List ℤ} {n : ℤ} {text : List Char} {fields : List (List Char)}
    {r : Option (Option (BitVec 32))} (h : cronElement max min minutes text = some [n]) :
    Right max min minutes vals (text :: fields) r ↔
      Right max min minutes (n :: vals) fields r := by
  rw [Right, Right, List.mapM_cons, h]
  cases fields.mapM (cronElement max min minutes) with
  | none => exact Iff.rfl
  | some listed =>
    apply exists_congr
    intro bits
    apply and_congr_right
    intro _
    apply marks_congr
    intro v
    simp [or_left_comm]

theorem right_of_none {vals : List ℤ} {text : List Char} {fields : List (List Char)}
    (h : cronElement max min minutes text = none) :
    Right max min minutes vals (text :: fields) (some none) := by
  rw [Right, List.mapM_cons, h]
  rfl

variable {max min minutes}

/-- Behind the dash of the first range. -/
theorem right_iff_harmless (hmin : 0 ≤ min) (hmax : max - min < 32) {n : ℤ} (hn : min ≤ n)
    {bits : BitVec 32} {vals : List ℤ} (hbits : Marks min bits vals) (hvals : ∀ v ∈ vals, min ≤ v)
    (text behind : List Char) (fields : List (List Char)) (hcomma : ∀ t ∈ behind :: fields, ',' ∉ t) :
    Right max min minutes vals (text :: fields)
        (parseLoop max min minutes ⟨.period, bits, n, -1⟩ (behind ++ joined fields)) ↔
      Harmless max min minutes vals n text behind fields := by
  rw [parseLoop_behind hmin hn bits (hcomma behind List.mem_cons_self), Right, Harmless]
  by_cases hbehind : behind ≠ [] ∨ minutes
  · obtain ⟨hover, herror, hdone⟩ := @parseLoop_period max min minutes n hn hmax behind fields
      hcomma 0 (le_refl 0) (by decide) bits
    rw [if_pos hbehind]
    by_cases hfits : Fits max minutes n 0 (behind :: fields)
    · by_cases hclose : Closes max minutes n 0 (behind :: fields)
      · obtain ⟨bits', hok, hbits'⟩ := hdone hfits hclose
        rw [hok]
        cases hlisted : (text :: fields).mapM (cronElement max min minutes) with
        | none => simp [hbehind, hclose]
        | some listed =>
          have hmarks : Marks min bits' (vals ++ listed.flatten) ↔
              ∀ v, v ∈ vals ∨ v ∈ listed.flatten ↔
                v ∈ vals ∨ ∃ e ∈ ends minutes 0 (behind :: fields), n ≤ v ∧ v < e := by
            constructor
            · intro h v
              by_cases hv : min ≤ v
              · obtain ⟨j, rfl⟩ : ∃ j : ℕ, v = min + j := ⟨(v - min).toNat, by omega⟩
                have hj := h j
                rw [hbits', hbits j, ← Bool.decide_or, decide_eq_decide, List.mem_append] at hj
                exact hj.symm
              · have hlow : v ∉ listed.flatten := fun hmem =>
                  hv (min_le_of_mem_listed max min minutes hlisted hmem)
                have hout : ¬ ∃ e ∈ ends minutes 0 (behind :: fields), n ≤ v ∧ v < e := by
                  rintro ⟨e, -, hle, -⟩
                  omega
                have hfront : v ∉ vals := fun hmem => hv (hvals v hmem)
                exact iff_of_false (not_or.mpr ⟨hfront, hlow⟩) (not_or.mpr ⟨hfront, hout⟩)
            · intro h j
              rw [hbits', hbits j, ← Bool.decide_or, decide_eq_decide, List.mem_append]
              exact (h _).symm
          simp [hbehind, hfits, hclose, hmarks]
      · rw [herror hfits hclose]
        cases hlisted : (text :: fields).mapM (cronElement max min minutes) with
        | none => simp [hbehind, hfits, hclose]
        | some listed => simp [hclose]
    · rw [hover hfits]
      cases hlisted : (text :: fields).mapM (cronElement max min minutes) with
      | none => simp [hbehind, hfits]
      | some listed => simp [hbehind, hfits]
  · rw [if_neg hbehind]
    cases hlisted : (text :: fields).mapM (cronElement max min minutes) with
    | none => simp [hbehind]
    | some listed => simp [hbehind]

/-- A field that does not start with a digit is an error, and no element. -/
theorem parseLoop_noDigit {a : Automaton} (hstate : a.state = .start ∨ a.state = .comma)
    {text : List Char} (htext : text.takeWhile Char.isDigit = []) (fields : List (List Char))
    (hstart : a.state = .start → text ≠ [] ∧ text.head? ≠ some '*') :
    parseLoop max min minutes a (text ++ joined fields) = some none ∧
      cronElement max min minutes text = none := by
  obtain ⟨state, bits, n, m⟩ := a
  dsimp only at hstate hstart
  cases text with
  | nil =>
    have hcomma : state = .comma := hstate.resolve_left fun h => (hstart h).1 rfl
    subst hcomma
    constructor
    · cases fields <;> rfl
    · exact cronElement_eq_none max min minutes (by simp [cronNumber])
  | cons c text =>
    have hc : ¬ c.isDigit := by
      intro hc
      rw [List.takeWhile_cons_of_pos hc] at htext
      exact List.cons_ne_nil _ _ htext
    constructor
    · rcases hstate with rfl | rfl
      · have hstar : c ≠ '*' := by simpa using (hstart rfl).2
        simp [parseLoop, pass, hc]
      · simp [parseLoop, pass, hc]
    · apply cronElement_eq_none
      by_cases hdash : c = '-'
      · simp [cronNumber, hdash]
      · rw [List.takeWhile_cons_of_pos (by simpa using hdash)]
        exact cronNumber_eq_none max min minutes List.mem_cons_self hc

theorem parseLoop_number (bits : BitVec 32) (n m : ℤ) (fields : List (List Char)) :
    parseLoop max min minutes ⟨.digit, bits, n, m⟩ (joined fields) =
      if min ≤ scaled minutes n ∧ scaled minutes n ≤ max then
        match fields with
        | [] => some (some (bits ||| bit (scaled minutes n - min)))
        | text :: fields => parseLoop max min minutes ⟨.comma, bits ||| bit (scaled minutes n - min),
            scaled minutes n, m⟩ (text ++ joined fields)
      else some none := by
  have hend : pass max min minutes none ⟨.digit, bits, n, m⟩ =
      number max min minutes ⟨.digit, bits, n, m⟩ fun n => .done (bits ||| bit (n - min)) := rfl
  have hcomma : pass max min minutes (some ',') ⟨.digit, bits, n, m⟩ =
      number max min minutes ⟨.digit, bits, n, m⟩ fun n =>
        .next ⟨.comma, bits ||| bit (n - min), n, m⟩ := rfl
  cases fields with
  | nil =>
    rw [joined, parseLoop, hend, number_eq]
    split_ifs <;> rfl
  | cons text fields =>
    rw [joined, parseLoop, hcomma, number_eq]
    split_ifs <;> rfl

theorem parseLoop_dash (bits : BitVec 32) (n m : ℤ) (rest : List Char) :
    parseLoop max min minutes ⟨.digit, bits, n, m⟩ ('-' :: rest) =
      if min ≤ scaled minutes n ∧ scaled minutes n ≤ max then
        parseLoop max min minutes ⟨.period, bits, scaled minutes n, -1⟩ rest
      else some none := by
  have hdash : pass max min minutes (some '-') ⟨.digit, bits, n, m⟩ =
      number max min minutes ⟨.digit, bits, n, m⟩ fun n => .next ⟨.period, bits, n, -1⟩ := rfl
  rw [parseLoop, hdash, number_eq]
  split_ifs <;> rfl

theorem parseLoop_digit_error {bits : BitVec 32} {n m : ℤ} {c : Char} (hc : ¬ c.isDigit)
    (hcomma : c ≠ ',') (hdash : c ≠ '-') (rest : List Char) :
    parseLoop max min minutes ⟨.digit, bits, n, m⟩ (c :: rest) = some none := by
  simp [parseLoop, pass, hc]

theorem parseLoop_scan {a : Automaton} (hstate : a.state = .start ∨ a.state = .comma)
    {text : List Char} (htext : ∀ c ∈ text, c.isDigit) (hne : text ≠ []) (rest : List Char) :
    parseLoop max min minutes a (text ++ rest) =
      if digits 0 text < 2 ^ 31 then
        parseLoop max min minutes ⟨.digit, a.bits, digits 0 text, a.m⟩ rest
      else none := by
  cases text with
  | nil => exact absurd rfl hne
  | cons c text =>
    have hc := htext c List.mem_cons_self
    have hlt : digitValue c < 2 ^ 31 := lt_trans (digitValue_lt hc) (by norm_num)
    obtain ⟨hfits, hover⟩ := parseLoop_digits max min minutes a.bits a.m (digitValue_nonneg c)
      (fun d hd => htext d (List.mem_cons_of_mem c hd)) rest
    rw [List.cons_append, parseLoop, pass_start max min minutes a hstate hc, digits_cons, zero_mul,
      zero_add]
    split_ifs with h
    · exact hfits h
    · exact hover hlt h

theorem careful_cons {vals : List ℤ} {text : List Char} {fields : List (List Char)}
    (htext : text.takeWhile Char.isDigit ≠ []) :
    Careful max min minutes vals (text :: fields) ↔
      digits 0 (text.takeWhile Char.isDigit) < 2 ^ 31 ∧
        (min ≤ scaled minutes (digits 0 (text.takeWhile Char.isDigit)) ∧
            scaled minutes (digits 0 (text.takeWhile Char.isDigit)) ≤ max →
          match text.dropWhile Char.isDigit with
          | [] => Careful max min minutes
              (scaled minutes (digits 0 (text.takeWhile Char.isDigit)) :: vals) fields
          | '-' :: behind => Harmless max min minutes vals
              (scaled minutes (digits 0 (text.takeWhile Char.isDigit))) text behind fields
          | _ => True) := by
  rw [Careful, and_imp]
  exact ⟨fun h => h htext, fun h _ => h⟩

theorem not_right_none {vals : List ℤ} {fields : List (List Char)} :
    ¬ Right max min minutes vals fields none := by
  rw [Right]
  cases fields.mapM (cronElement max min minutes) with
  | none => simp
  | some listed => simp

theorem cronNumber_digits {text : List Char} (hne : text ≠ []) (h : ∀ c ∈ text, c.isDigit) :
    cronNumber max min minutes text =
      if min ≤ scaled minutes (digits 0 text) ∧ scaled minutes (digits 0 text) ≤ max then
        some (scaled minutes (digits 0 text))
      else none := by
  have hall : text.all Char.isDigit := List.all_eq_true.mpr h
  rw [cronNumber]
  simp only [hne, hall, ne_eq, not_false_eq_true, true_and]

/-- The automaton reads fields behind each other as they are meant exactly when the numbers up to
the first range or error fit, and that range does no harm. -/
theorem right_iff_careful (hmin : 0 ≤ min) (hmax : max - min < 32) (fields : List (List Char))
    {text : List Char} (hcomma : ∀ t ∈ text :: fields, ',' ∉ t) {vals : List ℤ}
    (hvals : ∀ v ∈ vals, min ≤ v) {a : Automaton} (hbits : Marks min a.bits vals)
    (hstate : a.state = .start ∨ a.state = .comma)
    (hstart : a.state = .start → text ≠ [] ∧ text.head? ≠ some '*') :
    Right max min minutes vals (text :: fields)
        (parseLoop max min minutes a (text ++ joined fields)) ↔
      Careful max min minutes vals (text :: fields) := by
  have htake : ∀ c ∈ text.takeWhile Char.isDigit, c.isDigit := fun c h => List.mem_takeWhile_imp h
  have happend := List.takeWhile_append_dropWhile (p := Char.isDigit) (l := text)
  -- a field without a digit in front is an error of the automaton and no element
  by_cases htext : text.takeWhile Char.isDigit = []
  · obtain ⟨hrun, helement⟩ := @parseLoop_noDigit max min minutes _ hstate text htext
      fields hstart
    rw [hrun, Careful]
    exact iff_of_true (right_of_none max min minutes helement) fun h => absurd htext h
  rw [careful_cons htext]
  have hscan := @parseLoop_scan max min minutes _ hstate _ htake htext
    (text.dropWhile Char.isDigit ++ joined fields)
  rw [← List.append_assoc, happend] at hscan
  have hnumber := @cronNumber_digits max min minutes _ htext htake
  by_cases hfits : digits 0 (text.takeWhile Char.isDigit) < 2 ^ 31
  · rw [hscan, if_pos hfits]
    generalize hn : scaled minutes (digits 0 (text.takeWhile Char.isDigit)) = n at hnumber
    rw [and_iff_right hfits]
    -- what stands behind the digits of the field decides: its end, a dash, or an error
    cases hdrop : text.dropWhile Char.isDigit with
    | nil =>
      rw [hdrop, List.append_nil] at happend
      have helement := cronElement_digits max min minutes htake
      rw [hnumber, happend] at helement
      rw [List.nil_append, parseLoop_number, hn]
      by_cases hrange : min ≤ n ∧ n ≤ max
      · rw [if_pos hrange] at helement ⊢
        rw [right_cons max min minutes helement]
        simp only [hrange, and_self, true_imp_iff]
        have hmarks : Marks min (a.bits ||| bit (n - min)) (n :: vals) := by
          intro j
          rw [BitVec.getLsbD_or, hbits j, bit, BitVec.getLsbD_twoPow,
            decide_eq_true (by omega : (n - min).toNat < 32), Bool.true_and, ← Bool.decide_or]
          apply decide_eq_decide.mpr
          rw [List.mem_cons, or_comm]
          apply or_congr_left
          omega
        have hfront : ∀ v ∈ n :: vals, min ≤ v := by
          intro v hv
          rcases List.mem_cons.mp hv with rfl | hv
          · exact hrange.1
          · exact hvals v hv
        cases fields with
        | nil =>
          refine iff_of_true ?_ trivial
          exact ⟨_, rfl, by simpa using hmarks⟩
        -- the induction is on the fields: the next one is read from the state behind a comma
        | cons next fields =>
          exact right_iff_careful hmin hmax fields
            (fun t ht => hcomma t (List.mem_cons_of_mem _ ht)) hfront hmarks (Or.inr rfl)
            fun h => nomatch h
      · rw [if_neg hrange] at helement ⊢
        exact iff_of_true (right_of_none max min minutes helement) fun h => absurd h hrange
    | cons c behind =>
      rw [hdrop] at happend
      have hc : ¬ c.isDigit := by
        intro hc
        have hhead := List.head?_dropWhile_not Char.isDigit text
        rw [hdrop] at hhead
        simp [hc] at hhead
      have hne : c ≠ ',' := by
        rintro rfl
        exact hcomma text List.mem_cons_self (by rw [← happend]; simp)
      -- from the dash on the whole rest of the string counts, not just the field
      by_cases hdash : c = '-'
      · subst hdash
        rw [List.cons_append, parseLoop_dash, hn]
        by_cases hrange : min ≤ n ∧ n ≤ max
        · rw [if_pos hrange]
          simp only [hrange, and_self, true_imp_iff]
          apply right_iff_harmless hmin hmax hrange.1 hbits hvals
          intro t ht
          rcases List.mem_cons.mp ht with rfl | ht
          · intro hmem
            apply hcomma text List.mem_cons_self
            rw [← happend]
            exact List.mem_append_right _ (List.mem_cons_of_mem _ hmem)
          · exact hcomma t (List.mem_cons_of_mem _ ht)
        · rw [if_neg hrange]
          refine iff_of_true (right_of_none max min minutes ?_) fun h => absurd h hrange
          apply cronElement_eq_none
          rw [← happend, PyText.takeWhile_ne_append (dash_not_mem htake), hnumber, if_neg hrange]
      · rw [List.cons_append, parseLoop_digit_error hc hne hdash]
        refine iff_of_true (right_of_none max min minutes ?_) fun _ => ?_
        · apply cronElement_eq_none
          apply cronNumber_eq_none max min minutes _ hc
          rw [← happend, List.takeWhile_append_of_pos, List.takeWhile_cons_of_pos]
          · exact List.mem_append_right _ List.mem_cons_self
          · simpa using hdash
          · intro d hd
            simpa using ne_of_mem_of_not_mem hd (dash_not_mem htake)
        · split
          · trivial
          · rename_i heq
            exact absurd (List.cons.inj heq).1 hdash
          · trivial
  · rw [hscan, if_neg hfits]
    exact iff_of_false not_right_none fun h => hfits h.1
termination_by fields.length

/-! ## Descriptions -/

theorem intercalate_joined (text : List Char) (fields : List (List Char)) :
    [','].intercalate (text :: fields) = text ++ joined fields := by
  induction fields generalizing text with
  | nil => simp [joined]
  | cons behind fields ih =>
    rw [List.intercalate_cons_of_ne_nil (List.cons_ne_nil _ _), ih, joined]
    simp

theorem not_mem_splitOn {string text : List Char} (h : text ∈ string.splitOn ',') : ',' ∉ text := by
  induction string generalizing text with
  | nil =>
    rw [List.splitOn_nil, List.mem_singleton] at h
    rw [h]
    exact List.not_mem_nil
  | cons c string ih =>
    rw [List.splitOn_cons_eq_if_modifyHead] at h
    by_cases hc : c = ','
    · rw [if_pos (by simpa using hc)] at h
      rcases List.mem_cons.mp h with rfl | h
      · exact List.not_mem_nil
      · exact ih h
    · rw [if_neg (by simpa using hc)] at h
      obtain ⟨first, rest, hsplit⟩ := List.exists_cons_of_ne_nil (List.splitOn_ne_nil ',' string)
      rw [hsplit, List.modifyHead_cons] at h
      rw [hsplit] at ih
      rcases List.mem_cons.mp h with rfl | h
      · rw [List.mem_cons, not_or]
        exact ⟨Ne.symm hc, ih List.mem_cons_self⟩
      · exact ih (List.mem_cons_of_mem _ h)

theorem exact_iff_right (string : List Char) (hstar : string ≠ ['*']) (hne : string ≠ []) :
    Exact max min minutes string ↔ Right max min minutes [] (string.splitOn ',')
      (parseLoop max min minutes ⟨.start, 0, 0, 0⟩ string) := by
  have hvalues : cronValues max min minutes string =
      ((string.splitOn ',').mapM (cronElement max min minutes)).map List.flatten := by
    rw [cronValues, if_neg hstar, if_neg hne]
  simp only [Exact, parseCronTime, hvalues, Right]
  cases hlisted : (string.splitOn ',').mapM (cronElement max min minutes) with
  | none =>
    constructor
    · intro h
      obtain ⟨r, mask, hr, hsome, -⟩ := h 0
      obtain ⟨result, hresult, hpair⟩ := Option.map_eq_some_iff.mp hr
      rw [hresult]
      cases result with
      | none => rfl
      | some bits =>
        obtain rfl : 0 = r := congrArg Prod.fst hpair
        exact absurd (hsome.mp rfl) (by simp)
    · intro h mask
      rw [h]
      exact ⟨1, mask, rfl, by simp, fun _ => rfl, fun vals hvals => absurd hvals (by simp)⟩
  | some listed =>
    constructor
    · intro h
      obtain ⟨r, mask, hr, hsome, -, hmarks⟩ := h 0
      obtain ⟨result, hresult, hpair⟩ := Option.map_eq_some_iff.mp hr
      cases result with
      | none =>
        obtain rfl : 1 = r := congrArg Prod.fst hpair
        exact absurd (hsome.mpr rfl) (by decide)
      | some bits =>
        obtain rfl : bits = mask := congrArg Prod.snd hpair
        exact ⟨bits, hresult, hmarks _ rfl⟩
    · rintro ⟨bits, hresult, hmarks⟩ mask
      rw [hresult]
      refine ⟨0, bits, rfl, by simp, fun h => absurd rfl h, fun vals hvals => ?_⟩
      obtain rfl := Option.some.inj hvals
      exact hmarks

variable (max min minutes)

/-- A description is read as it is meant exactly when the numbers up to the first range or error
fit, and that range does no harm. -/
theorem exact_iff (hmin : 0 ≤ min) (hlt : min < max) (hmax : max < 32) (string : List Char) :
    Exact max min minutes string ↔ Careful max min minutes [] (string.splitOn ',') := by
  obtain ⟨text, fields, hsplit⟩ := List.exists_cons_of_ne_nil (List.splitOn_ne_nil ',' string)
  have hcomma : ∀ t ∈ text :: fields, ',' ∉ t := by
    intro t ht
    rw [← hsplit] at ht
    exact not_mem_splitOn ht
  have hstring : string = text ++ joined fields := by
    rw [← intercalate_joined, ← hsplit, List.intercalate_splitOn]
  have hmarks : Marks min 0 [] := by simp [Marks]
  -- a star and an empty string are looked at before the loop
  by_cases hstar : string = ['*']
  · subst hstar
    refine iff_of_true (fun mask => ?_) (fun h => absurd rfl h)
    refine ⟨0, markBits 0 0 (max - min + 1).toNat, rfl, by simp [cronValues], fun h => absurd rfl h,
      fun vals hvals j => ?_⟩
    obtain rfl : interval min max = vals := by simpa [cronValues] using hvals
    have hzero : (0 : BitVec 32).getLsbD j = false := BitVec.getLsbD_zero
    rw [markBits_getLsbD 0 0 _ (le_refl 0) (by omega), hzero, Bool.false_or]
    apply decide_eq_decide.mpr
    rw [interval, List.mem_map]
    constructor
    · intro h
      exact ⟨j, List.mem_range.mpr (by omega), rfl⟩
    · rintro ⟨i, hi, heq⟩
      have hi := List.mem_range.mp hi
      omega
  by_cases hne : string = []
  · subst hne
    refine iff_of_true (fun mask => ?_) (fun h => absurd rfl h)
    refine ⟨0, 0, rfl, by simp [cronValues], fun h => absurd rfl h, fun vals hvals => ?_⟩
    obtain rfl : [] = vals := by simpa [cronValues] using hvals
    exact hmarks
  rw [exact_iff_right string hstar hne, hsplit]
  by_cases hfirst : text ≠ [] ∧ text.head? ≠ some '*'
  · rw [hstring]
    exact right_iff_careful hmin (by omega) fields hcomma (by simp) hmarks (Or.inl rfl)
      fun _ => hfirst
  -- a star with more behind it, or an empty first field, is an error of the loop
  · have hdigits : text.takeWhile Char.isDigit = [] := by
      cases text with
      | nil => rfl
      | cons c text =>
        obtain rfl : c = '*' := by simpa using hfirst
        rfl
    have herror : parseLoop max min minutes ⟨.start, 0, 0, 0⟩ string = some none := by
      rw [hstring] at hne hstar ⊢
      cases text with
      | nil =>
        cases fields with
        | nil => exact absurd rfl hne
        | cons behind fields => rfl
      | cons c text =>
        obtain rfl : c = '*' := by simpa using hfirst
        cases hrest : text ++ joined fields with
        | nil =>
          rw [List.cons_append, hrest] at hstar
          exact absurd rfl hstar
        | cons d rest =>
          rw [List.cons_append, hrest]
          rfl
    have helement := (@parseLoop_noDigit max min minutes ⟨.comma, 0, 0, 0⟩ (Or.inr rfl) _ hdigits
      fields fun h => nomatch h).2
    rw [herror]
    exact iff_of_true (right_of_none max min minutes helement) fun h => absurd hdigits h

/-- The end that the range leaves out is listed in front of it. -/
theorem exact_iff_twoFields : Exact 7 1 false "7,4-7".toList := by
  apply (exact_iff 7 1 false (by decide) (by decide) (by decide) "7,4-7".toList).mpr
  have hsplit : "7,4-7".toList.splitOn ',' = [['7'], ['4', '-', '7']] := by decide
  rw [hsplit]
  refine fun _ => ⟨by decide, fun _ _ _ => ⟨by decide, fun _ _ => ?_⟩⟩
  have helements : [['4', '-', '7']].mapM (cronElement 7 1 false) = some [[4, 5, 6, 7]] := by
    decide
  have hcloses : Closes 7 false 4 0 [['7']] := ⟨by decide, by decide⟩
  refine ⟨fun _ => ⟨by decide, fun _ _ _ => trivial⟩, fun hnone => ?_, fun listed hlisted => ?_⟩
  · exact absurd (helements.symm.trans hnone) (by decide)
  · obtain rfl := Option.some.inj (helements.symm.trans hlisted)
    have hends : ends false 0 [['7']] = [7] := by decide
    refine ⟨⟨Or.inl (by decide), hcloses⟩, fun v => ?_⟩
    have hseven : scaled false (digits 0 (['7'].takeWhile Char.isDigit)) = 7 := by decide
    have hfour : scaled false (digits 0 (['4', '-', '7'].takeWhile Char.isDigit)) = 4 := by decide
    rw [hends, hseven, hfour]
    simp only [List.flatten_cons, List.flatten_nil, List.mem_cons, List.not_mem_nil,
      List.append_nil, or_false, exists_eq_left]
    omega

/-- The end of a range is left out. -/
theorem range_not_exact : ¬ Exact 8 1 false "1,4-7".toList := by
  intro h
  obtain ⟨r, mask, hparse, -, -, hmarks⟩ := h 0
  have hvals : cronValues 8 1 false "1,4-7".toList = some [1, 4, 5, 6, 7] := by decide
  have hresult : parseCronTime 8 1 false "1,4-7".toList 0 = some (0, 57#32) := by decide
  obtain rfl : 57#32 = mask := congrArg Prod.snd (Option.some.inj (hresult.symm.trans hparse))
  exact absurd (hmarks _ hvals 6) (by decide)

end Parser
end CronTime
end Meaner
end Szarp
