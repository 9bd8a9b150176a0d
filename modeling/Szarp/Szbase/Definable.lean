import Szarp.Szbase.Datablock

/-!
# Formulas of definable parameters

`szb_definable_calculate` evaluates a formula in postfix notation for one probe.
-/

namespace Szarp
namespace Szbase
namespace Definable

/-- A number on the stack; `none` is `SZB_NODATA`. -/
abbrev Value := Option ℚ

/-- What formulas use besides the probes: `IsSummerSeason` when the configuration has seasons,
`pow`, and the tables of the functions. -/
structure Environment where
  seasons : Option (ℤ → Bool)
  pow : ℚ → ℚ → ℚ
  fixo : ℤ → ℤ → ℤ → ℚ
  tabRegZas : ℤ → ℚ
  tabRegPow : ℤ → ℚ
  waterTank : ℚ → ℚ

/-- No seasons, and tables without an entry but 0. -/
def Environment.plain : Environment where
  seasons := none
  pow _ _ := 0
  fixo _ _ _ := 0
  tabRegZas _ := 0
  tabRegPow _ := 0
  waterTank _ := 0

/-- `error` is an error code, and `undefined` the use of a stack cell that is not below the top, or
of a number that is not finite. -/
inductive Outcome where
  | value (v : ℚ)
  | nodata
  | error
  | undefined
deriving DecidableEq

def stackSize : ℕ := 200

/-! ## Numbers -/

def rint (q : ℚ) : ℤ :=
  let r := q - q.floor
  if r < 1 / 2 ∨ r = 1 / 2 ∧ q.floor % 2 = 0 then q.floor else q.floor + 1

/-- A rounded number as a `short`, and as an `int`. -/
def toShort (q : ℚ) : ℤ := (BitVec.ofInt 16 (rint q)).toInt

def toInt (q : ℚ) : ℤ := (BitVec.ofInt 32 (rint q)).toInt

/-- `(ushort)`, without rounding. -/
def toUshort (q : ℚ) : ℕ := (BitVec.ofInt 16 (q.num.tdiv q.den)).toNat

def digitValue (c : Char) : ℕ :=
  if c.isDigit then c.toNat - 48 else c.toLower.toNat - 87

/-- Digits and letters up to `f` for base 16. -/
def isDigitOf (base : ℕ) (c : Char) : Bool :=
  if base = 16 then c.isDigit || ('a' ≤ c.toLower && c.toLower ≤ 'f') else c.isDigit

def digits (base : ℕ) (ds : List Char) : ℕ := ds.foldl (fun acc c => acc * base + digitValue c) 0

def digitsValue (ds : List Char) : ℕ := ds.foldl (fun acc c => acc * 10 + (c.toNat - 48)) 0

theorem digits_ten {ds : List Char} (h : ∀ c ∈ ds, c.isDigit) : digits 10 ds = digitsValue ds := by
  unfold digits digitsValue
  apply List.foldl_ext
  intro acc c hc
  rw [digitValue, if_pos (h c hc)]

/-- A number with a fraction, and the text behind it. -/
def significand (base : ℕ) (text : List Char) : ℚ × List Char :=
  let whole := digits base (text.takeWhile (isDigitOf base))
  match text.dropWhile (isDigitOf base) with
  | '.' :: rest =>
    let fraction := rest.takeWhile (isDigitOf base)
    (whole + digits base fraction / base ^ fraction.length, rest.dropWhile (isDigitOf base))
  | rest => (whole, rest)

def exponent (mark : Char) (text : List Char) : ℤ :=
  match text with
  | [] => 0
  | c :: rest =>
    if c.toLower ≠ mark then 0
    else match rest with
      | '-' :: rest => -digits 10 (rest.takeWhile Char.isDigit)
      | '+' :: rest => digits 10 (rest.takeWhile Char.isDigit)
      | rest => digits 10 (rest.takeWhile Char.isDigit)

/-- The number that a text without a sign starts with. -/
def number (text : List Char) : ℚ :=
  match text with
  | '0' :: x :: h :: rest =>
    if x.toLower = 'x' ∧ (isDigitOf 16 h ∨ h = '.' ∧ (rest.head?.map (isDigitOf 16)).getD false) then
      let (m, rest) := significand 16 (h :: rest)
      m * 2 ^ exponent 'p' rest
    else
      let (m, rest) := significand 10 text
      m * 10 ^ exponent 'e' rest
  | text =>
    let (m, rest) := significand 10 text
    m * 10 ^ exponent 'e' rest

def signed (text : List Char) : ℚ × List Char :=
  match text.dropWhile (·.isWhitespace) with
  | '-' :: rest => (-1, rest)
  | '+' :: rest => (1, rest)
  | rest => (1, rest)

/-- The number that a text starts with; `inf` and `nan` are not among the numbers. -/
def wcstod (text : List Char) : ℚ := (signed text).1 * number (signed text).2

def notFinite (text : List Char) : Bool :=
  let front := ((signed text).2.take 3).map Char.toLower
  front = ['i', 'n', 'f'] || front = ['n', 'a', 'n']

/-! ## Operators

The first element of the list is the top of the stack. -/

def push (v : Value) (stack : List Value) : Except Outcome (List Value) :=
  if stackSize ≤ stack.length then .error .nodata else .ok (v :: stack)

def constant (text : List Char) (stack : List Value) : Except Outcome (List Value) := do
  let stack ← push (some (wcstod text)) stack
  if notFinite text then throw .undefined else return stack

theorem push_of_constant {text : List Char} {stack stack' : List Value}
    (h : constant text stack = .ok stack') : push (some (wcstod text)) stack = .ok stack' := by
  unfold constant at h
  cases hpush : push (some (wcstod text)) stack with
  | error o =>
    rw [hpush] at h
    exact nomatch h
  | ok s =>
    rw [hpush] at h
    dsimp only [bind, Except.bind] at h
    split at h
    · exact nomatch h
    · exact h

def binary (f : ℚ → ℚ → Except Outcome ℚ) : List Value → Except Outcome (List Value)
  | some y :: some x :: rest => (f x y).map fun v => some v :: rest
  | _ => .error .nodata

def swap : List Value → Except Outcome (List Value)
  | some y :: some x :: rest => .ok (some x :: some y :: rest)
  | _ => .error .nodata

def duplicate : List Value → Except Outcome (List Value)
  | [] => .error .undefined
  | none :: _ => .error .nodata
  | some x :: rest => push (some x) (some x :: rest)

/-! ### Functions

`parlst` goes on to the top of the stack; a function that reads further has no value. -/

section Functions

variable (env : Environment)

def szbFixo : List ℚ → Option ℚ
  | x :: y :: z :: _ => some (env.fixo (toShort x) (toShort y) (toShort z))
  | _ => none

def szbTabReg (table : ℤ → ℚ) : List ℚ → Option ℚ
  | x :: _ => some (table (toShort (x * 100)))
  | [] => none

def szbPositive : List ℚ → Option ℚ
  | x :: _ => some (if x > 0 then x else 0)
  | [] => none

/-- The first parameter counts those that are looked at. -/
def existing : List ℚ → Option (List ℚ)
  | max :: rest =>
    let n := (toInt max).toNat
    if n ≤ rest.length then some ((rest.take n).filter (· > -10 ^ 20)) else none
  | [] => none

def szbSumExisting (parlst : List ℚ) : Option ℚ := (existing parlst).map List.sum

def szbCntExisting (parlst : List ℚ) : Option ℚ := (existing parlst).map fun xs => xs.length

def szbWaterTankSuwa : List ℚ → Option ℚ
  | x :: _ => some (env.waterTank (if x < 0 then 0 else if x > 100 then 100 else x))
  | [] => none

def szbBitOfLog : List ℚ → Option ℚ
  | val :: sh :: _ =>
    some (if (BitVec.ofInt 32 (toInt val)).getLsbD (toInt sh % 32).toNat then 1 else 0)
  | _ => none

def szbDefinableChooseFunction (funid : ℚ) (parlst : List ℚ) : Option ℚ :=
  match toUshort funid with
  | 0 => szbFixo env parlst
  | 1 => szbTabReg env.tabRegZas parlst
  | 2 => szbTabReg env.tabRegPow parlst
  | 3 => szbPositive parlst
  | 4 => szbSumExisting parlst
  | 5 => szbCntExisting parlst
  | 6 => szbWaterTankSuwa env parlst
  | 7 => szbBitOfLog parlst
  | _ => some 0

end Functions

/-- A function finds its parameters, their number and its own number in this order. -/
def call (env : Environment) : List Value → Except Outcome (List Value)
  | _ :: none :: _ => .error .undefined
  | funid :: some count :: rest =>
    let n := toShort count
    if n < 0 then .error .undefined
    else if rest.length < n.toNat then .error .nodata
    else if none ∈ rest.take n.toNat then .error .nodata
    else
      match funid with
      | none => .error .undefined
      | some funid =>
        let parlst := (rest.take n.toNat).reverse.filterMap id ++ [count, funid]
        match szbDefinableChooseFunction env funid parlst with
        | none => .error .undefined
        | some v => .ok (some v :: rest.drop n.toNat)
  | _ => .error .nodata

/-- `<par1> <par2> <cond> ?f` -/
def choose : List Value → Except Outcome (List Value)
  | cond :: b :: a :: rest => .ok ((if cond = some 0 then b else a) :: rest)
  | _ => .error .nodata

/-- `SZB_FILE_TYPE` numbers make the two halves of a number. -/
def word (x y : ℚ) : ℚ :=
  let i1 := (BitVec.ofInt 16 (rint x)).signExtend 32
  let i2 := (BitVec.ofInt 16 (rint y)).signExtend 32
  ((i1 <<< 16) ||| i2).toInt

def power (env : Environment) (x y : ℚ) : Except Outcome ℚ :=
  if y = 0 then .ok 1 else if 0 ≤ x then .ok (env.pow x y) else .error .nodata

/-- Replaces a missing number. -/
def replaceNodata : List Value → Except Outcome (List Value)
  | y :: x :: rest => .ok (x.or y :: rest)
  | _ => .error .nodata

def truth (p : Prop) [Decidable p] : Except Outcome ℚ := .ok (if p then 1 else 0)

/-- The operators of one character; other characters are skipped. -/
def operate (env : Environment) (time : ℤ) (c : Char) (stack : List Value) :
    Except Outcome (List Value) :=
  match c with
  | '&' => swap stack
  | '!' => duplicate stack
  | '$' => call env stack
  | '+' => binary (fun x y => .ok (x + y)) stack
  | '-' => binary (fun x y => .ok (x - y)) stack
  | '*' => binary (fun x y => .ok (x * y)) stack
  | '/' => binary (fun x y => if y = 0 then .error .nodata else .ok (x / y)) stack
  | '>' => binary (fun x y => truth (x > y)) stack
  | '<' => binary (fun x y => truth (x < y)) stack
  | '~' => binary (fun x y => truth (x = y)) stack
  | ':' => binary (fun x y => .ok (word x y)) stack
  | '^' => binary (power env) stack
  | 'N' => replaceNodata stack
  | 'X' => push none stack
  | 'S' =>
    if stackSize ≤ stack.length then .error .nodata
    else
      match env.seasons with
      | some isSummerSeason => .ok (some (if isSummerSeason time then 1 else 0) :: stack)
      | none => .ok stack
  | _ => .ok stack

/-! ## Formulas -/

def behindBlank (text : List Char) : List Char := (text.dropWhile (· ≠ ' ')).tail

/-- The result is the number at the bottom of the stack. -/
def finish (stack : List Value) : Outcome :=
  match stack.getLast? with
  | none => .undefined
  | some none => .nodata
  | some (some v) => .value v

/-- One pass of the loop: the text that is left, the number of the next parameter and the stack.
`row` are the probes of the parameters. -/
def pass (env : Environment) (row : List Value) (time : ℤ) (c : Char) (rest : List Char) (it : ℕ)
    (stack : List Value) : Except Outcome (List Char × ℕ × List Value) :=
  if c.isDigit then
    match push ((row[it]?).getD none) stack with
    | .error o => .error o
    | .ok stack => if row.length ≤ it then .error .nodata else .ok (behindBlank rest, it + 1, stack)
  else
    match c, rest with
    | '#', rest => (constant rest stack).map fun stack => (behindBlank rest, it, stack)
    | '?', 'f' :: rest => (choose stack).map fun stack => (rest, it, stack)
    | '?', _ :: rest => .ok (rest, it, stack)
    | '?', [] => .error .undefined
    | c, rest => (operate env time c stack).map fun stack => (rest, it, stack)

/-- The first argument bounds the passes. -/
def calculateLoop (env : Environment) (row : List Value) (time : ℤ) :
    ℕ → List Char → ℕ → List Value → Outcome
  | n + 1, c :: text, it, stack =>
    match pass env row time c text it stack with
    | .error o => o
    | .ok (text, it, stack) => calculateLoop env row time n text it stack
  | _, _, _, stack => finish stack

def szbDefinableCalculate (env : Environment) (formula : List Char) (row : List Value)
    (time : ℤ) : Outcome :=
  if formula = [] then .error else calculateLoop env row time formula.length formula 0 []

/-! ## The season -/

/-- The season is the same at two times. -/
def Environment.SameSeason (env : Environment) (t u : ℤ) : Prop :=
  ∀ isSummerSeason, env.seasons = some isSummerSeason → isSummerSeason t = isSummerSeason u

variable {env : Environment} {row : List Value} {t u : ℤ}

theorem operate_time {c : Char} (stack : List Value) (h : c ≠ 'S' ∨ env.SameSeason t u) :
    operate env t c stack = operate env u c stack := by
  by_cases hc : c = 'S'
  · subst hc
    have hsame := h.resolve_left (by simp)
    cases hs : env.seasons with
    | none => simp only [operate, hs]
    | some isSummerSeason => simp only [operate, hs, hsame isSummerSeason hs]
  · unfold operate
    split <;> first | rfl | exact absurd rfl hc

theorem pass_time {c : Char} {rest : List Char} (it : ℕ) (stack : List Value)
    (h : c ≠ 'S' ∨ env.SameSeason t u) :
    pass env row t c rest it stack = pass env row u c rest it stack := by
  unfold pass
  split
  · rfl
  · split <;> first | rfl | rw [operate_time stack h]

/-- What a pass leaves is an end of the text. -/
theorem suffix_of_pass {c : Char} {rest text : List Char} {it it' : ℕ} {stack stack' : List Value}
    (h : pass env row t c rest it stack = .ok (text, it', stack')) : text <:+ rest := by
  have hbehind : behindBlank rest <:+ rest :=
    (List.tail_suffix _).trans (List.dropWhile_suffix _)
  unfold pass at h
  split at h
  · split at h
    · simp at h
    · split at h
      · simp at h
      · simp only [Except.ok.injEq, Prod.mk.injEq] at h
        rw [← h.1]
        exact hbehind
  · split at h
    · cases hconstant : constant rest stack with
      | error o => simp [hconstant, Except.map] at h
      | ok s =>
        simp only [hconstant, Except.map, Except.ok.injEq, Prod.mk.injEq] at h
        rw [← h.1]
        exact hbehind
    · rename_i rest'
      cases hchoose : choose stack with
      | error o => simp [hchoose, Except.map] at h
      | ok s =>
        simp only [hchoose, Except.map, Except.ok.injEq, Prod.mk.injEq] at h
        rw [← h.1]
        exact List.suffix_cons _ _
    · simp only [Except.ok.injEq, Prod.mk.injEq] at h
      rw [← h.1]
      exact List.suffix_cons _ _
    · simp at h
    · rename_i hop
      cases hoperate : operate env t c stack with
      | error o => simp [hoperate, Except.map] at h
      | ok s =>
        simp only [hoperate, Except.map, Except.ok.injEq, Prod.mk.injEq] at h
        rw [← h.1]

theorem calculateLoop_time (n : ℕ) {text : List Char} (it : ℕ) (stack : List Value)
    (h : 'S' ∉ text ∨ env.SameSeason t u) :
    calculateLoop env row t n text it stack = calculateLoop env row u n text it stack := by
  induction n generalizing text it stack with
  | zero => rfl
  | succ n ih =>
    cases text with
    | nil => rfl
    | cons c text =>
      have hc : c ≠ 'S' ∨ env.SameSeason t u :=
        h.imp_left fun hs heq => hs (heq ▸ List.mem_cons_self)
      rw [calculateLoop, calculateLoop, pass_time it stack hc]
      cases hpass : pass env row u c text it stack with
      | error o => rfl
      | ok r =>
        obtain ⟨text', it', stack'⟩ := r
        apply ih
        exact h.imp_left fun hs hmem =>
          hs (List.mem_cons_of_mem _ ((suffix_of_pass hpass).subset hmem))

/-- The time matters to the operator `S` alone. -/
theorem szbDefinableCalculate_time {formula : List Char}
    (h : 'S' ∉ formula ∨ env.SameSeason t u) :
    szbDefinableCalculate env formula row t = szbDefinableCalculate env formula row u := by
  unfold szbDefinableCalculate
  split
  · rfl
  · exact calculateLoop_time _ _ _ h

end Definable
end Szbase
end Szarp
