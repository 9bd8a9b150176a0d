import Mathlib.Data.List.GetD
import Szarp.Sync.Packet

/-!
# The path scripts of the file list

`Server::CreateScript` describes a path as a list of changes to the path before it and
`Client::ExecuteScript` applies the changes.  Opcode 1 overwrites a run of bytes, 2 appends
and 3 chops bytes off the end; numbers are two digits to base 126, each stored plus one so
that no byte of a script is zero.
-/

namespace Szarp
namespace Sync

/-! ## The encoder -/

/-- `PUTVAL`; `none` is a failed assertion. -/
def putVal (v : ℕ) : Option (List Byte) :=
  if v < 126 * 126 then some [UInt8.ofNat (v / 126 + 1), UInt8.ofNat (v % 126 + 1)] else none

/-- The `while` loop of `CreateScript`: `len` bytes before index `i` are known to differ.
The first argument bounds the passes. -/
def createLoop (a b : List Byte) (l : ℕ) : ℕ → ℕ → ℕ → Option (List Byte)
  | 0, _, _ => some []
  | n + 1, i, len =>
    if i < l ∨ i = l ∧ 0 < len then
      if i = l ∨ a.getD i 0 = b.getD i 0 ∧ 0 < len then do
        let pos := (i - len) % 2 ^ 16
        let p ← putVal (pos + 1)
        let q ← putVal len
        let rest ← createLoop a b l n (i + 1) 0
        some (1 :: (p ++ q ++ (b.drop pos).take len ++ rest))
      else if a.getD i 0 ≠ b.getD i 0 then createLoop a b l n (i + 1) ((len + 1) % 2 ^ 16)
      else createLoop a b l n (i + 1) len
    else some []

/-- What `CreateScript` writes after its loop. -/
def createTail (a b : List Byte) : Option (List Byte) :=
  if a.length < b.length then some (2 :: b.drop (min a.length b.length))
  else if b.length < a.length then (putVal (a.length - b.length)).map (3 :: ·)
  else some []

def createScript (a b : List Byte) : Option (List Byte) := do
  let l := min a.length b.length
  let runs ← createLoop a b l (l + 1) 0 0
  let tail ← createTail a b
  some (runs ++ tail)

/-! ## The decoder

The result buffer is a list of cells; a cell that was allocated and not written yet is
`none`.  Reading such a cell, reading behind the terminator of the script, writing behind
the buffer and a failed assertion all make the result `none`. -/

abbrev Cell := Option Byte

/-- `GETVAL`: both digits are read, and the value of the first one, `(s[i++] - 1) * 126`, is
overwritten by that of the second. -/
def getVal : List Byte → Option (ℕ × List Byte)
  | _ :: lo :: rest => some ((lo - 1).toNat, rest)
  | _ => none

/-- `for (j = pos; j < pos + len; ++j) result[j] = s[i++]`. -/
def copyRun : ℕ → List Cell → ℕ → List Byte → Option (List Cell × List Byte)
  | 0, result, _, s => some (result, s)
  | n + 1, result, j, c :: s =>
    if j < result.length then copyRun n (result.set j (some c)) (j + 1) s else none
  | _ + 1, _, _, [] => none

/-- The loop over opcode 1.  The byte that ends it is returned with the buffer and the rest
of the script. -/
def executeRuns : ℕ → List Cell → List Byte → Option (Byte × List Cell × List Byte)
  | _, _, [] => none
  | 0, _, _ => none
  | n + 1, result, c :: s =>
    if c = 1 then do
      let (pos, s) ← getVal s
      let pos := (pos + 2 ^ 16 - 1) % 2 ^ 16
      let (len, s) ← getVal s
      let (result, s) ← copyRun len result pos s
      executeRuns n result s
    else some (c, result, s)

/-- The zero-terminated string at the start of a buffer. -/
def cstring : List Cell → Option (List Byte)
  | some c :: rest => if c = 0 then some [] else (cstring rest).map (c :: ·)
  | _ => none

/-- `while ((c = s[i++])) result[j++] = c; result[j] = '\\0'`. -/
def appendRest : List Cell → ℕ → List Byte → Option (List Cell)
  | result, j, c :: s =>
    if j < result.length then
      if c = 0 then some (result.set j (some 0)) else appendRest (result.set j (some c)) (j + 1) s
    else none
  | _, _, [] => none

/-- The `switch` on the byte that ended the loop. -/
def executeTail (b : List Byte) (c : Byte) (result : List Cell) (s : List Byte) :
    Option (List Cell) :=
  if c = 0 then some result
  else if c = 2 then do
    let str ← cstring result
    appendRest result str.length s
  else if c = 3 then do
    let (len, _) ← getVal s
    if len ≤ b.length then some (result.set (b.length - len) (some 0)) else none
  else none

/-- The buffer after `strdup` and `realloc`. -/
def initialBuffer (b s : List Byte) : List Cell :=
  b.map some ++ some 0 :: List.replicate s.length none

def executeScript (b s : List Byte) : Option (List Byte) := do
  let (c, result, s') ← executeRuns (s.length + 1) (initialBuffer b s) (s ++ [0])
  let result ← executeTail b c result s'
  cstring result

/-! ## Numbers and runs -/

theorem putVal_of_lt {v : ℕ} (h : v < 126 * 126) :
    putVal v = some [UInt8.ofNat (v / 126 + 1), UInt8.ofNat (v % 126 + 1)] := if_pos h

theorem putVal_spec {v : ℕ} {p : List Byte} (h : putVal v = some p) :
    p.length = 2 ∧ 0 ∉ p := by
  unfold putVal at h
  split_ifs at h with hv
  rw [← Option.some.inj h]
  refine ⟨rfl, ?_⟩
  have hdigit : ∀ d, d < 126 → (0 : Byte) ≠ UInt8.ofNat (d + 1) := by decide
  simp only [List.mem_cons, List.not_mem_nil, or_false, not_or]
  exact ⟨hdigit _ (by omega), hdigit _ (by omega)⟩

/-- Only the low digit comes back. -/
theorem getVal_putVal {v : ℕ} {p : List Byte} (h : putVal v = some p) (rest : List Byte) :
    getVal (p ++ rest) = some (v % 126, rest) := by
  have hv : v < 126 * 126 := by
    by_contra hn
    simp [putVal, hn] at h
  rw [putVal_of_lt hv, Option.some.injEq] at h
  subst h
  have hlow : (UInt8.ofNat (v % 126 + 1) - 1).toNat = v % 126 := by
    have h1 : (1 : Byte) ≤ UInt8.ofNat (v % 126 + 1) := by
      rw [UInt8.le_iff_toNat_le, UInt8.toNat_ofNat']
      change 1 ≤ _
      omega
    rw [UInt8.toNat_sub_of_le _ _ h1, UInt8.toNat_ofNat']
    change (v % 126 + 1) % 2 ^ 8 - 1 = _
    omega
  simp only [List.cons_append, List.nil_append, getVal, hlow]

attribute [local simp] copyRun appendRest cstring executeRuns

theorem copyRun_append (w : List Byte) (x y z : List Cell) (s : List Byte)
    (h : y.length = w.length) :
    copyRun w.length (x ++ y ++ z) x.length (w ++ s) = some (x ++ w.map some ++ z, s) := by
  induction w generalizing x y with
  | nil =>
    have hy : y = [] := List.length_eq_zero_iff.mp h
    simp [copyRun, hy]
  | cons c w ih =>
    obtain ⟨d, y, rfl⟩ : ∃ d y', y = d :: y' := List.exists_cons_of_length_eq_add_one h
    have hset : (x ++ d :: y ++ z).set x.length (some c) = (x ++ [some c]) ++ y ++ z := by
      simp
    have hlt : x.length < (x ++ d :: y ++ z).length := by simp
    rw [List.length_cons, List.cons_append, copyRun, if_pos hlt, hset,
      show x.length + 1 = (x ++ [some c]).length by simp, ih _ _ (by simpa using h)]
    simp

/-- A copy changes the cells `j … j + n - 1` only, and fills them from the script. -/
theorem copyRun_spec {n : ℕ} {r r' : List Cell} {j : ℕ} {s s' : List Byte}
    (h : copyRun n r j s = some (r', s')) :
    r'.length = r.length ∧ s' = s.drop n ∧ (∀ e, e < j ∨ j + n ≤ e → r'[e]? = r[e]?) ∧
      ∀ e, j ≤ e → e < j + n → ∃ c ∈ s.take n, r'[e]? = some (some c) := by
  induction n generalizing r j s with
  | zero =>
    simp only [copyRun, Option.some.injEq, Prod.mk.injEq] at h
    obtain ⟨rfl, rfl⟩ := h
    exact ⟨rfl, rfl, fun _ _ => rfl, fun e h1 h2 => absurd h1 (by omega)⟩
  | succ n ih =>
    cases s with
    | nil => simp [copyRun] at h
    | cons c s =>
      by_cases hj : j < r.length
      · rw [copyRun, if_pos hj] at h
        obtain ⟨h1, h2, h3, h4⟩ := ih h
        refine ⟨by simpa using h1, by simpa using h2, fun e he => ?_, fun e he he' => ?_⟩
        · rw [h3 e (by omega), List.getElem?_set_ne (by omega)]
        · rcases Nat.eq_or_lt_of_le he with rfl | hlt
          · refine ⟨c, by simp, ?_⟩
            rw [h3 j (by omega), List.getElem?_set_self hj]
          · obtain ⟨d, hd, hr⟩ := h4 e hlt (by omega)
            exact ⟨d, by simp [hd], hr⟩
      · rw [copyRun, if_neg hj] at h
        exact absurd h (by simp)

/-- A copy that starts behind the buffer fails unless it is empty. -/
theorem copyRun_outside {n : ℕ} {r : List Cell} {j : ℕ} (s : List Byte) (hn : 0 < n)
    (hj : r.length ≤ j) : copyRun n r j s = none := by
  obtain ⟨n, rfl⟩ : ∃ k, n = k + 1 := ⟨n - 1, by omega⟩
  cases s with
  | nil => rfl
  | cons c s => rw [copyRun, if_neg (by omega)]

/-- One pass over opcode 1: position and length lose their high digits. -/
theorem executeRuns_run {pos len : ℕ} {p q : List Byte} (hp : putVal (pos + 1) = some p)
    (hq : putVal len = some q) (f : ℕ) (r : List Cell) (s : List Byte) :
    executeRuns (f + 1) r (1 :: (p ++ q ++ s)) =
      (copyRun (len % 126) r (((pos + 1) % 126 + 2 ^ 16 - 1) % 2 ^ 16) s).bind
        fun x => executeRuns f x.1 x.2 := by
  rw [executeRuns, if_pos rfl, List.append_assoc, getVal_putVal hp]
  simp only [Option.bind_eq_bind, Option.bind_some, getVal_putVal hq]

theorem executeRuns_stop {c : Byte} (hc : c ≠ 1) (f : ℕ) (r : List Cell) (s : List Byte) :
    executeRuns (f + 1) r (c :: s) = some (c, r, s) := by
  rw [executeRuns, if_neg hc]

/-! ## Strings in buffers -/

theorem cstring_append (x : List Byte) (hx : 0 ∉ x) (r : List Cell) :
    cstring (x.map some ++ some 0 :: r) = some x := by
  induction x with
  | nil => simp [cstring]
  | cons c x ih =>
    rw [List.mem_cons, not_or] at hx
    rw [List.map_cons, List.cons_append, cstring, if_neg (Ne.symm hx.1), ih hx.2]
    rfl

theorem cstring_spec {r : List Cell} {x : List Byte} (h : cstring r = some x) :
    (∀ e, e < x.length → r[e]? = some (x[e]?)) ∧ r[x.length]? = some (some 0) := by
  induction r generalizing x with
  | nil => simp [cstring] at h
  | cons cell r ih =>
    cases cell with
    | none => simp [cstring] at h
    | some c =>
      by_cases hc : c = 0
      · simp only [cstring, hc, if_true, Option.some.injEq] at h
        subst h
        simp [hc]
      · simp only [cstring, hc, if_false, Option.map_eq_some_iff] at h
        obtain ⟨y, hy, rfl⟩ := h
        obtain ⟨h1, h2⟩ := ih hy
        refine ⟨fun e he => ?_, by simpa using h2⟩
        cases e with
        | zero => simp
        | succ e => simpa using h1 e (by simpa using he)

theorem cstring_zero_free {r : List Cell} {x : List Byte} (h : cstring r = some x) : 0 ∉ x := by
  induction r generalizing x with
  | nil => simp [cstring] at h
  | cons cell r ih =>
    cases cell with
    | none => simp [cstring] at h
    | some c =>
      by_cases hc : c = 0
      · simp only [cstring, hc, if_true, Option.some.injEq] at h
        rw [← h]
        exact List.not_mem_nil
      · simp only [cstring, hc, if_false, Option.map_eq_some_iff] at h
        obtain ⟨y, hy, rfl⟩ := h
        rw [List.mem_cons, not_or]
        exact ⟨Ne.symm hc, ih hy⟩

theorem appendRest_append (w : List Byte) (hw : 0 ∉ w) (x y : List Cell) (s : List Byte)
    (h : w.length < y.length) :
    ∃ z, appendRest (x ++ y) x.length (w ++ 0 :: s) = some (x ++ w.map some ++ some 0 :: z) := by
  induction w generalizing x y with
  | nil =>
    obtain ⟨d, y, rfl⟩ : ∃ d y', y = d :: y' := List.exists_cons_of_length_pos h
    refine ⟨y, ?_⟩
    rw [List.nil_append, appendRest, if_pos (by simp), if_pos rfl]
    simp
  | cons c w ih =>
    rw [List.mem_cons, not_or] at hw
    obtain ⟨d, y, rfl⟩ : ∃ d y', y = d :: y' := List.exists_cons_of_length_pos (by omega)
    have hset : (x ++ d :: y).set x.length (some c) = (x ++ [some c]) ++ y := by simp
    obtain ⟨z, hz⟩ := ih hw.2 (x ++ [some c]) y (by simpa using h)
    refine ⟨z, ?_⟩
    rw [List.cons_append, appendRest, if_pos (by simp), if_neg (Ne.symm hw.1), hset,
      show x.length + 1 = (x ++ [some c]).length by simp, hz]
    simp

theorem appendRest_keeps {r r' : List Cell} {j : ℕ} {s : List Byte}
    (h : appendRest r j s = some r') : ∀ e, e < j → r'[e]? = r[e]? := by
  induction s generalizing r j with
  | nil => simp [appendRest] at h
  | cons c s ih =>
    intro e he
    rw [appendRest] at h
    split_ifs at h with h1 h2
    · rw [Option.some.injEq] at h
      rw [← h, List.getElem?_set_ne (by omega)]
    · rw [ih h e (by omega), List.getElem?_set_ne (by omega)]

/-! ## The loop of the encoder -/

def common (a b : List Byte) : ℕ := min a.length b.length

def Differ (a b : List Byte) (p : ℕ) : Prop := p < common a b ∧ a.getD p 0 ≠ b.getD p 0

/-- A stretch of differing bytes may start at `p`. -/
def Start (a b : List Byte) (p : ℕ) : Prop := p = 0 ∨ a.getD (p - 1) 0 = b.getD (p - 1) 0

/-- What holds at the head of the loop: the `len` bytes before `i` differ, and the stretch they
form starts at `i - len`. -/
structure LoopInv (a b : List Byte) (n i len : ℕ) : Prop where
  fuel : i + n = common a b + 1
  len_le : len ≤ i
  differ : ∀ k, i - len ≤ k → k < i → Differ a b k
  start : i ≤ common a b → Start a b (i - len)
  small : common a b < 126 * 126

variable {a b : List Byte}

theorem LoopInv.init (h : common a b < 126 * 126) : LoopInv a b (common a b + 1) 0 0 where
  fuel := by omega
  len_le := le_rfl
  differ k _ hk := absurd hk (by omega)
  start _ := Or.inl rfl
  small := h

/-- One pass of the loop, by what it finds at index `i`. -/
theorem LoopInv.cases {n i len : ℕ} (h : LoopInv a b (n + 1) i len) :
    (0 < len ∧ (i = common a b ∨ i < common a b ∧ ¬ Differ a b i) ∧ LoopInv a b n (i + 1) 0 ∧
      ∃ p q, putVal (i - len + 1) = some p ∧ putVal len = some q ∧
        createLoop a b (common a b) (n + 1) i len =
          (createLoop a b (common a b) n (i + 1) 0).map
            fun rest => 1 :: (p ++ q ++ (b.drop (i - len)).take len ++ rest)) ∨
    (Differ a b i ∧ LoopInv a b n (i + 1) (len + 1) ∧
      createLoop a b (common a b) (n + 1) i len =
        createLoop a b (common a b) n (i + 1) (len + 1)) ∨
    (len = 0 ∧ i < common a b ∧ ¬ Differ a b i ∧ LoopInv a b n (i + 1) 0 ∧
      createLoop a b (common a b) (n + 1) i len =
        createLoop a b (common a b) n (i + 1) 0) ∨
    (len = 0 ∧ i = common a b ∧ createLoop a b (common a b) (n + 1) i len = some []) := by
  have hf := h.fuel
  have hl := h.len_le
  have hs := h.small
  by_cases hi : i < common a b
  · by_cases hd : a.getD i 0 = b.getD i 0
    · have hnd : ¬ Differ a b i := fun hc => hc.2 hd
      have hinv : LoopInv a b n (i + 1) 0 :=
        ⟨by omega, by omega, fun k h1 h2 => absurd h2 (by omega), fun _ => Or.inr hd, hs⟩
      -- no difference at `i`: a run that was under way is written
      rcases Nat.eq_zero_or_pos len with h0 | h0
      · refine Or.inr (Or.inr (Or.inl ⟨h0, hi, hnd, hinv, ?_⟩))
        rw [createLoop, if_pos (Or.inl hi), if_neg (by omega), if_neg (not_not.mpr hd), h0]
      · refine Or.inl ⟨h0, Or.inr ⟨hi, hnd⟩, hinv, _, _, putVal_of_lt (by omega),
          putVal_of_lt (by omega), ?_⟩
        rw [createLoop, if_pos (Or.inl hi), if_pos (Or.inr ⟨hd, h0⟩)]
        dsimp only
        rw [Nat.mod_eq_of_lt (show i - len < 2 ^ 16 by omega), putVal_of_lt (by omega),
          putVal_of_lt (by omega)]
        cases createLoop a b (common a b) n (i + 1) 0 <;> rfl
    -- one more difference
    · refine Or.inr (Or.inl ⟨⟨hi, hd⟩, ?_, ?_⟩)
      · refine ⟨by omega, by omega, fun k h1 h2 => ?_, fun _ => ?_, hs⟩
        · rcases Nat.lt_or_ge k i with hk | hk
          · exact h.differ k (by omega) hk
          · obtain rfl : k = i := by omega
            exact ⟨hi, hd⟩
        · rw [show i + 1 - (len + 1) = i - len by omega]
          exact h.start (by omega)
      · have hne : ¬ (i = common a b ∨ a.getD i 0 = b.getD i 0 ∧ 0 < len) := by
          rintro (h1 | h1)
          · omega
          · exact hd h1.1
        rw [createLoop, if_pos (Or.inl hi), if_neg hne, if_pos hd, Nat.mod_eq_of_lt (by omega)]
  -- behind the common part only a run may be left to be written
  · rcases Nat.eq_zero_or_pos len with h0 | h0
    · rcases Nat.eq_or_lt_of_le (not_lt.mp hi) with hi' | hi'
      · refine Or.inr (Or.inr (Or.inr ⟨h0, hi'.symm, ?_⟩))
        rw [createLoop, if_neg (by omega)]
      · omega
    · have hi' : i = common a b := by omega
      refine Or.inl ⟨h0, Or.inl hi', ?_, _, _, putVal_of_lt (by omega), putVal_of_lt (by omega), ?_⟩
      · exact ⟨by omega, by omega, fun k h1 h2 => absurd h2 (by omega), by omega, hs⟩
      · rw [createLoop, if_pos (Or.inr ⟨hi', h0⟩), if_pos (Or.inl hi')]
        dsimp only
        rw [Nat.mod_eq_of_lt (show i - len < 2 ^ 16 by omega), putVal_of_lt (by omega),
          putVal_of_lt (by omega)]
        cases createLoop a b (common a b) n (i + 1) 0 <;> rfl

theorem LoopInv.done {i len : ℕ} (h : LoopInv a b 0 i len) :
    i = common a b + 1 ∧ len = 0 := by
  have hf := h.fuel
  refine ⟨by omega, ?_⟩
  by_contra hne
  have hd := h.differ (i - 1) (by omega) (by omega)
  have := hd.1
  omega

/-- The loop never fails an assertion, and three bytes for each index bound its output. -/
theorem LoopInv.length_le {n i len : ℕ} (h : LoopInv a b n i len) :
    ∃ runs, createLoop a b (common a b) n i len = some runs ∧
      runs.length ≤ 3 * n + if len = 0 then 0 else len + 2 := by
  induction n generalizing i len with
  | zero => exact ⟨[], rfl, by simp⟩
  | succ n ih =>
    rcases h.cases with ⟨h0, -, hinv, p, q, hp, hq, he⟩ | ⟨-, hinv, he⟩ | ⟨h0, -, -, hinv, he⟩ |
      ⟨h0, -, he⟩
    · obtain ⟨runs, hr, hlen⟩ := ih hinv
      have hpl := (putVal_spec hp).1
      have hql := (putVal_spec hq).1
      refine ⟨_, by rw [he, hr]; rfl, ?_⟩
      rw [if_pos rfl] at hlen
      rw [if_neg (by omega)]
      have htake := List.length_take_le len (b.drop (i - len))
      simp only [List.length_cons, List.length_append, hpl, hql]
      omega
    · obtain ⟨runs, hr, hlen⟩ := ih hinv
      refine ⟨runs, by rw [he, hr], ?_⟩
      rw [if_neg (by omega)] at hlen
      split_ifs <;> omega
    · obtain ⟨runs, hr, hlen⟩ := ih hinv
      refine ⟨runs, by rw [he, hr], ?_⟩
      rw [if_pos rfl] at hlen
      rw [if_pos h0]
      omega
    · exact ⟨[], he, by simp⟩

/-! ## Scripts that come back -/

/-- A stretch of differing bytes that starts at index 125 or later: its position needs the
high digit. -/
def LateStart (a b : List Byte) (p : ℕ) : Prop := Differ a b p ∧ Start a b p ∧ 125 ≤ p

/-- 126 differing bytes in a row: their number needs the high digit. -/
def LongRun (a b : List Byte) (p : ℕ) : Prop := ∀ k < 126, Differ a b (p + k)

/-- The script of `a` and `b` has no number of more than one digit. -/
structure Fits (a b : List Byte) : Prop where
  noLateStart : ∀ p, ¬ LateStart a b p
  noLongRun : ∀ p, ¬ LongRun a b p
  chop_lt : a.length < b.length + 126

def patched (a b : List Byte) (i : ℕ) : List Byte := b.take i ++ a.drop i

theorem patched_length {i : ℕ} (hi : i ≤ common a b) : (patched a b i).length = a.length := by
  unfold common at hi
  simp only [patched, List.length_append, List.length_take, List.length_drop]
  omega

theorem patched_succ {i : ℕ} (hi : i < common a b) (h : ¬ Differ a b i) :
    patched a b (i + 1) = patched a b i := by
  have ha : i < a.length := lt_of_lt_of_le hi (min_le_left _ _)
  have hb : i < b.length := lt_of_lt_of_le hi (min_le_right _ _)
  have he : a[i] = b[i] := by
    by_contra hne
    exact h ⟨hi, by simpa [List.getD_eq_getElem, ha, hb] using hne⟩
  rw [patched, patched, List.take_add_one, List.getElem?_eq_getElem hb,
    List.drop_eq_getElem_cons ha, he]
  simp only [Option.toList_some, List.append_assoc, List.singleton_append]

/-- Overwriting the `len` bytes before `i` moves the boundary up to `i`. -/
theorem copyRun_patched {i len : ℕ} (hlen : len ≤ i) (hi : i ≤ common a b) (z : List Cell)
    (s : List Byte) :
    copyRun len ((patched a b (i - len)).map some ++ z) (i - len)
        ((b.drop (i - len)).take len ++ s) =
      some ((patched a b i).map some ++ z, s) := by
  unfold common at hi
  have hx : ((b.take (i - len)).map some : List Cell).length = i - len := by
    rw [List.length_map, List.length_take]
    omega
  have hw : ((b.drop (i - len)).take len).length = len := by
    rw [List.length_take, List.length_drop]
    omega
  have hsplit : a.drop (i - len) = (a.drop (i - len)).take len ++ a.drop i := by
    have h := (List.take_append_drop len (a.drop (i - len))).symm
    rwa [List.drop_drop, show i - len + len = i by omega] at h
  have hb : b.take i = b.take (i - len) ++ (b.drop (i - len)).take len := by
    conv_lhs => rw [show i = i - len + len by omega, List.take_add]
  have h := copyRun_append ((b.drop (i - len)).take len) ((b.take (i - len)).map some)
    (((a.drop (i - len)).take len).map some) ((a.drop i).map some ++ z) s (by
      rw [hw, List.length_map, List.length_take, List.length_drop]
      omega)
  rw [hw, hx] at h
  rw [patched, patched, hb, hsplit]
  simpa only [List.map_append, List.append_assoc] using h

/-- Executing what the loop has still to write overwrites what it has still to compare. -/
theorem executeRuns_createLoop {n i len : ℕ} (hinv : LoopInv a b n i len)
    (hlate : ∀ p, ¬ LateStart a b p) (hlong : ∀ p, ¬ LongRun a b p) {runs : List Byte}
    (hr : createLoop a b (common a b) n i len = some runs) (z : List Cell) {c : Byte} (hc : c ≠ 1)
    (s : List Byte) {f : ℕ} (hf : runs.length < f) :
    executeRuns f ((patched a b (min (common a b) (i - len))).map some ++ z) (runs ++ c :: s) =
      some (c, (patched a b (common a b)).map some ++ z, s) := by
  obtain ⟨f, rfl⟩ : ∃ g, f = g + 1 := ⟨f - 1, by omega⟩
  induction n generalizing i len runs f with
  | zero =>
    obtain ⟨rfl, rfl⟩ := hinv.done
    obtain rfl : [] = runs := Option.some.inj hr
    rw [show min (common a b) (common a b + 1 - 0) = common a b by omega, List.nil_append]
    exact executeRuns_stop hc _ _ _
  | succ n ih =>
    have hl := hinv.len_le
    rcases hinv.cases with ⟨h0, hstop, hinv', p, q, hp, hq, he⟩ | ⟨hd, hinv', he⟩ |
      ⟨h0, hi, hnd, hinv', he⟩ | ⟨h0, hi, he⟩
    · -- the stretch ends at `i`: one opcode is executed and the rest follows by induction
      have hi : i ≤ common a b := by rcases hstop with h | h <;> omega
      rw [he, Option.map_eq_some_iff] at hr
      obtain ⟨rest, hrest, rfl⟩ := hr
      have hpos : i - len < 125 := by
        by_contra hge
        exact hlate (i - len) ⟨hinv.differ _ le_rfl (by omega), hinv.start hi, not_lt.mp hge⟩
      have hlen : len < 126 := by
        by_contra hge
        exact hlong (i - len) fun k hk => hinv.differ _ (by omega) (by omega)
      have hcur : min (common a b) (i - len) = i - len := by omega
      have hnext : patched a b (min (common a b) (i + 1 - 0)) = patched a b i := by
        rcases hstop with h | ⟨h, hnd⟩
        · rw [show min (common a b) (i + 1 - 0) = i by omega]
        · rw [show min (common a b) (i + 1 - 0) = i + 1 by omega, patched_succ h hnd]
      have hflen : rest.length < f := by
        simp only [List.length_cons, List.length_append] at hf
        omega
      obtain ⟨f, rfl⟩ : ∃ g, f = g + 1 := ⟨f - 1, by omega⟩
      have hih := ih hinv' hrest f hflen
      rw [hnext] at hih
      rw [hcur, List.cons_append, show p ++ q ++ (b.drop (i - len)).take len ++ rest ++ c :: s =
        p ++ q ++ ((b.drop (i - len)).take len ++ (rest ++ c :: s)) by
          simp only [List.append_assoc], executeRuns_run hp hq, Nat.mod_eq_of_lt hlen,
        show ((i - len + 1) % 126 + 2 ^ 16 - 1) % 2 ^ 16 = i - len by omega,
        copyRun_patched hl hi, Option.bind_some, hih]
    -- one more difference: nothing is written yet
    · rw [he] at hr
      have hih := ih hinv' hr f hf
      rwa [show i + 1 - (len + 1) = i - len by omega] at hih
    -- equal bytes with no run under way
    · rw [he] at hr
      have hih := ih hinv' hr f hf
      rw [show min (common a b) (i + 1 - 0) = i + 1 by omega, patched_succ hi hnd] at hih
      rwa [h0, show min (common a b) (i - 0) = i by omega]
    -- the loop is over
    · rw [he, Option.some.injEq] at hr
      subst hr
      rw [h0, show min (common a b) (i - 0) = common a b by omega, List.nil_append]
      exact executeRuns_stop hc _ _ _

/-- A path: the bytes of a C string shorter than the bound that `PUTVAL` asserts. -/
structure IsPath (a : List Byte) : Prop where
  zeroFree : 0 ∉ a
  length_lt : a.length < 126 * 126

theorem IsPath.common_lt (ha : IsPath a) : common a b < 126 * 126 :=
  lt_of_le_of_lt (min_le_left _ _) ha.length_lt

theorem createScript_eq (ha : IsPath a) : ∃ runs tail,
    createLoop a b (common a b) (common a b + 1) 0 0 = some runs ∧ createTail a b = some tail ∧
      createScript a b = some (runs ++ tail) ∧ runs.length ≤ 3 * (common a b + 1) := by
  obtain ⟨runs, hr, hlen⟩ := (LoopInv.init (b := b) ha.common_lt).length_le
  rw [if_pos rfl] at hlen
  have htail : ∃ tail, createTail a b = some tail := by
    unfold createTail
    split_ifs with h1 h2
    · exact ⟨_, rfl⟩
    · have := ha.length_lt
      rw [putVal_of_lt (by omega)]
      exact ⟨_, rfl⟩
    · exact ⟨_, rfl⟩
  obtain ⟨tail, ht⟩ := htail
  refine ⟨runs, tail, hr, ht, ?_, by omega⟩
  change createLoop a b (min a.length b.length) (min a.length b.length + 1) 0 0 = some runs at hr
  simp only [createScript, hr, ht, Option.bind_eq_bind, Option.bind_some]

/-- The first byte that a script or its terminator holds behind the runs. -/
theorem createTail_head (tail : List Byte) (ht : createTail a b = some tail) :
    ∃ c s, tail ++ [0] = c :: s ∧ c ≠ 1 ∧
      (c = 0 ∧ a.length = b.length ∨
        c = 2 ∧ a.length < b.length ∧ s = b.drop (common a b) ++ [0] ∨
        c = 3 ∧ b.length < a.length ∧ ∃ q, putVal (a.length - b.length) = some q ∧ s = q ++ [0]) := by
  unfold createTail at ht
  split_ifs at ht with h1 h2
  · rw [Option.some.injEq] at ht
    subst ht
    exact ⟨2, _, rfl, by decide, Or.inr (Or.inl ⟨rfl, h1, rfl⟩)⟩
  · rw [Option.map_eq_some_iff] at ht
    obtain ⟨q, hq, rfl⟩ := ht
    exact ⟨3, _, rfl, by decide, Or.inr (Or.inr ⟨rfl, h2, q, hq, rfl⟩)⟩
  · rw [Option.some.injEq] at ht
    subst ht
    exact ⟨0, [], rfl, by decide, Or.inl ⟨rfl, by omega⟩⟩

theorem createTail_length {tail : List Byte} (ht : createTail a b = some tail) :
    tail.length ≤ b.length - common a b + 3 := by
  unfold createTail at ht
  split_ifs at ht with h1 h2
  · rw [← Option.some.inj ht]
    simp only [List.length_cons, List.length_drop, common]
    omega
  · rw [Option.map_eq_some_iff] at ht
    obtain ⟨q, hq, rfl⟩ := ht
    rw [List.length_cons, (putVal_spec hq).1]
    omega
  · rw [← Option.some.inj ht]
    simp

theorem executeScript_eq (runs tail : List Byte) :
    executeScript a (runs ++ tail) =
      (executeRuns ((runs ++ tail).length + 1) (initialBuffer a (runs ++ tail))
        (runs ++ (tail ++ [0]))).bind fun x =>
          (executeTail a x.1 x.2.1 x.2.2).bind cstring := by
  rw [executeScript, List.append_assoc]
  rfl

/-- When no stretch is late or long, the runs of a script overwrite what both paths have. -/
theorem executeScript_runs (ha : IsPath a) (hlate : ∀ p, ¬ LateStart a b p)
    (hlong : ∀ p, ¬ LongRun a b p) : ∃ script c s z,
      createScript a b = some script ∧ (∃ tail, createTail a b = some tail ∧ tail ++ [0] = c :: s ∧
        tail.length ≤ z.length) ∧
      executeScript a script =
        (executeTail a c ((patched a b (common a b)).map some ++ some 0 :: z) s).bind cstring := by
  obtain ⟨runs, tail, hr, ht, hs, -⟩ := createScript_eq (b := b) ha
  obtain ⟨c, s, hcs, hc, -⟩ := createTail_head tail ht
  refine ⟨runs ++ tail, c, s, List.replicate (runs ++ tail).length none, hs,
    ⟨tail, ht, hcs, by simp⟩, ?_⟩
  have hrun := executeRuns_createLoop (LoopInv.init ha.common_lt) hlate hlong hr
    (some 0 :: List.replicate (runs ++ tail).length none) hc s
    (show runs.length < (runs ++ tail).length + 1 by simp)
  rw [executeScript_eq, hcs, initialBuffer]
  rw [show min (common a b) (0 - 0) = 0 by omega] at hrun
  simp only [patched, List.take_zero, List.drop_zero, List.nil_append] at hrun
  rw [hrun]
  rfl

/-- A script whose numbers have one digit reproduces the path. -/
theorem executeScript_createScript (ha : IsPath a) (hb : IsPath b) (hf : Fits a b) :
    (createScript a b).bind (executeScript a) = some b := by
  obtain ⟨script, c, s, z, hs, ⟨tail, ht, hcs, hz⟩, he⟩ :=
    executeScript_runs ha hf.noLateStart hf.noLongRun
  obtain ⟨c', s', hcs', -, hcase⟩ := createTail_head tail ht
  obtain ⟨rfl, rfl⟩ : c' = c ∧ s' = s := by simpa using hcs'.symm.trans hcs
  rw [hs, Option.bind_some, he]
  -- the script ends, goes on with the rest of the new path, or cuts off the end of the old one
  rcases hcase with ⟨rfl, hlen⟩ | ⟨rfl, hlen, rfl⟩ | ⟨rfl, hlen, q, hq, rfl⟩
  · have hp : patched a b (common a b) = b := by
      have hmin : common a b = b.length := by unfold common; omega
      rw [patched, hmin, ← hlen, List.drop_length, hlen, List.take_length, List.append_nil]
    rw [executeTail, if_pos rfl, Option.bind_some, hp]
    exact cstring_append b hb.zeroFree z
  · have hmin : common a b = a.length := by unfold common; omega
    have hp : patched a b (common a b) = b.take a.length := by
      rw [patched, hmin, List.drop_length, List.append_nil]
    have htake : 0 ∉ b.take a.length := fun h => hb.zeroFree (List.mem_of_mem_take h)
    have hdrop : 0 ∉ b.drop a.length := fun h => hb.zeroFree (List.mem_of_mem_drop h)
    have hzl : (b.drop a.length).length < (some 0 :: z : List Cell).length := by
      have := congrArg List.length hcs
      simp only [List.length_append, List.length_cons, List.length_nil, hmin] at this
      simp only [List.length_cons]
      omega
    obtain ⟨y, hy⟩ := appendRest_append (b.drop a.length) hdrop ((b.take a.length).map some)
      (some 0 :: z) [] hzl
    rw [List.length_map] at hy
    rw [executeTail, if_neg (by decide), if_pos rfl, hp, cstring_append _ htake, hmin]
    simp only [Option.bind_eq_bind, Option.bind_some, hy, ← List.map_append,
      List.take_append_drop]
    exact cstring_append b hb.zeroFree y
  · have hmin : common a b = b.length := by unfold common; omega
    have hchop := hf.chop_lt
    have hp : patched a b (common a b) = b ++ a.drop b.length := by
      rw [patched, hmin, List.take_length]
    obtain ⟨d, rest, hdrop⟩ : ∃ d rest, a.drop b.length = d :: rest := by
      apply List.exists_cons_of_length_pos
      rw [List.length_drop]
      omega
    rw [executeTail, if_neg (by decide), if_neg (by decide), if_pos rfl, getVal_putVal hq, hp, hdrop]
    simp only [Option.bind_eq_bind, Option.bind_some]
    rw [if_pos (by omega), Option.bind_some,
      show a.length - (a.length - b.length) % 126 = (b.map some : List Cell).length by
        rw [List.length_map]
        omega]
    have hset : ((b ++ d :: rest).map some ++ some 0 :: z : List Cell).set
        (b.map some : List Cell).length (some 0) =
        b.map some ++ some 0 :: (rest.map some ++ some 0 :: z) := by
      simp
    rw [hset]
    exact cstring_append b hb.zeroFree _

/-! ## Scripts that do not come back

A late stretch is written to a wrong place, and its own last byte is written by no opcode: each
opcode writes at or before its true place.  A long stretch leaves bytes of the path in the place
of an opcode. -/

/-- Something at index `k` or later needs a second digit. -/
def Overflows (a b : List Byte) (k : ℕ) : Prop :=
  ∃ p, k ≤ p ∧ (LateStart a b p ∨ LongRun a b p)

/-- The first `a.length` cells of a buffer hold non-zero bytes. -/
def Full (a : List Byte) (r : List Cell) : Prop :=
  ∀ k < a.length, ∃ c : Byte, r[k]? = some (some c) ∧ c ≠ 0

/-- The run of the opcodes failed, or it stopped at a byte that is no opcode, or the byte at
index `e` was left alone. -/
def Spoiled (a : List Byte) (e : ℕ) (r : List Cell) (rest : List Byte) :
    Option (Byte × List Cell × List Byte) → Prop
  | none => True
  | some (c, r', s) => 3 < c ∨ c :: s = rest ∧ r'[e]? = r[e]? ∧ Full a r'

theorem Full.copyRun {n j : ℕ} {r r' : List Cell} {s s' : List Byte} (hf : Full a r)
    (h : copyRun n r j s = some (r', s')) (hs : ∀ c ∈ s.take n, c ≠ 0) : Full a r' := by
  obtain ⟨-, -, h3, h4⟩ := copyRun_spec h
  intro k hk
  by_cases hin : j ≤ k ∧ k < j + n
  · obtain ⟨c, hc, hr⟩ := h4 k hin.1 hin.2
    exact ⟨c, hr, hs c hc⟩
  · rw [h3 k (by omega)]
    exact hf k hk

theorem createLoop_nil {n i : ℕ} (hinv : LoopInv a b n i 0) (h : ∀ p, i ≤ p → ¬ Differ a b p) :
    createLoop a b (common a b) n i 0 = some [] := by
  induction n generalizing i with
  | zero => rfl
  | succ n ih =>
    rcases hinv.cases with ⟨h0, -⟩ | ⟨hd, -⟩ | ⟨-, -, -, hinv', he⟩ | ⟨-, -, he⟩
    · omega
    · exact absurd hd (h i le_rfl)
    · rw [he]
      exact ih hinv' fun p hp => h p (by omega)
    · exact he

/-- Behind a late stretch every further stretch is late. -/
theorem overflows_of_differ {i p : ℕ} (hi : 125 ≤ i) (hs : Start a b i) (hp : i ≤ p)
    (hd : Differ a b p) : Overflows a b i := by
  classical
  have hex : ∃ q, i ≤ q ∧ Differ a b q := ⟨p, hp, hd⟩
  obtain ⟨hq, hdq⟩ := Nat.find_spec hex
  refine ⟨Nat.find hex, hq, Or.inl ⟨hdq, ?_, by omega⟩⟩
  rcases Nat.eq_or_lt_of_le hq with he | hlt
  · rwa [← he]
  · right
    by_contra hne
    refine Nat.find_min hex (m := Nat.find hex - 1) (by omega) ⟨by omega, ?_, hne⟩
    have := hdq.1
    omega

theorem Overflows.after {i len : ℕ} (h : Overflows a b (i - len)) (h0 : 0 < len)
    (hlen : len < 126) (hpos : i - len < 125) (hle : len ≤ i)
    (hdiff : ∀ k, i - len ≤ k → k < i → Differ a b k)
    (hstop : i = common a b ∨ i < common a b ∧ ¬ Differ a b i) : Overflows a b (i + 1) := by
  obtain ⟨p, hp, hov⟩ := h
  have hni : ¬ Differ a b i := by
    rcases hstop with h | h
    · exact fun hc => absurd hc.1 (by omega)
    · exact h.2
  refine ⟨p, ?_, hov⟩
  by_contra hlt
  rcases hov with ⟨hd, hst, hge⟩ | hlong
  · rcases Nat.lt_or_ge p i with hpi | hpi
    · rcases hst with rfl | heq
      · omega
      · exact (hdiff (p - 1) (by omega) (by omega)).2 heq
    · obtain rfl : p = i := by omega
      exact hni hd
  · rcases Nat.lt_or_ge p i with hpi | hpi
    · have hd := hlong (i - p) (by omega)
      rw [show p + (i - p) = i by omega] at hd
      exact hni hd
    · obtain rfl : p = i := by omega
      exact hni (hlong 0 (by omega))

theorem ne_of_three_lt {c : Byte} (h : 3 < c) : c ≠ 0 ∧ c ≠ 1 ∧ c ≠ 2 ∧ c ≠ 3 := by
  refine ⟨?_, ?_, ?_, ?_⟩ <;> rintro rfl <;> exact absurd h (by decide)

/-- A whole run copied to a place that does not cover `e` passes the damage on. -/
theorem Spoiled.of_copyRun {w s rest : List Byte} {r : List Cell} {e j f : ℕ}
    (hw : ∀ c ∈ w, 3 < c) (he : e < j ∨ j + w.length ≤ e) (hfull : Full a r)
    (hsp : ∀ r' : List Cell, r'.length = r.length → Full a r' →
      Spoiled a e r' rest (executeRuns f r' s)) :
    Spoiled a e r rest
      ((copyRun w.length r j (w ++ s)).bind fun x => executeRuns f x.1 x.2) := by
  cases hcopy : copyRun w.length r j (w ++ s) with
  | none => trivial
  | some x =>
    obtain ⟨r', s'⟩ := x
    obtain ⟨h1, h2, h3, -⟩ := copyRun_spec hcopy
    have hfull' : Full a r' := hfull.copyRun hcopy fun d hd => by
      rw [List.take_left] at hd
      exact (ne_of_three_lt (hw d hd)).1
    rw [List.drop_left] at h2
    have hres := hsp r' h1 hfull'
    rw [Option.bind_some, h2]
    unfold Spoiled at hres ⊢
    rwa [h3 e he] at hres

/-- A run that is copied only in part stops the loop at one of its bytes. -/
theorem Spoiled.of_partial {w s rest : List Byte} {r : List Cell} {e j f k : ℕ}
    (hw : ∀ c ∈ w, 3 < c) (hk : k < w.length) :
    Spoiled a e r rest
      ((copyRun k r j (w ++ s)).bind fun x => executeRuns (f + 1) x.1 x.2) := by
  cases hcopy : copyRun k r j (w ++ s) with
  | none => trivial
  | some x =>
    obtain ⟨r', s'⟩ := x
    obtain ⟨-, h2, -⟩ := copyRun_spec hcopy
    have hd := hw w[k] (List.getElem_mem hk)
    rw [List.drop_append_of_le_length hk.le, List.drop_eq_getElem_cons hk, List.cons_append] at h2
    rw [Option.bind_some, h2]
    dsimp only
    rw [executeRuns_stop (ne_of_three_lt hd).2.1]
    exact Or.inl hd

theorem executeRuns_spoiled (hb : ∀ c ∈ b, 3 < c) {n i len : ℕ} (hinv : LoopInv a b n i len)
    {runs : List Byte} (hr : createLoop a b (common a b) n i len = some runs)
    (hov : Overflows a b (i - len)) {c : Byte} (hc : c ≠ 1) (s : List Byte) :
    ∃ e, i - len ≤ e ∧ Differ a b e ∧ ∀ (f : ℕ) (r : List Cell), runs.length < f →
      r.length < 2 ^ 16 - 1 → Full a r →
      Spoiled a e r (c :: s) (executeRuns f r (runs ++ c :: s)) := by
  induction n generalizing i len runs with
  | zero =>
    obtain ⟨rfl, rfl⟩ := hinv.done
    obtain ⟨p, hp, hd | hd⟩ := hov
    · have := hd.1.1
      omega
    · have := (hd 0 (by omega)).1
      omega
  | succ n ih =>
    have hle := hinv.len_le
    rcases hinv.cases with ⟨h0, hstop, hinv', p, q, hp, hq, he⟩ | ⟨hd, hinv', he⟩ |
      ⟨h0, hi, hnd, hinv', he⟩ | ⟨h0, hi, he⟩
    · have hi : i ≤ common a b := by rcases hstop with h | h <;> omega
      have hib : i ≤ b.length := hi.trans (min_le_right _ _)
      rw [he, Option.map_eq_some_iff] at hr
      obtain ⟨rest, hrest, rfl⟩ := hr
      generalize hw : (b.drop (i - len)).take len = w
      have hwl : w.length = len := by
        rw [← hw, List.length_take, List.length_drop]
        omega
      have hgt : ∀ c ∈ w, 3 < c := fun c hc =>
        hb c (List.mem_of_mem_drop (List.mem_of_mem_take (hw ▸ hc)))
      -- the execution of this opcode, for every buffer
      have hexec : ∀ (f : ℕ) (r : List Cell),
          executeRuns (f + 1) r (1 :: (p ++ q ++ w ++ rest) ++ c :: s) =
            (copyRun (len % 126) r (((i - len + 1) % 126 + 2 ^ 16 - 1) % 2 ^ 16)
              (w ++ (rest ++ c :: s))).bind fun x => executeRuns f x.1 x.2 := by
        intro f r
        rw [← executeRuns_run hp hq]
        simp only [List.cons_append, List.append_assoc]
      have hfuel : ∀ f, (1 :: (p ++ q ++ w ++ rest)).length < f →
          ∃ g, f = g + 1 + 1 ∧ rest.length < g + 1 := by
        intro f hf
        simp only [List.length_cons, List.length_append] at hf
        exact ⟨f - 2, by omega, by omega⟩
      by_cases hlen : len < 126
      · rw [Nat.mod_eq_of_lt hlen, ← hwl] at hexec
        by_cases hpos : i - len < 125
        · -- a stretch that fits: the damage is behind it
          obtain ⟨e, hie, hde, hsp⟩ := ih hinv' hrest
            (hov.after h0 hlen hpos hle hinv.differ hstop)
          refine ⟨e, by omega, hde, fun f r hf hrl hfull => ?_⟩
          obtain ⟨g, rfl, hg⟩ := hfuel f hf
          rw [hexec]
          exact Spoiled.of_copyRun hgt (Or.inr (by omega)) hfull fun r' hl hfull' =>
            hsp _ _ hg (by omega) hfull'
        · -- a late stretch: it is copied at least 126 bytes before its place
          by_cases hmore : ∃ d, i + 1 ≤ d ∧ Differ a b d
          · obtain ⟨d, hid, hdd⟩ := hmore
            have hstart : Start a b (i + 1) := by
              rcases hstop with h | h
              · have := hdd.1
                omega
              · right
                by_contra hne
                exact h.2 ⟨h.1, hne⟩
            obtain ⟨e, hie, hde, hsp⟩ := ih hinv' hrest
              (overflows_of_differ (by omega) hstart hid hdd)
            refine ⟨e, by omega, hde, fun f r hf hrl hfull => ?_⟩
            obtain ⟨g, rfl, hg⟩ := hfuel f hf
            rw [hexec]
            by_cases hzero : (i - len + 1) % 126 = 0
            · rw [copyRun_outside _ (by omega) (by omega)]
              trivial
            · exact Spoiled.of_copyRun hgt (Or.inr (by omega)) hfull fun r' hl hfull' =>
                hsp _ _ hg (by omega) hfull'
          · have hnil := createLoop_nil hinv' fun d hd hdd => hmore ⟨d, hd, hdd⟩
            obtain rfl : [] = rest := Option.some.inj (hnil.symm.trans hrest)
            refine ⟨i - 1, by omega, hinv.differ _ (by omega) (by omega),
              fun f r hf hrl hfull => ?_⟩
            obtain ⟨g, rfl, hg⟩ := hfuel f hf
            rw [hexec]
            by_cases hzero : (i - len + 1) % 126 = 0
            · rw [copyRun_outside _ (by omega) (by omega)]
              trivial
            · refine Spoiled.of_copyRun hgt (Or.inr (by omega)) hfull fun r' hl hfull' => ?_
              rw [List.nil_append, executeRuns_stop hc]
              exact Or.inr ⟨rfl, rfl, hfull'⟩
      · refine ⟨i - 1, by omega, hinv.differ _ (by omega) (by omega), fun f r hf hrl hfull => ?_⟩
        obtain ⟨g, rfl, hg⟩ := hfuel f hf
        rw [hexec]
        exact Spoiled.of_partial hgt (by omega)
    · rw [he] at hr
      obtain ⟨e, hie, hrest⟩ := ih hinv' hr (by rwa [show i + 1 - (len + 1) = i - len by omega])
      exact ⟨e, by omega, hrest⟩
    · rw [he] at hr
      have hov' : Overflows a b (i + 1 - 0) := by
        obtain ⟨p, hp, hd⟩ := hov
        rcases Nat.eq_or_lt_of_le hp with hpi | hpi
        · obtain rfl : p = i := by omega
          rcases hd with hd | hd
          · exact absurd hd.1 hnd
          · exact absurd (hd 0 (by omega)) hnd
        · exact ⟨p, by omega, hd⟩
      obtain ⟨e, hie, hrest⟩ := ih hinv' hr hov'
      exact ⟨e, by omega, hrest⟩
    · obtain ⟨p, hp, hd | hd⟩ := hov
      · have := hd.1.1
        omega
      · have := (hd 0 (by omega)).1
        omega

theorem full_initialBuffer (ha : IsPath a) (s : List Byte) : Full a (initialBuffer a s) := by
  intro k hk
  refine ⟨a[k], ?_, fun h0 => ha.zeroFree (h0 ▸ List.getElem_mem hk)⟩
  rw [initialBuffer, List.getElem?_append_left (by simpa using hk), List.getElem?_map,
    List.getElem?_eq_getElem hk]
  rfl

/-- The two strings differ where they are compared byte by byte. -/
theorem Differ.getElem?_ne {e : ℕ} (h : Differ a b e) : a[e]? ≠ b[e]? := by
  obtain ⟨hlt, hne⟩ := h
  unfold common at hlt
  intro heq
  apply hne
  rw [List.getD_eq_getElem?_getD, List.getD_eq_getElem?_getD, heq]

/-- The tail of a script cannot repair the byte at `e`. -/
theorem executeTail_spoiled (hb : IsPath b) {e : ℕ} (hd : Differ a b e) {c : Byte} {r : List Cell}
    {s : List Byte}
    (hr : r[e]? = some (a[e]?)) (hfull : Full a r) :
    (executeTail a c r s).bind cstring ≠ some b := by
  have hea : e < a.length := lt_of_lt_of_le hd.1 (min_le_left _ _)
  have heb : e < b.length := lt_of_lt_of_le hd.1 (min_le_right _ _)
  -- a buffer that still has the byte of `a` at `e` does not hold `b`
  have hkey : ∀ r' : List Cell, r'[e]? = some (a[e]?) → cstring r' ≠ some b := by
    intro r' hr' h
    have := (cstring_spec h).1 e heb
    rw [hr', Option.some.injEq] at this
    exact hd.getElem?_ne this
  intro h
  rw [Option.bind_eq_some_iff] at h
  obtain ⟨r', hexec, hstr⟩ := h
  unfold executeTail at hexec
  split_ifs at hexec with h0 h2 h3
  · rw [Option.some.injEq] at hexec
    exact hkey r' (hexec ▸ hr) hstr
  · simp only [Option.bind_eq_bind, Option.bind_eq_some_iff] at hexec
    obtain ⟨str, hcstr, happ⟩ := hexec
    have hlen : e < str.length := by
      by_contra hge
      obtain ⟨d, hd', hnz⟩ := hfull str.length (by omega)
      rw [(cstring_spec hcstr).2] at hd'
      exact hnz (by simpa using hd'.symm)
    exact hkey r' ((appendRest_keeps happ e hlen).trans hr) hstr
  · simp only [Option.bind_eq_bind, Option.bind_eq_some_iff] at hexec
    obtain ⟨⟨len, s'⟩, -, hset⟩ := hexec
    dsimp only at hset
    split_ifs at hset with hle
    rw [Option.some.injEq] at hset
    by_cases heq : a.length - len = e
    · have hlt : e < r.length := by
        by_contra hge
        rw [List.getElem?_eq_none (not_lt.mp hge)] at hr
        exact absurd hr (by simp)
      have h1 := (cstring_spec hstr).1 e heb
      rw [← hset, heq, List.getElem?_set_self hlt, Option.some.injEq] at h1
      exact hb.zeroFree (List.mem_of_getElem? h1.symm)
    · exact hkey r' (by rw [← hset, List.getElem?_set_ne heq, hr]) hstr

/-- A path of printable bytes comes back only when no number of its script has two digits. -/
theorem fits_of_executeScript (ha : IsPath a) (hb : IsPath b) (hgt : ∀ c ∈ b, 3 < c)
    (h : (createScript a b).bind (executeScript a) = some b) : Fits a b := by
  by_cases hov : Overflows a b 0
  · exfalso
    obtain ⟨runs, tail, hr, ht, hs, hlen⟩ := createScript_eq (b := b) ha
    obtain ⟨c, s, hcs, hc, -⟩ := createTail_head tail ht
    obtain ⟨e, -, hd, hsp⟩ :=
      executeRuns_spoiled hgt (LoopInv.init ha.common_lt) hr hov hc s
    have htl := createTail_length ht
    have hbuf : (initialBuffer a (runs ++ tail)).length < 2 ^ 16 - 1 := by
      have h1 := ha.length_lt
      have h2 := hb.length_lt
      simp only [initialBuffer, List.length_append, List.length_map, List.length_cons,
        List.length_replicate]
      unfold common at hlen htl
      omega
    have hres := hsp ((runs ++ tail).length + 1) _ (by simp) hbuf (full_initialBuffer ha _)
    rw [hs, Option.bind_some, executeScript_eq, hcs] at h
    cases hex : executeRuns ((runs ++ tail).length + 1) (initialBuffer a (runs ++ tail))
        (runs ++ c :: s) with
    | none =>
      rw [hex] at h
      exact absurd h (by simp)
    | some x =>
      obtain ⟨c', r', s'⟩ := x
      rw [hex] at h hres
      rcases hres with h3 | ⟨-, hkeep, hfull⟩
      · obtain ⟨h0, -, h2, h3'⟩ := ne_of_three_lt h3
        rw [Option.bind_some] at h
        simp only [executeTail, if_neg h0, if_neg h2, if_neg h3', Option.bind_none] at h
        exact absurd h (by simp)
      · have hea : e < a.length := lt_of_lt_of_le hd.1 (min_le_left _ _)
        refine executeTail_spoiled hb hd ?_ hfull h
        rw [hkeep, initialBuffer, List.getElem?_append_left (by simpa using hea),
          List.getElem?_map, List.getElem?_eq_getElem hea]
        rfl
  · have hlate : ∀ p, ¬ LateStart a b p := fun p hp => hov ⟨p, Nat.zero_le _, Or.inl hp⟩
    have hlong : ∀ p, ¬ LongRun a b p := fun p hp => hov ⟨p, Nat.zero_le _, Or.inr hp⟩
    refine ⟨hlate, hlong, ?_⟩
    by_contra hchop
    obtain ⟨script, c, s, z, hs, ⟨tail, ht, hcs, -⟩, he⟩ := executeScript_runs ha hlate hlong
    obtain ⟨c', s', hcs', -, hcase⟩ := createTail_head tail ht
    obtain ⟨rfl, rfl⟩ : c' = c ∧ s' = s := by simpa using hcs'.symm.trans hcs
    have hmin : common a b = b.length := by unfold common; omega
    rcases hcase with ⟨-, hlen⟩ | ⟨-, hlen, -⟩ | ⟨rfl, hlen, q, hq, rfl⟩
    · omega
    · omega
    · rw [hs, Option.bind_some, he, executeTail, if_neg (by decide), if_neg (by decide),
        if_pos rfl, getVal_putVal hq] at h
      simp only [Option.bind_eq_bind, Option.bind_some] at h
      rw [if_pos (by omega), Option.bind_some] at h
      -- the terminator of `b` is a byte of `a`
      have hend := (cstring_spec h).2
      rw [List.getElem?_set_ne (by omega), hmin, List.getElem?_append_left (by
        rw [List.length_map, patched_length hmin.ge]
        omega), patched, List.take_length, List.map_append, List.getElem?_append_right (by simp),
        List.getElem?_map, List.getElem?_drop] at hend
      simp only [List.length_map, Nat.sub_self, Nat.add_zero, List.getElem?_eq_getElem hlen,
        Option.map_some, Option.some.injEq] at hend
      exact ha.zeroFree (hend ▸ List.getElem_mem hlen)

/-! ## Scripts as strings -/

theorem createLoop_zero_free (hb : 0 ∉ b) {n i len : ℕ} (hinv : LoopInv a b n i len)
    {runs : List Byte} (hr : createLoop a b (common a b) n i len = some runs) : 0 ∉ runs := by
  induction n generalizing i len runs with
  | zero =>
    rw [← Option.some.inj hr]
    exact List.not_mem_nil
  | succ n ih =>
    rcases hinv.cases with ⟨-, -, hinv', p, q, hp, hq, he⟩ | ⟨-, hinv', he⟩ | ⟨-, -, -, hinv', he⟩ |
      ⟨-, -, he⟩
    · rw [he, Option.map_eq_some_iff] at hr
      obtain ⟨rest, hrest, rfl⟩ := hr
      have hrun : (0 : Byte) ∉ (b.drop (i - len)).take len :=
        fun h => hb (List.mem_of_mem_drop (List.mem_of_mem_take h))
      simp only [List.mem_cons, List.mem_append, not_or]
      exact ⟨by decide, ⟨⟨(putVal_spec hp).2, (putVal_spec hq).2⟩, hrun⟩, ih hinv' hrest⟩
    · exact ih hinv' (he ▸ hr)
    · exact ih hinv' (he ▸ hr)
    · rw [he, Option.some.injEq] at hr
      rw [← hr]
      exact List.not_mem_nil

/-- Runs start at even distances below index 125, so there are few of them. -/
theorem createLoop_length_of_fits (hf : Fits a b) {n i len : ℕ} (hinv : LoopInv a b n i len)
    {runs : List Byte} (hr : createLoop a b (common a b) n i len = some runs) :
    runs.length ≤ 5 * ((126 - (i - len)) / 2) + (common a b - (i - len)) := by
  induction n generalizing i len runs with
  | zero =>
    rw [← Option.some.inj hr]
    exact Nat.zero_le _
  | succ n ih =>
    have hl := hinv.len_le
    rcases hinv.cases with ⟨h0, hstop, hinv', p, q, hp, hq, he⟩ | ⟨-, hinv', he⟩ |
      ⟨h0, -, -, hinv', he⟩ | ⟨-, -, he⟩
    · have hi : i ≤ common a b := by rcases hstop with h | h <;> omega
      have hpos : i - len < 125 := by
        by_contra hge
        exact hf.noLateStart (i - len)
          ⟨hinv.differ _ le_rfl (by omega), hinv.start hi, not_lt.mp hge⟩
      rw [he, Option.map_eq_some_iff] at hr
      obtain ⟨rest, hrest, rfl⟩ := hr
      have hih := ih hinv' hrest
      have htake := List.length_take_le len (b.drop (i - len))
      simp only [List.length_cons, List.length_append, (putVal_spec hp).1, (putVal_spec hq).1]
      omega
    · have hih := ih hinv' (he ▸ hr)
      rwa [show i + 1 - (len + 1) = i - len by omega] at hih
    · have hih := ih hinv' (he ▸ hr)
      omega
    · rw [he, Option.some.injEq] at hr
      rw [← hr]
      exact Nat.zero_le _

/-- A script is a C string whose length a `uint16_t` can hold. -/
theorem createScript_spec (ha : IsPath a) (hb : IsPath b) : ∃ script,
    createScript a b = some script ∧ 0 ∉ script ∧ script.length < 2 ^ 16 ∧
      (Fits a b → script.length < 128 * 128) := by
  obtain ⟨runs, tail, hr, ht, hs, hlen⟩ := createScript_eq (b := b) ha
  have htl := createTail_length ht
  have h1 := ha.length_lt
  have h2 := hb.length_lt
  have hinv := LoopInv.init (b := b) ha.common_lt
  refine ⟨runs ++ tail, hs, ?_, ?_, fun hf => ?_⟩
  · have htail : 0 ∉ tail := by
      unfold createTail at ht
      split_ifs at ht
      · rw [← Option.some.inj ht]
        simp only [List.mem_cons, not_or]
        exact ⟨by decide, fun h => hb.zeroFree (List.mem_of_mem_drop h)⟩
      · rw [Option.map_eq_some_iff] at ht
        obtain ⟨q, hq, rfl⟩ := ht
        simp only [List.mem_cons, not_or]
        exact ⟨by decide, (putVal_spec hq).2⟩
      · rw [← Option.some.inj ht]
        exact List.not_mem_nil
    rw [List.mem_append, not_or]
    exact ⟨createLoop_zero_free hb.zeroFree hinv hr, htail⟩
  · rw [List.length_append]
    unfold common at hlen htl
    omega
  · have hfits := createLoop_length_of_fits hf hinv hr
    rw [List.length_append]
    unfold common at hfits htl
    omega

end Sync
end Szarp
