import Mathlib.Data.List.Basic
import Mathlib.Data.List.TakeWhile
import Mathlib.Data.UInt
import Mathlib.Tactic.NormNum

/-!
# The tokenizer

`tokenize` and `tokenize_d` of `misc/tokens.cc`: a scanner with three states that writes where the
tokens begin and end into a table of `MAXTOKS * 2` entries, and the loop that copies the tokens.
An access outside the table, or to an entry never written, has no result.
-/

namespace Szarp
namespace Tokens

/-- The characters of a C string, without the terminating one. -/
abbrev Text : Type := List UInt8

/-- `BUFSIZE`: maximum token's length -/
def bufSize : ℕ := 128

/-- `MAXTOKS`: maximum number of tokens -/
def maxToks : ℕ := 512

def blank : UInt8 := 32

def tab : UInt8 := 9

def quote : UInt8 := 34

inductive ParseState
  | outside
  | inside
  | incomm
  deriving DecidableEq, Repr

/-- Where the scan stands when it ends: `state`, `i` and the `t` written entries of `ind`. -/
structure Scan where
  state : ParseState
  i : ℕ
  ind : List ℕ
  deriving DecidableEq, Repr

/-- `ind[t++] = i` -/
def store (ind : List ℕ) (i : ℕ) : Option (List ℕ) :=
  if ind.length < maxToks * 2 then some (ind ++ [i]) else none

/-- `ind[t++] = i`, and `goto out` at the limit of the table. -/
def mark (state : ParseState) (i : ℕ) (ind : List ℕ) (next : List ℕ → Option Scan) : Option Scan :=
  (store ind i).bind fun ind =>
    if maxToks * 2 - 2 ≤ ind.length then some ⟨state, i, ind⟩ else next ind

/-- The loop of `tokenize` from a position on. -/
def scan : ParseState → ℕ → List ℕ → Text → Option Scan
  | state, i, ind, [] => some ⟨state, i, ind⟩
  | .outside, i, ind, c :: rest =>
    if c = blank ∨ c = tab then scan .outside (i + 1) ind rest
    else if c = quote then
      -- the index is advanced here and once more by the loop
      mark .incomm (i + 1) ind fun ind =>
        match rest with
        | [] => some ⟨.incomm, i + 2, ind⟩
        | _ :: rest => scan .incomm (i + 2) ind rest
    else mark .inside i ind fun ind => scan .inside (i + 1) ind rest
  | .inside, i, ind, c :: rest =>
    if c = blank ∨ c = tab then mark .outside i ind fun ind => scan .outside (i + 1) ind rest
    else scan .inside (i + 1) ind rest
  | .incomm, i, ind, c :: rest =>
    if c = quote then mark .outside i ind fun ind => scan .outside (i + 1) ind rest
    else scan .incomm (i + 1) ind rest

/-- The loop of `tokenize_d` from a position on. -/
def scanD (delims : Text) : ParseState → ℕ → List ℕ → Text → Option Scan
  | state, i, ind, [] => some ⟨state, i, ind⟩
  | .outside, i, ind, c :: rest =>
    if c ∈ delims then scanD delims .outside (i + 1) ind rest
    else mark .inside i ind fun ind => scanD delims .inside (i + 1) ind rest
  | .inside, i, ind, c :: rest =>
    if c ∈ delims then
      mark .outside i ind fun ind => scanD delims .outside (i + 1) ind rest
    else scanD delims .inside (i + 1) ind rest
  | .incomm, i, ind, _ :: rest => scanD delims .incomm (i + 1) ind rest

/-- The token between two entries, cut off in front of `BUFSIZE`. -/
def token (str : Text) (first last : ℕ) : Text :=
  (str.drop first).take (min (last - first) (bufSize - 1))

/-- The loop that copies the tokens, two entries at a time. -/
def tokens (str : Text) : List ℕ → Option (List Text)
  | [] => some []
  | [_] => none
  | first :: last :: ind => (tokens str ind).map (token str first last :: ·)

/-- What follows `out:`. -/
def finish (str : Text) (r : Scan) : Option (List Text) :=
  (if r.state = .outside then some r.ind else store r.ind r.i).bind (tokens str)

/-- `s = strlen(str)`, an `int`: the number of rounds of the loop. -/
def rounds (str : Text) : ℕ := (Int.bmod str.length (2 ^ 32)).toNat

def tokenize (str : Text) : Option (List Text) :=
  (scan .outside 0 [] (str.take (rounds str))).bind (finish str)

def tokenizeD (delims str : Text) : Option (List Text) :=
  (scanD delims .outside 0 [] (str.take (rounds str))).bind (finish str)

theorem rounds_eq {str : Text} (h : str.length < 2 ^ 31) : rounds str = str.length := by
  have hlen : (str.length : ℤ) < 2147483648 := by
    norm_num at h
    omega
  have hbmod : Int.bmod str.length (2 ^ 32) = str.length := by
    apply Int.bmod_eq_of_le
    · norm_num
    · norm_num
      omega
  unfold rounds
  simp only [hbmod, Int.toNat_natCast]

/-! ## The table -/

theorem store_eq {ind : List ℕ} (h : ind.length < 1024) (i : ℕ) :
    store ind i = some (ind ++ [i]) := by
  have hsize : maxToks * 2 = 1024 := by norm_num [maxToks]
  rw [store, hsize, if_pos h]

theorem mark_eq {ind : List ℕ} (h : ind.length < 1022) (state : ParseState) (i : ℕ)
    (next : List ℕ → Option Scan) :
    mark state i ind next =
      if 1021 ≤ ind.length then some ⟨state, i, ind ++ [i]⟩ else next (ind ++ [i]) := by
  have hlimit : (maxToks * 2 - 2 ≤ (ind ++ [i]).length) ↔ 1021 ≤ ind.length := by
    have hsize : maxToks * 2 - 2 = 1022 := by norm_num [maxToks]
    rw [List.length_append, List.length_singleton, hsize]
    omega
  rw [mark, store_eq (by omega), Option.bind_some, if_congr hlimit rfl rfl]

attribute [local simp] scan

/-- Outside of a token the entries are paired; at the end of a scan there is space for one. -/
def Paired (r : Scan) : Prop :=
  r.ind.length ≤ 1022 ∧ (r.ind.length % 2 = 0 ↔ r.state = .outside)

/-- The state of a loop that has not met the limit. -/
def Open (state : ParseState) (ind : List ℕ) : Prop :=
  ind.length < 1022 ∧ (ind.length % 2 = 0 ↔ state = .outside)

/-- An entry leads from a state inside of a token to one outside, and back. -/
theorem mark_paired {state state' : ParseState} {ind : List ℕ} {i : ℕ}
    {next : List ℕ → Option Scan} (h : Open state ind)
    (hstate : state = .outside ↔ state' ≠ .outside)
    (hnext : Open state' (ind ++ [i]) → ∃ r, next (ind ++ [i]) = some r ∧ Paired r) :
    ∃ r, mark state' i ind next = some r ∧ Paired r := by
  have hlen : (ind ++ [i]).length = ind.length + 1 := by simp
  have hpar : (ind ++ [i]).length % 2 = 0 ↔ state' = .outside := by
    have hinv := h.2
    rw [hlen]
    by_cases hs : state' = .outside
    · have : ¬ ind.length % 2 = 0 := by rw [hinv, hstate, not_not]; exact hs
      simp [hs]
      omega
    · have : ind.length % 2 = 0 := by rw [hinv, hstate]; exact hs
      simp [hs]
      omega
  rw [mark_eq h.1]
  split
  · exact ⟨_, rfl, by show (ind ++ [i]).length ≤ 1022; have := h.1; omega, hpar⟩
  · exact hnext ⟨by omega, hpar⟩

theorem scan_paired (state : ParseState) (i : ℕ) (ind : List ℕ) (str : Text)
    (h : Open state ind) : ∃ r, scan state i ind str = some r ∧ Paired r := by
  fun_induction scan state i ind str with
  | case1 state i ind => exact ⟨_, rfl, h.1.le, h.2⟩
  | case2 i ind c rest hc ih => exact ih h
  | case3 i ind rest hc ih =>
    apply mark_paired h (by simp)
    intro h'
    cases rest with
    | nil => exact ⟨_, rfl, h'.1.le, h'.2⟩
    | cons d rest => exact ih _ h'
  | case4 i ind c rest hc hq ih => exact mark_paired h (by simp) fun h' => ih _ h'
  | case5 i ind c rest hc ih => exact mark_paired h (by simp) fun h' => ih _ h'
  | case6 i ind c rest hc ih => exact ih h
  | case7 i ind rest ih => exact mark_paired h (by simp) fun h' => ih _ h'
  | case8 i ind c rest hc ih => exact ih h

theorem scanD_paired (delims : Text) (state : ParseState) (i : ℕ) (ind : List ℕ) (str : Text)
    (h : Open state ind) : ∃ r, scanD delims state i ind str = some r ∧ Paired r := by
  fun_induction scanD delims state i ind str with
  | case1 state i ind => exact ⟨_, rfl, h.1.le, h.2⟩
  | case2 i ind c rest hc ih => exact ih h
  | case3 i ind c rest hc ih => exact mark_paired h (by simp) fun h' => ih _ h'
  | case4 i ind c rest hc ih => exact mark_paired h (by simp) fun h' => ih _ h'
  | case5 i ind c rest hc ih => exact ih h
  | case6 i ind c rest ih => exact ih h

/-- Paired entries give one token for each pair. -/
theorem tokens_isSome (str : Text) (ind : List ℕ) (h : ind.length % 2 = 0) :
    (tokens str ind).isSome := by
  fun_induction tokens str ind with
  | case1 => rfl
  | case2 i => exact absurd h (by simp)
  | case3 first last ind ih =>
    rw [Option.isSome_map]
    apply ih
    simp only [List.length_cons] at h
    omega

/-- The copying loop reads entries that were written. -/
theorem finish_isSome (str : Text) {r : Scan} (h : Paired r) : (finish str r).isSome := by
  rw [finish]
  by_cases hs : r.state = .outside
  · rw [if_pos hs, Option.bind_some]
    exact tokens_isSome str r.ind (h.2.mpr hs)
  · have hodd : ¬ r.ind.length % 2 = 0 := fun h' => hs (h.2.mp h')
    rw [if_neg hs, store_eq (by have := h.1; omega), Option.bind_some]
    apply tokens_isSome
    rw [List.length_append, List.length_singleton]
    omega

/-- `tokenize` never accesses its table outside its bounds. -/
theorem tokenize_isSome (str : Text) : (tokenize str).isSome := by
  obtain ⟨r, hr, hpaired⟩ :=
    scan_paired .outside 0 [] (str.take (rounds str)) ⟨by simp, by simp⟩
  rw [tokenize, hr, Option.bind_some]
  exact finish_isSome str hpaired

theorem tokenizeD_isSome (delims str : Text) : (tokenizeD delims str).isSome := by
  obtain ⟨r, hr, hpaired⟩ :=
    scanD_paired delims .outside 0 [] (str.take (rounds str)) ⟨by simp, by simp⟩
  rw [tokenizeD, hr, Option.bind_some]
  exact finish_isSome str hpaired

/-! ## Quoted strings -/

def quoted (x : Text) : Text := quote :: x ++ [quote]

def joined (xs : List Text) : Text := [blank].intercalate (xs.map quoted)

def listed (xs : List Text) : Text := xs.flatMap fun x => quoted x ++ [blank]

theorem joined_append (ys : List Text) (x : Text) (zs : List Text) :
    joined (ys ++ x :: zs) = listed ys ++ joined (x :: zs) := by
  induction ys with
  | nil => rfl
  | cons y ys ih =>
    have hne : (ys ++ x :: zs).map quoted ≠ [] := by simp
    have hys : joined (y :: (ys ++ x :: zs)) = quoted y ++ [blank] ++ joined (ys ++ x :: zs) :=
      List.intercalate_cons_of_ne_nil hne
    have hlisted : listed (y :: ys) = quoted y ++ [blank] ++ listed ys := List.flatMap_cons
    rw [List.cons_append, hys, ih, hlisted, List.append_assoc _ (listed ys)]

/-- The first string of the joined ones stands in front. -/
theorem joined_cons (x : Text) (zs : List Text) :
    ∃ rest, joined (x :: zs) = quoted x ++ rest := by
  cases zs with
  | nil => exact ⟨[], by rw [joined, List.map_singleton, List.intercalate_singleton,
      List.append_nil]⟩
  | cons z zs =>
    exact ⟨[blank] ++ joined (z :: zs), by
      rw [← List.append_assoc]; exact List.intercalate_cons_cons⟩

theorem scan_incomm (i : ℕ) (ind : List ℕ) (x rest : Text) (hx : quote ∉ x)
    (hind : ind.length < 1021) :
    scan .incomm i ind (x ++ quote :: rest) =
      scan .outside (i + x.length + 1) (ind ++ [i + x.length]) rest := by
  induction x generalizing i with
  | nil =>
    rw [List.nil_append, scan, if_pos rfl, mark_eq (by omega), if_neg (by omega)]
    rfl
  | cons c x ih =>
    have hc : c ≠ quote := fun h => hx (by simp [h])
    rw [List.cons_append, scan, if_neg hc, ih (i + 1) fun h => hx (List.mem_cons_of_mem _ h)]
    rw [List.length_cons, Nat.add_right_comm i 1, ← Nat.add_assoc]

/-- A string that is not empty is scanned whole. -/
theorem scan_quoted (i : ℕ) (ind : List ℕ) (x rest : Text) (hx : quote ∉ x) (hne : x ≠ [])
    (hind : ind.length < 1020) :
    scan .outside i ind (quoted x ++ rest) =
      scan .outside (i + x.length + 2) (ind ++ [i + 1, i + 1 + x.length]) rest := by
  obtain ⟨c, x, rfl⟩ := List.exists_cons_of_ne_nil hne
  rw [quoted, List.cons_append, List.cons_append, List.cons_append, scan, if_neg (by decide),
    if_pos rfl, mark_eq (by omega), if_neg (by omega)]
  show scan .incomm (i + 2) (ind ++ [i + 1]) (x ++ [quote] ++ rest) = _
  rw [List.append_assoc, List.singleton_append, scan_incomm _ _ _ _
    (fun h => hx (List.mem_cons_of_mem _ h)) (by simp; omega)]
  congr 1
  · simp only [List.length_cons]; omega
  · simp only [List.append_assoc, List.singleton_append, List.length_cons]
    congr 3
    omega

/-- The closing quote of an empty string is taken for its first character. -/
theorem scan_empty (i : ℕ) (ind : List ℕ) (rest : Text) (hind : ind.length < 1020) :
    scan .outside i ind (quoted [] ++ rest) = scan .incomm (i + 2) (ind ++ [i + 1]) rest := by
  show scan .outside i ind (quote :: quote :: rest) = _
  rw [scan, if_neg (by decide), if_pos rfl, mark_eq (by omega), if_neg (by omega)]

/-! ## The copied tokens -/

theorem tokens_append (str : Text) (a b : List ℕ) (h : a.length % 2 = 0) :
    tokens str (a ++ b) =
      (tokens str a).bind fun ts => (tokens str b).map (ts ++ ·) := by
  fun_induction tokens str a with
  | case1 => simp
  | case2 i => exact absurd h (by simp)
  | case3 first last ind ih =>
    have hind : ind.length % 2 = 0 := by
      simp only [List.length_cons] at h
      omega
    rw [List.cons_append, List.cons_append, tokens, ih hind]
    cases tokens str ind with
    | none => rfl
    | some ts =>
      rw [Option.bind_some, Option.map_map, Option.map_some, Option.bind_some]
      rfl

/-- The token of a string that stands in the text. -/
theorem token_eq (before x rest : Text) :
    token (before ++ x ++ rest) before.length (before.length + x.length) = x.take 127 := by
  have hsize : bufSize - 1 = 127 := rfl
  rw [token, List.append_assoc, List.drop_left, Nat.add_sub_cancel_left, hsize,
    List.take_append_of_le_length (min_le_left _ _), min_comm, ← List.take_take, List.take_length]

theorem tokens_pair (before x rest : Text) {ind : List ℕ} (heven : ind.length % 2 = 0) :
    tokens (before ++ x ++ rest) (ind ++ [before.length, before.length + x.length]) =
      (tokens (before ++ x ++ rest) ind).map (· ++ [x.take 127]) := by
  rw [tokens_append _ _ _ heven, tokens, token_eq, tokens]
  cases tokens (before ++ x ++ rest) ind with
  | none => rfl
  | some ts => rfl

/-- Strings in front of a position are scanned whole, and copied back. -/
theorem scan_listed (str before : Text) (ind : List ℕ) (ys : List Text) (rest : Text)
    (hstr : str = before ++ (listed ys ++ rest)) (hys : ∀ y ∈ ys, y ≠ [] ∧ quote ∉ y)
    (hsize : ∀ y ∈ ys, y.length < 128) (heven : ind.length % 2 = 0)
    (hind : ind.length + 2 * ys.length < 1022) :
    ∃ ind', scan .outside before.length ind (listed ys ++ rest) =
        scan .outside (before ++ listed ys).length ind' rest ∧
      ind'.length = ind.length + 2 * ys.length ∧
      tokens str ind' = (tokens str ind).map (· ++ ys) := by
  induction ys generalizing before ind with
  | nil => exact ⟨ind, by simp [listed], rfl, by simp⟩
  | cons y ys ih =>
    have hy := hys y List.mem_cons_self
    have hsplit : listed (y :: ys) ++ rest = quoted y ++ (blank :: (listed ys ++ rest)) := by
      simp [listed]
    have hbefore : before ++ (listed (y :: ys) ++ rest) =
        (before ++ (quoted y ++ [blank])) ++ (listed ys ++ rest) := by
      simp [hsplit]
    have hlen : (before ++ (quoted y ++ [blank])).length = before.length + y.length + 2 + 1 := by
      simp [quoted]
      omega
    obtain ⟨ind', hscan, hind', htokens⟩ := ih (before ++ (quoted y ++ [blank]))
      (ind ++ [before.length + 1, before.length + 1 + y.length]) (hstr.trans hbefore)
      (fun z hz => hys z (List.mem_cons_of_mem _ hz))
      (fun z hz => hsize z (List.mem_cons_of_mem _ hz))
      (by simp; omega) (by simp at hind ⊢; omega)
    refine ⟨ind', ?_, ?_, ?_⟩
    · rw [hsplit, scan_quoted _ _ _ _ hy.2 hy.1 (by simp at hind; omega), scan,
        if_pos (Or.inl rfl), ← hlen, hscan]
      congr 1
      simp [listed]
    · rw [hind']
      simp
      omega
    · have htoken : token str (before.length + 1) (before.length + 1 + y.length) = y := by
        have hy' := token_eq (before ++ [quote]) y ([quote, blank] ++ (listed ys ++ rest))
        rw [List.length_append, List.length_singleton,
          List.take_of_length_le (Nat.le_of_lt_succ (hsize y List.mem_cons_self))] at hy'
        rw [hstr, hsplit]
        convert hy' using 2
        simp [quoted]
      rw [htokens, tokens_append _ _ _ heven, tokens, htoken, tokens]
      cases tokens str ind with
      | none => rfl
      | some ts => simp

/-- What was written into the table stays in front. -/
theorem mark_front {state : ParseState} {i : ℕ} {ind : List ℕ} {next : List ℕ → Option Scan}
    {r : Scan} (h : mark state i ind next = some r)
    (hnext : next (ind ++ [i]) = some r → (ind ++ [i]) <+: r.ind) : (ind ++ [i]) <+: r.ind := by
  rw [mark, store] at h
  split at h
  · rw [Option.bind_some] at h
    split at h
    · rw [← Option.some.inj h]
    · exact hnext h
  · exact absurd h (by simp)

theorem scan_prefix (state : ParseState) (i : ℕ) (ind : List ℕ) (str : Text) {r : Scan}
    (h : scan state i ind str = some r) : ind <+: r.ind := by
  have hstep : ∀ {ind : List ℕ} {i : ℕ}, ind ++ [i] <+: r.ind → ind <+: r.ind :=
    fun h => (List.prefix_append _ _).trans h
  fun_induction scan state i ind str with
  | case1 state i ind => rw [← Option.some.inj h]
  | case2 i ind c rest hc ih => exact ih h
  | case3 i ind rest hc ih =>
    apply hstep
    apply mark_front h
    intro h'
    cases rest with
    | nil => rw [← Option.some.inj h']
    | cons d rest => exact ih _ h'
  | case4 i ind c rest hc hq ih => exact hstep (mark_front h fun h' => ih _ h')
  | case5 i ind c rest hc ih => exact hstep (mark_front h fun h' => ih _ h')
  | case6 i ind c rest hc ih => exact ih h
  | case7 i ind rest ih => exact hstep (mark_front h fun h' => ih _ h')
  | case8 i ind c rest hc ih => exact ih h

/-- The table behind the scan from a position inside of quotes: the token ends there or behind. -/
theorem scan_incomm_closed (j : ℕ) (ind : List ℕ) (rest : Text) {r : Scan} (h : Paired r)
    (hind : ind.length < 1022) (hr : scan .incomm j ind rest = some r) :
    ∃ last more, j ≤ last ∧
      (if r.state = .outside then some r.ind else store r.ind r.i) =
        some (ind ++ last :: more) := by
  have hgrown : ∀ {l : ℕ}, ind ++ [l] <+: r.ind → ∃ more,
      (if r.state = .outside then some r.ind else store r.ind r.i) =
        some (ind ++ l :: more) := by
    intro l hl
    obtain ⟨more, hmore⟩ := hl
    by_cases hs : r.state = .outside
    · exact ⟨more, by rw [if_pos hs, ← hmore, List.append_assoc, List.singleton_append]⟩
    · refine ⟨more ++ [r.i], ?_⟩
      have hodd : ¬ r.ind.length % 2 = 0 := fun h' => hs (h.2.mp h')
      rw [if_neg hs, store_eq (by have := h.1; omega), ← hmore]
      simp
  induction rest generalizing j with
  | nil =>
    rw [scan] at hr
    rw [← Option.some.inj hr]
    exact ⟨j, [], le_rfl, by rw [if_neg (by simp), store_eq (show ind.length < 1024 by omega)]⟩
  | cons c rest ih =>
    rw [scan] at hr
    split at hr
    · obtain ⟨more, hmore⟩ := hgrown (mark_front hr fun h' => scan_prefix _ _ _ _ h')
      exact ⟨j, more, le_rfl, hmore⟩
    · obtain ⟨last, more, hle, hlast⟩ := ih (j + 1) hr
      exact ⟨last, more, by omega, hlast⟩

/-! ## The list comes back -/

section

variable {xs : List Text} (hlen : xs.length ≤ 510) (hsize : ∀ x ∈ xs, x.length < 128)
  (hquote : ∀ x ∈ xs, quote ∉ x)

include hlen hsize

theorem rounds_joined : rounds (joined xs) = (joined xs).length := by
  have hle : (joined xs).length ≤ 130 * xs.length := by
    clear hlen
    induction xs with
    | nil => simp [joined]
    | cons x xs ih =>
      have hxs := ih fun y hy => hsize y (List.mem_cons_of_mem _ hy)
      have hx := hsize x List.mem_cons_self
      have hquoted : (quoted x).length = x.length + 2 := by simp [quoted]
      cases xs with
      | nil =>
        rw [joined, List.map_singleton, List.intercalate_singleton, hquoted]
        simp only [List.length_singleton]
        omega
      | cons y ys =>
        have hcons : joined (x :: y :: ys) = quoted x ++ [blank] ++ joined (y :: ys) :=
          List.intercalate_cons_cons
        rw [hcons, List.length_append, List.length_append, hquoted, List.length_singleton]
        simp only [List.length_cons] at hxs ⊢
        omega
  exact rounds_eq (by norm_num; omega)

include hquote

/-- Strings none of which is empty come back. -/
theorem tokenize_of_ne_nil (hne : [] ∉ xs) : tokenize (joined xs) = some xs := by
  rw [tokenize, rounds_joined hlen hsize, List.take_length]
  rcases List.eq_nil_or_concat' xs with rfl | ⟨ys, y, rfl⟩
  · rfl
  have hmem : ∀ z ∈ ys ++ [y], z ≠ [] ∧ quote ∉ z :=
    fun z hz => ⟨fun h => hne (h ▸ hz), hquote z hz⟩
  have hy := hmem y (by simp)
  have hcount : ys.length + 1 ≤ 510 := by simpa using hlen
  have hjoined : joined (ys ++ [y]) = listed ys ++ quoted y := by
    rw [joined_append, joined, List.map_singleton, List.intercalate_singleton]
  obtain ⟨ind, hscan, hind, htokens⟩ := scan_listed (joined (ys ++ [y])) [] [] ys (quoted y)
    hjoined (fun z hz => hmem z (by simp [hz])) (fun z hz => hsize z (by simp [hz]))
    (by simp) (by simp; omega)
  have hlast := scan_quoted (listed ys).length ind y [] hy.2 hy.1 (by simp at hind; omega)
  have htoken := token_eq (listed ys ++ [quote]) y [quote]
  rw [List.append_nil, scan] at hlast
  rw [List.length_append, List.length_singleton,
    List.take_of_length_le (Nat.le_of_lt_succ (hsize y (by simp)))] at htoken
  rw [hjoined] at htokens ⊢
  rw [List.length_nil, List.nil_append, hlast] at hscan
  rw [hscan, Option.bind_some, finish, if_pos rfl, Option.bind_some,
    tokens_append _ _ _ (by rw [hind]; simp), htokens, tokens, tokens]
  have hstr : listed ys ++ quoted y = listed ys ++ [quote] ++ y ++ [quote] := by simp [quoted]
  rw [hstr, htoken, tokens]
  rfl

/-- An empty string takes its closing quote into the token. -/
theorem tokenize_of_nil_mem (hnil : [] ∈ xs) : tokenize (joined xs) ≠ some xs := by
  rw [tokenize, rounds_joined hlen hsize, List.take_length]
  obtain ⟨ys, zs, rfl, hys⟩ := List.eq_append_cons_of_mem hnil
  obtain ⟨rest, hrest⟩ := joined_cons [] zs
  have hjoined : joined (ys ++ [] :: zs) = listed ys ++ (quoted [] ++ rest) := by
    rw [joined_append, hrest]
  have hcount : ys.length + 1 ≤ 510 := by
    rw [List.length_append, List.length_cons] at hlen
    omega
  obtain ⟨ind, hscan, hind, htokens⟩ := scan_listed (joined (ys ++ [] :: zs)) [] [] ys
    (quoted [] ++ rest) hjoined
    (fun z hz => ⟨fun h => hys (h ▸ hz), hquote z (List.mem_append_left _ hz)⟩)
    (fun z hz => hsize z (List.mem_append_left _ hz)) (by simp) (by simp; omega)
  rw [List.length_nil, Nat.zero_add] at hind
  rw [List.length_nil, List.nil_append, scan_empty _ _ _ (by omega)] at hscan
  have hodd : Open .incomm (ind ++ [(listed ys).length + 1]) := by
    refine ⟨by simp; omega, ?_⟩
    rw [List.length_append, List.length_singleton, hind]
    simp
  obtain ⟨r, hr, hpaired⟩ := scan_paired .incomm ((listed ys).length + 2) _ rest hodd
  obtain ⟨last, more, hlast, hclosed⟩ := scan_incomm_closed _ _ rest hpaired hodd.1 hr
  -- the token begins with the closing quote
  have htoken : token (joined (ys ++ [] :: zs)) ((listed ys).length + 1) last ≠ [] := by
    obtain ⟨n, hn⟩ : ∃ n, min (last - ((listed ys).length + 1)) (bufSize - 1) = n + 1 := by
      refine ⟨min (last - ((listed ys).length + 2)) 126, ?_⟩
      have hsize : bufSize - 1 = 127 := rfl
      omega
    have hdrop : (listed ys ++ (quoted [] ++ rest)).drop ((listed ys).length + 1) =
        quote :: rest := by
      rw [← List.drop_drop, List.drop_left]
      rfl
    rw [token, hjoined, hdrop, hn, List.take_succ_cons]
    exact List.cons_ne_nil _ _
  rw [hjoined, hscan, hr, Option.bind_some, finish, hclosed, Option.bind_some, ← hjoined,
    List.append_assoc, tokens_append _ _ _ (by rw [hind]; simp), htokens, List.singleton_append,
    tokens]
  intro h
  cases hmore : tokens (joined (ys ++ [] :: zs)) more with
  | none => simp [hmore, tokens] at h
  | some ts =>
    simp only [hmore, tokens, Option.map_some, Option.bind_some, List.nil_append,
      Option.some.injEq, List.append_cancel_left_eq, List.cons.injEq] at h
    exact htoken h.1

end

/-- A list of strings comes back exactly when none of them is empty; the table is accessed within
its bounds for every text. -/
theorem tokenize_joined_iff (xs : List Text) (hlen : xs.length ≤ 510)
    (hsize : ∀ x ∈ xs, x.length < 128) (hquote : ∀ x ∈ xs, quote ∉ x) :
    (tokenize (joined xs) = some xs ↔ [] ∉ xs) ∧ ∀ str, (tokenize str).isSome := by
  refine ⟨⟨fun h hnil => ?_, fun hne => ?_⟩, tokenize_isSome⟩
  · exact tokenize_of_nil_mem hlen hsize hquote hnil h
  · exact tokenize_of_ne_nil hlen hsize hquote hne

/-- The list of one string, `"a b"`. -/
theorem tokenize_joined_blank :
    tokenize (joined [[97, 32, 98]]) = some [[97, 32, 98]] ∧ (tokenize [quote]).isSome :=
  have h := tokenize_joined_iff [[97, 32, 98]] (by decide) (by decide) (by decide)
  ⟨h.1.mpr (by decide), h.2 [quote]⟩

/-- The list of one empty string comes back as a quote. -/
theorem tokenize_joined_empty :
    ¬ ∀ xs : List Text, xs.length ≤ 510 → (∀ x ∈ xs, x.length < 128) → (∀ x ∈ xs, quote ∉ x) →
      tokenize (joined xs) = some xs := by
  intro h
  exact absurd (h [[]] (by decide) (by decide) (by decide)) (by decide)

/-! ## Separated names -/

def separated (sep : UInt8) (xs : List Text) : Text := xs.flatMap fun x => sep :: x

section

variable {delims : Text} {sep : UInt8} (hsep : sep ∈ delims)

theorem scanD_inside (i : ℕ) (ind : List ℕ) (x rest : Text) (hx : ∀ c ∈ x, c ∉ delims) :
    scanD delims .inside i ind (x ++ rest) = scanD delims .inside (i + x.length) ind rest := by
  induction x generalizing i with
  | nil => rfl
  | cons c x ih =>
    rw [List.cons_append, scanD, if_neg (hx c List.mem_cons_self),
      ih (i + 1) fun d hd => hx d (List.mem_cons_of_mem _ hd), List.length_cons,
      Nat.add_right_comm i 1, ← Nat.add_assoc]

/-- A name is entered at its first character. -/
theorem scanD_name (i : ℕ) (ind : List ℕ) (x rest : Text) (hne : x ≠ [])
    (hx : ∀ c ∈ x, c ∉ delims) (hind : ind.length < 1021) :
    scanD delims .outside i ind (x ++ rest) =
      scanD delims .inside (i + x.length) (ind ++ [i]) rest := by
  obtain ⟨c, x, rfl⟩ := List.exists_cons_of_ne_nil hne
  rw [List.cons_append, scanD, if_neg (hx c List.mem_cons_self), mark_eq (by omega),
    if_neg (by omega), scanD_inside _ _ _ _ fun d hd => hx d (List.mem_cons_of_mem _ hd),
    List.length_cons, Nat.add_right_comm i 1, ← Nat.add_assoc]

include hsep

/-- The scan from the first character of a name on: what is behind the last pair of entries is
lost, and so are the characters of a name behind the 127th. -/
theorem scanD_separated (str before : Text) (ind : List ℕ) (x : Text) (xs : List Text)
    (hstr : str = before ++ x ++ separated sep xs)
    (hxs : ∀ y ∈ x :: xs, y ≠ [] ∧ ∀ c ∈ y, c ∉ delims) (heven : ind.length % 2 = 0)
    (hind : ind.length < 1022) :
    (scanD delims .outside before.length ind (x ++ separated sep xs)).bind (finish str) =
      (tokens str ind).map
        (· ++ ((x :: xs).take (511 - ind.length / 2)).map (List.take 127)) := by
  induction xs generalizing before ind x with
  | nil =>
    have hx := hxs x List.mem_cons_self
    have htokens := tokens_pair before x (separated sep []) heven
    obtain ⟨n, hn⟩ : ∃ n, 511 - ind.length / 2 = n + 1 := ⟨510 - ind.length / 2, by omega⟩
    have hlen : (ind ++ [before.length]).length < 1024 := by simp; omega
    rw [← hstr] at htokens
    rw [scanD_name _ _ _ _ hx.1 hx.2 (by omega), separated, List.flatMap_nil, scanD,
      Option.bind_some, finish, if_neg (by simp), store_eq hlen, Option.bind_some,
      List.append_assoc, List.singleton_append, htokens, hn, List.take_succ_cons, List.take_nil]
    rfl
  | cons y ys ih =>
    have hx := hxs x List.mem_cons_self
    have htokens := tokens_pair before x (separated sep (y :: ys)) heven
    have hlen : (ind ++ [before.length]).length = ind.length + 1 := by simp
    have hcons : separated sep (y :: ys) = sep :: (y ++ separated sep ys) := by
      simp [separated]
    rw [← hstr] at htokens
    rw [scanD_name _ _ _ _ hx.1 hx.2 (by omega), hcons, scanD, if_pos hsep, mark_eq (by omega),
      List.append_assoc, List.singleton_append]
    -- with this name the table has no place for another pair
    by_cases hfull : 1021 ≤ (ind ++ [before.length]).length
    · have hone : 511 - ind.length / 2 = 1 := by omega
      rw [if_pos hfull, Option.bind_some, finish, if_pos rfl, Option.bind_some, htokens, hone]
      rfl
    · obtain ⟨n, hn⟩ : ∃ n, 511 - ind.length / 2 = n + 1 := ⟨510 - ind.length / 2, by omega⟩
      have hbefore : before.length + x.length + 1 = (before ++ x ++ [sep]).length := by
        simp
        omega
      have hrest := ih (before ++ x ++ [sep]) (ind ++ [before.length, before.length + x.length]) y
        (by rw [hstr, hcons]; simp) (fun z hz => hxs z (List.mem_cons_of_mem _ hz))
        (by simp; omega) (by simp; omega)
      have hsub : 511 - (ind ++ [before.length, before.length + x.length]).length / 2 = n := by
        simp
        omega
      rw [if_neg hfull, hbefore, hrest, htokens, hsub, hn, List.take_succ_cons, List.map_cons,
        Option.map_map]
      congr 1
      funext ts
      simp

/-- `tokenize_d` gives the first names back, each cut off at 127 characters. -/
theorem tokenizeD_separated {xs : List Text} (hlen : (separated sep xs).length < 2 ^ 31)
    (hxs : ∀ y ∈ xs, y ≠ [] ∧ ∀ c ∈ y, c ∉ delims) :
    tokenizeD delims (separated sep xs) = some ((xs.take 511).map (List.take 127)) := by
  rw [tokenizeD, rounds_eq hlen, List.take_length]
  cases xs with
  | nil => rfl
  | cons x xs =>
    have hcons : separated sep (x :: xs) = [sep] ++ x ++ separated sep xs := by
      simp [separated]
    have hscan := scanD_separated hsep (separated sep (x :: xs)) [sep] [] x xs hcons hxs
      (by simp) (by simp)
    have hfirst : scanD delims .outside 0 [] (separated sep (x :: xs)) =
        scanD delims .outside [sep].length [] (x ++ separated sep xs) := by
      rw [hcons, List.append_assoc, List.singleton_append, scanD, if_pos hsep]
      rfl
    rw [hfirst, hscan, tokens]
    rfl

end

end Tokens
end Szarp
