import Szarp.Ipk.DrawFormula

/-!
# Formulas as lists of tokens

A formula is written as tokens with blanks between them. On such a formula the loops of
`PrepareDefinable` and `GetDrawFormula` go token by token.
-/

namespace Szarp
namespace Ipk
namespace DrawFormula

open Szbase.Definable

/-! ## Tokens -/

inductive Sign where
  | none
  | plus
  | minus
deriving DecidableEq

def Sign.text : Sign → List Char
  | none => []
  | plus => ['+']
  | minus => ['-']

structure Literal where
  sign : Sign
  whole : List Char
  fraction : Option (List Char)
  whole_ne : whole ≠ []
  whole_digits : ∀ c ∈ whole, c.isDigit
  fraction_digits : ∀ f ∈ fraction, f ≠ [] ∧ ∀ c ∈ f, c.isDigit

namespace Literal

def fractionText (l : Literal) : List Char :=
  match l.fraction with
  | none => []
  | some f => '.' :: f

def text (l : Literal) : List Char := l.sign.text ++ l.whole ++ l.fractionText

def factor (l : Literal) : ℚ := if l.sign = .minus then -1 else 1

def value (l : Literal) : ℚ :=
  l.factor * (digitsValue l.whole +
    match l.fraction with
    | none => 0
    | some f => digitsValue f / 10 ^ f.length)

theorem no_fraction : ∀ f ∈ (none : Option (List Char)), f ≠ [] ∧ ∀ c ∈ f, c.isDigit :=
  fun _ h => absurd h (by simp)

def ofInt (v : ℤ) : Literal where
  sign := if v < 0 then .minus else .none
  whole := Nat.toDigits 10 v.natAbs
  fraction := none
  whole_ne := Nat.toDigits_ne_nil
  whole_digits _ hc := Nat.isDigit_of_mem_toDigits (by decide) (by decide) hc
  fraction_digits := no_fraction

theorem text_ofInt (v : ℤ) : (ofInt v).text = intText v := by
  unfold text ofInt intText fractionText
  split <;> simp [Sign.text]

end Literal

/-- The operators that `szb_definable_calculate` knows. -/
inductive Operator where
  | swap
  | duplicate
  | call
  | choose
  | add
  | sub
  | mul
  | div
  | greater
  | less
  | equal
  | word
  | power
  | replace
  | nodata
  | season
deriving DecidableEq

def Operator.text : Operator → List Char
  | swap => ['&']
  | duplicate => ['!']
  | call => ['$']
  | choose => ['?', 'f']
  | add => ['+']
  | sub => ['-']
  | mul => ['*']
  | div => ['/']
  | greater => ['>']
  | less => ['<']
  | equal => ['~']
  | word => [':']
  | power => ['^']
  | replace => ['N']
  | nodata => ['X']
  | season => ['S']

/-- A token of a formula; the name of a parameter ends where its parenthesis is closed. -/
inductive Token where
  | param (name : List Char) (closed : ')' ∉ name)
  | literal (l : Literal)
  | operator (o : Operator)

def Token.text : Token → List Char
  | param name _ => '(' :: name ++ [')']
  | literal l => l.text
  | operator o => o.text

section Spaced

variable {α : Type} (text : α → List Char)

def spacedText : List (α × ℕ) → List Char
  | [] => []
  | (a, n) :: rest => text a ++ (List.replicate n ' ' ++ spacedText rest)

/-- Only behind the last text there may be no blank. -/
def Spaced : List (α × ℕ) → Prop
  | [] => True
  | (_, n) :: rest => (rest ≠ [] → 0 < n) ∧ Spaced rest

/-- A text that ends, or goes on with a blank. -/
def Boundary (r : List Char) : Prop := r = [] ∨ ∃ r', r = ' ' :: r'

variable {text}

theorem Spaced.boundary {n : ℕ} {rest : List (α × ℕ)} (h : rest ≠ [] → 0 < n) :
    Boundary (List.replicate n ' ' ++ spacedText text rest) := by
  cases n with
  | zero =>
    have hnil : rest = [] := by
      by_contra hne
      exact absurd (h hne) (lt_irrefl 0)
    exact .inl (by simp [hnil, spacedText])
  | succ n => exact .inr ⟨_, rfl⟩

end Spaced

/-! ## Collecting from tokens -/

/-- A token after `PrepareDefinable`: constants are literals, and a reference may have lost its end
to a constant that was put into its name. -/
inductive Piece where
  | ref (body : List Char) (closed : Bool)
  | literal (l : Literal)
  | operator (o : Operator)

def Piece.text : Piece → List Char
  | ref body true => '(' :: body ++ [')']
  | ref body false => '(' :: body
  | literal l => l.text
  | operator o => o.text

section Prepare

attribute [local simp] prepareLoop

variable {find : List Char → Option Operand}

/-- What is found in a name that is not replaced itself: the text that is left of it, whether its end
is left, and the parameters. -/
def prepareName (find : List Char → Option Operand) :
    List Char → Option (List Char × Bool × List Operand)
  | [] => some ([], true, [])
  | c :: name =>
    if c ≠ '(' then
      (prepareName find name).map fun (body, closed, cache) => (c :: body, closed, cache)
    else
      match find name with
      | none => none
      | some tp =>
        match tp.constant with
        | none => none
        | some (some v) => some (intText v, false, [])
        | some none => (prepareName find name).map
            fun (body, closed, cache) => ('(' :: body, closed, tp :: cache)

def prepareToken (find : List Char → Option Operand) : Token → Option (Piece × List Operand)
  | .param name _ =>
    match find name with
    | none => none
    | some tp =>
      match tp.constant with
      | none => none
      | some (some v) => some (.literal (.ofInt v), [])
      | some none => (prepareName find name).map
          fun (body, closed, cache) => (.ref body closed, tp :: cache)
  | .literal l => some (.literal l, [])
  | .operator o => some (.operator o, [])

def prepareTokens (find : List Char → Option Operand) :
    List (Token × ℕ) → Option (List (Piece × ℕ) × List Operand)
  | [] => some ([], [])
  | (t, n) :: ts =>
    match prepareToken find t with
    | none => none
    | some (p, cache) => (prepareTokens find ts).map fun (ps, caches) => ((p, n) :: ps, cache ++ caches)

theorem prepareLoop_append {w : List Char} (hw : '(' ∉ w) (r : List Char) :
    prepareLoop find none (w ++ r) =
      (prepareLoop find none r).map fun (f, cache) => (w ++ f, cache) := by
  induction w with
  | nil => simp
  | cons c w ih =>
    rw [List.mem_cons, not_or] at hw
    rw [List.cons_append, prepareLoop, if_pos (Ne.symm hw.1), ih hw.2, Option.map_map]
    rfl

theorem prepareLoop_skip (w r : List Char) :
    prepareLoop find (some w.length) (w ++ r) = prepareLoop find (some 0) r := by
  induction w with
  | nil => rfl
  | cons c w ih => exact ih

theorem prepareLoop_boundary {r : List Char} (hr : Boundary r) :
    prepareLoop find (some 0) r = prepareLoop find none r := by
  obtain rfl | ⟨r', rfl⟩ := hr
  · rfl
  · rfl

theorem takeWhile_closed {name : List Char} (h : ')' ∉ name) (r : List Char) :
    (name ++ ')' :: r).takeWhile (· ≠ ')') = name := by
  rw [List.takeWhile_append_of_pos]
  · simp
  · intro c hc
    simpa using fun hc' : c = ')' => h (hc' ▸ hc)

/-- What happens at an opening parenthesis. -/
theorem prepareLoop_open {name : List Char} (h : ')' ∉ name) {r : List Char} (hr : Boundary r) :
    prepareLoop find none ('(' :: (name ++ ')' :: r)) =
      match find name with
      | none => none
      | some tp =>
        match tp.constant with
        | none => none
        | some (some v) => (prepareLoop find none r).map fun (f, cache) => (intText v ++ f, cache)
        | some none => (prepareLoop find none (name ++ ')' :: r)).map
            fun (f, cache) => ('(' :: f, tp :: cache) := by
  have hskip : prepareLoop find (some (name.length + 1)) (name ++ ')' :: r) =
      prepareLoop find none r := by
    rw [← prepareLoop_boundary hr, ← prepareLoop_skip (name ++ [')']) r, List.length_append,
      List.append_assoc]
    rfl
  rw [prepareLoop, if_neg (by simp), if_neg (by simp)]
  simp only [takeWhile_closed h]
  cases hfind : find name with
  | none => simp only
  | some tp =>
    cases hconst : tp.constant with
    | none => simp only [hconst]
    | some v => cases v <;> simp only [hconst, hskip]

theorem prepareLoop_name {name : List Char} (h : ')' ∉ name) {r : List Char} (hr : Boundary r) :
    prepareLoop find none (name ++ ')' :: r) =
      match prepareName find name with
      | none => none
      | some (body, closed, cache) => (prepareLoop find none r).map fun (f, caches) =>
          (body ++ ((if closed then [')'] else []) ++ f), cache ++ caches) := by
  induction name with
  | nil =>
    simp only [prepareName]
    rw [List.nil_append, ← List.singleton_append, prepareLoop_append (by simp)]
    rfl
  | cons c name ih =>
    rw [List.mem_cons, not_or] at h
    have ih := ih h.2
    by_cases hc : c = '('
    · subst hc
      rw [List.cons_append, prepareLoop_open h.2 hr, prepareName, if_neg (by simp), ih]
      cases hfind : find name with
      | none => rfl
      | some tp =>
        cases hconst : tp.constant with
        | none => simp [hconst]
        | some v =>
          cases v with
          | some v => simp [hconst]
          | none => cases prepareName find name <;> simp [hconst, Function.comp_def]
    · rw [List.cons_append, prepareLoop, if_pos hc, prepareName, if_pos hc, ih]
      cases prepareName find name <;> simp [Function.comp_def]

theorem literal_text_chars {l : Literal} {c : Char} (hc : c ∈ l.text) :
    c.isDigit ∨ c = '+' ∨ c = '-' ∨ c = '.' := by
  simp only [Literal.text, List.mem_append] at hc
  obtain (hc | hc) | hc := hc
  · cases hs : l.sign <;> simp_all [Sign.text]
  · exact .inl (l.whole_digits c hc)
  · cases hf : l.fraction with
    | none => simp [Literal.fractionText, hf] at hc
    | some f =>
      simp only [Literal.fractionText, hf, List.mem_cons] at hc
      obtain rfl | hc := hc
      · simp
      · exact .inl ((l.fraction_digits f hf).2 c hc)

theorem not_mem_literal_text {l : Literal} {c : Char} (hc : ¬ c.isDigit) (hp : c ≠ '+')
    (hm : c ≠ '-') (hd : c ≠ '.') : c ∉ l.text := by
  intro h
  have := literal_text_chars h
  tauto

theorem prepareLoop_token (t : Token) {r : List Char} (hr : Boundary r) :
    prepareLoop find none (t.text ++ r) =
      match prepareToken find t with
      | none => none
      | some (p, cache) =>
        (prepareLoop find none r).map fun (f, caches) => (p.text ++ f, cache ++ caches) := by
  cases t with
  | param name h =>
    have htext : (Token.param name h).text ++ r = '(' :: (name ++ ')' :: r) := by simp [Token.text]
    rw [htext, prepareLoop_open h hr, prepareToken, prepareLoop_name h hr]
    cases hfind : find name with
    | none => rfl
    | some tp =>
      cases hconst : tp.constant with
      | none => simp [hconst]
      | some v =>
        cases v with
        | some v => simp [hconst, Piece.text, Literal.text_ofInt]
        | none =>
          cases prepareName find name with
          | none => simp [hconst]
          | some q =>
            obtain ⟨body, _ | _, cache⟩ := q <;> simp [hconst, Piece.text, Function.comp_def]
  | literal l =>
    have hl : '(' ∉ l.text := not_mem_literal_text (by decide) (by decide) (by decide) (by decide)
    exact prepareLoop_append hl r
  | operator o =>
    have ho : '(' ∉ o.text := by cases o <;> decide
    exact prepareLoop_append ho r

theorem prepareLoop_tokens {ts : List (Token × ℕ)} (h : Spaced ts) :
    prepareLoop find none (spacedText Token.text ts) =
      (prepareTokens find ts).map fun (ps, cache) => (spacedText Piece.text ps, cache) := by
  induction ts with
  | nil => rfl
  | cons tn ts ih =>
    obtain ⟨t, n⟩ := tn
    rw [spacedText, prepareLoop_token t (Spaced.boundary h.1), prepareTokens,
      prepareLoop_append (by simp), ih h.2]
    cases prepareToken find t with
    | none => rfl
    | some q =>
      cases prepareTokens find ts <;> simp [spacedText]

end Prepare

/-! ## Compiling pieces -/

inductive Compiled where
  | index (tp : Operand)
  | literal (l : Literal)
  | operator (o : Operator)

def Literal.markedFraction (l : Literal) : List Char :=
  match l.fraction with
  | none => []
  | some f => '.' :: '#' :: f

/-- A literal in a compiled formula: every run of digits is marked. -/
def Literal.marked (l : Literal) : List Char :=
  match l.sign with
  | .none => '#' :: (l.whole ++ l.markedFraction)
  | .plus => '+' :: '#' :: (l.whole ++ l.markedFraction)
  | .minus => '#' :: '-' :: (l.whole ++ l.markedFraction)

def Compiled.text : Compiled → List Char
  | index tp => Nat.toDigits 10 tp.virtualBaseInd
  | literal l => l.marked
  | operator o => o.text

section Draw

attribute [local simp] drawLoop

variable {find : List Char → Option Operand}

/-- `GetDrawFormula` on pieces; `some read` inside a reference that was not closed. -/
def drawPieces (find : List Char → Option Operand) :
    Option (List Char) → List (Piece × ℕ) → Option (List (Compiled × ℕ))
  | _, [] => some []
  | none, (.ref body true, n) :: ps =>
    match find body with
    | none => none
    | some tp => (drawPieces find none ps).map ((.index tp, n) :: ·)
  | none, (.ref body false, n) :: ps => drawPieces find (some (body ++ List.replicate n ' ')) ps
  | none, (.literal l, n) :: ps => (drawPieces find none ps).map ((.literal l, n) :: ·)
  | none, (.operator o, n) :: ps => (drawPieces find none ps).map ((.operator o, n) :: ·)
  | some read, (.ref body true, n) :: ps =>
    match find (read ++ '(' :: body) with
    | none => none
    | some tp => (drawPieces find none ps).map ((.index tp, n) :: ·)
  | some read, (p, n) :: ps => drawPieces find (some (read ++ p.text ++ List.replicate n ' ')) ps

theorem drawLoop_name {w : List Char} (hw : ')' ∉ w) (read r : List Char) :
    drawLoop find (.name read) (w ++ r) = drawLoop find (.name (read ++ w)) r := by
  induction w generalizing read with
  | nil => simp
  | cons c w ih =>
    rw [List.mem_cons, not_or] at hw
    rw [List.cons_append, drawLoop, if_pos (Ne.symm hw.1), ih hw.2, List.append_assoc,
      List.singleton_append]

theorem drawLoop_close (read r : List Char) : drawLoop find (.name read) (')' :: r) =
    match find read with
    | none => none
    | some tp =>
      (drawLoop find .text r).map fun f => Nat.toDigits 10 tp.virtualBaseInd ++ f := by
  cases hfind : find read with
  | none => simp [drawLoop, hfind]
  | some tp => simp [drawLoop, hfind]

theorem drawLoop_digits {w : List Char} (hw : ∀ c ∈ w, c.isDigit) (r : List Char) :
    drawLoop find .number (w ++ r) = (drawLoop find .number r).map (w ++ ·) := by
  induction w with
  | nil => simp
  | cons c w ih =>
    rw [List.cons_append, drawLoop, if_pos (hw c List.mem_cons_self),
      ih fun d hd => hw d (List.mem_cons_of_mem c hd), Option.map_map]
    rfl

theorem drawLoop_boundary {r : List Char} (hr : Boundary r) :
    drawLoop find .number r = drawLoop find .text r := by
  obtain rfl | ⟨r', rfl⟩ := hr
  · rfl
  · rfl

theorem drawLoop_run {w : List Char} (hne : w ≠ []) (hw : ∀ c ∈ w, c.isDigit) (r : List Char) :
    drawLoop find .text (w ++ r) = (drawLoop find .number r).map (('#' :: w) ++ ·) := by
  obtain ⟨c, w, rfl⟩ := List.exists_cons_of_ne_nil hne
  rw [List.cons_append, drawLoop, if_pos (.inl (hw c List.mem_cons_self)),
    drawLoop_digits fun d hd => hw d (List.mem_cons_of_mem c hd), Option.map_map]
  rfl

theorem drawLoop_plain {c : Char} (hd : ¬ c.isDigit) (hm : c ≠ '-') (hp : c ≠ '(') (r : List Char) :
    drawLoop find .text (c :: r) = (drawLoop find .text r).map (c :: ·) := by
  rw [drawLoop, if_neg (by tauto), if_neg hp]

theorem drawLoop_blanks (n : ℕ) (r : List Char) :
    drawLoop find .text (List.replicate n ' ' ++ r) =
      (drawLoop find .text r).map (List.replicate n ' ' ++ ·) := by
  induction n with
  | zero => simp
  | succ n ih =>
    rw [List.replicate_succ, List.cons_append,
      drawLoop_plain (by decide) (by decide) (by decide), ih, Option.map_map]
    rfl

theorem drawLoop_fraction (l : Literal) {r : List Char} (hr : Boundary r) :
    drawLoop find .number (l.fractionText ++ r) =
      (drawLoop find .text r).map (l.markedFraction ++ ·) := by
  cases hf : l.fraction with
  | none => simp [Literal.fractionText, Literal.markedFraction, hf, drawLoop_boundary hr]
  | some f =>
    have hdigits := l.fraction_digits f hf
    simp only [Literal.fractionText, Literal.markedFraction, hf]
    rw [List.cons_append, drawLoop, if_neg (by decide), drawLoop_run hdigits.1 hdigits.2,
      drawLoop_boundary hr, Option.map_map]
    rfl

theorem drawLoop_literal (l : Literal) {r : List Char} (hr : Boundary r) :
    drawLoop find .text (l.text ++ r) = (drawLoop find .text r).map (l.marked ++ ·) := by
  have hwhole : drawLoop find .text (l.whole ++ (l.fractionText ++ r)) =
      (drawLoop find .text r).map ('#' :: (l.whole ++ l.markedFraction) ++ ·) := by
    rw [drawLoop_run l.whole_ne l.whole_digits, drawLoop_fraction l hr, Option.map_map]
    congr 1
    funext f
    simp
  have htext : l.text ++ r = l.sign.text ++ (l.whole ++ (l.fractionText ++ r)) := by
    simp [Literal.text]
  rw [htext]
  cases hs : l.sign with
  | none =>
    rw [Sign.text, List.nil_append, hwhole]
    simp [Literal.marked, hs]
  | plus =>
    rw [Sign.text, List.singleton_append, drawLoop_plain (by decide) (by decide) (by decide),
      hwhole, Option.map_map]
    simp [Literal.marked, hs, Function.comp_def]
  | minus =>
    -- the sign starts the number when a digit follows it
    obtain ⟨c, w, hw⟩ := List.exists_cons_of_ne_nil l.whole_ne
    have hc : c.isDigit := l.whole_digits c (by simp [hw])
    rw [Sign.text, List.singleton_append, drawLoop, if_pos (.inr ⟨rfl, by simp [hw, hc]⟩),
      drawLoop_digits l.whole_digits, drawLoop_fraction l hr, Option.map_map, Option.map_map]
    simp [Literal.marked, hs, Function.comp_def]

theorem drawLoop_operator (o : Operator) {r : List Char} (hr : Boundary r) :
    drawLoop find .text (o.text ++ r) = (drawLoop find .text r).map (o.text ++ ·) := by
  by_cases hsub : o = .sub
  · subst hsub
    have hhead : ¬ (r.head?.map Char.isDigit).getD false = true := by
      obtain rfl | ⟨r', rfl⟩ := hr <;> simp
    rw [Operator.text, List.singleton_append, drawLoop,
      if_neg (not_or.mpr ⟨by decide, fun h => hhead h.2⟩), if_neg (by decide)]
    rfl
  · cases o with
    | sub => exact absurd rfl hsub
    | choose =>
      rw [Operator.text, List.cons_append, drawLoop_plain (by decide) (by decide) (by decide),
        List.singleton_append, drawLoop_plain (by decide) (by decide) (by decide), Option.map_map]
      rfl
    | _ => exact drawLoop_plain (by decide) (by decide) (by decide) r

def drawState : Option (List Char) → DrawState
  | none => .text
  | some read => .name read

theorem drawLoop_open (body r : List Char) (hbody : ')' ∉ body) :
    drawLoop find .text ('(' :: (body ++ r)) = drawLoop find (.name body) r := by
  rw [drawLoop, if_neg (not_or.mpr ⟨by decide, fun h => absurd h.1 (by decide)⟩), if_pos rfl,
    drawLoop_name hbody, List.nil_append]

/-- The body of a reference has no end in it. -/
def Piece.Bounded : Piece → Prop
  | ref body _ => ')' ∉ body
  | _ => True

theorem not_mem_piece_text {p : Piece} (h : p.Bounded) (hclosed : ∀ body, p ≠ .ref body true) :
    ')' ∉ p.text := by
  cases p with
  | ref body closed =>
    cases closed with
    | true => exact absurd rfl (hclosed body)
    | false => simpa [Piece.text, Piece.Bounded] using h
  | literal l => exact not_mem_literal_text (by decide) (by decide) (by decide) (by decide)
  | operator o => cases o <;> decide

theorem drawLoop_pieces {ps : List (Piece × ℕ)} (hs : Spaced ps) (hb : ∀ q ∈ ps, q.1.Bounded)
    (read : Option (List Char)) :
    drawLoop find (drawState read) (spacedText Piece.text ps) =
      (drawPieces find read ps).map (spacedText Compiled.text) := by
  induction ps generalizing read with
  | nil => cases read <;> rfl
  | cons q ps ih =>
    obtain ⟨p, n⟩ := q
    have hr : Boundary (List.replicate n ' ' ++ spacedText Piece.text ps) := Spaced.boundary hs.1
    have hp : p.Bounded := hb (p, n) List.mem_cons_self
    have ih := ih hs.2 fun q hq => hb q (List.mem_cons_of_mem _ hq)
    -- behind a piece that is compiled, the blanks are copied
    have hrest : drawLoop find .text (List.replicate n ' ' ++ spacedText Piece.text ps) =
        (drawPieces find none ps).map fun cs =>
          List.replicate n ' ' ++ spacedText Compiled.text cs := by
      rw [drawLoop_blanks]
      exact (congrArg _ (ih none)).trans (by rw [Option.map_map]; rfl)
    -- inside a reference that is not closed, a piece and its blanks are read as a name
    have hname : ∀ read w, ')' ∉ w → drawLoop find (.name read)
        (w ++ (List.replicate n ' ' ++ spacedText Piece.text ps)) =
          (drawPieces find (some (read ++ w ++ List.replicate n ' ')) ps).map
            (spacedText Compiled.text) := by
      intro read w hw
      rw [drawLoop_name hw, drawLoop_name (by simp)]
      exact ih (some _)
    rw [spacedText]
    cases read with
    | none =>
      cases p with
      | ref body closed =>
        cases closed with
        | true =>
          have htext : (Piece.ref body true).text ++
              (List.replicate n ' ' ++ spacedText Piece.text ps) = '(' :: (body ++ ')' ::
                (List.replicate n ' ' ++ spacedText Piece.text ps)) := by simp [Piece.text]
          rw [drawState, htext, drawLoop_open _ _ hp, drawLoop_close, hrest, drawPieces]
          cases find body with
          | none => rfl
          | some tp => simp [spacedText, Compiled.text, Function.comp_def]
        | false =>
          rw [drawState, Piece.text, List.cons_append, drawLoop_open _ _ hp, drawPieces,
            ← List.nil_append (List.replicate n ' ' ++ _), hname body [] (by simp),
            List.append_nil]
      | literal l =>
        rw [drawState, Piece.text, drawLoop_literal l hr, hrest, drawPieces]
        simp [spacedText, Compiled.text, Function.comp_def]
      | operator o =>
        rw [drawState, Piece.text, drawLoop_operator o hr, hrest, drawPieces]
        simp [spacedText, Compiled.text, Function.comp_def]
    | some read =>
      by_cases hclosed : ∃ body, p = .ref body true
      · obtain ⟨body, rfl⟩ := hclosed
        have htext : (Piece.ref body true).text ++
            (List.replicate n ' ' ++ spacedText Piece.text ps) = ('(' :: body) ++ ')' ::
              (List.replicate n ' ' ++ spacedText Piece.text ps) := by simp [Piece.text]
        have hbody : ')' ∉ '(' :: body := by simpa [Piece.Bounded] using hp
        rw [drawState, htext, drawLoop_name hbody, drawLoop_close, hrest, drawPieces]
        cases find (read ++ '(' :: body) with
        | none => rfl
        | some tp => simp [spacedText, Compiled.text, Function.comp_def]
      · have hopen : ∀ body, p ≠ .ref body true := fun body h => hclosed ⟨body, h⟩
        have hdraw : drawPieces find (some read) ((p, n) :: ps) =
            drawPieces find (some (read ++ p.text ++ List.replicate n ' ')) ps := by
          cases p with
          | ref body closed =>
            cases closed with
            | true => exact absurd rfl (hopen body)
            | false => rfl
          | literal l => rfl
          | operator o => rfl
        rw [drawState, hname read p.text (not_mem_piece_text hp hopen), hdraw]

end Draw

end DrawFormula
end Ipk
end Szarp
