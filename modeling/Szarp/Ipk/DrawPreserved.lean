import Szarp.Ipk.DrawScan

/-!
# What a compiled formula preserves

The operands of a compiled formula are those of its tokens exactly when every token is one that
the three scanners read alike.
-/

namespace Szarp
namespace Ipk
namespace DrawFormula

open Szbase.Definable

/-! ## What is preserved -/

/-- The lexeme that a literal should give. -/
def Literal.expected (l : Literal) : List Lexeme :=
  if l.text = ['-', '3', '2', '7', '6', '8'] then [.operator 'X'] else [.literal l.value]

/-- A literal that is compiled right: it goes on behind -32768 with nothing, and its fraction is
zero. -/
def Literal.Preserved (l : Literal) : Prop :=
  (l.Old → l.whole = oldDigits ∧ l.fraction = none) ∧ ∀ f ∈ l.fraction, ∀ c ∈ f, c = '0'

theorem toNat_of_isDigit {c : Char} (h : c.isDigit) : 48 ≤ c.toNat ∧ (c.toNat = 48 → c = '0') := by
  have hle : 48 ≤ c.toNat := by
    simp only [Char.isDigit, Bool.and_eq_true, decide_eq_true_eq] at h
    exact h.1
  refine ⟨hle, fun heq => ?_⟩
  exact Char.toNat_inj.mp heq

theorem foldl_digits_eq_zero {f : List Char} (hf : ∀ c ∈ f, c.isDigit) (acc : ℕ) :
    f.foldl (fun acc c => acc * 10 + (c.toNat - 48)) acc = 0 ↔ acc = 0 ∧ ∀ c ∈ f, c = '0' := by
  induction f generalizing acc with
  | nil => simp
  | cons c f ih =>
    have hc := toNat_of_isDigit (hf c List.mem_cons_self)
    have hzero : acc * 10 + (c.toNat - 48) = 0 ↔ acc = 0 ∧ c = '0' := by
      constructor
      · exact fun h => ⟨by omega, hc.2 (by omega)⟩
      · rintro ⟨rfl, rfl⟩
        rfl
    rw [List.foldl_cons, ih fun d hd => hf d (List.mem_cons_of_mem c hd), hzero]
    simp [and_assoc]

theorem digitsValue_eq_zero {f : List Char} (hf : ∀ c ∈ f, c.isDigit) :
    digitsValue f = 0 ↔ ∀ c ∈ f, c = '0' := by
  rw [digitsValue, foldl_digits_eq_zero hf, eq_self, true_and]

theorem Literal.value_eq (l : Literal) :
    l.value = l.factor * digitsValue l.whole ↔ ∀ f ∈ l.fraction, ∀ c ∈ f, c = '0' := by
  have hfactor : l.factor ≠ 0 := by
    unfold Literal.factor
    split <;> norm_num
  unfold Literal.value
  cases hf : l.fraction with
  | none => simp
  | some f =>
    have hdigits := digitsValue_eq_zero (l.fraction_digits f hf).2
    simp [mul_add, hfactor, hdigits]

/-- The text of a literal is -32768 exactly when nothing follows the old digits. -/
theorem Literal.text_eq_old (l : Literal) : l.text = ['-', '3', '2', '7', '6', '8'] ↔
    l.Old ∧ l.whole = oldDigits ∧ l.fraction = none := by
  constructor
  · intro h
    have hsign : l.sign = .minus := by
      obtain ⟨c, w, hw⟩ := List.exists_cons_of_ne_nil l.whole_ne
      cases hs : l.sign with
      | none =>
        have hc : c = '-' := by simpa [Literal.text, hs, Sign.text, hw] using congrArg List.head? h
        exact absurd (hc ▸ l.whole_digits c (by simp [hw])) (by decide)
      | plus => simp [Literal.text, hs, Sign.text] at h
      | minus => rfl
    have htext : l.whole ++ l.fractionText = oldDigits := by
      simpa [Literal.text, hsign, Sign.text, oldDigits] using h
    have hfraction : l.fraction = none := by
      cases hf : l.fraction with
      | none => rfl
      | some f =>
        have hpoint : '.' ∈ oldDigits := by
          rw [← htext]
          simp [Literal.fractionText, hf]
        exact absurd hpoint (by decide)
    have hwhole : l.whole = oldDigits := by
      simpa [Literal.fractionText, hfraction] using htext
    exact ⟨⟨hsign, hwhole ▸ List.prefix_rfl⟩, hwhole, hfraction⟩
  · rintro ⟨⟨hsign, -⟩, hwhole, hfraction⟩
    simp [Literal.text, hsign, Sign.text, hwhole, oldDigits, Literal.fractionText, hfraction]

theorem drop_oldDigits {w : List Char} (h : oldDigits <+: w) : w.drop 5 = [] ↔ w = oldDigits := by
  obtain ⟨t, rfl⟩ := h
  constructor
  · intro ht
    have ht' : t = [] := by simpa [oldDigits] using ht
    rw [ht', List.append_nil]
  · intro ht
    have ht' : t = [] := by simpa using ht
    simp [ht', oldDigits]

/-- The cases of a literal: what it gives, and what it should give. -/
theorem Literal.lexemes_cases (l : Literal) :
    (l.lexemes = [.operator 'X'] ∧ l.expected = [.operator 'X'] ∧ l.Preserved) ∨
    (l.lexemes = [.literal (l.factor * digitsValue l.whole)] ∧ l.expected = [.literal l.value] ∧
      (l.Preserved ↔ l.value = l.factor * digitsValue l.whole)) ∨
    ((∃ v, l.lexemes = [.operator 'X', v] ∧ v ≠ .operator 'X' ∧ v.isOperand = true) ∧
      l.expected = [.literal l.value] ∧ ¬ l.Preserved) := by
  by_cases hold : l.Old
  · have hdrop := drop_oldDigits hold.2
    cases hd : l.whole.drop 5 with
    | nil =>
      have hwhole := hdrop.mp hd
      cases hf : l.fraction with
      | none =>
        left
        refine ⟨by simp [Literal.lexemes, hold, hd, hf], ?_, fun _ => ⟨hwhole, hf⟩, by simp [hf]⟩
        rw [Literal.expected, if_pos (l.text_eq_old.mpr ⟨hold, hwhole, hf⟩)]
      | some f =>
        right; right
        refine ⟨⟨.literal (digitsValue f), by simp [Literal.lexemes, hold, hd, hf], by simp, rfl⟩,
          ?_, ?_⟩
        · rw [Literal.expected, if_neg fun h => by simpa [hf] using (l.text_eq_old.mp h).2.2]
        · exact fun h => by simpa [hf] using (h.1 hold).2
    | cons c w =>
      have hwhole : l.whole ≠ oldDigits := fun h => by simpa [hd] using hdrop.mpr h
      right; right
      refine ⟨⟨.index (c :: w ++ l.markedFraction), by simp [Literal.lexemes, hold, hd], by simp,
        rfl⟩, ?_, ?_⟩
      · rw [Literal.expected, if_neg fun h => hwhole (l.text_eq_old.mp h).2.1]
      · exact fun h => hwhole (h.1 hold).1
  · right; left
    refine ⟨by simp [Literal.lexemes, hold], ?_, ?_⟩
    · rw [Literal.expected, if_neg fun h => hold (l.text_eq_old.mp h).1]
    · rw [l.value_eq]
      simp [Literal.Preserved, hold]

theorem Literal.lexemes_eq_expected (l : Literal) : l.lexemes = l.expected ↔ l.Preserved := by
  obtain ⟨hl, he, hp⟩ | ⟨hl, he, hp⟩ | ⟨⟨v, hl, -, -⟩, he, hp⟩ := l.lexemes_cases
  · simp [hl, he, hp]
  · rw [hl, he, hp]
    simp [eq_comm]
  · simp [hl, he, hp]

theorem Literal.length_expected_le (l : Literal) : l.expected.length ≤ l.lexemes.length := by
  obtain ⟨hl, he, -⟩ | ⟨hl, he, -⟩ | ⟨⟨v, hl, -, -⟩, he, -⟩ := l.lexemes_cases <;> simp [hl, he]

def Lexeme.isLiteral : Lexeme → Bool
  | .literal _ => true
  | _ => false

/-- A literal that is not found as one has become an index. -/
theorem Literal.count_lexemes (l : Literal) :
    l.lexemes.countP Lexeme.isLiteral + l.lexemes.countP Lexeme.isIndex =
      l.expected.countP Lexeme.isLiteral := by
  obtain ⟨hl, he, -⟩ | ⟨hl, he, -⟩ | ⟨⟨v, hl, hv, hop⟩, he, -⟩ := l.lexemes_cases
  · simp [hl, he, Lexeme.isLiteral, Lexeme.isIndex]
  · simp [hl, he, Lexeme.isLiteral, Lexeme.isIndex]
  · cases v <;> simp_all [Lexeme.isLiteral, Lexeme.isIndex, Lexeme.isOperand]

theorem Literal.count_expected_index (l : Literal) : l.expected.countP Lexeme.isIndex = 0 := by
  unfold Literal.expected
  split <;> rfl

section Preserved

variable {find : List Char → Option Operand}

/-- The operands of a token, where those of literals are given. -/
def Token.operands (find : List Char → Option Operand) (f : Literal → List Lexeme) :
    Token → List Lexeme
  | param name _ =>
    match find name with
    | none => []
    | some tp =>
      match tp.constant with
      | some (some v) => f (.ofInt v)
      | _ => [.index (Nat.toDigits 10 tp.virtualBaseInd)]
  | literal l => f l
  | operator o => o.lexemes

/-- A parameter that is not constant has no parenthesis in its name. -/
def Token.Plain (find : List Char → Option Operand) : Token → Prop
  | param name _ => ∀ tp, find name = some tp → (∀ v, tp.constant ≠ some (some v)) → '(' ∉ name
  | _ => True

/-- A token that is compiled right. -/
def Token.Preserved (find : List Char → Option Operand) : Token → Prop
  | param name _ => ∀ tp, find name = some tp →
      match tp.constant with
      | some (some v) => (Literal.ofInt v).Preserved
      | _ => '(' ∉ name
  | literal l => l.Preserved
  | operator _ => True

theorem Token.preserved_iff (t : Token) :
    t.Preserved find ↔ t.Plain find ∧
      t.operands find Literal.lexemes = t.operands find Literal.expected := by
  cases t with
  | param name h =>
    simp only [Token.Preserved, Token.Plain, Token.operands]
    cases hfind : find name with
    | none => simp
    | some tp =>
      simp only [Option.some.injEq, forall_eq']
      cases hconst : tp.constant with
      | none => simp
      | some v =>
        cases v with
        | none => simp
        | some v => simp [Literal.lexemes_eq_expected]
  | literal l => simp [Token.Preserved, Token.Plain, Token.operands,
      Literal.lexemes_eq_expected]
  | operator o => simp [Token.Preserved, Token.Plain, Token.operands]

theorem Token.length_expected_le (t : Token) :
    (t.operands find Literal.expected).length ≤ (t.operands find Literal.lexemes).length := by
  cases t with
  | param name h =>
    cases hfind : find name with
    | none => simp [Token.operands, hfind]
    | some tp =>
      cases hconst : tp.constant with
      | none => simp [Token.operands, hfind, hconst]
      | some v =>
        cases v with
        | none => simp [Token.operands, hfind, hconst]
        | some v =>
          simpa [Token.operands, hfind, hconst] using (Literal.ofInt v).length_expected_le
  | literal l => exact l.length_expected_le
  | operator o => exact le_rfl

/-- A compiled formula preserves the operands of its tokens: its index tokens are the cache, in
order, and its operands are those of the tokens. -/
structure Preserves (find : List Char → Option Operand) (ts : List (Token × ℕ))
    (cache : List Operand) (parsed : List Char) : Prop where
  indices : (operands parsed).filter Lexeme.isIndex =
    cache.map fun tp => .index (Nat.toDigits 10 tp.virtualBaseInd)
  operands : operands parsed = ts.flatMap fun t => t.1.operands find Literal.expected

/-! ### Counting -/

def Piece.isClosed : Piece → Bool
  | ref _ true => true
  | _ => false

def Piece.literals : Piece → List Literal
  | literal l => [l]
  | _ => []

def Compiled.literals : Compiled → List Literal
  | literal l => [l]
  | _ => []

def Compiled.isIndex : Compiled → Bool
  | index _ => true
  | _ => false

/-- What the compiler makes of a piece: something of its kind, or part of a name. -/
theorem drawPieces_cons {read : Option (List Char)} {p : Piece} {n : ℕ} {ps : List (Piece × ℕ)}
    {cs : List (Compiled × ℕ)} (h : drawPieces find read ((p, n) :: ps) = some cs) :
    (∃ c cs', cs = (c, n) :: cs' ∧ drawPieces find none ps = some cs' ∧
      c.isIndex = p.isClosed ∧ c.literals = p.literals) ∨
    (p.isClosed = false ∧ ∃ read', drawPieces find (some read') ps = some cs) := by
  have hindex : ∀ {body tp}, (drawPieces find none ps).map ((Compiled.index tp, n) :: ·) = some cs →
      ∃ c cs', cs = (c, n) :: cs' ∧ drawPieces find none ps = some cs' ∧
        c.isIndex = (Piece.ref body true).isClosed ∧
        c.literals = (Piece.ref body true).literals := by
    intro body tp h
    obtain ⟨cs', hcs', rfl⟩ := Option.map_eq_some_iff.mp h
    exact ⟨_, cs', rfl, hcs', rfl, rfl⟩
  cases read with
  | none =>
    cases p with
    | ref body closed =>
      cases closed with
      | true =>
        rw [drawPieces] at h
        split at h
        · exact absurd h (by simp)
        · exact .inl (hindex h)
      | false => exact .inr ⟨rfl, _, h⟩
    | literal l =>
      obtain ⟨cs', hcs', rfl⟩ := Option.map_eq_some_iff.mp h
      exact .inl ⟨_, cs', rfl, hcs', rfl, rfl⟩
    | operator o =>
      obtain ⟨cs', hcs', rfl⟩ := Option.map_eq_some_iff.mp h
      exact .inl ⟨_, cs', rfl, hcs', rfl, rfl⟩
  | some read =>
    cases p with
    | ref body closed =>
      cases closed with
      | true =>
        rw [drawPieces] at h
        split at h
        · exact absurd h (by simp)
        · exact .inl (hindex h)
      | false => exact .inr ⟨rfl, _, h⟩
    | literal l => exact .inr ⟨rfl, _, h⟩
    | operator o => exact .inr ⟨rfl, _, h⟩

/-- Every reference that is closed gives an index, and no literal comes from elsewhere. -/
theorem drawPieces_counts {ps : List (Piece × ℕ)} {read : Option (List Char)}
    {cs : List (Compiled × ℕ)} (h : drawPieces find read ps = some cs) :
    (cs.countP fun c => c.1.isIndex) = (ps.countP fun p => p.1.isClosed) ∧
      (cs.flatMap fun c => c.1.literals).Sublist (ps.flatMap fun p => p.1.literals) := by
  induction ps generalizing read cs with
  | nil =>
    have hcs : cs = [] := by cases read <;> exact (Option.some.inj h).symm
    simp [hcs]
  | cons q ps ih =>
    obtain ⟨p, n⟩ := q
    obtain ⟨c, cs', rfl, hcs', hindex, hliterals⟩ | ⟨hclosed, read', hread⟩ := drawPieces_cons h
    · obtain ⟨hcount, hsub⟩ := ih hcs'
      rw [List.countP_cons, List.countP_cons, List.flatMap_cons, List.flatMap_cons, hindex,
        hliterals, hcount]
      exact ⟨rfl, (List.Sublist.refl _).append hsub⟩
    · obtain ⟨hcount, hsub⟩ := ih hread
      rw [List.countP_cons, List.flatMap_cons, hcount, hclosed]
      exact ⟨by simp, hsub.trans (List.sublist_append_right _ _)⟩

theorem drawPieces_spaced {ps : List (Piece × ℕ)} (hs : Spaced ps) {read : Option (List Char)}
    {cs : List (Compiled × ℕ)} (h : drawPieces find read ps = some cs) :
    Spaced cs ∧ (ps = [] → cs = []) := by
  induction ps generalizing read cs with
  | nil =>
    have hcs : cs = [] := by cases read <;> exact (Option.some.inj h).symm
    exact ⟨hcs ▸ trivial, fun _ => hcs⟩
  | cons q ps ih =>
    obtain ⟨p, n⟩ := q
    refine ⟨?_, nofun⟩
    obtain ⟨c, cs', rfl, hcs', -, -⟩ | ⟨-, read', hread⟩ := drawPieces_cons h
    · obtain ⟨hspaced, hnil⟩ := ih hs.2 hcs'
      exact ⟨fun hne => hs.1 fun hps => hne (hnil hps), hspaced⟩
    · exact (ih hs.2 hread).1

theorem prepareTokens_cons {t : Token} {n : ℕ} {ts : List (Token × ℕ)} {ps : List (Piece × ℕ)}
    {cache : List Operand} (h : prepareTokens find ((t, n) :: ts) = some (ps, cache)) :
    ∃ p os ps' cache', prepareToken find t = some (p, os) ∧
      prepareTokens find ts = some (ps', cache') ∧ ps = (p, n) :: ps' ∧ cache = os ++ cache' := by
  rw [prepareTokens] at h
  cases hp : prepareToken find t with
  | none => simp [hp] at h
  | some q =>
    obtain ⟨p, os⟩ := q
    simp only [hp, Option.map_eq_some_iff, Prod.mk.injEq] at h
    obtain ⟨⟨ps', cache'⟩, hps, rfl, rfl⟩ := h
    exact ⟨p, os, ps', cache', rfl, hps, rfl, rfl⟩

theorem prepareToken_cases {t : Token} {p : Piece} {os : List Operand}
    (h : prepareToken find t = some (p, os)) :
    (∃ name hname tp body closed cache, t = .param name hname ∧ find name = some tp ∧
      tp.constant = some none ∧ prepareName find name = some (body, closed, cache) ∧
      p = .ref body closed ∧ os = tp :: cache) ∨
    (∃ name hname tp v, t = .param name hname ∧ find name = some tp ∧
      tp.constant = some (some v) ∧ p = .literal (.ofInt v) ∧ os = []) ∨
    (∃ l, t = .literal l ∧ p = .literal l ∧ os = []) ∨
    ∃ o, t = .operator o ∧ p = .operator o ∧ os = [] := by
  cases t with
  | param name hname =>
    rw [prepareToken] at h
    cases hfind : find name with
    | none => simp [hfind] at h
    | some tp =>
      cases hconst : tp.constant with
      | none => simp [hfind, hconst] at h
      | some v =>
        cases v with
        | some v =>
          simp only [hfind, hconst, Option.some.injEq, Prod.mk.injEq] at h
          exact .inr (.inl ⟨name, hname, tp, v, rfl, hfind, hconst, h.1.symm, h.2.symm⟩)
        | none =>
          simp only [hfind, hconst, Option.map_eq_some_iff, Prod.mk.injEq] at h
          obtain ⟨⟨body, closed, cache⟩, hq, rfl, rfl⟩ := h
          exact .inl ⟨name, hname, tp, body, closed, cache, rfl, hfind, hconst, hq, rfl, rfl⟩
  | literal l =>
    simp only [prepareToken, Option.some.injEq, Prod.mk.injEq] at h
    exact .inr (.inr (.inl ⟨l, rfl, h.1.symm, h.2.symm⟩))
  | operator o =>
    simp only [prepareToken, Option.some.injEq, Prod.mk.injEq] at h
    exact .inr (.inr (.inr ⟨o, rfl, h.1.symm, h.2.symm⟩))

theorem prepareName_plain {name : List Char} (h : '(' ∉ name) :
    prepareName find name = some (name, true, []) := by
  induction name with
  | nil => rfl
  | cons c name ih =>
    rw [List.mem_cons, not_or] at h
    rw [prepareName, if_pos (Ne.symm h.1), ih h.2]
    rfl

/-- A parenthesis in a name makes it lose its end or adds a parameter. -/
theorem prepareName_spec {name body : List Char} {closed : Bool} {cache : List Operand}
    (h : prepareName find name = some (body, closed, cache)) :
    (')' ∉ name → ')' ∉ body) ∧ ('(' ∈ name → closed = true → cache ≠ []) := by
  induction name generalizing body cache with
  | nil =>
    simp only [prepareName, Option.some.injEq, Prod.mk.injEq] at h
    simp [← h.1]
  | cons c name ih =>
    rw [prepareName] at h
    by_cases hc : c = '('
    · subst hc
      rw [if_neg (by simp)] at h
      cases hfind : find name with
      | none => simp [hfind] at h
      | some tp =>
        cases hconst : tp.constant with
        | none => simp [hfind, hconst] at h
        | some v =>
          cases v with
          | some v =>
            simp only [hfind, hconst, Option.some.injEq, Prod.mk.injEq] at h
            obtain ⟨rfl, rfl, rfl⟩ := h
            refine ⟨fun _ => ?_, fun _ h => absurd h (by decide)⟩
            rw [← Literal.text_ofInt]
            exact not_mem_literal_text (by decide) (by decide) (by decide) (by decide)
          | none =>
            simp only [hfind, hconst, Option.map_eq_some_iff, Prod.mk.injEq] at h
            obtain ⟨⟨body', closed', cache'⟩, hq, rfl, rfl, rfl⟩ := h
            refine ⟨fun hname => ?_, fun _ _ => List.cons_ne_nil _ _⟩
            rw [List.mem_cons, not_or] at hname ⊢
            exact ⟨by decide, (ih hq).1 hname.2⟩
    · rw [if_pos hc, Option.map_eq_some_iff] at h
      obtain ⟨⟨body', closed', cache'⟩, hq, h⟩ := h
      simp only [Prod.mk.injEq] at h
      obtain ⟨rfl, rfl, rfl⟩ := h
      constructor
      · intro hname
        rw [List.mem_cons, not_or] at hname ⊢
        exact ⟨hname.1, (ih hq).1 hname.2⟩
      · intro hname
        exact (ih hq).2 ((List.mem_cons.mp hname).resolve_left (Ne.symm hc))

theorem prepareToken_bounded {t : Token} {p : Piece} {os : List Operand}
    (h : prepareToken find t = some (p, os)) : p.Bounded := by
  obtain ⟨name, hname, tp, body, closed, cache, -, -, -, hq, rfl, -⟩ |
    ⟨name, hname, tp, v, -, -, -, rfl, -⟩ | ⟨l, -, rfl, -⟩ | ⟨o, -, rfl, -⟩ := prepareToken_cases h
  · exact (prepareName_spec hq).1 hname
  · trivial
  · trivial
  · trivial

theorem prepareTokens_spaced {ts : List (Token × ℕ)} (hs : Spaced ts) {ps : List (Piece × ℕ)}
    {cache : List Operand} (h : prepareTokens find ts = some (ps, cache)) :
    Spaced ps ∧ (∀ q ∈ ps, q.1.Bounded) ∧ (ts = [] → ps = []) := by
  induction ts generalizing ps cache with
  | nil =>
    obtain rfl : [] = ps := (Prod.mk.inj (Option.some.inj h)).1
    exact ⟨trivial, nofun, fun _ => rfl⟩
  | cons q ts ih =>
    obtain ⟨t, n⟩ := q
    obtain ⟨p, os, ps', cache', hp, hps, rfl, -⟩ := prepareTokens_cons h
    obtain ⟨hspaced, hbounded, hnil⟩ := ih hs.2 hps
    refine ⟨⟨fun hne => hs.1 fun hts => hne (hnil hts), hspaced⟩, ?_, nofun⟩
    intro q hq
    obtain rfl | hq := List.mem_cons.mp hq
    · exact prepareToken_bounded hp
    · exact hbounded q hq

/-- The number of literals that the literals of a formula should give. -/
def literalCount (ls : List Literal) : ℕ := (ls.map fun l => l.expected.countP Lexeme.isLiteral).sum

theorem literalCount_append (ls ls' : List Literal) :
    literalCount (ls ++ ls') = literalCount ls + literalCount ls' := by
  simp [literalCount]

theorem prepareToken_counts {t : Token} {p : Piece} {os : List Operand}
    (h : prepareToken find t = some (p, os)) :
    p.isClosed.toNat ≤ os.length ∧ (p.isClosed.toNat = os.length → t.Plain find) ∧
      (t.operands find Literal.expected).countP Lexeme.isLiteral = literalCount p.literals := by
  obtain ⟨name, hname, tp, body, closed, cache, rfl, hfind, hconst, hq, rfl, rfl⟩ |
    ⟨name, hname, tp, v, rfl, hfind, hconst, rfl, rfl⟩ | ⟨l, rfl, rfl, rfl⟩ |
    ⟨o, rfl, rfl, rfl⟩ := prepareToken_cases h
  · have hoperands : ((Token.param name hname).operands find Literal.expected).countP
        Lexeme.isLiteral = 0 := by
      simp [Token.operands, hfind, hconst, Lexeme.isLiteral]
    refine ⟨?_, ?_, hoperands⟩
    · cases closed <;> simp [Piece.isClosed]
    · intro hcount tp' _ _ hopen
      cases closed with
      | false => simp [Piece.isClosed] at hcount
      | true =>
        have hcache : cache = [] := by simpa [Piece.isClosed] using hcount
        exact (prepareName_spec hq).2 hopen rfl hcache
  · refine ⟨by simp [Piece.isClosed], fun _ tp' htp hnot => ?_, ?_⟩
    · obtain rfl : tp = tp' := Option.some.inj (hfind.symm.trans htp)
      exact absurd hconst (hnot v)
    · simp [Token.operands, hfind, hconst, Piece.literals, literalCount]
  · exact ⟨by simp [Piece.isClosed], fun _ => trivial, by
      simp [Token.operands, Piece.literals, literalCount]⟩
  · refine ⟨by simp [Piece.isClosed], fun _ => trivial, ?_⟩
    cases o <;> rfl

theorem prepareTokens_counts {ts : List (Token × ℕ)} {ps : List (Piece × ℕ)}
    {cache : List Operand} (h : prepareTokens find ts = some (ps, cache)) :
    (ps.countP fun p => p.1.isClosed) ≤ cache.length ∧
      ((ps.countP fun p => p.1.isClosed) = cache.length → ∀ t ∈ ts, t.1.Plain find) ∧
      (ts.flatMap fun t => t.1.operands find Literal.expected).countP Lexeme.isLiteral =
        literalCount (ps.flatMap fun p => p.1.literals) := by
  induction ts generalizing ps cache with
  | nil =>
    obtain ⟨rfl, rfl⟩ := Prod.mk.inj (Option.some.inj h)
    exact ⟨le_rfl, fun _ => nofun, rfl⟩
  | cons q ts ih =>
    obtain ⟨t, n⟩ := q
    obtain ⟨p, os, ps', cache', hp, hps, rfl, rfl⟩ := prepareTokens_cons h
    obtain ⟨hle, hplain, hlits⟩ := prepareToken_counts hp
    obtain ⟨hles, hplains, hlitss⟩ := ih hps
    have hcount : (((p, n) :: ps').countP fun p => p.1.isClosed) =
        (ps'.countP fun p => p.1.isClosed) + p.isClosed.toNat := by
      rw [List.countP_cons]
      cases p.isClosed <;> rfl
    rw [hcount, List.length_append, List.flatMap_cons, List.countP_append, List.flatMap_cons,
      literalCount_append, hlits, hlitss]
    refine ⟨by omega, ?_, rfl⟩
    intro heq q hq
    obtain rfl | hq := List.mem_cons.mp hq
    · exact hplain (by omega)
    · exact hplains (by omega) q hq

theorem countP_compiled (cs : List (Compiled × ℕ)) :
    (cs.flatMap fun c => c.1.lexemes).countP Lexeme.isLiteral +
        (cs.flatMap fun c => c.1.lexemes).countP Lexeme.isIndex =
      literalCount (cs.flatMap fun c => c.1.literals) + cs.countP fun c => c.1.isIndex := by
  induction cs with
  | nil => rfl
  | cons q cs ih =>
    obtain ⟨c, n⟩ := q
    have hc : c.lexemes.countP Lexeme.isLiteral + c.lexemes.countP Lexeme.isIndex =
        literalCount c.literals + c.isIndex.toNat := by
      cases c with
      | index tp => rfl
      | literal l =>
        simpa [Compiled.lexemes, Compiled.literals, literalCount, Compiled.isIndex] using
          l.count_lexemes
      | operator o => cases o <;> rfl
    have hcount : (((c, n) :: cs).countP fun c => c.1.isIndex) =
        (cs.countP fun c => c.1.isIndex) + c.isIndex.toNat := by
      rw [List.countP_cons]
      cases c.isIndex <;> rfl
    rw [hcount, List.flatMap_cons, List.countP_append, List.countP_append, List.flatMap_cons,
      literalCount_append]
    simp only at hc ⊢
    omega

/-- Without parentheses in names every token is compiled by itself. -/
theorem drawPieces_plain {ts : List (Token × ℕ)} {ps : List (Piece × ℕ)} {cache : List Operand}
    {cs : List (Compiled × ℕ)} (h : prepareTokens find ts = some (ps, cache))
    (hplain : ∀ t ∈ ts, t.1.Plain find) (hcs : drawPieces find none ps = some cs) :
    (cs.flatMap fun c => c.1.lexemes) =
        (ts.flatMap fun t => t.1.operands find Literal.lexemes) ∧
      cache.map (fun tp => .index (Nat.toDigits 10 tp.virtualBaseInd)) =
        (ts.flatMap fun t => t.1.operands find Literal.expected).filter Lexeme.isIndex := by
  -- The induction is on the tokens; `hcons` puts the first one in front.
  induction ts generalizing ps cache cs with
  | nil =>
    obtain ⟨rfl, rfl⟩ := Prod.mk.inj (Option.some.inj h)
    obtain rfl : [] = cs := Option.some.inj hcs
    exact ⟨rfl, rfl⟩
  | cons q ts ih =>
    obtain ⟨t, n⟩ := q
    obtain ⟨p, os, ps', cache', hp, hps, rfl, rfl⟩ := prepareTokens_cons h
    have ht : t.Plain find := hplain (t, n) List.mem_cons_self
    have hrest : ∀ q ∈ ts, q.1.Plain find := fun q hq => hplain q (List.mem_cons_of_mem _ hq)
    have hcons : ∀ {c : Compiled} {cs' : List (Compiled × ℕ)},
        drawPieces find none ps' = some cs' →
        c.lexemes = t.operands find Literal.lexemes →
        os.map (fun tp => .index (Nat.toDigits 10 tp.virtualBaseInd)) =
          (t.operands find Literal.expected).filter Lexeme.isIndex →
        (((c, n) :: cs').flatMap fun c => c.1.lexemes) =
            (((t, n) :: ts).flatMap fun t => t.1.operands find Literal.lexemes) ∧
          (os ++ cache').map (fun tp => .index (Nat.toDigits 10 tp.virtualBaseInd)) =
            (((t, n) :: ts).flatMap fun t => t.1.operands find Literal.expected).filter
              Lexeme.isIndex := by
      intro c cs' hcs' hc hos
      obtain ⟨hlex, hcache⟩ := ih hps hrest hcs'
      rw [List.flatMap_cons, List.flatMap_cons, List.flatMap_cons, List.map_append,
        List.filter_append, hlex, hcache, hc, hos]
      exact ⟨rfl, rfl⟩
    have hliteral : ∀ l : Literal, l.expected.filter Lexeme.isIndex = [] := by
      intro l
      rw [List.filter_eq_nil_iff]
      exact fun x hx => (List.countP_eq_zero.mp l.count_expected_index) x hx
    obtain ⟨name, hname, tp, body, closed, os', rfl, hfind, hconst, hq, rfl, rfl⟩ |
      ⟨name, hname, tp, v, rfl, hfind, hconst, rfl, rfl⟩ | ⟨l, rfl, rfl, rfl⟩ |
      ⟨o, rfl, rfl, rfl⟩ := prepareToken_cases hp
    -- a parameter that is not constant: its reference becomes an index
    · have hopen : '(' ∉ name := ht tp hfind (by simp [hconst])
      rw [prepareName_plain hopen] at hq
      simp only [Option.some.injEq, Prod.mk.injEq] at hq
      obtain ⟨rfl, rfl, rfl⟩ := hq
      simp only [drawPieces, hfind, Option.map_eq_some_iff] at hcs
      obtain ⟨cs', hcs', rfl⟩ := hcs
      refine hcons hcs' ?_ ?_
      · simp [Compiled.lexemes, Token.operands, hfind, hconst]
      · rw [Token.operands, hfind]
        simp only [hconst]
        rfl
    -- a constant parameter is compiled as the literal that replaces it
    · obtain ⟨cs', hcs', rfl⟩ := Option.map_eq_some_iff.mp hcs
      refine hcons hcs' ?_ ?_
      · simp [Compiled.lexemes, Token.operands, hfind, hconst]
      · simp [Token.operands, hfind, hconst, hliteral]
    · obtain ⟨cs', hcs', rfl⟩ := Option.map_eq_some_iff.mp hcs
      exact hcons hcs' rfl (hliteral l).symm
    · obtain ⟨cs', hcs', rfl⟩ := Option.map_eq_some_iff.mp hcs
      have ho : o.lexemes.filter Lexeme.isIndex = [] := by cases o <;> rfl
      exact hcons hcs' rfl ho.symm

/-- Lists put together from longer parts are equal only if the parts are. -/
theorem flatMap_eq_iff_of_length_le {α β : Type} {f g : α → List β} {l : List α}
    (hle : ∀ a ∈ l, (g a).length ≤ (f a).length) :
    l.flatMap f = l.flatMap g ↔ ∀ a ∈ l, f a = g a := by
  refine ⟨?_, List.flatMap_congr⟩
  induction l with
  | nil => exact fun _ => nofun
  | cons a l ih =>
    intro h
    have hles : ∀ b ∈ l, (g b).length ≤ (f b).length :=
      fun b hb => hle b (List.mem_cons_of_mem a hb)
    have hsum : (l.flatMap g).length ≤ (l.flatMap f).length := by
      rw [List.length_flatMap, List.length_flatMap]
      exact List.sum_le_sum hles
    have hlen := congrArg List.length h
    rw [List.flatMap_cons, List.flatMap_cons, List.length_append, List.length_append] at hlen
    have ha := hle a List.mem_cons_self
    obtain ⟨hhead, htail⟩ := List.append_inj h (by omega)
    intro b hb
    obtain rfl | hb := List.mem_cons.mp hb
    · exact hhead
    · exact ih hles htail b hb

theorem prepareDefinable_tokens {params : List Operand} {self : List Char} {m : ℕ}
    {ts : List (Token × ℕ)} (hs : Spaced ts) {cache : List Operand} {parsed : List Char}
    (h : prepareDefinable params self (List.replicate m ' ' ++ spacedText Token.text ts) =
      some (cache, parsed)) :
    ∃ ps cs, prepareTokens (resolve params self) ts = some (ps, cache) ∧
      drawPieces (resolve params self) none ps = some cs ∧
      operands parsed = cs.flatMap fun c => c.1.lexemes := by
  rw [prepareDefinable, prepareLoop_append (by simp), prepareLoop_tokens hs, Option.map_map] at h
  cases hps : prepareTokens (resolve params self) ts with
  | none => simp [hps] at h
  | some q =>
    obtain ⟨ps, cache'⟩ := q
    obtain ⟨hspaced, hbounded, -⟩ := prepareTokens_spaced hs hps
    have hdraw := @drawLoop_pieces (resolve params self) ps hspaced hbounded none
    simp only [hps, Option.map_some, Function.comp_def, getDrawFormula, drawLoop_blanks] at h
    rw [drawState] at hdraw
    rw [hdraw] at h
    cases hcs : drawPieces (resolve params self) none ps with
    | none => simp [hcs] at h
    | some cs =>
      simp only [hcs, Option.map_some, Option.some.injEq, Prod.mk.injEq] at h
      obtain ⟨rfl, rfl⟩ := h
      refine ⟨ps, cs, rfl, hcs, ?_⟩
      rw [replaceNodata_copy (by simp), operands_blanks,
        operands_spaced (drawPieces_spaced hspaced hcs).1]

/-- For every formula of tokens that `PrepareDefinable` accepts, the compiled formula preserves
parameters and literals exactly when every token is compiled right. -/
theorem preserves_iff {params : List Operand} {self : List Char} {m : ℕ}
    {ts : List (Token × ℕ)} (hs : Spaced ts) {cache : List Operand} {parsed : List Char}
    (h : prepareDefinable params self (List.replicate m ' ' ++ spacedText Token.text ts) =
      some (cache, parsed)) :
    Preserves (resolve params self) ts cache parsed ↔
      ∀ t ∈ ts, t.1.Preserved (resolve params self) := by
  obtain ⟨ps, cs, hps, hcs, hparsed⟩ := prepareDefinable_tokens hs h
  constructor
  · intro ⟨hindices, hoperands⟩
    rw [hparsed] at hindices hoperands
    -- no literal has become an index, so every parameter of the cache has a closed reference
    have hplain : ∀ t ∈ ts, t.1.Plain (resolve params self) := by
      obtain ⟨hindex, hsub⟩ := drawPieces_counts hcs
      obtain ⟨hle, hplain, hlits⟩ := prepareTokens_counts hps
      have hcount := countP_compiled cs
      have hsum : literalCount (cs.flatMap fun c => c.1.literals) ≤
          literalCount (ps.flatMap fun p => p.1.literals) :=
        (hsub.map _).sum_le_sum fun _ _ => Nat.zero_le _
      have hcache : (cs.flatMap fun c => c.1.lexemes).countP Lexeme.isIndex = cache.length := by
        rw [List.countP_eq_length_filter, hindices, List.length_map]
      rw [← hoperands] at hlits
      exact hplain (by omega)
    obtain ⟨hlex, -⟩ := drawPieces_plain hps hplain hcs
    rw [hlex, flatMap_eq_iff_of_length_le fun t _ => t.1.length_expected_le] at hoperands
    intro t ht
    exact t.1.preserved_iff.mpr ⟨hplain t ht, hoperands t ht⟩
  · intro hpreserved
    have hboth := fun (t : Token × ℕ) ht => t.1.preserved_iff.mp (hpreserved t ht)
    obtain ⟨hlex, hcache⟩ := drawPieces_plain hps (fun t ht => (hboth t ht).1) hcs
    have hoperands : operands parsed =
        ts.flatMap fun t => t.1.operands (resolve params self) Literal.expected := by
      rw [hparsed, hlex]
      exact List.flatMap_congr fun t ht => (hboth t ht).2
    exact ⟨by rw [hoperands, hcache], hoperands⟩

/-- The formula `(a) -7 *` of the parameter `b`. -/
def signedTokens : List (Token × ℕ) :=
  [(.param ['a'] (by decide), 1),
    (.literal ⟨.minus, ['7'], none, by decide, List.forall_mem_singleton.mpr rfl,
      Literal.no_fraction⟩, 1),
    (.operator .mul, 0)]

theorem signedTokens_preserved :
    Spaced signedTokens ∧
      prepareDefinable [⟨['a'], 3, some none⟩] ['b'] (spacedText Token.text signedTokens) =
        some ([⟨['a'], 3, some none⟩], ['3', ' ', '#', '-', '7', ' ', '*']) ∧
      Preserves (resolve [⟨['a'], 3, some none⟩] ['b']) signedTokens [⟨['a'], 3, some none⟩]
        ['3', ' ', '#', '-', '7', ' ', '*'] := by
  have hs : Spaced signedTokens :=
    ⟨fun _ => by decide, fun _ => by decide, fun h => absurd rfl h, trivial⟩
  have h : prepareDefinable [⟨['a'], 3, some none⟩] ['b'] (spacedText Token.text signedTokens) =
      some ([⟨['a'], 3, some none⟩], ['3', ' ', '#', '-', '7', ' ', '*']) := by decide
  refine ⟨hs, h, (preserves_iff (m := 0) hs h).mpr ?_⟩
  intro t ht
  simp only [signedTokens, List.mem_cons, List.not_mem_nil, or_false] at ht
  obtain rfl | rfl | rfl := ht
  · intro tp htp
    obtain rfl : ⟨['a'], 3, some none⟩ = tp := Option.some.inj htp
    decide
  · exact ⟨fun h => absurd h.2 (by decide), fun _ h => absurd h (by simp)⟩
  · trivial

/-- The formula `(a) 12.5 *` of the parameter `b`. -/
def fractionTokens : List (Token × ℕ) :=
  [(.param ['a'] (by decide), 1),
    (.literal ⟨.none, ['1', '2'], some ['5'], by decide, by simp,
      by rintro f ⟨⟩; exact ⟨List.cons_ne_nil _ _, List.forall_mem_singleton.mpr rfl⟩⟩, 1),
    (.operator .mul, 0)]

/-- The fraction of a literal is lost. -/
theorem fractionTokens_not_preserved :
    Spaced fractionTokens ∧
      prepareDefinable [⟨['a'], 3, some none⟩] ['b'] (spacedText Token.text fractionTokens) =
        some ([⟨['a'], 3, some none⟩],
          ['3', ' ', '#', '1', '2', '.', '#', '5', ' ', '*']) ∧
      ¬ Preserves (resolve [⟨['a'], 3, some none⟩] ['b']) fractionTokens
        [⟨['a'], 3, some none⟩] ['3', ' ', '#', '1', '2', '.', '#', '5', ' ', '*'] := by
  refine ⟨⟨fun _ => by decide, fun _ => by decide, nofun, trivial⟩, by decide, fun h => ?_⟩
  have hoperands := h.operands
  revert hoperands
  decide +kernel

end Preserved

end DrawFormula
end Ipk
end Szarp
