import Szarp.Ipk.CheckConfiguration
import Szarp.Szbase.CombinedDatablock

/-!
# The type of combined parameters

`TParam::PrepareDefinable` classifies a parameter by a search in its compiled formula. What a
combined parameter should be: two operands, of which the formula makes the word that is read from
their data files.
-/

namespace Szarp
namespace Szbase
namespace Definable

/-! ## The stack behind a formula -/

/-- The stack at the end of a formula. -/
def stackLoop (env : Environment) (row : List Value) (time : ℤ) :
    ℕ → List Char → ℕ → List Value → Except Outcome (List Value)
  | n + 1, c :: text, it, stack =>
    match pass env row time c text it stack with
    | .error o => .error o
    | .ok (text, it, stack) => stackLoop env row time n text it stack
  | _, _, _, stack => .ok stack

variable {env : Environment} {row : List Value} {time : ℤ}

/-- The operators that need an element of the stack. -/
def applied : List Char :=
  ['+', '-', '/', '*', '&', '$', '?', '<', '>', '~', '^', '!', 'N', ':']

/-- An operator stands behind a word. -/
def AppliesFurther (formula : List Char) : Prop :=
  ∃ front behind, formula = front ++ ':' :: behind ∧ ∃ c ∈ behind, c ∈ applied

/-- The top bit of the lower half is also in the upper one. -/
theorem halves_ne (a b : BitVec 16) : a.signExtend 32 <<< 16 ||| b.signExtend 32 ≠ 65535#32 := by
  intro heq
  have hlow : (a.signExtend 32 <<< 16 ||| b.signExtend 32).getLsbD 15 = true := by
    rw [heq]
    decide
  have hsign : (a.signExtend 32 <<< 16 ||| b.signExtend 32).getLsbD 31 = false := by
    rw [heq]
    decide
  rw [BitVec.getLsbD_or, BitVec.getLsbD_signExtend] at hlow hsign
  simp [BitVec.msb_eq_getLsbD_last] at hlow hsign
  exact absurd (hlow.symm.trans hsign.2) (by decide)

theorem word_ne (x y : ℚ) : word x y ≠ 65535 := by
  intro h
  apply halves_ne (BitVec.ofInt 16 (rint x)) (BitVec.ofInt 16 (rint y))
  apply BitVec.eq_of_toInt_eq
  rw [show (65535#32).toInt = 65535 by decide]
  have hcast : ((((BitVec.ofInt 16 (rint x)).signExtend 32 <<< 16 |||
      (BitVec.ofInt 16 (rint y)).signExtend 32).toInt : ℤ) : ℚ) = ((65535 : ℤ) : ℚ) := h
  exact Rat.intCast_injective hcast

theorem text_of_pass {c : Char} {rest text : List Char} {it it' : ℕ} {stack stack' : List Value}
    (h : pass env row time c rest it stack = .ok (text, it', stack')) :
    ((c.isDigit ∨ c = '#') ∧ text = behindBlank rest) ∨ (c = '?' ∧ ∃ d, rest = d :: text) ∨
      text = rest := by
  unfold pass at h
  split at h
  · rename_i hdigit
    left
    split at h
    · exact nomatch h
    · split at h
      · exact nomatch h
      · cases h
        exact ⟨.inl hdigit, rfl⟩
  · split at h
    · left
      cases hconstant : constant rest stack with
      | error o =>
        rw [hconstant] at h
        exact nomatch h
      | ok s =>
        rw [hconstant] at h
        cases h
        exact ⟨.inr rfl, rfl⟩
    · rename_i rest'
      right
      left
      cases hchoose : choose stack with
      | error o =>
        rw [hchoose] at h
        exact nomatch h
      | ok s =>
        rw [hchoose] at h
        cases h
        exact ⟨rfl, 'f', rfl⟩
    · cases h
      exact .inr (.inl ⟨rfl, _, rfl⟩)
    · exact nomatch h
    · rename_i c' rest' _ _ _ _
      right
      right
      cases hop : operate env time c stack with
      | error o =>
        rw [hop] at h
        exact nomatch h
      | ok s =>
        rw [hop] at h
        cases h
        rfl

theorem behindBlank_append (front behind : List Char) : ∃ front',
    behindBlank (front ++ ' ' :: behind) = behind ∨
      behindBlank (front ++ ' ' :: behind) = front' ++ ' ' :: behind := by
  unfold behindBlank
  induction front with
  | nil => exact ⟨[], .inl rfl⟩
  | cons c front ih =>
    by_cases hc : c = ' '
    · subst hc
      exact ⟨front, .inr rfl⟩
    · rw [List.cons_append, List.dropWhile_cons_of_pos (by simpa using hc)]
      exact ih

/-- An operator behind a blank is reached. -/
theorem reaches_of_pass {c : Char} {rest text behind : List Char} {it it' : ℕ}
    {stack stack' : List Value} (h : pass env row time c rest it stack = .ok (text, it', stack'))
    (hrest : ∃ front, c :: rest = front ++ ' ' :: behind) :
    text = behind ∨ ∃ front, text = front ++ ' ' :: behind := by
  obtain ⟨front, hfront⟩ := hrest
  cases front with
  | nil =>
    obtain ⟨rfl, rfl⟩ := List.cons.inj hfront
    rcases text_of_pass h with ⟨hdigit | hhash, -⟩ | ⟨hask, -⟩ | rfl
    · exact absurd hdigit (by decide)
    · exact absurd hhash (by decide)
    · exact absurd hask (by decide)
    · exact .inl rfl
  | cons d front =>
    obtain ⟨rfl, rfl⟩ := List.cons.inj hfront
    rcases text_of_pass h with ⟨-, rfl⟩ | ⟨-, d, hd⟩ | rfl
    · obtain ⟨front', h' | h'⟩ := behindBlank_append front behind
      · exact .inl h'
      · exact .inr ⟨front', h'⟩
    · cases front with
      | nil => exact .inl (List.cons.inj hd).2.symm
      | cons d' front => exact .inr ⟨front, (List.cons.inj hd).2.symm⟩
    · exact .inr ⟨front, rfl⟩

theorem stackLoop_reaches {n : ℕ} {text behind : List Char} {it : ℕ} {stack final : List Value}
    (hn : text.length ≤ n) (h : stackLoop env row time n text it stack = .ok final)
    (htext : text = behind ∨ ∃ front, text = front ++ ' ' :: behind) :
    ∃ n' it' stack', behind.length ≤ n' ∧
      stackLoop env row time n' behind it' stack' = .ok final := by
  induction n generalizing text it stack with
  | zero =>
    rcases htext with rfl | ⟨front, rfl⟩
    · exact ⟨0, it, stack, hn, h⟩
    · rw [List.length_append, List.length_cons] at hn
      omega
  | succ n ih =>
    rcases htext with rfl | htext
    · exact ⟨n + 1, it, stack, hn, h⟩
    · cases text with
      | nil =>
        obtain ⟨front, hfront⟩ := htext
        exact absurd hfront.symm (by simp)
      | cons c rest =>
        rw [stackLoop] at h
        cases hpass : pass env row time c rest it stack with
        | error o =>
          rw [hpass] at h
          exact nomatch h
        | ok r =>
          obtain ⟨text', it', stack'⟩ := r
          rw [hpass] at h
          have hlen := (suffix_of_pass hpass).length_le
          rw [List.length_cons] at hn
          exact ih (by omega) h (reaches_of_pass hpass htext)

theorem stack_of_pass {c : Char} {rest text : List Char} {it it' : ℕ} {stack stack' : List Value}
    (hc : c ∉ applied) (h : pass env row time c rest it stack = .ok (text, it', stack')) :
    ∃ pushed, stack' = pushed ++ stack := by
  have hpush {v : Value} {s : List Value} (h : push v stack = .ok s) : s = [v] ++ stack := by
    unfold push at h
    split_ifs at h
    exact (Except.ok.inj h).symm
  unfold pass at h
  split at h
  -- a number or an operand is pushed
  · split at h
    · exact nomatch h
    · rename_i s hs
      split at h
      · exact nomatch h
      · cases h
        exact ⟨_, hpush hs⟩
  · split at h
    · cases hs : constant rest stack with
      | error o =>
        rw [hs] at h
        exact nomatch h
      | ok s =>
        rw [hs] at h
        cases h
        exact ⟨_, hpush (push_of_constant hs)⟩
    · exact absurd (by decide) hc
    · exact absurd (by decide) hc
    · exact nomatch h
    -- of the other operators only those that are not in `applied` are left
    · cases hs : operate env time c stack with
      | error o =>
        rw [hs] at h
        exact nomatch h
      | ok s =>
        rw [hs] at h
        cases h
        unfold operate at hs
        split at hs
        all_goals first | exact absurd (by decide) hc | skip
        · exact ⟨_, hpush hs⟩
        · split at hs
          · exact nomatch hs
          · split at hs
            · cases hs
              exact ⟨[_], rfl⟩
            · cases hs
              exact ⟨[], rfl⟩
        · cases hs
          exact ⟨[], rfl⟩

theorem stackLoop_pushes {n : ℕ} {text : List Char} {it : ℕ} {stack final : List Value}
    (htext : ∀ c ∈ text, c ∉ applied) (h : stackLoop env row time n text it stack = .ok final) :
    ∃ pushed, final = pushed ++ stack := by
  induction n generalizing text it stack with
  | zero => exact ⟨[], (Except.ok.inj h).symm⟩
  | succ n ih =>
    cases text with
    | nil => exact ⟨[], (Except.ok.inj h).symm⟩
    | cons c rest =>
      rw [stackLoop] at h
      cases hpass : pass env row time c rest it stack with
      | error o =>
        rw [hpass] at h
        exact nomatch h
      | ok r =>
        obtain ⟨text', it', stack'⟩ := r
        rw [hpass] at h
        obtain ⟨pushed, rfl⟩ := stack_of_pass (htext c List.mem_cons_self) hpass
        obtain ⟨pushed', hfinal⟩ := ih
          (fun d hd => htext d (List.mem_cons_of_mem c ((suffix_of_pass hpass).subset hd))) h
        exact ⟨pushed' ++ pushed, by rw [hfinal, List.append_assoc]⟩

/-- A number that is alone on the stack, with no operator behind the last word, is a word. -/
theorem word_of_stackLoop {formula : List Char} {v : ℚ} (hword : [' ', ':'] <:+: formula)
    (hfurther : ¬ AppliesFurther formula)
    (h : stackLoop env row time formula.length formula 0 [] = .ok [some v]) :
    ∃ x y, v = word x y := by
  obtain ⟨front, behind, rfl⟩ := hword
  rw [List.append_assoc] at h hfurther
  have hreach : front ++ ([' ', ':'] ++ behind) = ':' :: behind ∨
      ∃ front', front ++ ([' ', ':'] ++ behind) = front' ++ ' ' :: ':' :: behind :=
    .inr ⟨front, rfl⟩
  obtain ⟨n, it, stack, hn, h⟩ := stackLoop_reaches (Nat.le_refl _) h hreach
  cases n with
  | zero => exact absurd hn (by simp)
  | succ n =>
    rw [stackLoop] at h
    cases hpass : pass env row time ':' behind it stack with
    | error o =>
      rw [hpass] at h
      exact nomatch h
    | ok r =>
      rw [hpass] at h
      obtain ⟨text, it', stack'⟩ := r
      have hnone : ∀ c ∈ text, c ∉ applied := by
        intro c hc happlied
        exact hfurther ⟨front ++ [' '], behind, by rw [List.append_assoc]; rfl, c,
          (suffix_of_pass hpass).subset hc, happlied⟩
      obtain ⟨pushed, hfinal⟩ := stackLoop_pushes hnone h
      have hcolon : ∃ x y rest, stack' = some (word x y) :: rest := by
        change (binary (fun x y => .ok (word x y)) stack).map _ = _ at hpass
        rcases stack with _ | ⟨_ | y, _ | ⟨_ | x, rest⟩⟩
        · exact nomatch hpass
        · exact nomatch hpass
        · exact nomatch hpass
        · exact nomatch hpass
        · exact nomatch hpass
        · exact nomatch hpass
        · cases hpass
          exact ⟨x, y, rest, rfl⟩
      obtain ⟨x, y, rest, rfl⟩ := hcolon
      cases pushed with
      | nil => exact ⟨x, y, Option.some.inj (List.cons.inj hfinal).1⟩
      | cons p pushed => exact absurd (congrArg List.length hfinal) (by simp)

end Definable
end Szbase
end Szarp

namespace Szarp
namespace Ipk
namespace Params

open Szbase (Word fileNodata combinedProbe)
open Szbase.Definable (stackLoop AppliesFurther)

variable {cfg : Config} {m : Machine}

/-! ## Types -/

theorem calls_frame {call : Params cfg → cfg.Param → Option (Params cfg × Bool)}
    (hcall : ∀ s tp s' e, call s tp = some (s', e) → Grows s s' ∧
      ∀ j, (s j).prepared = true → s' j = s j)
    {s t : Params cfg} {tps : List cfg.Param} (h : Calls call s tps t) {j : cfg.Param}
    (hj : (s j).prepared = true) : t j = s j := by
  induction h with
  | nil => rfl
  | cons h _ ih =>
    obtain ⟨hgrows, hframe⟩ := hcall _ _ _ _ h
    rw [ih (hgrows.prepared j hj), hframe j hj]

theorem prepareLoop_frame {call : Params cfg → cfg.Param → Option (Params cfg × Bool)}
    (hcall : ∀ s tp s' e, call s tp = some (s', e) → Grows s s' ∧
      ∀ j, (s j).prepared = true → s' j = s j)
    {i : cfg.Param} {st : Option ℕ} {text : List Char} {s s' : Params cfg} {r : Collected cfg}
    (h : prepareLoop call i st text s = some (s', r)) {j : cfg.Param}
    (hj : (s j).prepared = true) : s' j = s j := by
  obtain ⟨tps, t, htraced⟩ := prepareLoop_traced h
  have ht := calls_frame hcall htraced.calls hj
  by_cases hr : r.ending = .rethrown
  · obtain ⟨tp, htp⟩ := htraced.rethrown hr
    rw [(hcall _ _ _ _ htp).2 j (by rw [ht, hj]), ht]
  · rw [htraced.returned hr, ht]

theorem prepareDefinable_frame {n : ℕ} {s s' : Params cfg} {i : cfg.Param} {e : Bool}
    (h : prepareDefinable m n s i = some (s', e)) {j : cfg.Param} (hj : (s j).prepared = true) :
    s' j = s j := by
  induction n using Nat.strong_induction_on generalizing s s' i e j with
  | _ n ih =>
    obtain ⟨-, rfl, -⟩ | ⟨hp, -, rfl, -⟩ | ⟨hp, k, t, r, rfl, hloop, hfinish⟩ :=
      prepareDefinable_cases h
    · rfl
    · have hne : j ≠ i := by
        rintro rfl
        exact absurd (hp.symm.trans hj) (by decide)
      exact Function.update_of_ne hne _ _
    · have hne : j ≠ i := by
        rintro rfl
        exact absurd (hp.symm.trans hj) (by decide)
      obtain ⟨q, hq, -⟩ := finish_update m t i r
      rw [hfinish] at hq
      obtain rfl : s' = Function.update t i q := hq
      have hmark : s.mark i j = s j := Function.update_of_ne hne _ _
      rw [Function.update_of_ne hne, ← hmark]
      exact prepareLoop_frame (fun _ _ _ _ hc => ⟨(prepareDefinable_grows hc).1,
        fun j hj => ih k (by omega) hc hj⟩) hloop (by rw [hmark, hj])

theorem typeOf_nil (m : Machine) (t : ParamType) : typeOf m [] t = t := by
  unfold typeOf
  rw [if_neg]
  rintro ⟨front, behind, h⟩
  exact absurd (congrArg List.length h) (by simp)

def Typed (m : Machine) (s : Params cfg) : Prop :=
  ∀ i, (s i).paramType = typeOf m (s i).parsed (cfg.param i).paramType ∧
    ((s i).prepared = false → (s i).parsed = [])

theorem typed_loaded : (loaded cfg).Typed m := fun _ => ⟨(typeOf_nil m _).symm, fun _ => rfl⟩

theorem Typed.update {s : Params cfg} (hs : s.Typed m) {i : cfg.Param} {p : Prepared cfg}
    (hp : p.prepared = true) (htype : p.paramType = typeOf m p.parsed (cfg.param i).paramType) :
    Typed m (Function.update s i p) := by
  intro j
  by_cases hj : j = i
  · subst hj
    rw [Function.update_self]
    exact ⟨htype, fun h => absurd (hp.symm.trans h) (by decide)⟩
  · rw [Function.update_of_ne hj]
    exact hs j

theorem Typed.mark {s : Params cfg} (hs : s.Typed m) {i : cfg.Param}
    (hi : (s i).prepared = false) : (s.mark i).Typed m := by
  refine hs.update rfl ?_
  rw [typeOf_nil, (hs i).1, (hs i).2 hi, typeOf_nil]

theorem calls_typed {call : Params cfg → cfg.Param → Option (Params cfg × Bool)}
    (hcall : ∀ s tp s' e, s.Typed m → call s tp = some (s', e) → s'.Typed m)
    {s t : Params cfg} {tps : List cfg.Param} (h : Calls call s tps t) (hs : s.Typed m) :
    t.Typed m := by
  induction h with
  | nil => exact hs
  | cons h _ ih => exact ih (hcall _ _ _ _ hs h)

theorem compile_typed {t : Params cfg} {i : cfg.Param} {p : Prepared cfg} (ht : t.Typed m)
    (hp : p.prepared = true) (hparsed : p.parsed = [])
    (htype : p.paramType = (cfg.param i).paramType) :
    (compile m (Function.update t i p) i).1.Typed m := by
  have hput (q : Prepared cfg) (h : q.prepared = true)
      (h' : q.paramType = typeOf m q.parsed (cfg.param i).paramType) :
      Typed m (Function.update (Function.update t i p) i q) := by
    rw [Function.update_idem]
    exact ht.update h h'
  have hnil : (cfg.param i).paramType = typeOf m [] (cfg.param i).paramType := (typeOf_nil m _).symm
  unfold compile
  dsimp only
  rw [Function.update_self]
  generalize (if p.cache = [] then constOf m (cfg.param i).prec p.formula else none) = v
  cases v with
  | none =>
    dsimp only
    split
    · exact hput _ hp (by rw [htype, hparsed, ← hnil])
    · exact hput _ hp (by rw [htype])
  | some v =>
    dsimp only
    split
    · exact hput _ hp (by rw [htype, hparsed, ← hnil])
    · exact hput _ hp (by rw [htype])

theorem finish_typed {t : Params cfg} {i : cfg.Param} (ht : t.Typed m)
    (hi : (t i).prepared = true) (hparsed : (t i).parsed = []) (r : Collected cfg) :
    (finish m t i r).1.Typed m := by
  have htype : (t i).paramType = (cfg.param i).paramType := by
    rw [(ht i).1, hparsed, typeOf_nil]
  unfold finish
  cases r.ending with
  | done => exact compile_typed ht hi hparsed htype
  | failed => exact ht.update hi (by rw [htype, hparsed, typeOf_nil])
  | rethrown => exact ht.update hi (by rw [htype, hparsed, typeOf_nil])

theorem prepareDefinable_typed {n : ℕ} {s s' : Params cfg} {i : cfg.Param} {e : Bool}
    (hs : s.Typed m) (h : prepareDefinable m n s i = some (s', e)) : s'.Typed m := by
  induction n using Nat.strong_induction_on generalizing s s' i e with
  | _ n ih =>
    obtain ⟨-, rfl, -⟩ | ⟨hp, -, rfl, -⟩ | ⟨hp, k, t, r, rfl, hloop, hfinish⟩ :=
      prepareDefinable_cases h
    · exact hs
    · exact hs.mark hp
    · have hcall : ∀ (s : Params cfg) tp s' e, s.Typed m →
          prepareDefinable m k s tp = some (s', e) → s'.Typed m :=
        fun _ _ _ _ hs hc => ih k (by omega) hs hc
      have hmarked : t i = s.mark i i := prepareLoop_frame
        (fun _ _ _ _ hc => ⟨(prepareDefinable_grows hc).1, fun j hj => prepareDefinable_frame hc hj⟩)
        hloop (mark_prepared s i)
      obtain ⟨tps, t', htraced⟩ := prepareLoop_traced hloop
      have ht' := calls_typed hcall htraced.calls (hs.mark hp)
      have ht : t.Typed m := by
        by_cases hr : r.ending = .rethrown
        · obtain ⟨tp, htp⟩ := htraced.rethrown hr
          exact hcall _ _ _ _ ht' htp
        · rwa [htraced.returned hr]
      have hdone := finish_typed ht (by rw [hmarked, mark_prepared])
        (by rw [hmarked, mark, Function.update_self]) r
      rwa [hfinish] at hdone

theorem prepareAll_typed (is : List cfg.Param) {s : Params cfg} (hs : s.Typed m) :
    (s.prepareAll m is).Typed m := by
  induction is generalizing s with
  | nil => exact hs
  | cons i is ih => exact ih (prepareDefinable_typed hs (prepare_eq s i))

/-! ## Combined parameters -/

/-- A combined parameter has two operands, and its formula leaves nothing but the number on the
stack that is read from the data files of the operands, whatever words these hold. A parameter whose
formula has an operator behind a word is definable. -/
structure CombinedSound (m : Machine) (prec : ℕ) (p : Prepared cfg) : Prop where
  operands : p.paramType = .combined → p.cache.length = 2
  value : p.paramType = .combined → ∀ (time : ℤ) (msw lsw : Word), msw ≠ fileNodata →
    lsw ≠ fileNodata → ∃ v, stackLoop m.toEnvironment [some (msw.toInt : ℚ), some (lsw.toInt : ℚ)]
      time p.parsed.length p.parsed 0 [] = .ok [some v] ∧
        combinedProbe prec msw lsw = .value (v / 10 ^ prec)
  further : AppliesFurther p.parsed → p.paramType = .definable

theorem typeOf_combined_iff {parsed : List Char} : typeOf m parsed .definable = .combined ↔
    [' ', ':'] <:+: parsed ∧ (parsed.any (· ∈ operators) = true ∨ m.outside parsed ≠ ' ') := by
  unfold typeOf
  split_ifs with hword hop hblank
  · exact iff_of_true rfl ⟨hword, .inl hop⟩
  · exact iff_of_false (by decide) fun h => h.2.elim hop fun hne => hne hblank
  · exact iff_of_true rfl ⟨hword, .inr hblank⟩
  · exact iff_of_false (by decide) fun h => hword h.1

/-- No formula with a word makes what is read from the files: 0 and -1 are read as 65535. -/
theorem not_sound_of_combined {prec : ℕ} {p : Prepared cfg} (hword : [' ', ':'] <:+: p.parsed)
    (htype : p.paramType = .combined) : ¬ CombinedSound m prec p := by
  intro h
  have hfurther : ¬ AppliesFurther p.parsed := by
    intro hfurther
    rw [h.further hfurther] at htype
    exact absurd htype (by decide)
  obtain ⟨v, hstack, hprobe⟩ := h.value htype 0 0 (-1) (by decide) (by decide)
  obtain ⟨x, y, rfl⟩ := Szbase.Definable.word_of_stackLoop hword hfurther hstack
  have hread : combinedProbe prec 0 (-1) = .value (65535 / 10 ^ prec) := rfl
  rw [hread] at hprobe
  have hpow : (10 : ℚ) ^ prec ≠ 0 := pow_ne_zero _ (by norm_num)
  have heq := (div_left_inj' hpow).mp (Szbase.Cell.value.inj hprobe)
  exact Szbase.Definable.word_ne x y heq.symm

/-- After any preparations, what a parameter is classified as is sound exactly when its compiled
formula has no word, or has none of the operators that are looked for and is followed by a blank. -/
theorem combinedSound_iff (m : Machine) (is : List cfg.Param) (i : cfg.Param)
    (hi : (cfg.param i).paramType = .definable) :
    CombinedSound m (cfg.param i).prec ((loaded cfg).prepareAll m is i) ↔
      ¬ ([' ', ':'] <:+: ((loaded cfg).prepareAll m is i).parsed ∧
        (((loaded cfg).prepareAll m is i).parsed.any (· ∈ operators) = true ∨
          m.outside ((loaded cfg).prepareAll m is i).parsed ≠ ' ')) := by
  have htype := (prepareAll_typed (m := m) is typed_loaded i).1
  rw [hi] at htype
  rw [← typeOf_combined_iff (m := m), ← htype]
  constructor
  · intro h hcombined
    have hword := (typeOf_combined_iff.mp (htype.symm.trans hcombined)).1
    exact not_sound_of_combined hword hcombined h
  · intro hnot
    refine ⟨fun h => absurd h hnot, fun h => absurd h hnot, fun _ => ?_⟩
    rw [htype] at hnot ⊢
    unfold typeOf at hnot ⊢
    split_ifs at hnot ⊢
    · exact absurd rfl hnot
    · rfl
    · exact absurd rfl hnot
    · rfl

/-- A parameter that is twice the word of two others. -/
def doubled : Config where
  params := [⟨"A:B:msw".toList, [], .none, .real, 0, 0, [], true⟩,
    ⟨"A:B:lsw".toList, [], .none, .real, 0, 0, [], true⟩]
  drawdefinable := [⟨"A:B:sum".toList, "(A:B:msw) (A:B:lsw) : 2 *".toList, .definable, .definable,
    0, 0, [], false⟩]
  sends := []

def doubledParam : doubled.Param := ⟨2, by decide⟩

theorem combinedSound_iff_doubled :
    CombinedSound .plain 0 ((loaded doubled).prepareAll .plain [doubledParam] doubledParam) ↔
      ¬ ([' ', ':'] <:+: ((loaded doubled).prepareAll .plain [doubledParam] doubledParam).parsed ∧
        (((loaded doubled).prepareAll .plain [doubledParam] doubledParam).parsed.any
            (· ∈ operators) = true ∨
          Machine.outside .plain
            ((loaded doubled).prepareAll .plain [doubledParam] doubledParam).parsed ≠ ' ')) :=
  combinedSound_iff .plain [doubledParam] doubledParam rfl

/-- It is classified as combined. -/
theorem doubled_not_sound :
    ¬ CombinedSound .plain 0 ((loaded doubled).prepareAll .plain [doubledParam] doubledParam) := by
  intro h
  have hparsed : ((loaded doubled).prepareAll .plain [doubledParam] doubledParam).parsed =
      "0 0 :".toList ++ " #2 *".toList := by decide +kernel
  have hfurther := h.further ⟨"0 0 ".toList, " #2 *".toList, hparsed, '*', by decide, by decide⟩
  have htype : ((loaded doubled).prepareAll .plain [doubledParam] doubledParam).paramType =
      .combined := by decide +kernel
  rw [htype] at hfurther
  exact absurd hfurther (by decide)

end Params
end Ipk
end Szarp
