import Szarp.Ipk.Config
import Szarp.Ipk.ConstFormula
import Szarp.Ipk.DrawFormula
import Szarp.Lib.PyText
import Szarp.Lib.Reach
import Szarp.Lib.Run

/-!
# Preparing definable parameters

`TParam::PrepareDefinable` with everything it leaves in the parameters of a configuration: the flag
that is set before the work is done, the formula with constants put in, the cache of operands, the
compiled formula, the constant and the type.
-/

namespace Szarp
namespace Ipk

open Szbase.Definable (Outcome Environment)

/-! ## Configurations -/

/-- A parameter as the configuration has it. -/
structure ParamDef where
  name : List Char
  formula : List Char
  ftype : FormulaType
  paramType : ParamType
  prec : ℕ
  virtualBaseInd : ℕ
  szbaseName : List Char
  hasUnit : Bool

/-- The parameters of the units and the defined ones, those of `drawdefinable`, and the parameters
that units send: whether they are configured, and their names. -/
structure Config where
  params : List ParamDef
  drawdefinable : List ParamDef
  sends : List (Bool × List Char)

/-- What formulas use besides the configuration. The language does not say what a character behind
the end of a text is, nor what a stack cell is that was not written. -/
structure Machine extends Environment where
  outside : List Char → Char
  unwritten : Option ℚ

def Machine.plain : Machine where
  toEnvironment := .plain
  outside _ := ' '
  unwritten := none

namespace Config

variable (cfg : Config)

def all : List ParamDef := cfg.params ++ cfg.drawdefinable

abbrev Param : Type := Fin cfg.all.length

abbrev param (i : cfg.Param) : ParamDef := cfg.all[i]

def isDefinable (i : cfg.Param) : Bool :=
  cfg.all[i].paramType ≠ .real && cfg.all[i].paramType ≠ .lua

def getParamByName (name : List Char) : Option cfg.Param :=
  cfg.all.findFinIdx? fun p => p.name ≠ [] ∧ name ≠ [] ∧ p.name = name

/-- The parameter that a formula of `i` names; `none` also for a failed assertion. -/
def resolve (i : cfg.Param) (name : List Char) : Option cfg.Param :=
  if name = [] ∨ cfg.all[i].name = [] then none
  else cfg.getParamByName (DrawFormula.absoluteName name cfg.all[i].name)

/-- The same for `GetDrawFormula`. -/
def find (i : cfg.Param) (name : List Char) : Option DrawFormula.Operand :=
  (cfg.resolve i name).map fun tp => ⟨cfg.all[tp].name, cfg.all[tp].virtualBaseInd, some none⟩

end Config

structure Prepared (cfg : Config) where
  formula : List Char
  prepared : Bool
  cache : List cfg.Param
  parsed : List Char
  isNUsed : Bool
  constFlag : Bool
  constValue : ℚ
  paramType : ParamType

/-- The parameters of a configuration, with what `PrepareDefinable` has left in them. -/
abbrev Params (cfg : Config) : Type := cfg.Param → Prepared cfg

namespace Params

variable {cfg : Config}

def loaded (cfg : Config) : Params cfg := fun i =>
  { formula := cfg.all[i].formula, prepared := false, cache := [], parsed := [], isNUsed := false,
    constFlag := false, constValue := 0, paramType := cfg.all[i].paramType }

def isConst (s : Params cfg) (i : cfg.Param) : Bool := (s i).paramType ≠ .real && (s i).constFlag

/-- `GetDrawFormula`; `none` is `TCheckException`. -/
def getDrawFormula (s : Params cfg) (i : cfg.Param) : Option (List Char) :=
  if cfg.all[i].ftype ≠ .definable ∨ (s i).formula = [] then some []
  else if (s i).parsed ≠ [] then some (s i).parsed
  else DrawFormula.getDrawFormula (cfg.find i) (s i).formula

/-! ## The loop over the operands -/

inductive Ending where
  | done
  | failed
  | rethrown
deriving DecidableEq

structure Collected (cfg : Config) where
  formula : List Char
  cache : List cfg.Param
  ending : Ending

def Collected.char (c : Char) (r : Collected cfg) : Collected cfg :=
  { r with formula := c :: r.formula }

def Collected.constant (v : ℤ) (r : Collected cfg) : Collected cfg :=
  { r with formula := DrawFormula.intText v ++ r.formula }

def Collected.operand (tp : cfg.Param) (r : Collected cfg) : Collected cfg :=
  { r with formula := '(' :: r.formula, cache := tp :: r.cache }

def replacement (s : Params cfg) (tp : cfg.Param) : ℤ :=
  Szbase.Definable.rint ((s tp).constValue * 10 ^ cfg.all[tp].prec)

/-- The loop of `PrepareDefinable` from a position on. `call` prepares an operand: the parameters
behind it, and whether it throws. `some n`: `n` characters are replaced, and the one behind them is
not looked at. -/
def prepareLoop (call : Params cfg → cfg.Param → Option (Params cfg × Bool)) (i : cfg.Param) :
    Option ℕ → List Char → Params cfg → Option (Params cfg × Collected cfg)
  | _, [], s => some (s, ⟨[], [], .done⟩)
  | some (n + 1), _ :: text, s => prepareLoop call i (some n) text s
  | some 0, c :: text, s => (prepareLoop call i none text s).map (Prod.map id (.char c))
  | none, c :: text, s =>
    if c ≠ '(' then (prepareLoop call i none text s).map (Prod.map id (.char c))
    else if ')' ∉ text then some (s, ⟨c :: text, [], .failed⟩)
    else
      let name := text.takeWhile (· ≠ ')')
      match cfg.resolve i name with
      | none => some (s, ⟨c :: text, [], .failed⟩)
      | some tp =>
        if cfg.isDefinable tp then
          match call s tp with
          | none => none
          | some (s, true) => some (s, ⟨c :: text, [], .rethrown⟩)
          | some (s, false) =>
            if s.isConst tp then
              (prepareLoop call i (some (name.length + 1)) text s).map
                (Prod.map id (.constant (s.replacement tp)))
            else (prepareLoop call i none text s).map (Prod.map id (.operand tp))
        else (prepareLoop call i none text s).map (Prod.map id (.operand tp))

/-! ## Behind the loop -/

/-- What the value of a formula without operands is, when it is a constant. -/
def constOf (m : Machine) (prec : ℕ) (formula : List Char) : Option ℚ :=
  let value :=
    if ' ' ∉ formula ∧ (formula.head?.map Char.isDigit).getD false then
      some (Szbase.Definable.wcstod formula)
    else match ConstFormula.calculateConst m.toEnvironment formula with
      | .value v => some v
      | .undefined => m.unwritten
      | _ => none
  value.map (· / 10 ^ prec)

/-- The characters that are looked for when a formula has a word. -/
def operators : List Char := ['+', '-', '/', '*', '&', '$', '?', '<', '>', '~', '^']

/-- The type of a parameter with a compiled formula. `ps` is `npos` where nothing is found. -/
def typeOf (m : Machine) (parsed : List Char) (paramType : ParamType) : ParamType :=
  if [' ', ':'] <:+: parsed then
    if parsed.any (· ∈ operators) then .combined
    else if m.outside parsed = ' ' then .definable
    else .combined
  else paramType

/-- The constant and the compiled formula; `true` is `TCheckException`. -/
def compile (m : Machine) (s : Params cfg) (i : cfg.Param) : Params cfg × Bool :=
  let p := s i
  let p := match if p.cache = [] then constOf m cfg.all[i].prec p.formula else none with
    | some v => { p with constFlag := true, constValue := v }
    | none => p
  match getDrawFormula (Function.update s i p) i with
  | none => (Function.update s i p, true)
  | some parsed =>
    (Function.update s i
      { p with
        parsed := parsed
        isNUsed := 'N' ∈ parsed
        paramType := typeOf m parsed p.paramType }, false)

def mark (s : Params cfg) (i : cfg.Param) : Params cfg :=
  Function.update s i { s i with
    prepared := true, isNUsed := false, constFlag := false, parsed := [], cache := [] }

def finish (m : Machine) (s : Params cfg) (i : cfg.Param) (r : Collected cfg) :
    Params cfg × Bool :=
  match r.ending with
  | .done =>
    compile m (Function.update s i { s i with formula := r.formula, cache := r.cache }) i
  | .failed => (Function.update s i { s i with formula := r.formula, cache := [] }, true)
  | .rethrown => (Function.update s i { s i with formula := r.formula, cache := r.cache }, true)

/-- `PrepareDefinable`: the parameters behind it, and whether it throws `TCheckException`. The first
argument bounds the depth of the calls. -/
def prepareDefinable (m : Machine) : ℕ → Params cfg → cfg.Param → Option (Params cfg × Bool)
  | 0, s, i => if (s i).prepared then some (s, false) else none
  | n + 1, s, i =>
    if (s i).prepared then some (s, false)
    else if (s i).formula = [] then some (s.mark i, false)
    else (prepareLoop (prepareDefinable m n) i none (s i).formula (s.mark i)).map
      fun (s, r) => finish m s i r

/-! ## What a call leaves -/

structure Grows (s s' : Params cfg) : Prop where
  prepared : ∀ j, (s j).prepared = true → (s' j).prepared = true
  formula : ∀ j, (s' j).prepared = false → (s' j).formula = (s j).formula

theorem Grows.refl (s : Params cfg) : Grows s s := ⟨fun _ h => h, fun _ _ => rfl⟩

theorem Grows.trans {s s' s'' : Params cfg} (h : Grows s s') (h' : Grows s' s'') : Grows s s'' := by
  constructor
  · intro j hj
    exact h'.prepared j (h.prepared j hj)
  · intro j hj
    have hj' : (s' j).prepared = false := by
      by_contra hne
      rw [h'.prepared j (Bool.not_eq_false _ ▸ hne)] at hj
      exact absurd hj (by decide)
    rw [h'.formula j hj, h.formula j hj']

theorem Grows.update (s : Params cfg) {i : cfg.Param} {p : Prepared cfg} (hp : p.prepared = true) :
    Grows s (Function.update s i p) := by
  constructor
  · intro j hj
    by_cases h : j = i
    · rw [h, Function.update_self, hp]
    · rwa [Function.update_of_ne h]
  · intro j hj
    by_cases h : j = i
    · rw [h, Function.update_self, hp] at hj
      exact absurd hj (by decide)
    · rw [Function.update_of_ne h]

theorem map_collected {x : Option (Params cfg × Collected cfg)} {f : Collected cfg → Collected cfg}
    {s : Params cfg} {r : Collected cfg} (h : x.map (Prod.map id f) = some (s, r)) :
    ∃ r₀, x = some (s, r₀) ∧ r = f r₀ := by
  obtain ⟨⟨s', r₀⟩, hx, heq⟩ := Option.map_eq_some_iff.mp h
  rw [Prod.map_apply, Prod.mk.injEq] at heq
  exact ⟨r₀, by rw [hx, ← heq.1]; rfl, heq.2.symm⟩

/-- What the parentheses of a formula open: names, and `none` where there is no end. -/
def opened : List Char → List (Option (List Char))
  | [] => []
  | c :: text =>
    if c = '(' then
      (if ')' ∈ text then some (text.takeWhile (· ≠ ')')) else none) :: opened text
    else opened text

/-- No parenthesis is opened inside a name, or directly behind one. -/
def Spaced : List Char → Prop
  | [] => True
  | c :: text => (c = '(' → ')' ∈ text → '(' ∉ text.takeWhile (· ≠ ')') ∧
      (text.dropWhile (· ≠ ')')).tail.head? ≠ some '(') ∧ Spaced text

instance Spaced.decidable : (text : List Char) → Decidable (Spaced text)
  | [] => .isTrue trivial
  | _ :: text =>
    have := Spaced.decidable text
    inferInstanceAs (Decidable (_ ∧ Spaced text))

theorem not_mem_of_spaced {text : List Char} (h : Spaced ('(' :: text)) (hend : ')' ∈ text) :
    '(' ∉ text.take ((text.takeWhile (· ≠ ')')).length + 2) := by
  obtain ⟨hname, hnext⟩ := h.1 rfl hend
  obtain ⟨name, rest, rfl, hclosed⟩ := List.eq_append_cons_of_mem hend
  rw [PyText.takeWhile_ne_append hclosed] at hname ⊢
  rw [PyText.dropWhile_ne_append hclosed] at hnext
  rw [List.take_length_add_append]
  cases rest with
  | nil => simp [hname]
  | cons d rest =>
    simp only [List.tail_cons, List.head?_cons, ne_eq, Option.some.injEq] at hnext
    simp [hname, Ne.symm hnext]

/-- Calls that return, one after the other. -/
inductive Calls (call : Params cfg → cfg.Param → Option (Params cfg × Bool)) :
    Params cfg → List cfg.Param → Params cfg → Prop where
  | nil (s : Params cfg) : Calls call s [] s
  | cons {s s' s'' : Params cfg} {tp : cfg.Param} {tps : List cfg.Param}
      (h : call s tp = some (s', false)) (hrest : Calls call s' tps s'') :
      Calls call s (tp :: tps) s''

/-- What the loop has done: it has called the operands `tps`, and has stopped in `t`. -/
structure Traced (call : Params cfg → cfg.Param → Option (Params cfg × Bool)) (i : cfg.Param)
    (st : Option ℕ) (text : List Char) (s s' : Params cfg) (r : Collected cfg)
    (tps : List cfg.Param) (t : Params cfg) : Prop where
  calls : Calls call s tps t
  returned : r.ending ≠ .rethrown → s' = t
  rethrown : r.ending = .rethrown → ∃ tp, call t tp = some (s', true)
  cached : ∀ tp ∈ r.cache, cfg.isDefinable tp = true → tp ∈ tps
  complete : r.ending = .done → Spaced text → (∀ n, st = some n → '(' ∉ text.take (n + 1)) →
    ∀ o ∈ opened text, ∃ name tp, o = some name ∧ cfg.resolve i name = some tp ∧
      (cfg.isDefinable tp = true → tp ∈ tps)

/-- The name that a parenthesis opens is followed by what the rest of the formula opens. -/
theorem complete_cons {i : cfg.Param} {text : List Char} {tps : List cfg.Param} {tp : cfg.Param}
    (hend : ')' ∈ text) (hfind : cfg.resolve i (text.takeWhile (· ≠ ')')) = some tp)
    (htp : cfg.isDefinable tp = true → tp ∈ tps)
    (hrest : ∀ o ∈ opened text, ∃ name tp, o = some name ∧ cfg.resolve i name = some tp ∧
      (cfg.isDefinable tp = true → tp ∈ tps)) :
    ∀ o ∈ opened ('(' :: text), ∃ name tp, o = some name ∧ cfg.resolve i name = some tp ∧
      (cfg.isDefinable tp = true → tp ∈ tps) := by
  intro o ho
  rw [opened, if_pos rfl, if_pos hend, List.mem_cons] at ho
  rcases ho with rfl | ho
  · exact ⟨_, tp, rfl, hfind, htp⟩
  · exact hrest o ho

theorem prepareLoop_traced {call : Params cfg → cfg.Param → Option (Params cfg × Bool)}
    {i : cfg.Param} {st : Option ℕ} {text : List Char} {s s' : Params cfg} {r : Collected cfg}
    (h : prepareLoop call i st text s = some (s', r)) :
    ∃ tps t, Traced call i st text s s' r tps t := by
  -- The loop is followed case by case; only operands add a call to the trace.
  fun_induction prepareLoop call i st text s generalizing s' r with
  | case1 _ s =>
    obtain ⟨rfl, rfl⟩ := Prod.mk.inj (Option.some.inj h)
    exact ⟨[], s, .nil s, fun _ => rfl, nofun, nofun, fun _ _ _ => nofun⟩
  -- inside of a constant that was put in: a character is left out
  | case2 n c text s ih =>
    obtain ⟨tps, t, hr⟩ := ih h
    refine ⟨tps, t, hr.calls, hr.returned, hr.rethrown, hr.cached, ?_⟩
    intro hdone hspaced hskip
    have hskip' := hskip _ rfl
    rw [List.take_succ_cons, List.mem_cons, not_or] at hskip'
    rw [opened, if_neg (Ne.symm hskip'.1)]
    exact hr.complete hdone hspaced.2 (fun m hm => by rw [← Option.some.inj hm]; exact hskip'.2)
  | case3 c text s ih =>
    obtain ⟨r, hloop, rfl⟩ := map_collected h
    obtain ⟨tps, t, hr⟩ := ih hloop
    refine ⟨tps, t, hr.calls, hr.returned, hr.rethrown, hr.cached, ?_⟩
    intro hdone hspaced hskip
    have hskip' := hskip _ rfl
    rw [List.take_succ_cons, List.mem_cons, not_or] at hskip'
    rw [opened, if_neg (Ne.symm hskip'.1)]
    exact hr.complete hdone hspaced.2 nofun
  | case4 c text s hc ih =>
    obtain ⟨r, hloop, rfl⟩ := map_collected h
    obtain ⟨tps, t, hr⟩ := ih hloop
    refine ⟨tps, t, hr.calls, hr.returned, hr.rethrown, hr.cached, ?_⟩
    intro hdone hspaced _
    rw [opened, if_neg hc]
    exact hr.complete hdone hspaced.2 nofun
  -- a parenthesis without an end, or a name that is not known, ends the loop
  | case5 c text s =>
    obtain ⟨rfl, rfl⟩ := Prod.mk.inj (Option.some.inj h)
    exact ⟨[], s, .nil s, fun _ => rfl, nofun, nofun, nofun⟩
  | case6 c text s =>
    obtain ⟨rfl, rfl⟩ := Prod.mk.inj (Option.some.inj h)
    exact ⟨[], s, .nil s, fun _ => rfl, nofun, nofun, nofun⟩
  | case7 => exact absurd h (by simp)
  -- the operand itself throws, and its exception goes through
  | case8 c text s _ _ _ tp _ _ s₁ =>
    rename_i hcall
    obtain ⟨rfl, rfl⟩ := Prod.mk.inj (Option.some.inj h)
    exact ⟨[], s, .nil s, fun hr => absurd rfl hr, fun _ => ⟨tp, hcall⟩, nofun, nofun⟩
  -- a constant operand: its number is put in and its name is not looked at
  | case9 c text s hc hend name tp hfind hdef s₁ hcall hconst =>
    rename_i ih
    obtain rfl := not_ne_iff.mp hc
    obtain ⟨r, hloop, rfl⟩ := map_collected h
    obtain ⟨tps, t, hr⟩ := ih hloop
    refine ⟨tp :: tps, t, .cons hcall hr.calls, hr.returned, hr.rethrown, ?_, ?_⟩
    · intro tp' hmem hdef'
      exact List.mem_cons_of_mem tp (hr.cached tp' hmem hdef')
    · intro hdone hspaced _
      have hskip := not_mem_of_spaced hspaced (not_not.mp hend)
      have hrest := hr.complete hdone hspaced.2
        (fun m hm => by rw [← Option.some.inj hm]; exact hskip)
      apply complete_cons (not_not.mp hend) hfind (fun _ => List.mem_cons_self)
      intro o ho
      obtain ⟨name', tp', ho', hfind', htp'⟩ := hrest o ho
      exact ⟨name', tp', ho', hfind', fun hd => List.mem_cons_of_mem tp (htp' hd)⟩
  -- a definable operand that is no constant comes into the cache
  | case10 c text s hc hend name tp hfind hdef s₁ hcall hconst =>
    rename_i ih
    obtain rfl := not_ne_iff.mp hc
    obtain ⟨r, hloop, rfl⟩ := map_collected h
    obtain ⟨tps, t, hr⟩ := ih hloop
    refine ⟨tp :: tps, t, .cons hcall hr.calls, hr.returned, hr.rethrown, ?_, ?_⟩
    · intro tp' hmem hdef'
      rcases List.mem_cons.mp hmem with rfl | hmem
      · exact List.mem_cons_self
      · exact List.mem_cons_of_mem tp (hr.cached tp' hmem hdef')
    · intro hdone hspaced _
      have hrest := hr.complete hdone hspaced.2 nofun
      apply complete_cons (not_not.mp hend) hfind (fun _ => List.mem_cons_self)
      intro o ho
      obtain ⟨name', tp', ho', hfind', htp'⟩ := hrest o ho
      exact ⟨name', tp', ho', hfind', fun hd => List.mem_cons_of_mem tp (htp' hd)⟩
  -- another operand comes into the cache without a call
  | case11 c text s hc hend name tp hfind hdef =>
    rename_i ih
    obtain rfl := not_ne_iff.mp hc
    obtain ⟨r, hloop, rfl⟩ := map_collected h
    obtain ⟨tps, t, hr⟩ := ih hloop
    refine ⟨tps, t, hr.calls, hr.returned, hr.rethrown, ?_, ?_⟩
    · intro tp' hmem hdef'
      rcases List.mem_cons.mp hmem with rfl | hmem
      · exact absurd hdef' hdef
      · exact hr.cached tp' hmem hdef'
    · intro hdone hspaced _
      exact complete_cons (not_not.mp hend) hfind (fun hd => absurd hd hdef)
        (hr.complete hdone hspaced.2 nofun)

section Calls

variable {call : Params cfg → cfg.Param → Option (Params cfg × Bool)} {i : cfg.Param}

theorem Calls.grows (hcall : ∀ s tp s' e, call s tp = some (s', e) → Grows s s')
    {s t : Params cfg} {tps : List cfg.Param} (h : Calls call s tps t) : Grows s t := by
  induction h with
  | nil s => exact .refl s
  | cons h _ ih => exact (hcall _ _ _ _ h).trans ih

theorem prepareLoop_grows (hcall : ∀ s tp s' e, call s tp = some (s', e) → Grows s s')
    {st : Option ℕ} {text : List Char} {s s' : Params cfg} {r : Collected cfg}
    (h : prepareLoop call i st text s = some (s', r)) : Grows s s' := by
  obtain ⟨tps, t, htraced⟩ := prepareLoop_traced h
  have hcalls := htraced.calls.grows hcall
  by_cases hr : r.ending = .rethrown
  · obtain ⟨tp, htp⟩ := htraced.rethrown hr
    exact hcalls.trans (hcall _ _ _ _ htp)
  · rwa [htraced.returned hr]

def unprepared (s : Params cfg) : ℕ :=
  (Finset.univ.filter fun j : cfg.Param => (s j).prepared = false).card

theorem Grows.unprepared_le {s s' : Params cfg} (h : Grows s s') :
    s'.unprepared ≤ s.unprepared := by
  apply Finset.card_le_card
  intro j
  simp only [Finset.mem_filter, Finset.mem_univ, true_and]
  intro hj
  by_contra hne
  rw [h.prepared j (Bool.not_eq_false _ ▸ hne)] at hj
  exact absurd hj (by decide)

theorem unprepared_update {s : Params cfg} {i : cfg.Param} {p : Prepared cfg}
    (hi : (s i).prepared = false) (hp : p.prepared = true) :
    (Params.unprepared (Function.update s i p)) < s.unprepared := by
  apply Finset.card_lt_card
  rw [Finset.ssubset_iff_of_subset]
  · refine ⟨i, ?_, ?_⟩
    · simp [hi]
    · simp [hp]
  · intro j
    simp only [Finset.mem_filter, Finset.mem_univ, true_and]
    by_cases h : j = i
    · rw [h, Function.update_self, hp]
      exact fun hne => absurd hne (by decide)
    · rw [Function.update_of_ne h]
      exact id

theorem prepareLoop_isSome {n : ℕ} (hcall : ∀ s tp s' e, call s tp = some (s', e) → Grows s s')
    (htotal : ∀ s tp, s.unprepared ≤ n → (call s tp).isSome) {st : Option ℕ} {text : List Char}
    {s : Params cfg} (hs : s.unprepared ≤ n) : (prepareLoop call i st text s).isSome := by
  fun_induction prepareLoop call i st text s with
  | case1 => rfl
  | case2 _ _ _ _ ih => exact ih hs
  | case3 _ _ _ ih => exact Option.isSome_map.trans (ih hs)
  | case4 _ _ _ _ ih => exact Option.isSome_map.trans (ih hs)
  | case5 => rfl
  | case6 => rfl
  | case7 c text s _ _ _ tp =>
    rename_i hcall'
    have := htotal s tp hs
    rw [hcall'] at this
    exact absurd this (by simp)
  | case8 => rfl
  | case9 c text s _ _ _ tp _ _ s₁ hcall' =>
    rename_i ih
    exact Option.isSome_map.trans (ih ((hcall _ _ _ _ hcall').unprepared_le.trans hs))
  | case10 c text s _ _ _ tp _ _ s₁ hcall' =>
    rename_i ih
    exact Option.isSome_map.trans (ih ((hcall _ _ _ _ hcall').unprepared_le.trans hs))
  | case11 =>
    rename_i ih
    exact Option.isSome_map.trans (ih hs)

end Calls

section Prepare

variable {m : Machine}

theorem compile_update (m : Machine) (s : Params cfg) (i : cfg.Param) :
    ∃ q, (compile m s i).1 = Function.update s i q ∧ q.prepared = (s i).prepared ∧
      q.cache = (s i).cache := by
  have hconst : ∀ v : Option ℚ, (match v with
      | some v => { s i with constFlag := true, constValue := v }
      | none => s i).prepared = (s i).prepared ∧
      (match v with
      | some v => { s i with constFlag := true, constValue := v }
      | none => s i).cache = (s i).cache := by
    intro v
    cases v <;> exact ⟨rfl, rfl⟩
  unfold compile
  dsimp only
  split
  · exact ⟨_, rfl, hconst _⟩
  · exact ⟨_, rfl, hconst _⟩

theorem finish_update (m : Machine) (s : Params cfg) (i : cfg.Param) (r : Collected cfg) :
    ∃ q, (finish m s i r).1 = Function.update s i q ∧ q.prepared = (s i).prepared ∧
      (∀ tp ∈ q.cache, tp ∈ r.cache) ∧ ((finish m s i r).2 = false → r.ending = .done) := by
  unfold finish
  cases r.ending with
  | done =>
    obtain ⟨q, hq, hprepared, hcache⟩ := compile_update m
      (Function.update s i { s i with formula := r.formula, cache := r.cache }) i
    rw [Function.update_idem] at hq
    rw [Function.update_self] at hprepared hcache
    refine ⟨q, hq, hprepared, fun tp htp => ?_, fun _ => rfl⟩
    rwa [hcache] at htp
  | failed => exact ⟨_, rfl, rfl, fun _ htp => absurd htp List.not_mem_nil, nofun⟩
  | rethrown => exact ⟨_, rfl, rfl, fun _ htp => htp, nofun⟩

theorem prepareDefinable_cases {n : ℕ} {s s' : Params cfg} {i : cfg.Param} {e : Bool}
    (h : prepareDefinable m n s i = some (s', e)) :
    ((s i).prepared = true ∧ s' = s ∧ e = false) ∨
    ((s i).prepared = false ∧ (s i).formula = [] ∧ s' = s.mark i ∧ e = false) ∨
    ((s i).prepared = false ∧ ∃ k t r, n = k + 1 ∧
      prepareLoop (prepareDefinable m k) i none (s i).formula (s.mark i) = some (t, r) ∧
      finish m t i r = (s', e)) := by
  cases n with
  | zero =>
    rw [prepareDefinable] at h
    split at h
    · rename_i hp
      obtain ⟨rfl, rfl⟩ := Prod.mk.inj (Option.some.inj h)
      exact .inl ⟨hp, rfl, rfl⟩
    · exact absurd h (by simp)
  | succ n =>
    rw [prepareDefinable] at h
    split at h
    · rename_i hp
      obtain ⟨rfl, rfl⟩ := Prod.mk.inj (Option.some.inj h)
      exact .inl ⟨hp, rfl, rfl⟩
    · rename_i hp
      split at h
      · rename_i hempty
        obtain ⟨rfl, rfl⟩ := Prod.mk.inj (Option.some.inj h)
        exact .inr (.inl ⟨Bool.eq_false_iff.mpr hp, hempty, rfl, rfl⟩)
      · obtain ⟨⟨t, r⟩, hloop, hfinish⟩ := Option.map_eq_some_iff.mp h
        exact .inr (.inr ⟨Bool.eq_false_iff.mpr hp, n, t, r, rfl, hloop, hfinish⟩)

theorem mark_prepared (s : Params cfg) (i : cfg.Param) : (s.mark i i).prepared = true := by
  rw [mark, Function.update_self]

theorem grows_mark (s : Params cfg) (i : cfg.Param) : Grows s (s.mark i) := .update s rfl

/-- A call prepares its parameter. -/
theorem prepareDefinable_grows {n : ℕ} {s s' : Params cfg} {i : cfg.Param} {e : Bool}
    (h : prepareDefinable m n s i = some (s', e)) : Grows s s' ∧ (s' i).prepared = true := by
  induction n generalizing s s' i e with
  | zero =>
    obtain ⟨hp, rfl, rfl⟩ | ⟨-, -, rfl, rfl⟩ | ⟨-, k, t, r, hn, -⟩ := prepareDefinable_cases h
    · exact ⟨.refl s', hp⟩
    · exact ⟨grows_mark s i, mark_prepared s i⟩
    · exact absurd hn (by omega)
  | succ n ih =>
    obtain ⟨hp, rfl, rfl⟩ | ⟨-, -, rfl, rfl⟩ | ⟨-, k, t, r, hn, hloop, hfinish⟩ :=
      prepareDefinable_cases h
    · exact ⟨.refl s', hp⟩
    · exact ⟨grows_mark s i, mark_prepared s i⟩
    · obtain rfl : n = k := by omega
      have hgrows := prepareLoop_grows (fun _ _ _ _ hc => (ih hc).1) hloop
      obtain ⟨q, hq, hprepared, -, -⟩ := finish_update m t i r
      rw [hfinish] at hq
      have htrue : q.prepared = true := by
        rw [hprepared]
        exact hgrows.prepared i (mark_prepared s i)
      subst hq
      refine ⟨((grows_mark s i).trans hgrows).trans (.update t htrue), ?_⟩
      rw [Function.update_self, htrue]

/-- There is always enough room for the calls. -/
theorem prepareDefinable_isSome {n : ℕ} {s : Params cfg} (i : cfg.Param)
    (h : s.unprepared ≤ n) : (prepareDefinable m n s i).isSome := by
  induction n generalizing s i with
  | zero =>
    have hp : (s i).prepared = true := by
      by_contra hp
      have hmem : i ∈ Finset.univ.filter fun j : cfg.Param => (s j).prepared = false := by
        simp [Bool.eq_false_iff.mpr hp]
      rw [Finset.card_eq_zero.mp (Nat.le_zero.mp h)] at hmem
      exact absurd hmem (Finset.notMem_empty i)
    rw [prepareDefinable, if_pos hp]
    rfl
  | succ n ih =>
    rw [prepareDefinable]
    split
    · rfl
    · rename_i hp
      split
      · rfl
      · have hlt := unprepared_update (s := s) (Bool.eq_false_iff.mpr hp) (mark_prepared s i)
        rw [mark, Function.update_self, ← mark] at hlt
        exact Option.isSome_map.trans (prepareLoop_isSome
          (fun _ _ _ _ hc => (prepareDefinable_grows hc).1) (fun s tp hs => ih tp hs) (by omega))

/-! ## Calls from outside -/

def prepare (m : Machine) (s : Params cfg) (i : cfg.Param) : Params cfg × Bool :=
  (prepareDefinable m cfg.all.length s i).get
    (prepareDefinable_isSome i ((Finset.card_le_univ _).trans (Fintype.card_fin _).le))

theorem prepare_eq (s : Params cfg) (i : cfg.Param) :
    prepareDefinable m cfg.all.length s i = some (s.prepare m i) := by
  rw [prepare, Option.some_get]

theorem prepare_grows (s : Params cfg) (i : cfg.Param) : Grows s (s.prepare m i).1 :=
  (prepareDefinable_grows (prepare_eq s i)).1

end Prepare

end Params
end Ipk
end Szarp
