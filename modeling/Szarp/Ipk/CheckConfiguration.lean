import Mathlib.Data.List.Sort
import Szarp.Ipk.Prepare

/-!
# Checking a configuration

`TSzarpConfig::checkConfiguration`: names are not repeated, the names in formulas are found, and
what units send is not computed. What the preparation of all draw definable parameters leaves.
-/

namespace Szarp
namespace Ipk

namespace Config

variable (cfg : Config)

def findIpc (i : cfg.Param) (name : List Char) : Option DrawFormula.Operand :=
  (cfg.resolve i name).map fun tp => ⟨(cfg.param tp).name, tp.val, some none⟩

/-- `GetParcookFormula`; `none` is `TCheckException`. Its states are those of `GetDrawFormula`. -/
def getParcookFormula (i : cfg.Param) : Option (List Char) :=
  let p := cfg.param i
  let target := '#' :: DrawFormula.intText i.val ++ " = # (".toList ++ p.name
  if p.ftype ≠ .rpn then some []
  else if p.formula = [] then
    some (if p.hasUnit then [] else "null ".toList ++ target ++ ")\n".toList)
  else (DrawFormula.drawLoop (cfg.findIpc i) .text p.formula).map fun f =>
    f ++ (if p.formula.getLast? = some ' ' then [] else [' ']) ++ target ++ " )\n".toList

/-- The loop over the sorted names: `same` counts the names that are like the first one. -/
def repetitions : ℕ → List (List Char) → ℕ
  | _, [] => 0
  | same, [_] => if same > 1 then same else 0
  | same, x :: y :: names =>
    if x = y then repetitions (same + 1) (y :: names)
    else if same > 1 then same + repetitions 1 (y :: names)
    else repetitions same (y :: names)

def checkRepetitions : Bool :=
  let before (a b : List Char) : Bool :=
    !(b.map Char.toNat).lex (a.map Char.toNat) fun c d => decide (c < d)
  repetitions 1 ((cfg.all.map (·.szbaseName)).insertionSort fun a b => before a b = true) == 0

def checkSend : Bool :=
  cfg.sends.all fun (isConfigured, name) =>
    if !isConfigured || name = [] then true
    else match cfg.getParamByName name with
      | none => false
      | some i => !cfg.isDefinable i

/-- The definable parameters that `PrepareDrawDefinable` goes through. -/
def drawDefinables : List cfg.Param :=
  (List.finRange cfg.all.length).filter fun i => cfg.params.length ≤ i.val ∧ cfg.isDefinable i

end Config

namespace Params

variable {cfg : Config} {m : Machine}

/-- Preparations, one after the other; exceptions are caught. -/
def prepareAll (m : Machine) (s : Params cfg) (is : List cfg.Param) : Params cfg :=
  is.foldl (fun s i => (s.prepare m i).1) s

def prepareDrawDefinable (m : Machine) (s : Params cfg) : Params cfg :=
  s.prepareAll m cfg.drawDefinables

def checkFormulas (m : Machine) (s : Params cfg) : Bool :=
  (List.finRange cfg.all.length).all (fun i => (cfg.getParcookFormula i).isSome) &&
    (List.finRange cfg.all.length).all fun i => ((s.prepareDrawDefinable m).getDrawFormula i).isSome

/-! ## Closed caches -/

/-- The definable operands in the caches have been prepared. -/
def Closed (s : Params cfg) : Prop :=
  ∀ i, ∀ tp ∈ (s i).cache, cfg.isDefinable tp = true → (s tp).prepared = true

theorem closed_loaded : (loaded cfg).Closed := nofun

theorem closed_update {s : Params cfg} (hs : s.Closed) {i : cfg.Param} {p : Prepared cfg}
    (hp : p.prepared = true)
    (hcache : ∀ tp ∈ p.cache, cfg.isDefinable tp = true → (s tp).prepared = true) :
    (Params.Closed (Function.update s i p)) := by
  have hgrows := (Grows.update s (i := i) hp).prepared
  intro j tp htp hdef
  by_cases h : j = i
  · rw [h, Function.update_self] at htp
    exact hgrows tp (hcache tp htp hdef)
  · rw [Function.update_of_ne h] at htp
    exact hgrows tp (hs j tp htp hdef)

theorem calls_prepared {call : Params cfg → cfg.Param → Option (Params cfg × Bool)}
    (hcall : ∀ s tp s' e, call s tp = some (s', e) → Grows s s' ∧ (s' tp).prepared = true)
    {s t : Params cfg} {tps : List cfg.Param} (h : Calls call s tps t) :
    ∀ tp ∈ tps, (t tp).prepared = true := by
  induction h with
  | nil => exact fun _ h => absurd h List.not_mem_nil
  | @cons s s' s'' tp tps h hrest ih =>
    intro tp' hmem
    rcases List.mem_cons.mp hmem with rfl | hmem
    · exact (hrest.grows fun s tp s' e hc => (hcall s tp s' e hc).1).prepared _ (hcall _ _ _ _ h).2
    · exact ih tp' hmem

theorem calls_closed {call : Params cfg → cfg.Param → Option (Params cfg × Bool)}
    (hcall : ∀ s tp s' e, s.Closed → call s tp = some (s', e) → s'.Closed)
    {s t : Params cfg} {tps : List cfg.Param} (h : Calls call s tps t) (hs : s.Closed) :
    t.Closed := by
  induction h with
  | nil => exact hs
  | cons h _ ih => exact ih (hcall _ _ _ _ hs h)

theorem prepareDefinable_closed {n : ℕ} {s s' : Params cfg} {i : cfg.Param} {e : Bool}
    (hs : s.Closed) (h : prepareDefinable m n s i = some (s', e)) : s'.Closed := by
  induction n using Nat.strong_induction_on generalizing s s' i e with
  | _ n ih =>
    obtain ⟨-, rfl, -⟩ | ⟨-, -, rfl, -⟩ | ⟨-, k, t, r, rfl, hloop, hfinish⟩ :=
      prepareDefinable_cases h
    · exact hs
    · exact closed_update hs rfl (fun _ htp => absurd htp List.not_mem_nil)
    · have hgrows : ∀ (s : Params cfg) tp s' e, prepareDefinable m k s tp = some (s', e) →
          Grows s s' ∧ (s' tp).prepared = true := fun _ _ _ _ hc => prepareDefinable_grows hc
      have hmark : (s.mark i).Closed :=
        closed_update hs rfl (fun _ htp => absurd htp List.not_mem_nil)
      obtain ⟨q, hq, hprepared, hcache, -⟩ := finish_update m t i r
      rw [hfinish] at hq
      obtain rfl : s' = Function.update t i q := hq
      obtain ⟨tps, t', htraced⟩ := prepareLoop_traced hloop
      have hclosed' := calls_closed (fun s tp s' e hs hc => ih k (by omega) hs hc)
        htraced.calls hmark
      have htps := calls_prepared hgrows htraced.calls
      have htt' : t.Closed ∧ Grows t' t := by
        by_cases hr : r.ending = .rethrown
        · obtain ⟨tp, htp⟩ := htraced.rethrown hr
          exact ⟨ih k (by omega) hclosed' htp, (hgrows _ _ _ _ htp).1⟩
        · rw [htraced.returned hr]
          exact ⟨hclosed', .refl t'⟩
      apply closed_update htt'.1
      · rw [hprepared]
        exact (prepareLoop_grows (fun s tp s' e hc => (hgrows s tp s' e hc).1) hloop).prepared i
          (mark_prepared s i)
      · intro tp htp hdef
        exact htt'.2.prepared tp (htps tp (htraced.cached tp (hcache tp htp) hdef))

theorem prepare_closed {s : Params cfg} (hs : s.Closed) (i : cfg.Param) :
    (s.prepare m i).1.Closed :=
  prepareDefinable_closed hs (prepare_eq s i)

theorem prepareAll_closed {s : Params cfg} (hs : s.Closed) (is : List cfg.Param) :
    (s.prepareAll m is).Closed := by
  induction is generalizing s with
  | nil => exact hs
  | cons i is ih => exact ih (prepare_closed hs i)

theorem prepare_of_prepared {s : Params cfg} {i : cfg.Param} (hi : (s i).prepared = true) :
    s.prepare m i = (s, false) := by
  have h := prepare_eq (m := m) s i
  cases hn : cfg.all.length with
  | zero => exact absurd i.isLt (by omega)
  | succ n =>
    rw [hn, prepareDefinable, if_pos hi] at h
    exact (Option.some.inj h).symm

theorem prepare_prepared (s : Params cfg) (i : cfg.Param) : ((s.prepare m i).1 i).prepared = true :=
  (prepareDefinable_grows (prepare_eq s i)).2

end Params

def Config.checkConfiguration (m : Machine) (cfg : Config) : Bool :=
  cfg.checkRepetitions && (Params.loaded cfg).checkFormulas m && cfg.checkSend

end Ipk
end Szarp
