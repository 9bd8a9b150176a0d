import Mathlib.Init

/-!
# Runs of a transition function
-/

namespace Szarp
namespace Run

variable {S E : Type*} (step : S → E → S)

/-- Every event of a run meets `P` in the state in which it happens. -/
def Along (P : S → E → Prop) : S → List E → Prop
  | _, [] => True
  | s, e :: es => P s e ∧ Along P (step s e) es

variable {step} {Legal P Q : S → E → Prop} {Inv : S → Prop}

/-- `P` holds along the runs that meet `Q`, where `Q` preserves an invariant under which it gives
`P`. -/
theorem along_of_inv (hinv : ∀ s e, Inv s → Legal s e → Q s e → Inv (step s e))
    (hgood : ∀ s e, Inv s → Legal s e → Q s e → P s e) {s : S} (hs : Inv s) {es : List E}
    (hes : Along step Legal s es) (hq : Along step Q s es) : Along step P s es := by
  induction es generalizing s with
  | nil => exact trivial
  | cons e es ih =>
    obtain ⟨hlegal, hrest⟩ := hes
    obtain ⟨hq, hqs⟩ := hq
    exact ⟨hgood s e hs hlegal hq, ih (hinv s e hs hlegal hq) hrest hqs⟩

/-- Where `P` and `Q` agree under an invariant that `Q` preserves, they agree along runs. -/
theorem along_iff (hinv : ∀ s e, Inv s → Legal s e → Q s e → Inv (step s e))
    (hiff : ∀ s e, Inv s → Legal s e → (P s e ↔ Q s e)) {s : S} (hs : Inv s) {es : List E}
    (hes : Along step Legal s es) : Along step P s es ↔ Along step Q s es := by
  constructor
  · apply along_of_inv (fun s e hs hlegal hp => hinv s e hs hlegal ((hiff s e hs hlegal).mp hp))
      (fun s e hs hlegal hp => (hiff s e hs hlegal).mp hp) hs hes
  · exact along_of_inv hinv (fun s e hs hlegal hq => (hiff s e hs hlegal).mpr hq) hs hes

/-! ## Steps that may fail -/

def LegalRun (step : S → E → Option S) (Legal : S → E → Prop) : S → List E → Prop
  | _, [] => True
  | s, e :: es => Legal s e ∧ ∀ t, step s e = some t → LegalRun step Legal t es

/-- No step of the run fails, every state is good, and every step is. -/
def SafeRun (step : S → E → Option S) (Good : S → Prop) (GoodStep : S → E → S → Prop) :
    S → List E → Prop
  | s, [] => Good s
  | s, e :: es => Good s ∧ ∃ t, step s e = some t ∧ GoodStep s e t ∧ SafeRun step Good GoodStep t es

variable {partialStep : S → E → Option S} {Good : S → Prop} {GoodStep : S → E → S → Prop}

theorem SafeRun.foldlM_ne_none {s : S} {es : List E}
    (h : SafeRun partialStep Good GoodStep s es) : es.foldlM partialStep s ≠ none := by
  induction es generalizing s with
  | nil => exact Option.some_ne_none s
  | cons e es ih =>
    obtain ⟨-, t, ht, -, hrest⟩ := h
    rw [List.foldlM_cons, ht]
    exact ih hrest

theorem SafeRun.good {s t : S} {es : List E} (h : SafeRun partialStep Good GoodStep s es)
    (ht : es.foldlM partialStep s = some t) : Good t := by
  induction es generalizing s with
  | nil =>
    obtain rfl := Option.some.inj ht
    exact h
  | cons e es ih =>
    obtain ⟨-, s', hs', -, hrest⟩ := h
    rw [List.foldlM_cons, hs'] at ht
    exact ih hrest ht

theorem LegalRun.and {Legal' : S → E → Prop} {s : S} {es : List E}
    (h : LegalRun partialStep Legal s es) (h' : LegalRun partialStep Legal' s es) :
    LegalRun partialStep (fun s e => Legal s e ∧ Legal' s e) s es := by
  induction es generalizing s with
  | nil => exact trivial
  | cons e es ih => exact ⟨⟨h.1, h'.1⟩, fun t ht => ih (h.2 t ht) (h'.2 t ht)⟩

/-- What is legal in a run is legal in the state that its first events lead to. -/
theorem LegalRun.apply {s t : S} {es rest : List E} {e : E}
    (h : LegalRun partialStep Legal s (es ++ e :: rest)) (ht : es.foldlM partialStep s = some t) :
    Legal t e := by
  induction es generalizing s with
  | nil =>
    obtain rfl := Option.some.inj ht
    exact h.1
  | cons e' es ih =>
    rw [List.foldlM_cons] at ht
    obtain ⟨s', hs', ht'⟩ := Option.bind_eq_some_iff.mp ht
    exact ih (h.2 s' hs') ht'

/-- Under an invariant that the legal steps preserve, `P` holds of the steps of a legal run. -/
theorem legalRun_of_inv {P : S → E → Prop} (J : S → Prop)
    (hgood : ∀ s e, J s → Legal s e → P s e)
    (hinv : ∀ s e t, J s → Legal s e → partialStep s e = some t → J t) {s : S} (hs : J s)
    {es : List E} (hes : LegalRun partialStep Legal s es) : LegalRun partialStep P s es := by
  induction es generalizing s with
  | nil => exact trivial
  | cons e es ih =>
    obtain ⟨hlegal, hrest⟩ := hes
    exact ⟨hgood s e hs hlegal, fun t ht => ih (hinv s e t hs hlegal ht) (hrest t ht)⟩

/-- `J` is an invariant of the legal steps. -/
theorem safeRun_of_inv (J : S → Prop)
    (hstep : ∀ s e, J s → Legal s e → ∃ t, partialStep s e = some t ∧ GoodStep s e t ∧ J t)
    (hgood : ∀ s, J s → Good s) {s : S} (hs : J s) {es : List E}
    (hes : LegalRun partialStep Legal s es) : SafeRun partialStep Good GoodStep s es := by
  induction es generalizing s with
  | nil => exact hgood s hs
  | cons e es ih =>
    obtain ⟨hlegal, hrest⟩ := hes
    obtain ⟨t, ht, hgoodStep, hinv⟩ := hstep s e hs hlegal
    exact ⟨hgood s hs, t, ht, hgoodStep, ih hinv (hrest t ht)⟩

/-- Under `J`, the steps of a domain that keep `Good` are exactly those that meet `Q`. -/
theorem safeRun_iff_of_step {Domain Q : S → E → Prop} (J : S → Prop)
    (hstep : ∀ s e, J s → Good s → Domain s e →
      ((∃ t, partialStep s e = some t ∧ GoodStep s e t ∧ Good t) ↔ Q s e))
    (hinv : ∀ s e t, J s → Good s → Domain s e → partialStep s e = some t → Good t → J t)
    {s : S} (hJ : J s) (hs : Good s) {es : List E} (hes : LegalRun partialStep Domain s es) :
    SafeRun partialStep Good GoodStep s es ↔ LegalRun partialStep Q s es := by
  induction es generalizing s with
  | nil => exact ⟨fun _ => trivial, fun _ => hs⟩
  | cons e es ih =>
    obtain ⟨hdomain, hrest⟩ := hes
    have hiff := hstep s e hJ hs hdomain
    constructor
    · rintro ⟨-, t, ht, hgoodStep, hsafe⟩
      have hgood : Good t := by
        cases es with
        | nil => exact hsafe
        | cons e es => exact hsafe.1
      refine ⟨hiff.mp ⟨t, ht, hgoodStep, hgood⟩, fun t' ht' => ?_⟩
      obtain rfl := Option.some.inj (ht.symm.trans ht')
      exact (ih (hinv s e t hJ hs hdomain ht hgood) hgood (hrest t ht)).mp hsafe
    · rintro ⟨hq, hlegal⟩
      obtain ⟨t, ht, hgoodStep, hgood⟩ := hiff.mpr hq
      exact ⟨hs, t, ht, hgoodStep,
        (ih (hinv s e t hJ hs hdomain ht hgood) hgood (hrest t ht)).mpr (hlegal t ht)⟩

/-- The steps of a domain keep `J`, and those that keep `Good` are exactly those that meet `Q`. -/
theorem safeRun_iff_of_domain {Domain Q : S → E → Prop} (J : S → Prop)
    (hstep : ∀ s e, J s → Good s → Domain s e →
      ∃ t, partialStep s e = some t ∧ J t ∧ (GoodStep s e t ∧ Good t ↔ Q s e))
    {s : S} (hJ : J s) (hs : Good s) {es : List E} (hes : LegalRun partialStep Domain s es) :
    SafeRun partialStep Good GoodStep s es ↔ LegalRun partialStep Q s es := by
  apply safeRun_iff_of_step J _ _ hJ hs hes
  · intro s e hJ hs hdomain
    obtain ⟨t, ht, -, hiff⟩ := hstep s e hJ hs hdomain
    constructor
    · rintro ⟨t', ht', hgood⟩
      obtain rfl := Option.some.inj (ht.symm.trans ht')
      exact hiff.mp hgood
    · exact fun hq => ⟨t, ht, hiff.mpr hq⟩
  · intro s e t' hJ hs hdomain ht' _
    obtain ⟨t, ht, hJt, -⟩ := hstep s e hJ hs hdomain
    obtain rfl := Option.some.inj (ht.symm.trans ht')
    exact hJt

/-- Where the legal steps are exactly those that keep `Good`, the legal runs are the safe ones. -/
theorem safeRun_iff_legalRun
    (hstep : ∀ s e, Good s →
      ((∃ t, partialStep s e = some t ∧ GoodStep s e t ∧ Good t) ↔ Legal s e))
    {s : S} (hs : Good s) (es : List E) :
    SafeRun partialStep Good GoodStep s es ↔ LegalRun partialStep Legal s es := by
  have hdomain : LegalRun partialStep (fun _ _ => True) s es := by
    clear hs
    induction es generalizing s with
    | nil => exact trivial
    | cons e es ih => exact ⟨trivial, fun _ _ => ih⟩
  exact safeRun_iff_of_step (fun _ => True) (fun s e _ hs _ => hstep s e hs)
    (fun _ _ _ _ _ _ _ _ => trivial) trivial hs hdomain

end Run
end Szarp
