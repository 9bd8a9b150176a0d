import Mathlib.Data.List.Forall2
import Mathlib.Tactic.Common

/-!
# Lists of results

`List.mapM` with functions that may fail.
-/

namespace Szarp
namespace Traverse

variable {α β γ : Type*} {f g : α → Option β}

theorem mapM_cons_eq_some {a : α} {l : List α} {bs : List β} :
    (a :: l).mapM f = some bs ↔ ∃ b bs', f a = some b ∧ l.mapM f = some bs' ∧ b :: bs' = bs := by
  simp [List.mapM_cons, Option.bind_eq_some_iff]

theorem length_eq_of_mapM {l : List α} {bs : List β} (h : l.mapM f = some bs) :
    bs.length = l.length := by
  induction l generalizing bs with
  | nil => rw [← Option.some.inj h]; rfl
  | cons a l ih =>
    rw [mapM_cons_eq_some] at h
    obtain ⟨b, bs, -, hbs, rfl⟩ := h
    rw [List.length_cons, List.length_cons, ih hbs]

/-- Elements that are related in two ways at the same place. -/
theorem exists_of_forall₂ {P Q : α → β → Prop} {l : List α} {bs : List β}
    (hP : List.Forall₂ P l bs) (hQ : List.Forall₂ Q l bs) : ∀ a ∈ l, ∃ b, P a b ∧ Q a b := by
  induction hP with
  | nil => exact fun a ha => absurd ha List.not_mem_nil
  | cons hab _ ih =>
    obtain ⟨hab', hrest⟩ := List.forall₂_cons.mp hQ
    rw [List.forall_mem_cons]
    exact ⟨⟨_, hab, hab'⟩, ih hrest⟩

/-- A loop that puts every result behind the ones it has. -/
theorem foldlM_snoc (l : List α) (bs : List β) :
    l.foldlM (fun bs a => (f a).map fun b => bs ++ [b]) bs = (l.mapM f).map (bs ++ ·) := by
  induction l generalizing bs with
  | nil => simp
  | cons a l ih =>
    rw [List.foldlM_cons, List.mapM_cons]
    cases f a with
    | none => rfl
    | some b =>
      simp only [Option.map_some, Option.bind_eq_bind, Option.bind_some, ih]
      cases l.mapM f <;> simp

/-- Two lists of results are alike exactly when the results are. -/
theorem map_eq_map_iff {c : β → γ} {A : α → Prop} {l : List α} {bs bs' : List β}
    (h : ∀ a ∈ l, ∀ b b', f a = some b → g a = some b' → (c b = c b' ↔ A a))
    (hf : l.mapM f = some bs) (hg : l.mapM g = some bs') :
    bs.map c = bs'.map c ↔ ∀ a ∈ l, A a := by
  induction l generalizing bs bs' with
  | nil =>
    simp only [List.mapM_nil, Option.pure_def, Option.some.injEq] at hf hg
    simp [← hf, ← hg]
  | cons a l ih =>
    rw [mapM_cons_eq_some] at hf hg
    obtain ⟨b, bs, hb, hbs, rfl⟩ := hf
    obtain ⟨b', bs', hb', hbs', rfl⟩ := hg
    have htail := ih (fun a' ha' => h a' (List.mem_cons_of_mem a ha')) hbs hbs'
    rw [List.map_cons, List.map_cons, List.cons.injEq, htail, h a List.mem_cons_self b b' hb hb',
      List.forall_mem_cons]

end Traverse
end Szarp
