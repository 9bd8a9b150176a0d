import Mathlib.Data.List.SplitBy
import Mathlib.Tactic.Common

/-!
# Runs of equal keys
-/

namespace Szarp
namespace Runs

variable {α κ : Type*} [DecidableEq κ] (key : α → κ)

/-- The maximal runs of elements with equal keys. -/
def runs (l : List α) : List (List α) := l.splitBy fun a b => key a = key b

/-- The last element of each run. -/
def lasts (l : List α) : List α := (runs key l).filterMap List.getLast?

variable {key} {l : List α} {a b : α}

theorem lasts_append_of_ne (h : ∀ b ∈ l.getLast?, key b ≠ key a) :
    lasts key (l ++ [a]) = lasts key l ++ [a] := by
  have hsplit : runs key (l ++ [a]) = runs key l ++ [[a]] := by
    apply List.splitBy_append_cons
    intro b hb
    simpa using h b hb
  rw [lasts, hsplit, List.filterMap_append]
  rfl

theorem lasts_append_of_eq (hb : l.getLast? = some b) (h : key b = key a) :
    lasts key (l ++ [a]) = (lasts key l).dropLast ++ [a] := by
  have hne : l ≠ [] := by
    rintro rfl
    exact nomatch hb
  obtain ⟨gs, g, hgs⟩ : ∃ gs g, runs key l = gs ++ [g] :=
    (List.eq_nil_or_concat' (runs key l)).resolve_left (List.splitBy_ne_nil.mpr hne)
  obtain ⟨hflat, hnil, hchain, hnext⟩ := List.splitBy_eq_iff.mp hgs
  have hg : g ≠ [] := fun hg => hnil (by simp [hg])
  have hlast : g.getLast? = some b := by
    rw [← hb, hflat, List.flatten_append, List.flatten_singleton, List.getLast?_append_of_ne_nil _ hg]
  have hrun : runs key (l ++ [a]) = gs ++ [g ++ [a]] := by
    apply List.splitBy_eq_iff.mpr
    refine ⟨by simp [hflat], ?_, ?_, ?_⟩
    · intro hmem
      obtain hmem | hmem := List.mem_append.mp hmem
      · exact hnil (List.mem_append_left _ hmem)
      · simp at hmem
    · intro m hm
      obtain hm | hm := List.mem_append.mp hm
      · exact hchain m (List.mem_append_left _ hm)
      · obtain rfl := List.mem_singleton.mp hm
        rw [List.isChain_append]
        refine ⟨hchain g (by simp), List.isChain_singleton a, ?_⟩
        rintro x hx y ⟨⟩
        rw [hlast] at hx
        obtain rfl := Option.some.inj hx
        simpa using h
    · rw [List.isChain_append] at hnext ⊢
      refine ⟨hnext.1, List.isChain_singleton _, ?_⟩
      rintro x hx y ⟨⟩
      obtain ⟨hx', hg', hfalse⟩ := hnext.2.2 x hx g rfl
      refine ⟨hx', by simp, ?_⟩
      rwa [List.head_append_of_ne_nil hg]
  have hbefore : lasts key l = gs.filterMap List.getLast? ++ [b] := by
    rw [lasts, hgs, List.filterMap_append, List.filterMap_cons_some hlast, List.filterMap_nil]
  rw [hbefore, List.dropLast_concat, lasts, hrun, List.filterMap_append]
  simp

theorem mem_of_mem_lasts (h : a ∈ lasts key l) : a ∈ l := by
  obtain ⟨g, hg, ha⟩ := List.mem_filterMap.mp h
  have hflat : (runs key l).flatten = l := List.flatten_splitBy _ l
  rw [← hflat]
  exact List.mem_flatten.mpr ⟨g, hg, List.mem_of_getLast? ha⟩

theorem getLast?_lasts (l : List α) : (lasts key l).getLast? = l.getLast? := by
  induction l using List.reverseRecOn with
  | nil => rfl
  | append_singleton l a ih =>
    cases hl : l.getLast? with
    | none =>
      rw [lasts_append_of_ne (by simp [hl])]
      simp
    | some b =>
      by_cases h : key b = key a
      · rw [lasts_append_of_eq hl h]
        simp
      · rw [lasts_append_of_ne (by simpa [hl] using h)]
        simp

end Runs
end Szarp
