import Szarp.Szbase.Buffer

/-!
# The links of the block cache

What the pointer operations of the locators do to the list of use and to the lists of the
parameters.
-/

namespace Szarp
namespace Szbase
namespace Buffer

open Dll

variable {P : Type} {s : Buffer P} {l : ℕ}

/-- The list of use is linked, and its ends are known. -/
structure Usage (s : Buffer P) (xs : List ℕ) : Prop where
  linked : Linked s.older s.newer xs
  newest : s.newestBlock = xs.head?
  oldest : s.oldestBlock = xs.getLast?
  live : ∀ x ∈ xs, s.locators x ≠ none

theorem getLast?_ne_of_nodup {a c : List ℕ} {o : ℕ} (h : (a ++ l :: o :: c).Nodup) :
    (a ++ l :: o :: c).getLast? ≠ some l := by
  intro hlast
  rw [List.getLast?_append_cons, List.getLast?_cons_cons] at hlast
  have hcons := (List.nodup_append.mp h).2.1
  exact (List.nodup_cons.mp hcons).1 (List.mem_of_getLast? hlast)

theorem head?_ne_of_nodup {a c : List ℕ} {n : ℕ} (h : ((n :: a) ++ l :: c).Nodup) :
    ((n :: a) ++ l :: c).head? ≠ some l := by
  rw [List.cons_append, List.head?_cons]
  intro hn
  obtain rfl := Option.some.inj hn
  simp at h

theorem Usage.unlink {a c : List ℕ} (h : Usage s (a ++ l :: c)) :
    s.unlinkUsage l = some { s with
      newestBlock := (a ++ c).head?
      oldestBlock := (a ++ c).getLast?
      older := Dll.set s.older a.getLast? c.head?
      newer := Dll.set s.newer c.head? a.getLast? } := by
  obtain ⟨hlinked, hnewest, holdest, hlive⟩ := h
  obtain ⟨holder, hnewer⟩ := hlinked.links a l c rfl
  have hnodup := hlinked.nodup
  rw [unlinkUsage]
  rcases List.eq_nil_or_concat a with rfl | ⟨a, n, rfl⟩
  · have hn : some l = s.newestBlock := hnewest.symm
    cases c with
    | nil =>
      have ho : some l = s.oldestBlock := holdest.symm
      rw [if_pos ⟨hn, ho⟩, if_pos ⟨holder, hnewer⟩]
      simp
    | cons o c =>
      have ho : ¬ some l = s.oldestBlock := by
        rw [holdest]
        exact (getLast?_ne_of_nodup hnodup).symm
      rw [if_neg (fun h => ho h.2), if_pos hn]
      have hlo := hlive o (by simp)
      simp [hnewer, holder, setNewer, hlo, holdest]
  · have hn : ¬ some l = s.newestBlock := by
      rw [hnewest]
      obtain ⟨m, a', ha⟩ := List.exists_cons_of_ne_nil (show a ++ [n] ≠ [] by simp)
      rw [List.concat_eq_append, ha] at hnodup ⊢
      exact (head?_ne_of_nodup hnodup).symm
    have hln := hlive n (by simp)
    rw [List.concat_eq_append] at *
    rw [List.getLast?_concat] at hnewer
    rw [if_neg (fun h => hn h.1), if_neg hn]
    cases c with
    | nil =>
      have ho : some l = s.oldestBlock := by simp [holdest]
      rw [if_pos ho]
      simp [hnewer, holder, setOlder, hln, hnewest]
    | cons o c =>
      have ho : ¬ some l = s.oldestBlock := by
        rw [holdest]
        exact (getLast?_ne_of_nodup hnodup).symm
      have hlo := hlive o (by simp)
      rw [if_neg ho]
      simp [hnewer, holder, setOlder, setNewer, hln, hlo, holdest, hnewest]

theorem Usage.used_newest {c : List ℕ} (h : Usage s (l :: c)) : s.used l = some s := by
  have hn : some l = s.newestBlock := h.newest.symm
  have hnewer : s.newer l = none := (h.linked.links [] l c rfl).2
  rw [used, if_pos hn, if_pos hnewer]

theorem Usage.used_other {a c : List ℕ} (h : Usage s (a ++ l :: c)) (ha : a ≠ []) :
    s.used l = some { s with
      newestBlock := some l
      oldestBlock := (l :: (a ++ c)).getLast?
      older := Dll.set (Dll.set s.older a.getLast? c.head?) (some l) (a ++ c).head?
      newer := Dll.set (Dll.set (Dll.set s.newer c.head? a.getLast?) (some l) none) (a ++ c).head?
        (some l) } := by
  obtain ⟨hlinked, hnewest, holdest, hlive⟩ := h
  obtain ⟨holder, hnewer⟩ := hlinked.links a l c rfl
  have hnodup := hlinked.nodup
  obtain ⟨m, a', rfl⟩ := List.exists_cons_of_ne_nil ha
  have hn : ¬ some l = s.newestBlock := by
    rw [hnewest]
    exact (head?_ne_of_nodup hnodup).symm
  have hll := hlive l (by simp)
  have hlm := hlive m (by simp)
  obtain ⟨n, hlast⟩ : ∃ n, (m :: a').getLast? = some n :=
    ⟨_, List.getLast?_eq_some_getLast (by simp)⟩
  have hln := hlive n (List.mem_append_left _ (List.mem_of_getLast? hlast))
  rw [hlast] at hnewer ⊢
  rw [used, if_neg hn]
  cases c with
  | nil =>
    have ho : some l = s.oldestBlock := by rw [holdest, List.getLast?_concat]
    rw [if_pos ho]
    simp [hnewer, holder, setOlder, setNewer, hln, hlm, hll, hnewest, hlast]
  | cons o c =>
    have ho : ¬ some l = s.oldestBlock := by
      rw [holdest]
      exact (getLast?_ne_of_nodup hnodup).symm
    have hlo := hlive o (by simp)
    have hend : s.oldestBlock = (l :: (m :: a' ++ o :: c)).getLast? := by
      rw [holdest, List.getLast?_append_cons, List.getLast?_cons_cons, ← List.cons_append,
        List.getLast?_append_cons]
    rw [if_neg ho]
    simp [hnewer, holder, setOlder, setNewer, hln, hlm, hll, hlo, hend, hnewest]

theorem Usage.link {xs : List ℕ} (h : Usage s xs) (hl : s.locators l ≠ none)
    (holder : s.older l = none) :
    s.linkUsage l = some { s with
      newestBlock := some l
      oldestBlock := (l :: xs).getLast?
      older := Dll.set s.older (some l) xs.head?
      newer := Dll.set s.newer xs.head? (some l) } := by
  obtain ⟨hlinked, hnewest, holdest, hlive⟩ := h
  rw [linkUsage]
  cases xs with
  | nil =>
    have hn : s.newestBlock = none := hnewest
    simp [hn, set_eq_self holder]
  | cons n xs =>
    have hn : s.newestBlock = some n := hnewest
    have hln := hlive n (by simp)
    simp [hn, setOlder, setNewer, hl, hln, holdest]

section params

variable [DecidableEq P] {p : P}

/-- The list of a parameter. -/
structure Chain (s : Buffer P) (p : P) (ys : List ℕ) : Prop where
  linked : Linked s.nextSameParam s.prevSameParam ys
  index : s.paramindex p = ys.head?
  live : ∀ y ∈ ys, s.locators y ≠ none

theorem Chain.unlink {a c : List ℕ} (h : Chain s p (a ++ l :: c)) :
    s.unlinkParam l p = some { s with
      paramindex := Function.update s.paramindex p (a ++ c).head?
      nextSameParam := Dll.set s.nextSameParam a.getLast? c.head?
      prevSameParam := Dll.set s.prevSameParam c.head? a.getLast? } := by
  obtain ⟨hlinked, hindex, hlive⟩ := h
  obtain ⟨hnext, hprev⟩ := hlinked.links a l c rfl
  have hset : ∀ q, c.head? = some q → s.locators q ≠ none :=
    fun q hq => hlive q (by simp [List.mem_of_mem_head? (by rw [hq]; rfl : q ∈ c.head?)])
  rw [unlinkParam]
  rcases List.eq_nil_or_concat a with rfl | ⟨a, q, rfl⟩
  · rw [hprev, hnext]
    cases c with
    | nil => simp [setPrevSameParamOf, setParamindex]
    | cons o c =>
      have hlo := hset o rfl
      simp [setPrevSameParamOf, setPrevSameParam, setParamindex, hlo]
  · rw [List.concat_eq_append] at *
    rw [List.getLast?_concat] at hprev
    have hlq := hlive q (by simp)
    have hhead : (a ++ [q] ++ c).head? = s.paramindex p := by
      rw [hindex]
      cases a <;> simp
    have hql : some q ≠ some l := by
      intro hql
      obtain rfl := Option.some.inj hql
      exact List.disjoint_of_nodup_append hlinked.nodup (by simp) List.mem_cons_self
    rw [hprev, hhead, Function.update_eq_self, List.getLast?_concat, hnext]
    cases c with
    | nil => simp [setPrevSameParamOf, setNextSameParam, hlq, set_of_ne hql, hnext]
    | cons o c =>
      have hlo := hset o rfl
      simp [setPrevSameParamOf, setNextSameParam, setPrevSameParam, hlq, hlo, set_of_ne hql, hnext,
        hprev]

theorem Chain.link {ys : List ℕ} (h : Chain s p ys) (hl : s.locators l ≠ none)
    (hnext : s.nextSameParam l = none) :
    s.linkParam l p = some { s with
      paramindex := Function.update s.paramindex p (some l)
      nextSameParam := Dll.set s.nextSameParam (some l) ys.head?
      prevSameParam := Dll.set s.prevSameParam ys.head? (some l) } := by
  obtain ⟨hlinked, hindex, hlive⟩ := h
  rw [linkParam]
  cases ys with
  | nil =>
    have hp : s.paramindex p = none := hindex
    simp [hp, setParamindex, set_eq_self hnext]
  | cons q ys =>
    have hp : s.paramindex p = some q := hindex
    have hlq := hlive q (by simp)
    simp [hp, setNextSameParam, setPrevSameParam, setParamindex, hl, hlq]

end params

end Buffer
end Szbase
end Szarp
