import Mathlib.Data.List.Nodup
import Mathlib.Data.List.Sort

/-!
# A container with two indices

Entries that stand in the order of one key and have distinct names.
-/

namespace Szarp

/-- Entries ordered by `order`, at most one for each `name`. -/
structure MultiIndex {α κ ι : Type*} [LinearOrder ι] (name : α → κ) (order : α → ι) where
  entries : List α
  sorted : entries.Pairwise fun a b => order a ≤ order b
  unique : (entries.map name).Nodup

namespace MultiIndex

variable {α κ ι : Type*} [LinearOrder ι] {name : α → κ} {order : α → ι}

def empty : MultiIndex name order := ⟨[], .nil, List.nodup_nil⟩

variable [DecidableEq κ]

def find (c : MultiIndex name order) (k : κ) : Option α := c.entries.find? fun a => name a = k

/-- An entry behind all that are not greater. -/
def place (order : α → ι) (a : α) (l : List α) : List α :=
  l.orderedInsert (fun a b => order a < order b) a

theorem place_perm (a : α) (l : List α) : (place order a l).Perm (a :: l) :=
  List.perm_orderedInsert _ a l

theorem place_sorted (a : α) {l : List α} (h : l.Pairwise fun a b => order a ≤ order b) :
    (place order a l).Pairwise fun a b => order a ≤ order b := by
  induction l with
  | nil => exact List.pairwise_singleton _ _
  | cons b l ih =>
    rw [List.pairwise_cons] at h
    rw [place, List.orderedInsert_cons]
    split
    · rename_i hlt
      rw [List.pairwise_cons]
      refine ⟨fun x hx => ?_, List.pairwise_cons.mpr h⟩
      obtain rfl | hx := List.mem_cons.mp hx
      · exact hlt.le
      · exact hlt.le.trans (h.1 x hx)
    · rename_i hlt
      rw [List.pairwise_cons]
      refine ⟨fun x hx => ?_, ih h.2⟩
      obtain rfl | hx := List.mem_cons.mp ((place_perm a l).mem_iff.mp hx)
      · exact not_lt.mp hlt
      · exact h.1 x hx

/-- An entry is put in unless there is one of its name. -/
def insert (c : MultiIndex name order) (a : α) : MultiIndex name order :=
  if h : name a ∈ c.entries.map name then c
  else
    { entries := place order a c.entries
      sorted := place_sorted a c.sorted
      unique := by
        have hplace : (place order a c.entries).Perm (a :: c.entries) := place_perm a c.entries
        have hperm := hplace.map name
        rw [hperm.nodup_iff, List.map_cons, List.nodup_cons]
        exact ⟨h, c.unique⟩ }

def erase (c : MultiIndex name order) (k : κ) : MultiIndex name order where
  entries := c.entries.filter fun a => name a ≠ k
  sorted := c.sorted.filter _
  unique := c.unique.sublist (List.filter_sublist.map name)

theorem mem_insert {c : MultiIndex name order} {a b : α} (h : b ∈ (c.insert a).entries) :
    b = a ∨ b ∈ c.entries := by
  unfold insert at h
  split at h
  · exact .inr h
  · exact List.mem_cons.mp ((place_perm a c.entries).mem_iff.mp h)

theorem mem_erase {c : MultiIndex name order} {k : κ} {b : α} (h : b ∈ (c.erase k).entries) :
    b ∈ c.entries :=
  (List.mem_filter.mp h).1

/-! ## What is found -/

theorem find_eq_some {c : MultiIndex name order} {k : κ} {a : α} :
    c.find k = some a ↔ a ∈ c.entries ∧ name a = k := by
  constructor
  · intro h
    exact ⟨List.mem_of_find?_eq_some h, by simpa using List.find?_some h⟩
  · rintro ⟨hmem, rfl⟩
    obtain ⟨b, hb⟩ : ∃ b, c.find (name a) = some b := by
      rw [← Option.isSome_iff_exists, find, List.find?_isSome]
      exact ⟨a, hmem, by simp⟩
    have hname : name b = name a := by simpa using List.find?_some hb
    rw [hb, List.inj_on_of_nodup_map c.unique (List.mem_of_find?_eq_some hb) hmem hname]

theorem find_eq_none {c : MultiIndex name order} {k : κ} :
    c.find k = none ↔ k ∉ c.entries.map name := by
  rw [find, List.find?_eq_none, List.mem_map]
  simp

theorem find_insert (c : MultiIndex name order) (a : α) (k : κ) :
    (c.insert a).find k = if name a = k ∧ c.find k = none then some a else c.find k := by
  split
  · rename_i h
    obtain ⟨rfl, hnone⟩ := h
    rw [find_eq_none] at hnone
    rw [find_eq_some, insert, dif_neg hnone]
    exact ⟨(place_perm a c.entries).mem_iff.mpr List.mem_cons_self, rfl⟩
  · rename_i h
    unfold insert
    split
    · rfl
    · rename_i hfree
      have hne : name a ≠ k := by
        rintro rfl
        exact h ⟨rfl, find_eq_none.mpr hfree⟩
      ext b
      rw [find_eq_some, find_eq_some, (place_perm a c.entries).mem_iff, List.mem_cons]
      constructor
      · rintro ⟨rfl | hb, hk⟩
        · exact absurd hk hne
        · exact ⟨hb, hk⟩
      · rintro ⟨hb, hk⟩
        exact ⟨.inr hb, hk⟩

theorem find_erase (c : MultiIndex name order) (k k' : κ) :
    (c.erase k).find k' = if k' = k then none else c.find k' := by
  split
  · rename_i h
    rw [find_eq_none, List.mem_map]
    rintro ⟨a, ha, rfl⟩
    simp [erase, h] at ha
  · rename_i h
    ext b
    rw [find_eq_some, find_eq_some, erase, List.mem_filter]
    constructor
    · rintro ⟨⟨hb, -⟩, hk⟩
      exact ⟨hb, hk⟩
    · rintro ⟨hb, rfl⟩
      exact ⟨⟨hb, by simpa using h⟩, rfl⟩

end MultiIndex
end Szarp
