import Mathlib.Data.List.Basic
import Mathlib.Data.List.Lookmap
import Mathlib.Data.List.Nodup
import Mathlib.Tactic.Common

/-!
# XML documents

A document as a tree and as the stream of events that a pull reader makes of it.
-/

namespace Szarp
namespace Xml

structure Name where
  pre : Option String
  loc : String
deriving DecidableEq, Repr

/-! ## Attributes -/

/-- The attributes of an element, under their qualified names. -/
structure Attrs where
  list : List (String × String)
  nodup : (list.map Prod.fst).Nodup

namespace Attrs

def empty : Attrs := ⟨[], List.nodup_nil⟩

def get (a : Attrs) (key : String) : Option String := a.list.lookup key

theorem get_eq_none {a : Attrs} {key : String} : a.get key = none ↔ key ∉ a.list.map Prod.fst := by
  rw [get, List.lookup_eq_none_iff, List.mem_map]
  constructor
  · intro h ⟨kv, hkv, hkey⟩
    exact absurd (h kv hkv) (by simp [hkey])
  · intro h kv hkv
    simpa using fun hkey : key = kv.1 => h ⟨kv, hkv, hkey.symm⟩

theorem lookup_eq_some {l : List (String × String)} (hl : (l.map Prod.fst).Nodup)
    {key value : String} : l.lookup key = some value ↔ (key, value) ∈ l := by
  induction l with
  | nil => simp
  | cons kv l ih =>
    obtain ⟨k, v⟩ := kv
    rw [List.map_cons, List.nodup_cons] at hl
    by_cases hk : key = k
    · subst hk
      rw [List.lookup_cons_self, List.mem_cons, Option.some.injEq, Prod.mk.injEq]
      have hnot : (key, value) ∉ l := fun h => hl.1 (List.mem_map.mpr ⟨_, h, rfl⟩)
      simp [hnot, eq_comm]
    · have hne : (key == k) = false := by simpa using hk
      rw [List.lookup_cons, hne, ih hl.2, List.mem_cons, Prod.mk.injEq]
      simp [hk]

theorem get_eq_some {a : Attrs} {key value : String} :
    a.get key = some value ↔ (key, value) ∈ a.list := lookup_eq_some a.nodup

/-- An attribute is set; one of the name is replaced. -/
def set (a : Attrs) (key value : String) : Attrs :=
  if h : key ∈ a.list.map Prod.fst then
    ⟨a.list.map fun kv => if kv.1 = key then (key, value) else kv, by
      have hkeys : (a.list.map fun kv => if kv.1 = key then (key, value) else kv).map Prod.fst =
          a.list.map Prod.fst := by
        rw [List.map_map]
        apply List.map_congr_left
        intro kv _
        by_cases hk : kv.1 = key <;> simp [hk]
      rw [hkeys]
      exact a.nodup⟩
  else ⟨a.list ++ [(key, value)], by
    rw [List.map_append, List.nodup_append]
    refine ⟨a.nodup, List.nodup_singleton key, ?_⟩
    rintro k hk k' hk' rfl
    rw [List.map_singleton, List.mem_singleton] at hk'
    rw [hk'] at hk
    exact h hk⟩

theorem mem_set {a : Attrs} {key value k v : String} :
    (k, v) ∈ (a.set key value).list ↔ k = key ∧ v = value ∨ k ≠ key ∧ (k, v) ∈ a.list := by
  unfold set
  split
  · rename_i h
    rw [List.mem_map]
    constructor
    · rintro ⟨kv, hkv, heq⟩
      by_cases hk : kv.1 = key
      · rw [if_pos hk, Prod.mk.injEq] at heq
        exact Or.inl ⟨heq.1.symm, heq.2.symm⟩
      · rw [if_neg hk] at heq
        subst heq
        exact Or.inr ⟨hk, hkv⟩
    · rintro (⟨rfl, rfl⟩ | ⟨hne, hmem⟩)
      · obtain ⟨kv, hkv, hk⟩ := List.mem_map.mp h
        exact ⟨kv, hkv, if_pos hk⟩
      · exact ⟨(k, v), hmem, if_neg hne⟩
  · rename_i h
    rw [List.mem_append, List.mem_singleton, Prod.mk.injEq]
    constructor
    · rintro (hmem | heq)
      · refine Or.inr ⟨?_, hmem⟩
        rintro rfl
        exact h (List.mem_map.mpr ⟨(k, v), hmem, rfl⟩)
      · exact Or.inl heq
    · rintro (heq | ⟨-, hmem⟩)
      · exact Or.inr heq
      · exact Or.inl hmem

@[simp] theorem get_set_self (a : Attrs) (key value : String) :
    (a.set key value).get key = some value := by
  rw [get_eq_some, mem_set]
  exact Or.inl ⟨rfl, rfl⟩

@[simp] theorem get_set_of_ne (a : Attrs) {key k : String} (value : String) (h : k ≠ key) :
    (a.set key value).get k = a.get k := by
  ext v
  rw [get_eq_some, get_eq_some, mem_set]
  simp [h]

section Fold

variable {σ α : Type} {step : σ → String × String → Option σ} (field : σ → α) (key : String)
  (value : String → α)

/-- A loop over the attributes keeps what every turn of it keeps. -/
theorem foldlM_const (hstep : ∀ s kv s', step s kv = some s' → field s' = field s)
    {l : List (String × String)} {s s' : σ} (h : l.foldlM step s = some s') :
    field s' = field s := by
  induction l generalizing s with
  | nil => rw [Option.some.inj h]
  | cons kv l ih =>
    rw [List.foldlM_cons, Option.bind_eq_bind, Option.bind_eq_some_iff] at h
    obtain ⟨s₁, hs₁, h⟩ := h
    rw [ih h, hstep s kv s₁ hs₁]

theorem field_foldlM_list
    (hstep : ∀ s kv s', step s kv = some s' → field s' = if kv.1 = key then value kv.2 else field s)
    {l : List (String × String)} (hl : (l.map Prod.fst).Nodup) {s s' : σ}
    (h : l.foldlM step s = some s') :
    field s' = ((l.lookup key).map value).getD (field s) := by
  induction l generalizing s with
  | nil => rw [Option.some.inj h]; rfl
  | cons kv l ih =>
    obtain ⟨k, v⟩ := kv
    rw [List.foldlM_cons, Option.bind_eq_bind, Option.bind_eq_some_iff] at h
    obtain ⟨s₁, hs₁, h⟩ := h
    rw [List.map_cons, List.nodup_cons] at hl
    have hfield := hstep s (k, v) s₁ hs₁
    rw [ih hl.2 h]
    by_cases hk : k = key
    · subst hk
      have hnone : l.lookup k = none := by
        rw [List.lookup_eq_none_iff]
        intro kv hkv
        simpa using fun hkey : k = kv.1 => hl.1 (List.mem_map.mpr ⟨kv, hkv, hkey.symm⟩)
      rw [hnone, List.lookup_cons_self, hfield, if_pos rfl]
      rfl
    · have hne : (key == k) = false := by simpa using Ne.symm hk
      rw [List.lookup_cons, hne, hfield, if_neg hk]

/-- A loop over the attributes that sets a field at one of them only computes what a look-up does. -/
theorem field_foldlM (a : Attrs)
    (hstep : ∀ s kv s', step s kv = some s' → field s' = if kv.1 = key then value kv.2 else field s)
    {s s' : σ} (h : a.list.foldlM step s = some s') :
    field s' = ((a.get key).map value).getD (field s) :=
  field_foldlM_list field key value hstep a.nodup h

end Fold

end Attrs

/-! ## Trees and events -/

inductive Node where
  | element (name : Name) (attrs : Attrs) (children : List Node)
  /-- An element that is written as an empty tag. -/
  | empty (name : Name) (attrs : Attrs)
  | text (content : String)
  | cdata (content : String)
  | comment

inductive Event where
  | start (name : Name) (attrs : Attrs) (isEmpty : Bool)
  | stop (name : Name)
  | text (content : String)
  | cdata (content : String)
  | comment

mutual

/-- The events of a node; an empty tag has no end. -/
def Node.events : Node → List Event
  | .element name attrs children => .start name attrs false :: (eventsOf children ++ [.stop name])
  | .empty name attrs => [.start name attrs true]
  | .text content => [.text content]
  | .cdata content => [.cdata content]
  | .comment => [.comment]

def eventsOf : List Node → List Event
  | [] => []
  | n :: ns => n.events ++ eventsOf ns

end

theorem eventsOf_append (ns ms : List Node) : eventsOf (ns ++ ms) = eventsOf ns ++ eventsOf ms := by
  induction ns with
  | nil => rfl
  | cons n ns ih => rw [List.cons_append, eventsOf, eventsOf, ih, List.append_assoc]

namespace Node

def attrs : Node → Attrs
  | element _ attrs _ => attrs
  | empty _ attrs => attrs
  | _ => .empty

def children : Node → List Node
  | element _ _ children => children
  | _ => []

/-- The local name of an element. -/
def loc : Node → Option String
  | element name _ _ => some name.loc
  | empty name _ => some name.loc
  | _ => none

def prop (n : Node) (key : String) : Option String := n.attrs.get key

def named (n : Node) (loc : String) : List Node := n.children.filter fun c => c.loc = some loc

end Node

end Xml
end Szarp
