import Mathlib.Data.List.Basic
import Mathlib.Tactic.Common

/-!
# Property trees

A tree of values whose children stand in a row under keys that may repeat.  Where one child is meant
it is the first of its key; what is put under a missing key stands behind the others.
-/

namespace Szarp

/-! ## Rows of children -/

abbrev Row (κ τ : Type) := List (κ × τ)

namespace Row

variable {κ τ : Type} [DecidableEq κ]

def find (k : κ) (r : Row κ τ) : Option τ := (List.find? (fun e => e.1 = k) r).map Prod.snd

/-- The first value of a key changed, or a new one put behind the others. -/
def alter (k : κ) (f : Option τ → τ) : Row κ τ → Row κ τ
  | [] => [(k, f none)]
  | (k', v) :: r => if k' = k then (k', f (some v)) :: r else (k', v) :: alter k f r

attribute [local simp] alter

def erase (k : κ) (r : Row κ τ) : Row κ τ := List.filter (fun e => e.1 ≠ k) r

@[simp] theorem find_nil (k : κ) : find k ([] : Row κ τ) = none := rfl

theorem find_cons (k : κ) (e : κ × τ) (r : Row κ τ) :
    find k (e :: r) = if e.1 = k then some e.2 else find k r := by
  rw [find, List.find?_cons]
  by_cases h : e.1 = k
  · simp [h]
  · simp [h, find]

theorem mem_of_find {k : κ} {v : τ} {r : Row κ τ} (h : find k r = some v) : (k, v) ∈ r := by
  induction r with
  | nil => exact absurd h (by simp)
  | cons e r ih =>
    rw [find_cons] at h
    split at h
    · rename_i hk
      rw [← Option.some.inj h, ← hk]
      exact List.mem_cons_self
    · exact List.mem_cons_of_mem _ (ih h)

theorem find_alter (k k' : κ) (f : Option τ → τ) (r : Row κ τ) :
    find k (alter k' f r) = if k = k' then some (f (find k r)) else find k r := by
  induction r with
  | nil => simp [alter, find_cons, eq_comm]
  | cons e r ih =>
    rw [alter]
    by_cases hk : e.1 = k'
    · rw [if_pos hk, find_cons, find_cons]
      by_cases hkk : k = k'
      · simp [hkk, hk]
      · simp [hkk, hk, Ne.symm hkk]
    · rw [if_neg hk, find_cons, find_cons, ih]
      by_cases hek : e.1 = k
      · have hkk : k ≠ k' := fun h => hk (hek.trans h)
        simp [hek, hkk]
      · simp [hek]

theorem mem_alter_of_ne {k : κ} {f : Option τ → τ} {r : Row κ τ} {e : κ × τ} (h : e.1 ≠ k) :
    e ∈ alter k f r ↔ e ∈ r := by
  induction r with
  | nil => simpa [alter] using fun he : e = _ => h (by rw [he])
  | cons e' r ih =>
    rw [alter]
    split
    · rename_i hk
      rw [List.mem_cons, List.mem_cons]
      constructor
      · rintro (he | he)
        · exact absurd (by rw [he]; exact hk) h
        · exact Or.inr he
      · rintro (he | he)
        · exact absurd (by rw [he]; exact hk) h
        · exact Or.inr he
    · rw [List.mem_cons, List.mem_cons, ih]

theorem mem_erase {k : κ} {r : Row κ τ} {e : κ × τ} : e ∈ erase k r ↔ e ∈ r ∧ e.1 ≠ k := by
  simp [erase]

end Row

/-! ## Trees -/

inductive PTree (κ δ : Type)
  | node (data : δ) (children : List (κ × PTree κ δ))

namespace PTree

variable {κ δ : Type}

def data : PTree κ δ → δ
  | node d _ => d

def children : PTree κ δ → Row κ (PTree κ δ)
  | node _ r => r

@[simp] theorem children_node (d : δ) (r : Row κ (PTree κ δ)) : (node d r).children = r := rfl

variable [DecidableEq κ]

def getChild : List κ → PTree κ δ → Option (PTree κ δ)
  | [], t => some t
  | k :: path, t => (t.children.find k).bind (getChild path)

def erase (k : κ) (t : PTree κ δ) : PTree κ δ := node t.data (Row.erase k t.children)

def addChild (k : κ) (t v : PTree κ δ) : PTree κ δ := node t.data (t.children ++ [(k, v)])

variable [Inhabited δ]

/-- The child at a path changed; what is missing of the path is made. -/
def update (f : PTree κ δ → PTree κ δ) : List κ → PTree κ δ → PTree κ δ
  | [], t => f t
  | k :: path, t =>
    node t.data (t.children.alter k fun v => update f path (v.getD (node default [])))

/-- A child put at a path, in place of the one that is there. -/
def putChild (path : List κ) (t v : PTree κ δ) : PTree κ δ := update (fun _ => v) path t

/-- The value of the child at a path. -/
def put (path : List κ) (d : δ) (t : PTree κ δ) : PTree κ δ :=
  update (fun v => node d v.children) path t

theorem find_update (f : PTree κ δ → PTree κ δ) (k k' : κ) (path : List κ) (t : PTree κ δ) :
    (update f (k' :: path) t).children.find k =
      if k = k' then some (update f path ((t.children.find k).getD (node default [])))
      else t.children.find k := by
  rw [update, children_node, Row.find_alter]

end PTree
end Szarp
