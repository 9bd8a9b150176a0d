import Szarp.Ipk.Document

/-!
# The loops of the reader on documents

On the events of a document of the schema every loop of the reader goes through the children of its
element one by one and stops at its end.
-/

namespace Szarp
namespace Ipk
namespace Document

open Xml Reader

/-! ## NextTag -/

section NextTag

variable {trees : Name → Bool}

mutual

theorem advance_inside (n : Node) (depth : ℕ) (es : List Event) :
    advance trees (.inside depth) (n.events ++ es) = advance trees (.inside depth) es := by
  match n with
  | .element name a ns =>
    rw [Node.events, List.cons_append, advance, List.append_assoc, advance_inside_eventsOf ns]
    rfl
  | .empty name a => rfl
  | .text content => rfl
  | .cdata content => rfl
  | .comment => rfl

theorem advance_inside_eventsOf (ns : List Node) (depth : ℕ) (es : List Event) :
    advance trees (.inside depth) (eventsOf ns ++ es) = advance trees (.inside depth) es := by
  match ns with
  | [] => rfl
  | n :: ns =>
    rw [eventsOf, List.append_assoc, advance_inside n, advance_inside_eventsOf ns]

end

def tailEvents (name : Name) : Option (List Node) → List Event
  | none => []
  | some ns => eventsOf ns ++ [.stop name]

theorem elementNode_events (name : Name) (a : Attrs) (inner : Option (List Node)) :
    (elementNode name a inner).events = .start name a inner.isNone :: tailEvents name inner := by
  cases inner <;> rfl

theorem nextTag_start {name : Name} (h : trees name = false) (a : Attrs) (isEmpty : Bool)
    (es : List Event) :
    nextTag trees (.start name a isEmpty :: es) = some (.start name a isEmpty, es) := by
  simp [nextTag, advance, h]

theorem nextTag_stop {name : Name} (h : trees name = false) (es : List Event) :
    nextTag trees (.stop name :: es) = some (.stop name, es) := by
  simp [nextTag, advance, h]

@[simp] theorem nextTag_noTrees_start (name : Name) (a : Attrs) (isEmpty : Bool)
    (es : List Event) :
    nextTag noTrees (.start name a isEmpty :: es) = some (.start name a isEmpty, es) := rfl

@[simp] theorem nextTag_noTrees_stop (name : Name) (es : List Event) :
    nextTag noTrees (.stop name :: es) = some (.stop name, es) := rfl

theorem nextTag_blank (b : Blank) (es : List Event) :
    nextTag trees (b.node.events ++ es) = nextTag trees es := by
  cases b <;> rfl

theorem nextTag_blanks (bs : List Blank) (es : List Event) :
    nextTag trees (eventsOf (bs.map Blank.node) ++ es) = nextTag trees es := by
  induction bs with
  | nil => rfl
  | cons b bs ih => rw [List.map_cons, eventsOf, List.append_assoc, nextTag_blank, ih]

theorem nextTag_skipped (t : Skipped trees) (es : List Event) :
    nextTag trees (eventsOf [elementNode t.name t.attrs t.inner, t.after.node] ++ es) =
      nextTag trees es := by
  have hafter : ∀ es, advance trees .one (t.after.node.events ++ es) = advance trees .none es := by
    intro es
    cases t.after <;> rfl
  have hadvance : advance trees .none
      (eventsOf [elementNode t.name t.attrs t.inner, t.after.node] ++ es) =
        advance trees .none es := by
    rw [eventsOf, elementNode_events, eventsOf, eventsOf, List.append_nil, List.append_assoc,
      List.cons_append, advance, if_pos t.ignored]
    cases t.inner with
    | none => exact hafter es
    | some ns =>
      simp only [Option.isNone_some, Bool.false_eq_true, if_false, tailEvents, List.append_assoc]
      rw [advance_inside_eventsOf]
      exact hafter es
  rw [nextTag, nextTag, hadvance]

end NextTag

/-! ## Loops -/

section Loops

variable {trees : Name → Bool} {σ ρ α : Type} {loop : ℕ → σ → List Event → Option ρ}

def StartsWithNextTag (trees : Name → Bool) (loop : ℕ → σ → List Event → Option ρ) : Prop :=
  ∀ fuel s es es', nextTag trees es = nextTag trees es' → loop fuel s es = loop fuel s es'

/-- A loop that goes through children takes a step at each element. -/
theorem loop_children (hloop : StartsWithNextTag trees loop) {node : α → Node}
    {step : σ → α → Option σ}
    (helem : ∀ a fuel es, (node a).events.length < fuel →
      ∃ fuel', fuel ≤ fuel' + (node a).events.length ∧
        ∀ s, loop fuel s ((node a).events ++ es) = (step s a).bind fun s' => loop fuel' s' es)
    (cs : List (Child trees α)) (fuel : ℕ) (es : List Event)
    (hfuel : (eventsOf (nodesOf node cs)).length < fuel) :
    ∃ fuel', fuel ≤ fuel' + (eventsOf (nodesOf node cs)).length ∧
      ∀ s, loop fuel s (eventsOf (nodesOf node cs) ++ es) =
        ((elems cs).foldlM step s).bind fun s' => loop fuel' s' es := by
  induction cs generalizing fuel with
  | nil => exact ⟨fuel, Nat.le_add_right fuel _, fun s => rfl⟩
  | cons c cs ih =>
    have hcons : eventsOf (nodesOf node (c :: cs)) =
        eventsOf (c.nodes node) ++ eventsOf (nodesOf node cs) := by
      rw [nodesOf, List.flatMap_cons, eventsOf_append]
      rfl
    rw [hcons, List.length_append] at hfuel ⊢
    cases c with
    | blank b =>
      obtain ⟨fuel', hle, hrest⟩ := ih fuel (by omega)
      refine ⟨fuel', by omega, fun s => ?_⟩
      have hnext : nextTag trees (eventsOf ((Child.blank b : Child trees α).nodes node) ++
          eventsOf (nodesOf node cs) ++ es) = nextTag trees (eventsOf (nodesOf node cs) ++ es) := by
        rw [Child.nodes, eventsOf, eventsOf, List.append_nil, List.append_assoc, nextTag_blank]
      rw [hloop fuel s _ _ hnext]
      exact hrest s
    | skipped t =>
      obtain ⟨fuel', hle, hrest⟩ := ih fuel (by omega)
      refine ⟨fuel', by omega, fun s => ?_⟩
      have hnext : nextTag trees (eventsOf ((Child.skipped t : Child trees α).nodes node) ++
          eventsOf (nodesOf node cs) ++ es) = nextTag trees (eventsOf (nodesOf node cs) ++ es) := by
        rw [Child.nodes, List.append_assoc, nextTag_skipped]
      rw [hloop fuel s _ _ hnext]
      exact hrest s
    | elem a =>
      have hevents : eventsOf ((Child.elem a : Child trees α).nodes node) = (node a).events := by
        rw [Child.nodes, eventsOf, eventsOf, List.append_nil]
      rw [hevents] at hfuel ⊢
      obtain ⟨fuel₁, hle₁, hhead⟩ := helem a fuel (eventsOf (nodesOf node cs) ++ es) (by omega)
      obtain ⟨fuel', hle, hrest⟩ := ih fuel₁ (by omega)
      refine ⟨fuel', by omega, fun s => ?_⟩
      have helems : elems (Child.elem a :: cs) = a :: elems cs := rfl
      rw [List.append_assoc, hhead s, helems, List.foldlM_cons]
      cases step s a with
      | none => rfl
      | some s' => exact hrest s'

/-- The rest of an element that holds nothing. -/
theorem loop_leaf (hloop : StartsWithNextTag trees loop) {name : Name}
    (hstop : ∀ fuel s es, loop (fuel + 1) s (.stop name :: es) = loop fuel s es)
    (inner : Option (List Blank)) (fuel : ℕ) (es : List Event)
    (hfuel : (tailEvents name (inner.map fun bs => bs.map Blank.node)).length < fuel) :
    ∃ fuel', fuel ≤ fuel' + (tailEvents name (inner.map fun bs => bs.map Blank.node)).length ∧
      ∀ s, loop fuel s (tailEvents name (inner.map fun bs => bs.map Blank.node) ++ es) =
        loop fuel' s es := by
  cases inner with
  | none => exact ⟨fuel, Nat.le_add_right fuel _, fun s => rfl⟩
  | some bs =>
    obtain ⟨fuel, rfl⟩ := Nat.exists_eq_add_of_lt hfuel
    rw [Option.map_some, tailEvents, List.length_append, List.length_singleton]
    refine ⟨(eventsOf (bs.map Blank.node)).length + 1 + fuel, by omega, fun s => ?_⟩
    rw [List.append_assoc, List.singleton_append, hloop _ s _ _ (nextTag_blanks bs _), hstop]

end Loops

end Document
end Ipk
end Szarp
