import Mathlib.Data.Option.Basic

/-!
# Computations that touch memory

A computation has a result, unless it goes on without end, and a list of the accesses to memory that
it makes.  It is safe where it has a result and every access is allowed.
-/

namespace Szarp

/-- `none` is the result of a computation that still runs. -/
structure Accessing (A α : Type) where
  result : Option α
  accesses : List A

namespace Accessing

variable {A α β : Type}

def access (as : List A) (a : α) : Accessing A α := ⟨some a, as⟩

/-- What is left of a computation that was stopped. -/
def running : Accessing A α := ⟨none, []⟩

def bind (x : Accessing A α) (f : α → Accessing A β) : Accessing A β :=
  match x.result with
  | none => ⟨none, x.accesses⟩
  | some a => ⟨(f a).result, x.accesses ++ (f a).accesses⟩

instance : Monad (Accessing A) where
  pure := access []
  bind := bind

/-- The computation ends, and its accesses meet `P`. -/
def Safe (P : A → Prop) (x : Accessing A α) : Prop := x.result ≠ none ∧ ∀ a ∈ x.accesses, P a

variable {P : A → Prop} {x : Accessing A α} {f : α → Accessing A β} {as : List A} {a : α}

@[simp] theorem result_pure (a : α) : (pure a : Accessing A α).result = some a := rfl

@[simp] theorem result_access_bind : (access as a >>= f).result = (f a).result := rfl

theorem result_bind : (x >>= f).result = x.result.bind fun a => (f a).result := by
  change (bind x f).result = _
  unfold bind
  cases x.result with
  | none => rfl
  | some a => rfl

@[simp] theorem safe_pure : (pure a : Accessing A α).Safe P :=
  ⟨Option.some_ne_none a, fun _ h => absurd h List.not_mem_nil⟩

@[simp] theorem safe_access : (access as a : Accessing A α).Safe P ↔ ∀ a ∈ as, P a :=
  ⟨And.right, fun h => ⟨Option.some_ne_none a, h⟩⟩

/-- What is bound to a computation runs where it has ended. -/
theorem safe_bind (h : x.result = some a) : (x >>= f).Safe P ↔ x.Safe P ∧ (f a).Safe P := by
  have hbind : (x >>= f) = ⟨(f a).result, x.accesses ++ (f a).accesses⟩ := by
    change bind x f = _
    rw [bind, h]
  rw [hbind, Safe, Safe, Safe, h]
  constructor
  · rintro ⟨hresult, hall⟩
    exact ⟨⟨Option.some_ne_none a, fun b hb => hall b (List.mem_append_left _ hb)⟩, hresult,
      fun b hb => hall b (List.mem_append_right _ hb)⟩
  · rintro ⟨⟨-, hleft⟩, hresult, hright⟩
    refine ⟨hresult, fun b hb => ?_⟩
    rcases List.mem_append.mp hb with hb | hb
    · exact hleft b hb
    · exact hright b hb

@[simp] theorem safe_access_bind :
    (access as a >>= f).Safe P ↔ (∀ a ∈ as, P a) ∧ (f a).Safe P := by
  rw [safe_bind (a := a) rfl, safe_access]

/-- What comes first is safe. -/
theorem Safe.of_bind (h : (x >>= f).Safe P) : x.Safe P := by
  cases hx : x.result with
  | none =>
    have hresult := h.1
    rw [result_bind, hx] at hresult
    exact absurd rfl hresult
  | some a => exact ((safe_bind hx).mp h).1

theorem not_safe_bind (h : x.result = none) : ¬(x >>= f).Safe P := by
  rintro ⟨hresult, -⟩
  rw [result_bind, h] at hresult
  exact hresult rfl

end Accessing

end Szarp
