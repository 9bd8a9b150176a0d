import Mathlib.Data.Set.Insert
import Mathlib.Logic.Function.Basic

/-!
# Programs over an array of cells

A program reads and writes cells, and what it does next depends on what it has read.  A run gives
a result, the cells, and the list of its accesses.  A run whose reads find what it has written
itself does not depend on what the cells held before.
-/

namespace Szarp

/-- Programs over cells with the indices `I` and the contents `V`.  `modify` changes a cell in
place, and what the program does next does not depend on the cell. -/
inductive Cells (I V α : Type) where
  | done (a : α)
  | read (i : I) (k : V → Cells I V α)
  | write (i : I) (v : V) (k : Cells I V α)
  | modify (i : I) (f : V → V) (k : Cells I V α)

namespace Cells

variable {I V α β : Type}

inductive Access (I : Type) where
  | read (i : I)
  | write (i : I)
  | modify (i : I)
deriving DecidableEq

def bind : Cells I V α → (α → Cells I V β) → Cells I V β
  | done a, f => f a
  | read i k, f => read i fun v => (k v).bind f
  | write i v k, f => write i v (k.bind f)
  | modify i g k, f => modify i g (k.bind f)

instance : Monad (Cells I V) where
  pure := done
  bind := bind

def get (i : I) : Cells I V V := read i done

def set (i : I) (v : V) : Cells I V Unit := write i v (done ())

def update (i : I) (f : V → V) : Cells I V Unit := modify i f (done ())

@[simp] theorem pure_eq (a : α) : (pure a : Cells I V α) = done a := rfl

@[simp] theorem done_bind (a : α) (f : α → Cells I V β) : (done a >>= f) = f a := rfl

@[simp] theorem get_bind (i : I) (f : V → Cells I V β) : (get i >>= f) = read i f := rfl

@[simp] theorem set_bind (i : I) (v : V) (f : Unit → Cells I V β) :
    (set i v >>= f) = write i v (f ()) := rfl

@[simp] theorem update_bind (i : I) (g : V → V) (f : Unit → Cells I V β) :
    (update i g >>= f) = modify i g (f ()) := rfl

structure Run (I V α : Type) where
  result : α
  cells : I → V
  accesses : List (Access I)

variable [DecidableEq I]

/-- The run from given contents of the cells. -/
def run : Cells I V α → (I → V) → Run I V α
  | done a, m => ⟨a, m, []⟩
  | read i k, m =>
    let r := (k (m i)).run m
    ⟨r.result, r.cells, .read i :: r.accesses⟩
  | write i v k, m =>
    let r := k.run (Function.update m i v)
    ⟨r.result, r.cells, .write i :: r.accesses⟩
  | modify i f k, m =>
    let r := k.run (Function.update m i (f (m i)))
    ⟨r.result, r.cells, .modify i :: r.accesses⟩

section Accesses

variable {P : Access I → Prop} {m : I → V}

@[simp] theorem run_done (a : α) (m : I → V) : (done a : Cells I V α).run m = ⟨a, m, []⟩ := rfl

theorem run_read (i : I) (k : V → Cells I V α) (m : I → V) :
    (read i k).run m = ⟨((k (m i)).run m).result, ((k (m i)).run m).cells,
      .read i :: ((k (m i)).run m).accesses⟩ := rfl

theorem run_write (i : I) (v : V) (k : Cells I V α) (m : I → V) :
    (write i v k).run m = ⟨(k.run (Function.update m i v)).result,
      (k.run (Function.update m i v)).cells,
      .write i :: (k.run (Function.update m i v)).accesses⟩ := rfl

theorem run_modify (i : I) (f : V → V) (k : Cells I V α) (m : I → V) :
    (modify i f k).run m = ⟨(k.run (Function.update m i (f (m i)))).result,
      (k.run (Function.update m i (f (m i)))).cells,
      .modify i :: (k.run (Function.update m i (f (m i)))).accesses⟩ := rfl

/-- A program that goes on with another one. -/
theorem run_bind (x : Cells I V α) (f : α → Cells I V β) (m : I → V) :
    (x >>= f).run m =
      ⟨((f (x.run m).result).run (x.run m).cells).result,
        ((f (x.run m).result).run (x.run m).cells).cells,
        (x.run m).accesses ++ ((f (x.run m).result).run (x.run m).cells).accesses⟩ := by
  change (x.bind f).run m = _
  induction x generalizing m with
  | done a => rfl
  | read i k ih => simp only [bind, run_read, ih, List.cons_append]
  | write i v k ih => simp only [bind, run_write, ih, List.cons_append]
  | modify i g k ih => simp only [bind, run_modify, ih, List.cons_append]

/-- All accesses of the run meet `P`. -/
def Safe (P : Access I → Prop) (x : Cells I V α) (m : I → V) : Prop :=
  ∀ a ∈ (x.run m).accesses, P a

@[simp] theorem safe_done (a : α) : (done a : Cells I V α).Safe P m := by
  simp [Safe]

@[simp] theorem safe_read {i : I} {k : V → Cells I V α} :
    (read i k).Safe P m ↔ P (.read i) ∧ (k (m i)).Safe P m := by
  simp [Safe, run_read]

@[simp] theorem safe_write {i : I} {v : V} {k : Cells I V α} :
    (write i v k).Safe P m ↔ P (.write i) ∧ k.Safe P (Function.update m i v) := by
  simp [Safe, run_write]

@[simp] theorem safe_modify {i : I} {f : V → V} {k : Cells I V α} :
    (modify i f k).Safe P m ↔ P (.modify i) ∧ k.Safe P (Function.update m i (f (m i))) := by
  simp [Safe, run_modify]

theorem safe_bind {x : Cells I V α} {f : α → Cells I V β} :
    (x >>= f).Safe P m ↔ x.Safe P m ∧ (f (x.run m).result).Safe P (x.run m).cells := by
  simp only [Safe, run_bind, List.mem_append, or_imp, forall_and]

end Accesses

theorem Safe.mono {P Q : Access I → Prop} {x : Cells I V α} {m : I → V} (h : x.Safe P m)
    (hPQ : ∀ a, P a → Q a) : x.Safe Q m :=
  fun a ha => hPQ a (h a ha)

/-- The accesses read cells of `W` and cells that they have written before. -/
def ReadsWithin : Set I → List (Access I) → Prop
  | _, [] => True
  | W, .read i :: as => i ∈ W ∧ ReadsWithin W as
  | W, .write i :: as => ReadsWithin (insert i W) as
  | W, .modify _ :: as => ReadsWithin W as

/-- What is known after the accesses when `W` is known before. -/
def known (W : Set I) (as : List (Access I)) : Set I := {i | i ∈ W ∨ Access.write i ∈ as}

/-- `n` steps of a machine whose steps are programs. -/
def steps (step : α → Cells I V α) : ℕ → α → Cells I V α
  | 0, c => done c
  | n + 1, c => steps step n c >>= step

variable {step : α → Cells I V α} {c : α} {m : I → V}

theorem run_steps_succ (n : ℕ) :
    (steps step (n + 1) c).run m =
      ⟨((step ((steps step n c).run m).result).run ((steps step n c).run m).cells).result,
        ((step ((steps step n c).run m).result).run ((steps step n c).run m).cells).cells,
        ((steps step n c).run m).accesses ++
          ((step ((steps step n c).run m).result).run ((steps step n c).run m).cells).accesses⟩ := by
  rw [steps, run_bind]

/-- `P` holds in all states of the run of a machine. -/
def Always (step : α → Cells I V α) (P : α → (I → V) → Prop) (c : α) (m : I → V) : Prop :=
  ∀ n, P ((steps step n c).run m).result ((steps step n c).run m).cells

/-- What one step keeps where it meets `P` holds in all states of a run in which all do. -/
theorem Always.inv {P J : α → (I → V) → Prop} (h : Always step P c m) (hstart : J c m)
    (hkeep : ∀ c m, J c m → P c m → J ((step c).run m).result ((step c).run m).cells) :
    Always step J c m := by
  intro n
  induction n with
  | zero => exact hstart
  | succ n ih =>
    rw [run_steps_succ]
    exact hkeep _ _ ih (h n)

/-- Where `P` and `Q` agree under an invariant that `P` keeps, they agree along runs. -/
theorem always_iff {P Q J : α → (I → V) → Prop} (hstart : J c m)
    (hiff : ∀ c m, J c m → (P c m ↔ Q c m))
    (hkeep : ∀ c m, J c m → P c m → J ((step c).run m).result ((step c).run m).cells) :
    Always step P c m ↔ Always step Q c m := by
  constructor
  · intro h n
    exact (hiff _ _ (h.inv hstart hkeep n)).mp (h n)
  · intro h n
    have hinv := h.inv hstart fun c m hJ hQ => hkeep c m hJ ((hiff c m hJ).mpr hQ)
    exact (hiff _ _ (hinv n)).mpr (h n)

end Cells

end Szarp
