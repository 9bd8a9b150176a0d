import Szarp.Ipk.DrawFormula
import Szarp.Szbase.StackMachine

/-!
# Safety of the stack

Which formulas and operands keep `szb_definable_calculate` to the cells below the top of its stack.
-/

namespace Szarp
namespace Szbase
namespace StackMachine

open Definable (Value stackSize rint behindBlank)

/-! ## Safe steps -/

/-- What a step may access that starts with `sp` elements on the stack. -/
def Allowed (sp : ℤ) : Cells.Access ℤ → Prop
  | .read i => 0 ≤ i ∧ i < stackSize ∧ i < sp
  | .write i => 0 ≤ i ∧ i < stackSize
  | .modify i => 0 ≤ i ∧ i < stackSize ∧ i < sp

def Control.sp : Control → ℤ
  | .scan _ _ _ sp => sp
  | .finish sp => sp
  | _ => 0

/-- An operator finds too few operands on the stack, or no room for its result. -/
def Operator.Lacks (env : Environment) (sp : ℤ) (m : ℤ → Value) : Operator → Prop
  | .swap => sp < 2
  | .duplicate => sp < 1 ∨ stackSize ≤ sp
  | .call => sp < 2 ∨ sp - 2 < env.toShort (m (sp - 2))
  | .binary _ => sp < 2
  | .replaceNodata => sp < 2
  | .push => stackSize ≤ sp
  | .season => stackSize ≤ sp
  | .skip => False

/-- The formula is malformed where the evaluation is. -/
def Lacks (env : Environment) (operands : List Operand) (c : Control) (m : ℤ → Value) : Prop :=
  match c with
  | .scan c text it sp =>
    if c.isDigit then stackSize ≤ sp ∨ operands.length ≤ it
    else if c = '#' then stackSize ≤ sp
    else if c = '?' then text.head? = some 'f' ∧ sp < 3
    else (operator env c).Lacks env sp m
  | .finish sp => sp < 1
  | _ => False

/-- The step keeps to the array and to the cells below the top, the scan pointer stays in the
formula, and a malformed formula gives no data. -/
structure Sound (env : Environment) (operands : List Operand) (time : ℤ) (c : Control)
    (m : ℤ → Value) : Prop where
  safe : (step env operands time c).Safe (Allowed c.sp) m
  inside : ((step env operands time c).run m).result ≠ .outside
  malformed : Lacks env operands c m → ((step env operands time c).run m).result = .returned none

/-! ## Careful steps -/

/-- How many cells from `base` on a function reads. -/
def cellsRead (env : Environment) (m : ℤ → Value) (base : ℤ) (funid : Value) : ℕ :=
  match env.toUshort funid with
  | 0 => 3
  | 1 => 1
  | 2 => 1
  | 3 => 1
  | 4 => (env.toInt (m base)).toNat + 1
  | 5 => (env.toInt (m base)).toNat + 1
  | 6 => 1
  | 7 => 2
  | _ => 0

/-- A call for which there are enough elements either has a parameter without data, or puts its
result into the array and reads no cell above the top. -/
def CarefulCall (env : Environment) (sp : ℤ) (m : ℤ → Value) : Prop :=
  let parCnt := env.toShort (m (sp - 2))
  let base := sp - 2 - parCnt
  2 ≤ sp → parCnt ≤ sp - 2 → (∀ j : ℕ, j < parCnt.toNat → m (sp - 3 - j) ≠ none) →
    base < stackSize ∧ (cellsRead env m base (m (sp - 1)) = 0 ∨
      base + cellsRead env m base (m (sp - 1)) ≤ sp)

def Operator.Careful (env : Environment) (sp : ℤ) (m : ℤ → Value) : Operator → Prop
  | .duplicate => 0 < sp
  | .call => CarefulCall env sp m
  | _ => True

/-- There is something to duplicate, a call finds what it reads, no averaging parameter is pushed, a
question mark is not the last character, and something is left at the end. -/
def Careful (env : Environment) (operands : List Operand) (c : Control) (m : ℤ → Value) : Prop :=
  match c with
  | .scan c text it sp =>
    if c.isDigit then stackSize ≤ sp ∨ ∀ v prec, operands[it]? ≠ some (.average v prec)
    else if c = '#' then True
    else if c = '?' then text ≠ []
    else (operator env c).Careful env sp m
  | .finish sp => 0 < sp
  | _ => True

/-! ## Functions -/

variable {env : Environment} {sp base : ℤ} {m : ℤ → Value} {next : ℤ → Control}

theorem allowed_read (h : sp ≤ stackSize) {i : ℤ} (hi : 0 ≤ i) :
    Allowed sp (.read i) ↔ i < sp := by
  simp only [Allowed]
  omega

theorem existing_safe (hsp : sp ≤ stackSize) (n : ℕ) {i : ℤ} (hi : 0 ≤ i) :
    (existing n i).Safe (Allowed sp) m ↔ n = 0 ∨ i + n ≤ sp := by
  induction n generalizing i with
  | zero => simp [existing]
  | succ n ih =>
    have hrest := ih (i := i + 1) (by omega)
    simp only [existing, Cells.get_bind, Cells.safe_read, Cells.safe_bind, Cells.pure_eq,
      Cells.safe_done, and_true, allowed_read hsp hi, hrest]
    push_cast
    rw [false_or]
    omega

theorem chooseFunction_safe (hsp : sp ≤ stackSize) (hbase : 0 ≤ base) (hlt : base < stackSize)
    (funid : Value) :
    (szbDefinableChooseFunction env base funid).Safe (Allowed sp) m ↔
      cellsRead env m base funid = 0 ∨ base + cellsRead env m base funid ≤ sp := by
  have hone := allowed_read hsp (show 0 ≤ base + 1 by omega)
  have htwo := allowed_read hsp (show 0 ≤ base + 2 by omega)
  have hexisting := fun n => existing_safe (m := m) hsp n (show 0 ≤ base + 1 by omega)
  have hwrite : Allowed sp (.write base) := ⟨hbase, hlt⟩
  unfold szbDefinableChooseFunction cellsRead
  generalize env.toUshort funid = fid
  split
  all_goals
    simp only [szbFixo, szbTabReg, szbPositive, szbSumExisting, szbCntExisting, szbWaterTankSuwa,
      szbBitOfLog, Cells.get_bind, Cells.set_bind, Cells.safe_read, Cells.safe_write,
      Cells.safe_bind, Cells.pure_eq, Cells.safe_done, and_true, allowed_read hsp hbase, hone, htwo,
      hexisting, hwrite]
    push_cast
    first
      | exact iff_of_true trivial (Or.inl trivial)
      | rw [false_or]; omega

/-! ## Operators -/

/-- What is known about an operator that starts with `sp` elements: when it is safe, and what the
number of elements is behind it. -/
structure Spec (x : Stack Control) (m : ℤ → Value) (sp : ℤ) (next : ℤ → Control)
    (careful lacks : Prop) : Prop where
  safe : x.Safe (Allowed sp) m ↔ careful
  result : x.Safe (Allowed sp) m → (x.run m).result = .returned none ∨
    ∃ sp' : ℤ, 0 ≤ sp' ∧ sp' ≤ stackSize ∧ (x.run m).result = next sp'
  malformed : careful → lacks → (x.run m).result = .returned none

section Spec

variable {careful lacks : Prop} {i : ℤ}

theorem Spec.of_nodata (h : careful) : Spec nodata m sp next careful lacks where
  safe := by simp [nodata, h]
  result _ := Or.inl rfl
  malformed _ _ := rfl

theorem Spec.of_next {sp' : ℤ} (hsp' : 0 ≤ sp' ∧ sp' ≤ stackSize) (hc : careful)
    (hl : careful → ¬ lacks) : Spec (Cells.done (next sp')) m sp next careful lacks where
  safe := by simp [hc]
  result _ := Or.inr ⟨sp', hsp'.1, hsp'.2, rfl⟩
  malformed hcareful hlacks := absurd hlacks (hl hcareful)

theorem Spec.read {k : Value → Stack Control} (hi : Allowed sp (.read i))
    (h : Spec (k (m i)) m sp next careful lacks) :
    Spec (Cells.read i k) m sp next careful lacks where
  safe := by rw [Cells.safe_read, h.safe, and_iff_right hi]
  result hsafe := h.result (Cells.safe_read.mp hsafe).2
  malformed := h.malformed

theorem Spec.write {v : Value} {k : Stack Control} (hi : Allowed sp (.write i))
    (h : Spec k (Function.update m i v) sp next careful lacks) :
    Spec (Cells.write i v k) m sp next careful lacks where
  safe := by rw [Cells.safe_write, h.safe, and_iff_right hi]
  result hsafe := h.result (Cells.safe_write.mp hsafe).2
  malformed := h.malformed

theorem Spec.bind {α : Type} {x : Stack α} {f : α → Stack Control} (hx : x.Safe (Allowed sp) m)
    (hcells : (x.run m).cells = m) (h : Spec (f (x.run m).result) m sp next careful lacks) :
    Spec (x >>= f) m sp next careful lacks where
  safe := by rw [Cells.safe_bind, and_iff_right hx, hcells, h.safe]
  result hsafe := by
    rw [Cells.safe_bind, hcells] at hsafe
    rw [Cells.run_bind, hcells]
    exact h.result hsafe.2
  malformed := by
    rw [Cells.run_bind, hcells]
    exact h.malformed

/-- An access that is not allowed makes the operator unsafe. -/
theorem Spec.of_unsafe {x : Stack Control} (h : ¬ x.Safe (Allowed sp) m) (hc : ¬ careful) :
    Spec x m sp next careful lacks where
  safe := iff_of_false h hc
  result hsafe := absurd hsafe h
  malformed hcareful := absurd hcareful hc

end Spec

section Operators

variable (hzero : 0 ≤ sp) (hsize : sp ≤ stackSize)

include hsize

theorem swap_spec : Spec (swap sp next) m sp next True (sp < 2) := by
  unfold swap
  split
  · exact Spec.of_nodata trivial
  · next h =>
    simp only [Cells.get_bind, Cells.set_bind]
    apply Spec.read ⟨by omega, by omega, by omega⟩
    cases m (sp - 1) with
    | none => exact Spec.of_nodata trivial
    | some y =>
      apply Spec.read ⟨by omega, by omega, by omega⟩
      cases m (sp - 2) with
      | none => exact Spec.of_nodata trivial
      | some x =>
        apply Spec.write ⟨by omega, by omega⟩
        apply Spec.write ⟨by omega, by omega⟩
        exact Spec.of_next ⟨by omega, hsize⟩ trivial fun _ => h

theorem binary_spec (f : ℚ → ℚ → Option Value) :
    Spec (binary sp next f) m sp next True (sp < 2) := by
  unfold binary
  split
  · exact Spec.of_nodata trivial
  · next h =>
    simp only [Cells.get_bind, Cells.set_bind]
    apply Spec.read ⟨by omega, by omega, by omega⟩
    cases m (sp - 1) with
    | none => exact Spec.of_nodata trivial
    | some y =>
      apply Spec.read ⟨by omega, by omega, by omega⟩
      cases m (sp - 1 - 1) with
      | none => exact Spec.of_nodata trivial
      | some x =>
        dsimp only
        cases f x y with
        | none => exact Spec.of_nodata trivial
        | some v =>
          apply Spec.write ⟨by omega, by omega⟩
          exact Spec.of_next ⟨by omega, by omega⟩ trivial fun _ => h

theorem replaceNodata_spec : Spec (replaceNodata sp next) m sp next True (sp < 2) := by
  unfold replaceNodata
  split
  · exact Spec.of_nodata trivial
  · next h =>
    simp only [Cells.get_bind, Cells.set_bind]
    apply Spec.read ⟨by omega, by omega, by omega⟩
    cases m (sp - 1 - 1) with
    | some x => exact Spec.of_next ⟨by omega, by omega⟩ trivial fun _ => h
    | none =>
      apply Spec.read ⟨by omega, by omega, by omega⟩
      apply Spec.write ⟨by omega, by omega⟩
      exact Spec.of_next ⟨by omega, by omega⟩ trivial fun _ => h

theorem choose_spec : Spec (choose sp next) m sp next True (sp < 3) := by
  unfold choose
  split
  · exact Spec.of_nodata trivial
  · next h =>
    simp only [Cells.get_bind, Cells.set_bind]
    apply Spec.read ⟨by omega, by omega, by omega⟩
    split
    · apply Spec.read ⟨by omega, by omega, by omega⟩
      apply Spec.write ⟨by omega, by omega⟩
      exact Spec.of_next ⟨by omega, by omega⟩ trivial fun _ => h
    · exact Spec.of_next ⟨by omega, by omega⟩ trivial fun _ => h

include hzero

omit hsize in
theorem push_spec (v : Value) :
    Spec (push sp next v) m sp next True (stackSize ≤ sp) := by
  unfold push
  split
  · exact Spec.of_nodata trivial
  · next h =>
    simp only [Cells.set_bind]
    apply Spec.write ⟨hzero, by omega⟩
    exact Spec.of_next ⟨by omega, by omega⟩ trivial fun _ => h

theorem season_spec (time : ℤ) :
    Spec (season env sp next time) m sp next True (stackSize ≤ sp) := by
  unfold season
  split
  · exact Spec.of_nodata trivial
  · next h =>
    cases env.seasons with
    | none => exact Spec.of_next ⟨hzero, hsize⟩ trivial fun _ => h
    | some isSummerSeason =>
      apply Spec.write ⟨hzero, by omega⟩
      exact Spec.of_next ⟨by omega, by omega⟩ trivial fun _ => h

/-- The top is read even where there is none. -/
theorem duplicate_spec :
    Spec (duplicate sp next) m sp next (0 < sp) (sp < 1 ∨ stackSize ≤ sp) := by
  unfold duplicate
  simp only [Cells.get_bind, Cells.set_bind]
  by_cases hempty : sp = 0
  · apply Spec.of_unsafe _ (by omega)
    rw [Cells.safe_read]
    rintro ⟨⟨hread, -⟩, -⟩
    omega
  · apply Spec.read ⟨by omega, by omega, by omega⟩
    cases m (sp - 1) with
    | none => exact Spec.of_nodata (by omega)
    | some x =>
      dsimp only
      split
      · exact Spec.of_nodata (by omega)
      · next h =>
        apply Spec.write ⟨hzero, by omega⟩
        exact Spec.of_next ⟨by omega, by omega⟩ (by omega) (by omega)

end Operators

/-! ## Calls -/

theorem anyNodata_cells (n : ℕ) (i : ℤ) : ((anyNodata n i).run m).cells = m := by
  induction n generalizing i with
  | zero => rfl
  | succ n ih =>
    simp only [anyNodata_succ, Cells.run_read]
    cases m i with
    | none => rfl
    | some q => exact ih (i - 1)

theorem anyNodata_result (n : ℕ) (i : ℤ) :
    ((anyNodata n i).run m).result = false ↔ ∀ j : ℕ, j < n → m (i - j) ≠ none := by
  induction n generalizing i with
  | zero => exact iff_of_true rfl fun j hj => absurd hj (Nat.not_lt_zero j)
  | succ n ih =>
    simp only [anyNodata_succ, Cells.run_read]
    cases hi : m i with
    | none =>
      have hfirst : ¬ ∀ j : ℕ, j < n + 1 → m (i - j) ≠ none := by
        intro h
        exact h 0 (Nat.succ_pos n) (by simpa using hi)
      simpa using hfirst
    | some q =>
      dsimp only
      rw [ih (i - 1)]
      constructor
      · intro h j hj
        cases j with
        | zero => simp [hi]
        | succ j =>
          have hrest := h j (by omega)
          rwa [sub_sub, add_comm (1 : ℤ), ← Nat.cast_succ] at hrest
      · intro h j hj
        have hrest := h (j + 1) (by omega)
        rwa [Nat.cast_succ, add_comm (j : ℤ), ← sub_sub] at hrest

theorem anyNodata_safe (hsize : sp ≤ stackSize) (n : ℕ) {i : ℤ} (hi : i < sp)
    (hn : (n : ℤ) ≤ i + 1) : (anyNodata n i).Safe (Allowed sp) m := by
  induction n generalizing i with
  | zero => exact Cells.safe_done false
  | succ n ih =>
    simp only [anyNodata_succ, Cells.safe_read]
    refine ⟨⟨by omega, by omega, hi⟩, ?_⟩
    cases m i with
    | none => simp
    | some q => exact ih (by omega) (by omega)

/-- The end of a call: the function, and its result in the first of the cells. -/
theorem function_spec (hsize : sp ≤ stackSize) (hbase : 0 ≤ base) (funid : Value) {sp' : ℤ}
    (hsp' : sp' = base + 1) {lacks : Prop} (hl : ¬ lacks) :
    Spec (do
        let v ← szbDefinableChooseFunction env base funid
        Cells.write base v (Cells.done (next sp'))) m sp next
      (base < stackSize ∧ (cellsRead env m base funid = 0 ∨
        base + cellsRead env m base funid ≤ sp)) lacks := by
  have hwrite : Allowed sp (.write base) ↔ base < stackSize := and_iff_right hbase
  have hsafe : (do
        let v ← szbDefinableChooseFunction env base funid
        Cells.write base v (Cells.done (next sp')) : Stack Control).Safe (Allowed sp) m ↔
      base < stackSize ∧ (cellsRead env m base funid = 0 ∨
        base + cellsRead env m base funid ≤ sp) := by
    rw [Cells.safe_bind, Cells.safe_write, hwrite]
    by_cases hlt : base < stackSize
    · rw [chooseFunction_safe hsize hbase hlt]
      simp [hlt]
    · simp [hlt]
  refine ⟨hsafe, ?_, fun _ h => absurd h hl⟩
  intro h
  have hlt := (hsafe.mp h).1
  exact Or.inr ⟨sp', by omega, by omega, by rw [Cells.run_bind]; rfl⟩

theorem call_spec (hsize : sp ≤ stackSize) :
    Spec (call env sp next) m sp next (CarefulCall env sp m)
      (sp < 2 ∨ sp - 2 < env.toShort (m (sp - 2))) := by
  unfold call CarefulCall
  split
  · exact Spec.of_nodata (by omega)
  · next h =>
    simp only [Cells.get_bind, Cells.set_bind]
    apply Spec.read ⟨by omega, by omega, by omega⟩
    rw [show sp - 1 - 1 = sp - 2 by omega, show sp - 1 - 2 = sp - 3 by omega]
    generalize env.toShort (m (sp - 2)) = parCnt
    split
    · exact Spec.of_nodata (by omega)
    · next hcount =>
      apply Spec.bind (anyNodata_safe hsize _ (by omega) (by omega)) (anyNodata_cells _ _)
      cases hany : ((anyNodata parCnt.toNat (sp - 3)).run m).result with
      | true =>
        have hmissing : ¬ ∀ j : ℕ, j < parCnt.toNat → m (sp - 3 - j) ≠ none := by
          rw [← anyNodata_result, hany]
          decide
        exact Spec.of_nodata fun _ _ hall => absurd hall hmissing
      | false =>
        have hall := (anyNodata_result _ _).mp hany
        rw [show sp - 1 - parCnt - 1 = sp - 2 - parCnt by omega]
        apply Spec.read ⟨by omega, by omega, by omega⟩
        have hfunction := @function_spec env sp (sp - 2 - parCnt) m next hsize (by omega) (m (sp - 1))
          (sp - 1 - parCnt) (by omega) (sp < 2 ∨ sp - 2 < parCnt) (by omega)
        refine ⟨hfunction.safe.trans ⟨fun h _ _ _ => h, fun h => ?_⟩, hfunction.result, ?_⟩
        · exact h (by omega) (by omega) hall
        · exact fun hcareful => hfunction.malformed (hcareful (by omega) (by omega) hall)

/-! ## Steps -/

variable {operands : List Operand} {time : ℤ}

def InRange (c : Control) (_ : ℤ → Value) : Prop := 0 ≤ c.sp ∧ c.sp ≤ stackSize ∧ c ≠ .outside

theorem inRange_onward (text : List Char) (it : ℕ) (hsp : 0 ≤ sp ∧ sp ≤ stackSize) :
    InRange (onward text it sp) m := by
  cases text with
  | nil => exact ⟨hsp.1, hsp.2, by simp [onward]⟩
  | cons c text => exact ⟨hsp.1, hsp.2, by simp [onward]⟩

/-- What a step does where the state is in range. -/
structure StepSpec (env : Environment) (operands : List Operand) (time : ℤ) (c : Control)
    (m : ℤ → Value) : Prop where
  sound : Sound env operands time c m ↔ Careful env operands c m
  inRange : Sound env operands time c m →
    InRange ((step env operands time c).run m).result ((step env operands time c).run m).cells

theorem stepSpec_of_spec {c : Char} {text rest : List Char} {it it' : ℕ}
    (h : Spec (step env operands time (.scan c text it sp)) m sp (onward rest it')
      (Careful env operands (.scan c text it sp) m) (Lacks env operands (.scan c text it sp) m)) :
    StepSpec env operands time (.scan c text it sp) m := by
  have hrange : (step env operands time (.scan c text it sp)).Safe (Allowed sp) m →
      InRange ((step env operands time (.scan c text it sp)).run m).result
        ((step env operands time (.scan c text it sp)).run m).cells := by
    intro hsafe
    rcases h.result hsafe with hresult | ⟨sp', hzero, hsize, hresult⟩
    · rw [hresult]
      exact ⟨le_rfl, Nat.cast_nonneg _, by simp⟩
    · rw [hresult]
      exact inRange_onward rest it' ⟨hzero, hsize⟩
  refine ⟨?_, fun hsound => hrange hsound.safe⟩
  constructor
  · intro hsound
    exact h.safe.mp hsound.safe
  · intro hcareful
    have hsafe := h.safe.mpr hcareful
    exact ⟨hsafe, (hrange hsafe).2.2, h.malformed hcareful⟩

theorem operate_spec (hzero : 0 ≤ sp) (hsize : sp ≤ stackSize) (o : Operator) :
    Spec (operate env sp next time o) m sp next (o.Careful env sp m) (o.Lacks env sp m) := by
  cases o with
  | swap => exact swap_spec hsize
  | duplicate => exact duplicate_spec hzero hsize
  | call => exact call_spec hsize
  | binary f => exact binary_spec hsize f
  | replaceNodata => exact replaceNodata_spec hsize
  | push => exact push_spec hzero none
  | season => exact season_spec hzero hsize time
  | skip => exact Spec.of_next ⟨hzero, hsize⟩ trivial fun _ => id

/-- Behind an averaging parameter a cell above the top is accessed. -/
theorem pushOperand_spec (hzero : 0 ≤ sp) (hlt : sp < stackSize) (o : Operand) {lacks : Prop}
    (hl : ¬ lacks) :
    Spec (pushOperand sp next o) m sp next (∀ v prec, o ≠ .average v prec) lacks := by
  have hwrite : Allowed sp (.write sp) := ⟨hzero, hlt⟩
  cases o with
  | probe v prec =>
    apply Spec.write hwrite
    exact Spec.of_next ⟨by omega, by omega⟩ (by simp) fun _ => hl
  | missing =>
    apply Spec.write hwrite
    exact Spec.of_next ⟨by omega, by omega⟩ (by simp) fun _ => hl
  | average v prec =>
    apply Spec.of_unsafe
    · simp only [pushOperand, Cells.set_bind, Cells.update_bind, Cells.safe_write,
        Cells.safe_modify]
      rintro ⟨-, ⟨-, -, htop⟩, -⟩
      omega
    · intro h
      exact h v prec rfl

section Scan

attribute [local simp] step Careful Lacks

variable {c : Char} {text : List Char} {it : ℕ}

theorem digit_spec (hzero : 0 ≤ sp) (hdigit : c.isDigit) :
    StepSpec env operands time (.scan c text it sp) m := by
  apply @stepSpec_of_spec env sp m operands time c text (behindBlank text) it (it + 1)
  simp only [step, Careful, Lacks, if_pos hdigit]
  split
  · next h => exact Spec.of_nodata (Or.inl h)
  · next h =>
    cases hoperand : operands[it]? with
    | none => exact Spec.of_nodata (Or.inr (by simp))
    | some o =>
      have hlt := (List.getElem?_eq_some_iff.mp hoperand).1
      have hpush := @pushOperand_spec sp m (onward (behindBlank text) (it + 1)) hzero (by omega) o
        (stackSize ≤ sp ∨ operands.length ≤ it) (by omega)
      refine ⟨hpush.safe.trans ?_, hpush.result, ?_⟩
      · simp [h]
      · intro hcareful
        apply hpush.malformed
        simpa [h] using hcareful

theorem number_spec (hzero : 0 ≤ sp) (hdigit : ¬ c.isDigit) (hhash : c = '#') :
    StepSpec env operands time (.scan c text it sp) m := by
  apply @stepSpec_of_spec env sp m operands time c text (behindBlank text) it it
  simp only [step, Careful, Lacks, if_neg hdigit, if_pos hhash]
  exact push_spec hzero _

/-- A question mark at the end of the formula takes the scan pointer past it. -/
theorem condition_spec (hzero : 0 ≤ sp) (hsize : sp ≤ stackSize) (hdigit : ¬ c.isDigit)
    (hhash : c ≠ '#') (hcond : c = '?') : StepSpec env operands time (.scan c text it sp) m := by
  have hcareful : Careful env operands (.scan c text it sp) m ↔ text ≠ [] := by
    simp only [Careful, if_neg hdigit, if_neg hhash, if_pos hcond]
  have hlacks : Lacks env operands (.scan c text it sp) m ↔ text.head? = some 'f' ∧ sp < 3 := by
    simp only [Lacks, if_neg hdigit, if_neg hhash, if_pos hcond]
  cases text with
  | nil =>
    have hnot : ¬ Sound env operands time (.scan c [] it sp) m := by
      intro hsound
      apply hsound.inside
      simp only [step, if_neg hdigit, if_neg hhash, if_pos hcond, Cells.pure_eq, Cells.run_done]
    exact ⟨iff_of_false hnot fun h => hcareful.mp h rfl, fun hsound => absurd hsound hnot⟩
  | cons d text =>
    apply @stepSpec_of_spec env sp m operands time c (d :: text) text it it
    rw [hcareful, hlacks]
    simp only [step, if_neg hdigit, if_neg hhash, if_pos hcond]
    by_cases hd : d = 'f'
    · subst hd
      simpa using choose_spec hsize
    · have hskip := @Spec.of_next sp m (onward text it) True False sp ⟨hzero, hsize⟩ trivial
        fun _ => id
      simpa [hd] using hskip

theorem operator_spec (hzero : 0 ≤ sp) (hsize : sp ≤ stackSize) (hdigit : ¬ c.isDigit)
    (hhash : c ≠ '#') (hcond : c ≠ '?') : StepSpec env operands time (.scan c text it sp) m := by
  apply @stepSpec_of_spec env sp m operands time c text text it it
  simp only [step, Careful, Lacks, if_neg hdigit, if_neg hhash, if_neg hcond]
  exact operate_spec hzero hsize _

end Scan

theorem finish_spec (hzero : 0 ≤ sp) :
    StepSpec env operands time (.finish sp) m := by
  have hstep : step env operands time (.finish sp) =
      Cells.read 0 fun v => Cells.done (.returned v) := by
    simp only [step, if_neg (not_lt.mpr hzero), Cells.get_bind, Cells.pure_eq]
  have hread : Allowed sp (.read 0) ↔ 0 < sp := by
    simp only [Allowed, stackSize]
    omega
  constructor
  · constructor
    · intro hsound
      have hsafe := hsound.safe
      rw [hstep, Cells.safe_read] at hsafe
      exact hread.mp hsafe.1
    · intro hcareful
      refine ⟨?_, ?_, fun hlacks => absurd hcareful (by simp only [Careful, Lacks] at *; omega)⟩
      · rw [hstep, Cells.safe_read]
        exact ⟨hread.mpr hcareful, by simp⟩
      · rw [hstep]
        simp [Cells.run_read]
  · intro _
    rw [hstep]
    exact ⟨le_rfl, Nat.cast_nonneg _, by simp [Cells.run_read]⟩

/-- A step is sound exactly where it is careful, and keeps the state in range then. -/
theorem step_spec {c : Control} (h : InRange c m) : StepSpec env operands time c m := by
  obtain ⟨hzero, hsize, hinside⟩ := h
  cases c with
  | scan c text it sp =>
    by_cases hdigit : c.isDigit
    · exact digit_spec hzero hdigit
    by_cases hhash : c = '#'
    · exact number_spec hzero hdigit hhash
    by_cases hcond : c = '?'
    · exact condition_spec hzero hsize hdigit hhash hcond
    · exact operator_spec hzero hsize hdigit hhash hcond
  | finish sp => exact finish_spec hzero
  | returned v =>
    refine ⟨iff_of_true ?_ trivial, fun _ => ⟨hzero, hsize, hinside⟩⟩
    exact ⟨by simp [step], by simp [step], fun h => absurd h id⟩
  | outside => exact absurd rfl hinside

/-! ## Formulas -/

theorem inRange_start (formula : List Char) : InRange (start formula) m := by
  unfold start
  split
  · exact ⟨le_rfl, Nat.cast_nonneg _, by simp⟩
  · exact inRange_onward formula 0 ⟨le_rfl, Nat.cast_nonneg _⟩

/-- The evaluation of a formula is sound exactly when it is careful all along. -/
theorem stack_sound_iff (env : Environment) (operands : List Operand) (time : ℤ)
    (formula : List Char) (m : ℤ → Value) :
    Cells.Always (step env operands time) (Sound env operands time) (start formula) m ↔
      Cells.Always (step env operands time) (Careful env operands) (start formula) m := by
  apply Cells.always_iff (inRange_start formula)
  · intro c m h
    exact (step_spec h).sound
  · intro c m h hsound
    exact (step_spec h).inRange hsound

/-- Conversions that give 0 for a missing number, without seasons and with tables of zeros. -/
def plainEnvironment : Environment where
  toShort v := (v.map rint).getD 0
  toInt v := (v.map rint).getD 0
  toUshort v := (v.map fun q => q.floor.toNat).getD 0
  toShort_rint _ _ _ := rfl
  toInt_rint _ _ _ := rfl
  toUshort_floor _ _ _ := rfl
  seasons := none
  pow _ _ := some 0
  wcstod _ := some 0
  fixo _ _ _ := 0
  tabRegZas _ := 0
  tabRegPow _ := 0
  waterTank _ := some 0

/-- The formula `!` duplicates the top of an empty stack: the cell in front of the array is read. -/
theorem duplicate_not_sound :
    ¬ ∀ (params : List Ipk.DrawFormula.Operand) (self text : List Char)
      (cache : List Ipk.DrawFormula.Operand) (formula : List Char),
      Ipk.DrawFormula.prepareDefinable params self text = some (cache, formula) → formula ≠ [] →
      ∀ (env : Environment) (operands : List Operand) (time : ℤ) (m : ℤ → Value),
        operands.length = cache.length →
        Cells.Always (step env operands time) (Sound env operands time) (start formula) m := by
  intro h
  have hsound := h [] ['p'] ['!'] [] ['!'] (by decide) (by decide) plainEnvironment [] 0
    (fun _ => none) rfl 0
  have hcareful := (step_spec (inRange_start ['!'])).sound.mp hsound
  exact absurd hcareful (lt_irrefl 0)

end StackMachine
end Szbase
end Szarp
