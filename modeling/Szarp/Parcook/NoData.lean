import Szarp.Parcook.Calcul

/-!
# Missing values in formulas of `parcook`

What a formula means when every element of the stack is a number or missing, and when `Calcul` stores
just that.
-/

namespace Szarp
namespace Parcook
namespace Calcul

variable {F : Type} (e : Env F)

/-! ## The meaning of a formula -/

/-- The state of the reference, its stack with the top first; `target` is the constant that ends in
front of what is left. -/
structure Ref (F : Type) where
  chptr : List Char
  stack : List (Option F)
  target : Option F

inductive RefPass (F : Type) where
  | next (r : Ref F)
  | store (adr : ℕ) (x : Option F)

namespace Ref

/-- A formula goes on until a value is stored. -/
def pass (rest : List Char) (stack : List (Option F)) (target : Option F) : Option (RefPass F) :=
  if rest = [] then none else some (.next ⟨rest, stack, target⟩)

def swap : List (Option F) → Option (List (Option F))
  | y :: x :: st => some (x :: y :: st)
  | _ => none

def duplicate : List (Option F) → Option (List (Option F))
  | x :: st => some (x :: x :: st)
  | _ => none

def choose (isZero : F → Bool) : List (Option F) → Option (List (Option F))
  | c :: y :: x :: st => some ((c.bind fun v => if isZero v then y else x) :: st)
  | _ => none

def binary (f : F → F → Option F) : List (Option F) → Option (List (Option F))
  | y :: x :: st => some ((x.bind fun a => y.bind fun b => f a b) :: st)
  | _ => none

def replace : List (Option F) → Option (List (Option F))
  | y :: x :: st => some (x.or y :: st)
  | _ => none

def onStack (f : List (Option F) → Option (List (Option F))) (r : Ref F) (rest : List Char) :
    Option (RefPass F) :=
  (f r.stack).bind fun st => pass rest st none

def value (r : Ref F) : Option (RefPass F) :=
  match r.chptr.dropWhile (· ≠ ' ') with
  | [] => none
  | _ :: rest =>
    let tmp := e.wcstof r.chptr
    if e.vtLen ≤ e.address tmp then none
    else
      let val := e.shmGetValue (e.address tmp) (e.memory tmp)
      pass rest ((if val = szarpNoData then none else some (e.ofShort val)) :: r.stack) none

def constant (r : Ref F) (rest : List Char) : Option (RefPass F) :=
  match rest.dropWhile (· ≠ ' ') with
  | [] => none
  | _ :: rest' => pass rest' (some (e.wcstof rest) :: r.stack) (some (e.wcstof rest))

/-- The slot is the constant in front of `=`. -/
def assign (r : Ref F) : Option (RefPass F) :=
  match r.target, r.stack with
  | some a, _ :: x :: _ =>
    if e.vtLen ≤ e.toUShort a then none else some (.store (e.toUShort a) x)
  | _, _ => none

/-- A part of a formula; `none`: the formula is not well formed, or calls a function. -/
def step (r : Ref F) : Option (RefPass F) :=
  match r.chptr with
  | [] => none
  | c :: rest =>
    if c.isDigit then value e r
    else
      match c with
      | '&' => onStack swap r rest
      | '!' => onStack duplicate r rest
      | '#' => constant e r rest
      | 'i' =>
        match rest with
        | [] => none
        | c :: rest => if c = 'f' then onStack (choose e.isZero) r rest else none
      | '+' => onStack (binary fun x y => some (e.add x y)) r rest
      | '-' => onStack (binary fun x y => some (e.sub x y)) r rest
      | '*' => onStack (binary fun x y => some (e.mul x y)) r rest
      | '/' => onStack (binary fun x y => if e.isZero y then none else some (e.div x y)) r rest
      | '>' => onStack (binary fun x y => some (if e.lt y x then e.one else e.zero)) r rest
      | '<' => onStack (binary fun x y => some (if e.lt x y then e.one else e.zero)) r rest
      | '~' => onStack (binary fun x y => some (if e.eq x y then e.one else e.zero)) r rest
      | 'N' => onStack replace r rest
      | 'm' => onStack (binary fun x y => if e.lt x y then none else some x) r rest
      | 'M' => onStack (binary fun x y => if e.lt y x then none else some x) r rest
      | '=' => assign e r
      | ' ' => pass rest r.stack r.target
      | _ => none

def run : ℕ → Ref F → Option (ℕ × Option F)
  | 0, _ => none
  | n + 1, r =>
    match step e r with
    | none => none
    | some (.store adr x) => some (adr, x)
    | some (.next r) => run n r

def start (formula : List Char) : Ref F := ⟨formula, [], none⟩

end Ref

/-- The slot and the value that a well-formed formula without function calls stores. -/
def reference (formula : List Char) : Option (ℕ × Option F) :=
  Ref.run e (formula.length + 1) (Ref.start formula)

def word : Option F → ℤ
  | none => szarpNoData
  | some y => e.toShort y

/-! ## Elements -/

/-- An element is missing when its flag is set, and is the value otherwise. -/
def Element (stack : ℤ → F) (nodata : ℤ → Bool) (i : ℤ) (x : Option F) : Prop :=
  nodata i = x.isNone ∧ ∀ v, x = some v → stack i = v

/-- The two stacks below `sp` hold a stack of elements. -/
def Holds (stack : ℤ → F) (nodata : ℤ → Bool) : ℤ → List (Option F) → Prop
  | sp, [] => sp = 0
  | sp, x :: st => Element stack nodata (sp - 1) x ∧ Holds stack nodata (sp - 1) st

/-- The states are at one place of the formula. -/
structure Follows (s : Calc F) (r : Ref F) : Prop where
  chptr : s.chptr = r.chptr
  length : (r.stack.length : ℤ) ≤ s.sp
  target : ∀ a, r.target = some a → 1 ≤ s.sp ∧ s.stack (s.sp - 1) = a
  nullFormula : s.nullFormula = false

/-- Nothing has been found missing, and the stacks agree. -/
structure Matches (s : Calc F) (r : Ref F) : Prop where
  calculNoData : s.calculNoData = false
  holds : Holds s.stack s.nodata s.sp r.stack

/-- The next operation lacks an operand, or divides by zero. -/
def Lacks (r : Ref F) : Prop :=
  match r.chptr with
  | [] => False
  | c :: _ =>
    if c.isDigit then False
    else
      match c with
      | '+' | '-' | '*' | '>' | '<' | '~' | 'm' | 'M' => none ∈ r.stack.take 2
      | '/' => none ∈ r.stack.take 2 ∨ ∃ y, r.stack.head? = some (some y) ∧ e.isZero y
      | 'i' => r.stack.head? = some none
      | _ => False

/-- The next operation moves only values, or leaves a flag of an element behind: the flags that it
should move are the same. -/
def Kept (s : Calc F) (r : Ref F) : Prop :=
  match r.chptr with
  | [] => True
  | c :: _ =>
    if c.isDigit then True
    else
      match c with
      | '&' => s.nodata (s.sp - 1) = s.nodata (s.sp - 2)
      | '!' => s.nodata s.sp = s.nodata (s.sp - 1)
      | 'i' => e.isZero (s.stack (s.sp - 1)) → s.nodata (s.sp - 2) = s.nodata (s.sp - 3)
      | _ => True

/-- What a pass does next to the reference. -/
def Simulates (s : Calc F) (r : Ref F) (p : Except Fault (Pass F)) (lacks kept : Prop) :
    RefPass F → Prop
  | .next r' => ∃ s', p = .ok (.next s') ∧ Follows s' r' ∧
      (s.calculNoData = true → s'.calculNoData = true) ∧
      (Matches s r → (lacks → s'.calculNoData = true) ∧
        (¬ lacks → s'.calculNoData = false ∧
          (Holds s'.stack s'.nodata s'.sp r'.stack ↔ kept)))
  | .store adr x => ¬ lacks ∧ kept ∧ ∃ v, p = .ok (.done (some (adr, v))) ∧
      (s.calculNoData = true → v = szarpNoData) ∧ (Matches s r → v = word e x)

section Elements

variable {stack stack' : ℤ → F} {nodata nodata' : ℤ → Bool} {sp : ℤ} {st : List (Option F)}
  {s : Calc F} {r : Ref F} {rest : List Char} {q : RefPass F}

/-- What is above the top does not matter. -/
theorem Holds.congr (h : ∀ i < sp, stack i = stack' i ∧ nodata i = nodata' i) :
    Holds stack nodata sp st ↔ Holds stack' nodata' sp st := by
  induction st generalizing sp with
  | nil => exact Iff.rfl
  | cons x st ih =>
    have htop := h (sp - 1) (by omega)
    rw [Holds, Holds, ih fun i hi => h i (by omega), Element, Element, htop.1, htop.2]

theorem pass_eq_some {target : Option F} (h : Ref.pass rest st target = some q) :
    rest ≠ [] ∧ q = .next ⟨rest, st, target⟩ := by
  unfold Ref.pass at h
  split_ifs at h with hrest
  exact ⟨hrest, (Option.some.inj h).symm⟩

theorem onStack_eq_some {f : List (Option F) → Option (List (Option F))}
    (h : Ref.onStack f r rest = some q) :
    ∃ st, f r.stack = some st ∧ rest ≠ [] ∧ q = .next ⟨rest, st, none⟩ := by
  obtain ⟨st, hst, hpass⟩ := Option.bind_eq_some_iff.mp h
  exact ⟨st, hst, pass_eq_some hpass⟩

theorem goOn_next (h : rest ≠ []) : goOn s rest = .next { s with chptr := rest } :=
  if_neg h

/-- Only what a state holds matters after a pass that takes nothing for a target. -/
theorem follows_next {s' : Calc F} (hlen : (st.length : ℤ) ≤ s'.sp)
    (hnull : s'.nullFormula = false) : Follows { s' with chptr := rest } ⟨rest, st, none⟩ where
  chptr := rfl
  length := hlen
  target := nofun
  nullFormula := hnull

theorem simulates_skip (hf : Follows s r) (h : Ref.pass rest r.stack r.target = some q) :
    Simulates e s r (.ok (goOn s rest)) False True q := by
  obtain ⟨hrest, rfl⟩ := pass_eq_some h
  rw [goOn_next hrest]
  refine ⟨_, rfl, ⟨rfl, hf.length, hf.target, hf.nullFormula⟩, id, fun hm => ⟨False.elim, ?_⟩⟩
  exact fun _ => ⟨hm.calculNoData, iff_of_true hm.holds trivial⟩

theorem holds_two {x y : Option F} : Holds stack nodata sp (y :: x :: st) ↔
    Element stack nodata (sp - 1) y ∧ Element stack nodata (sp - 2) x ∧
      Holds stack nodata (sp - 2) st := by
  have htwo : sp - 1 - 1 = sp - 2 := by omega
  rw [Holds, Holds, htwo]

theorem holds_update_stack {j : ℤ} {v : F} (h : sp ≤ j) :
    Holds (Function.update stack j v) nodata sp st ↔ Holds stack nodata sp st :=
  Holds.congr fun i hi => ⟨Function.update_of_ne (by omega) _ _, rfl⟩

theorem holds_update_nodata {j : ℤ} {v : Bool} (h : sp ≤ j) :
    Holds stack (Function.update nodata j v) sp st ↔ Holds stack nodata sp st :=
  Holds.congr fun i hi => ⟨rfl, Function.update_of_ne (by omega) _ _⟩

theorem Element.congr {i : ℤ} {x : Option F} (h : Element stack nodata i x) {j : ℤ}
    (hstack : stack' j = stack i) (hnodata : nodata' j = nodata i) :
    Element stack' nodata' j x := by
  rw [Element, hstack, hnodata]
  exact h

theorem Element.eq_some {i : ℤ} {x : Option F} (h : Element stack nodata i x)
    (hflag : nodata i = false) : x = some (stack i) := by
  cases x with
  | none => exact nomatch hflag.symm.trans h.1
  | some v => rw [h.2 v rfl]

theorem Element.eq_none {i : ℤ} {x : Option F} (h : Element stack nodata i x)
    (hflag : nodata i = true) : x = none := by
  cases x with
  | none => rfl
  | some v => exact nomatch hflag.symm.trans h.1

theorem swap_eq_some {st st' : List (Option F)} (h : Ref.swap st = some st') :
    ∃ y x below, st = y :: x :: below ∧ st' = x :: y :: below := by
  rcases st with _ | ⟨y, _ | ⟨x, below⟩⟩
  · exact nomatch h
  · exact nomatch h
  · exact ⟨y, x, below, rfl, (Option.some.inj h).symm⟩

theorem binary_eq_some {g : F → F → Option F} {st st' : List (Option F)}
    (h : Ref.binary g st = some st') : ∃ y x below, st = y :: x :: below ∧
      st' = (x.bind fun a => y.bind fun b => g a b) :: below := by
  rcases st with _ | ⟨y, _ | ⟨x, below⟩⟩
  · exact nomatch h
  · exact nomatch h
  · exact ⟨y, x, below, rfl, (Option.some.inj h).symm⟩

theorem replace_eq_some {st st' : List (Option F)} (h : Ref.replace st = some st') :
    ∃ y x below, st = y :: x :: below ∧ st' = x.or y :: below := by
  rcases st with _ | ⟨y, _ | ⟨x, below⟩⟩
  · exact nomatch h
  · exact nomatch h
  · exact ⟨y, x, below, rfl, (Option.some.inj h).symm⟩

theorem duplicate_eq_some {st st' : List (Option F)} (h : Ref.duplicate st = some st') :
    ∃ x below, st = x :: below ∧ st' = x :: x :: below := by
  rcases st with _ | ⟨x, below⟩
  · exact nomatch h
  · exact ⟨x, below, rfl, (Option.some.inj h).symm⟩

theorem choose_eq_some {isZero : F → Bool} {st st' : List (Option F)}
    (h : Ref.choose isZero st = some st') : ∃ c y x below, st = c :: y :: x :: below ∧
      st' = (c.bind fun v => if isZero v then y else x) :: below := by
  rcases st with _ | ⟨c, _ | ⟨y, _ | ⟨x, below⟩⟩⟩
  · exact nomatch h
  · exact nomatch h
  · exact nomatch h
  · exact ⟨c, y, x, below, rfl, (Option.some.inj h).symm⟩

theorem simulates_swap (hf : Follows s r) (hsp : s.sp < 30)
    (h : Ref.onStack Ref.swap r rest = some q) :
    Simulates e s r (swap s rest) False (s.nodata (s.sp - 1) = s.nodata (s.sp - 2)) q := by
  obtain ⟨st', hst, hrest, rfl⟩ := onStack_eq_some h
  obtain ⟨y, x, below, hstack, rfl⟩ := swap_eq_some hst
  have hlen := hf.length
  simp only [hstack, List.length_cons] at hlen
  unfold swap
  rw [if_neg (by omega)]
  simp (disch := omega) only [get_ok, put_ok, bind, Except.bind, pure, Except.pure]
  rw [goOn_next hrest]
  refine ⟨_, rfl, follows_next (by simp only [List.length_cons]; omega) hf.nullFormula, id,
    fun hm => ⟨False.elim, fun _ => ⟨hm.calculNoData, ?_⟩⟩⟩
  have hholds := hm.holds
  rw [hstack, holds_two] at hholds
  obtain ⟨hy, hx, hbelow⟩ := hholds
  dsimp only
  rw [holds_two, holds_update_stack (by omega), holds_update_stack (by omega)]
  constructor
  · intro hnew
    rw [hx.1]
    exact hnew.1.1
  · intro hflag
    refine ⟨hx.congr ?_ hflag, hy.congr ?_ hflag.symm, hbelow⟩
    · simp (disch := omega) only [Function.update_of_ne, Function.update_self]
    · simp (disch := omega) only [Function.update_self]

theorem simulates_duplicate (hf : Follows s r) (hsp : s.sp < 30)
    (h : Ref.onStack Ref.duplicate r rest = some q) :
    Simulates e s r (duplicate s rest) False (s.nodata s.sp = s.nodata (s.sp - 1)) q := by
  obtain ⟨st', hst, hrest, rfl⟩ := onStack_eq_some h
  obtain ⟨x, below, hstack, rfl⟩ := duplicate_eq_some hst
  have hlen := hf.length
  simp only [hstack, List.length_cons] at hlen
  unfold duplicate
  simp (disch := omega) only [get_ok, put_ok, bind, Except.bind, pure, Except.pure]
  rw [goOn_next hrest]
  refine ⟨_, rfl, follows_next (by simp only [List.length_cons]; omega) hf.nullFormula, id,
    fun hm => ⟨False.elim, fun _ => ⟨hm.calculNoData, ?_⟩⟩⟩
  have hholds := hm.holds
  rw [hstack] at hholds
  have hx := hholds.1
  have hone : s.sp + 1 - 1 = s.sp := by omega
  dsimp only
  rw [Holds, hone, holds_update_stack (Int.le_refl _), and_iff_left hholds]
  constructor
  · intro hnew
    rw [hx.1]
    exact hnew.1
  · exact fun hflag => hx.congr (Function.update_self _ _ _) hflag

/-- An operation on two values lacks one, or has no result, exactly when the result is missing. -/
theorem simulates_binary {f : F → F → F × Bool} {g : F → F → Option F} {lacks : Prop}
    (hfg : ∀ a b, g a b = if (f a b).2 then none else some (f a b).1)
    (hlacks : ∀ st, Ref.binary g r.stack = some st → (lacks ↔ st.head? = some none))
    (hf : Follows s r) (hsp : s.sp < 30) (h : Ref.onStack (Ref.binary g) r rest = some q) :
    Simulates e s r (binary f s rest) lacks True q := by
  obtain ⟨st', hst, hrest, rfl⟩ := onStack_eq_some h
  rw [hlacks st' hst]
  obtain ⟨y, x, below, hstack, rfl⟩ := binary_eq_some hst
  have hlen := hf.length
  simp only [hstack, List.length_cons] at hlen
  have hone : s.sp - 1 - 1 = s.sp - 2 := by omega
  unfold binary
  rw [if_neg (by omega)]
  simp (disch := omega) only [get_ok, put_ok, bind, Except.bind, pure, Except.pure, hone]
  by_cases hflag : (s.nodata (s.sp - 1) || s.nodata (s.sp - 2)) = true
  · rw [if_pos hflag, goOn_next hrest]
    refine ⟨_, rfl, follows_next (by simp only [List.length_cons]; omega) hf.nullFormula,
      fun _ => rfl, fun hm => ⟨fun _ => rfl, fun hnot => absurd ?_ hnot⟩⟩
    have hholds := hm.holds
    rw [hstack, holds_two] at hholds
    rcases Bool.or_eq_true_iff.mp hflag with hflag | hflag
    · rw [hholds.1.eq_none hflag]
      cases x <;> rfl
    · rw [hholds.2.1.eq_none hflag]
      rfl
  · rw [if_neg hflag, goOn_next hrest]
    refine ⟨_, rfl, follows_next (by simp only [List.length_cons]; omega) hf.nullFormula,
      fun hno => ?_, fun hm => ?_⟩
    · dsimp only
      rw [hno, Bool.true_or]
    · have hholds := hm.holds
      rw [hstack, holds_two] at hholds
      obtain ⟨hy, hx, hbelow⟩ := hholds
      obtain ⟨hfy, hfx⟩ := Bool.or_eq_false_iff.mp (Bool.not_eq_true _ ▸ hflag)
      dsimp only
      rw [hy.eq_some hfy, hx.eq_some hfx, Option.bind_some, Option.bind_some, hm.calculNoData,
        Bool.false_or, hfg, Holds, hone, holds_update_stack (Int.le_refl _)]
      cases (f (s.stack (s.sp - 2)) (s.stack (s.sp - 1))).2 with
      | true => exact ⟨fun _ => rfl, fun hnot => absurd rfl hnot⟩
      | false =>
        refine ⟨fun hnone => (nomatch hnone), fun _ => ⟨rfl, iff_of_true ⟨⟨hfx, ?_⟩, hbelow⟩ trivial⟩⟩
        intro v hv
        cases hv
        exact Function.update_self _ _ _

theorem simulates_limit {f : F → F → Bool}
    (hf : Follows s r) (hsp : s.sp < 30)
    (h : Ref.onStack (Ref.binary fun a b => if f a b then none else some a) r rest = some q) :
    Simulates e s r (limit f s rest) (none ∈ r.stack.take 2) True q := by
  obtain ⟨st', hst, hrest, rfl⟩ := onStack_eq_some h
  obtain ⟨y, x, below, hstack, rfl⟩ := binary_eq_some hst
  have hlen := hf.length
  simp only [hstack, List.length_cons] at hlen
  have hone : s.sp - 1 - 1 = s.sp - 2 := by omega
  unfold limit
  rw [if_neg (by omega)]
  simp (disch := omega) only [get_ok, put_ok, bind, Except.bind, pure, Except.pure, hone]
  -- one of the two values is missing
  by_cases hflag : (s.nodata (s.sp - 1) || s.nodata (s.sp - 2)) = true
  · rw [if_pos hflag, goOn_next hrest]
    refine ⟨_, rfl, follows_next (by simp only [List.length_cons]; omega) hf.nullFormula,
      fun _ => rfl, fun hm => ⟨fun _ => rfl, fun hnot => absurd ?_ hnot⟩⟩
    have hholds := hm.holds
    rw [hstack, holds_two] at hholds
    rw [hstack]
    rcases Bool.or_eq_true_iff.mp hflag with hflag | hflag
    · rw [hholds.1.eq_none hflag]
      exact List.mem_cons_self
    · rw [hholds.2.1.eq_none hflag]
      exact List.mem_cons_of_mem _ List.mem_cons_self
  · rw [if_neg hflag]
    obtain ⟨hfy, hfx⟩ := Bool.or_eq_false_iff.mp (Bool.not_eq_true _ ▸ hflag)
    have hsome (hm : Matches s r) : y = some (s.stack (s.sp - 1)) ∧ x = some (s.stack (s.sp - 2)) ∧
        Holds s.stack s.nodata (s.sp - 2) below := by
      have hholds := hm.holds
      rw [hstack, holds_two] at hholds
      exact ⟨hholds.1.eq_some hfy, hholds.2.1.eq_some hfx, hholds.2.2⟩
    have hnot (hm : Matches s r) : none ∉ r.stack.take 2 := by
      obtain ⟨hy, hx, -⟩ := hsome hm
      rw [hstack, hy, hx]
      simp
    -- the value is out of its limit, and only its flag is set
    by_cases hlimit : f (s.stack (s.sp - 2)) (s.stack (s.sp - 1)) = true
    · rw [if_pos hlimit, goOn_next hrest]
      refine ⟨_, rfl, follows_next (by simp only [List.length_cons]; omega) hf.nullFormula,
        id, fun hm => ⟨fun hmem => absurd hmem (hnot hm), fun _ => ⟨hm.calculNoData, ?_⟩⟩⟩
      obtain ⟨hy, hx, hbelow⟩ := hsome hm
      dsimp only
      rw [hy, hx, Option.bind_some, Option.bind_some, if_pos hlimit, Holds, hone,
        holds_update_nodata (Int.le_refl _)]
      exact iff_of_true ⟨⟨Function.update_self _ _ _, nofun⟩, hbelow⟩ trivial
    · rw [if_neg hlimit, goOn_next hrest]
      refine ⟨_, rfl, follows_next (by simp only [List.length_cons]; omega) hf.nullFormula,
        id, fun hm => ⟨fun hmem => absurd hmem (hnot hm), fun _ => ⟨hm.calculNoData, ?_⟩⟩⟩
      obtain ⟨hy, hx, hbelow⟩ := hsome hm
      dsimp only
      rw [hy, hx, Option.bind_some, Option.bind_some, if_neg hlimit, Holds, hone]
      refine iff_of_true ⟨⟨hfx, fun v hv => ?_⟩, hbelow⟩ trivial
      exact Option.some.inj hv

theorem simulates_replace (hf : Follows s r) (hsp : s.sp < 30)
    (h : Ref.onStack Ref.replace r rest = some q) :
    Simulates e s r (replace s rest) False True q := by
  obtain ⟨st', hst, hrest, rfl⟩ := onStack_eq_some h
  obtain ⟨y, x, below, hstack, rfl⟩ := replace_eq_some hst
  have hlen := hf.length
  simp only [hstack, List.length_cons] at hlen
  have hone : s.sp - 1 - 1 = s.sp - 2 := by omega
  unfold replace
  rw [if_neg (by omega)]
  simp (disch := omega) only [get_ok, put_ok, bind, Except.bind, pure, Except.pure, hone]
  by_cases hflag : s.nodata (s.sp - 2) = true
  · rw [if_pos hflag, goOn_next hrest]
    refine ⟨_, rfl, follows_next (by simp only [List.length_cons]; omega) hf.nullFormula,
      id, fun hm => ⟨False.elim, fun _ => ⟨hm.calculNoData, ?_⟩⟩⟩
    have hholds := hm.holds
    rw [hstack, holds_two] at hholds
    obtain ⟨hy, hx, hbelow⟩ := hholds
    dsimp only
    rw [hx.eq_none hflag, Option.none_or, Holds, hone, holds_update_stack (Int.le_refl _),
      holds_update_nodata (Int.le_refl _)]
    exact iff_of_true ⟨hy.congr (Function.update_self _ _ _) (Function.update_self _ _ _), hbelow⟩
      trivial
  · rw [if_neg hflag, goOn_next hrest]
    refine ⟨_, rfl, follows_next (by simp only [List.length_cons]; omega) hf.nullFormula,
      id, fun hm => ⟨False.elim, fun _ => ⟨hm.calculNoData, ?_⟩⟩⟩
    have hholds := hm.holds
    rw [hstack, holds_two] at hholds
    obtain ⟨-, hx, hbelow⟩ := hholds
    have hsome := hx.eq_some (Bool.not_eq_true _ ▸ hflag)
    dsimp only
    rw [hsome, Option.some_or, Holds, hone, ← hsome]
    exact iff_of_true ⟨hx, hbelow⟩ trivial

theorem holds_three {x y z : Option F} : Holds stack nodata sp (z :: y :: x :: st) ↔
    Element stack nodata (sp - 1) z ∧ Element stack nodata (sp - 2) y ∧
      Element stack nodata (sp - 3) x ∧ Holds stack nodata (sp - 3) st := by
  have hthree : sp - 2 - 1 = sp - 3 := by omega
  rw [holds_two, Holds, hthree]

/-- Of the operand that is kept only the value is copied. -/
theorem simulates_choose (hf : Follows s r) (hsp : s.sp < 30)
    (h : Ref.onStack (Ref.choose e.isZero) r rest = some q) :
    Simulates e s r (choose e s rest) (r.stack.head? = some none)
      (e.isZero (s.stack (s.sp - 1)) → s.nodata (s.sp - 2) = s.nodata (s.sp - 3)) q := by
  obtain ⟨st', hst, hrest, rfl⟩ := onStack_eq_some h
  obtain ⟨c, y, x, below, hstack, rfl⟩ := choose_eq_some hst
  have hlen := hf.length
  simp only [hstack, List.length_cons] at hlen
  have htwo : s.sp - 1 - 1 = s.sp - 2 := by omega
  have hthree : s.sp - 1 - 2 = s.sp - 3 := by omega
  have hthree' : s.sp - 2 - 1 = s.sp - 3 := by omega
  unfold choose
  rw [if_neg (by omega)]
  simp (disch := omega) only [get_ok, put_ok, bind, Except.bind, pure, Except.pure, htwo, hthree]
  by_cases hflag : s.nodata (s.sp - 1) = true
  · rw [if_pos hflag, goOn_next hrest]
    refine ⟨_, rfl, follows_next (by simp only [List.length_cons]; omega) hf.nullFormula,
      fun _ => rfl, fun hm => ⟨fun _ => rfl, fun hnot => absurd ?_ hnot⟩⟩
    have hholds := hm.holds
    rw [hstack, holds_three] at hholds
    rw [hstack, hholds.1.eq_none hflag]
    rfl
  -- the condition is there
  · rw [if_neg hflag]
    have hsome (hm : Matches s r) : c = some (s.stack (s.sp - 1)) ∧
        Element s.stack s.nodata (s.sp - 2) y ∧ Element s.stack s.nodata (s.sp - 3) x ∧
          Holds s.stack s.nodata (s.sp - 3) below := by
      have hholds := hm.holds
      rw [hstack, holds_three] at hholds
      exact ⟨hholds.1.eq_some (Bool.not_eq_true _ ▸ hflag), hholds.2⟩
    have hnot (hm : Matches s r) : r.stack.head? ≠ some none := by
      rw [hstack, (hsome hm).1]
      exact nofun
    -- the value of the upper operand is copied over the lower one, but not its flag
    by_cases hzero : e.isZero (s.stack (s.sp - 1)) = true
    · rw [if_pos hzero, goOn_next hrest]
      refine ⟨_, rfl, follows_next (by simp only [List.length_cons]; omega) hf.nullFormula,
        id, fun hm => ⟨fun hnone => absurd hnone (hnot hm), fun _ => ⟨hm.calculNoData, ?_⟩⟩⟩
      obtain ⟨hc, hy, hx, hbelow⟩ := hsome hm
      dsimp only
      rw [hc, Option.bind_some, if_pos hzero, Holds, hthree', holds_update_stack (Int.le_refl _),
        and_iff_left hbelow, imp_iff_right hzero]
      constructor
      · intro hnew
        rw [hy.1]
        exact hnew.1.symm
      · exact fun heq => hy.congr (Function.update_self _ _ _) heq.symm
    · rw [if_neg hzero, goOn_next hrest]
      refine ⟨_, rfl, follows_next (by simp only [List.length_cons]; omega) hf.nullFormula,
        id, fun hm => ⟨fun hnone => absurd hnone (hnot hm), fun _ => ⟨hm.calculNoData, ?_⟩⟩⟩
      obtain ⟨hc, hy, hx, hbelow⟩ := hsome hm
      dsimp only
      rw [hc, Option.bind_some, if_neg hzero, Holds, hthree']
      exact iff_of_true ⟨hx, hbelow⟩ fun h => absurd h hzero

theorem simulates_constant (hf : Follows s r) (hsp : s.sp < 30)
    (h : Ref.constant e r rest = some q) : Simulates e s r (constant e s rest) False True q := by
  have hlen := hf.length
  unfold Ref.constant at h
  unfold constant
  simp (disch := omega) only [put_ok, bind, Except.bind, pure, Except.pure]
  cases hdrop : rest.dropWhile (· ≠ ' ') with
  | nil =>
    rw [hdrop] at h
    exact nomatch h
  | cons c rest' =>
    rw [hdrop] at h
    obtain ⟨hrest, rfl⟩ := pass_eq_some h
    dsimp only
    rw [goOn_next hrest]
    have hone : s.sp + 1 - 1 = s.sp := by omega
    refine ⟨_, rfl, ⟨rfl, ?_, ?_, hf.nullFormula⟩, id,
      fun hm => ⟨False.elim, fun _ => ⟨hm.calculNoData, iff_of_true ?_ trivial⟩⟩⟩
    · simp only [List.length_cons]
      omega
    · intro a ha
      cases ha
      dsimp only
      rw [hone, Function.update_self]
      exact ⟨by omega, rfl⟩
    · dsimp only
      rw [Holds, hone, holds_update_stack (Int.le_refl _), holds_update_nodata (Int.le_refl _)]
      refine ⟨⟨Function.update_self _ _ _, fun v hv => ?_⟩, hm.holds⟩
      cases hv
      exact Function.update_self _ _ _

theorem simulates_value (hf : Follows s r) (hsp : s.sp < 30)
    (h : Ref.value e r = some q) : Simulates e s r (value e s) False True q := by
  have hlen := hf.length
  unfold Ref.value at h
  unfold value
  rw [hf.chptr]
  cases hdrop : r.chptr.dropWhile (· ≠ ' ') with
  | nil =>
    rw [hdrop] at h
    exact nomatch h
  | cons c rest =>
    rw [hdrop] at h
    dsimp only at h ⊢
    by_cases hadr : e.vtLen ≤ e.address (e.wcstof r.chptr)
    · rw [if_pos hadr] at h
      exact nomatch h
    · rw [if_neg hadr] at h
      rw [if_neg hadr]
      obtain ⟨hrest, rfl⟩ := pass_eq_some h
      simp (disch := omega) only [put_ok, bind, Except.bind, pure, Except.pure]
      rw [goOn_next hrest]
      have hone : s.sp + 1 - 1 = s.sp := by omega
      refine ⟨_, rfl, follows_next (by simp only [List.length_cons]; omega) hf.nullFormula, id,
        fun hm => ⟨False.elim, fun _ => ⟨hm.calculNoData, iff_of_true ?_ trivial⟩⟩⟩
      dsimp only
      rw [Holds, hone, holds_update_stack (Int.le_refl _), holds_update_nodata (Int.le_refl _)]
      refine ⟨?_, hm.holds⟩
      by_cases hval : e.shmGetValue (e.address (e.wcstof r.chptr)) (e.memory (e.wcstof r.chptr)) =
          szarpNoData
      · rw [if_pos hval]
        refine ⟨?_, nofun⟩
        rw [Function.update_self]
        exact decide_eq_true hval
      · rw [if_neg hval]
        refine ⟨?_, fun v hv => ?_⟩
        · rw [Function.update_self]
          exact decide_eq_false hval
        · cases hv
          exact Function.update_self _ _ _

theorem simulates_assign (hf : Follows s r) (hsp : s.sp < 30)
    (h : Ref.assign e r = some q) : Simulates e s r (assign e s) False True q := by
  have hlen := hf.length
  unfold Ref.assign at h
  split at h
  · rename_i a z x below htarget hstack
    rw [hstack] at hlen
    simp only [List.length_cons] at hlen
    obtain ⟨-, htop⟩ := hf.target a htarget
    split_ifs at h with hadr
    cases h
    have hone : s.sp - 1 - 1 = s.sp - 2 := by omega
    unfold assign
    rw [if_neg (by omega)]
    simp (disch := omega) only [get_ok, bind, Except.bind, pure, Except.pure, htop, hone]
    rw [if_neg hadr, hf.nullFormula]
    by_cases hno : s.calculNoData = true
    · rw [if_pos hno]
      refine ⟨not_false, trivial, _, rfl, fun _ => rfl,
        fun hm => absurd (hm.calculNoData.symm.trans hno) (by decide)⟩
    · rw [if_neg hno, if_neg Bool.false_ne_true]
      by_cases hflag : s.nodata (s.sp - 2) = true
      · rw [if_pos hflag]
        refine ⟨not_false, trivial, _, rfl, fun _ => rfl, fun hm => ?_⟩
        have hholds := hm.holds
        rw [hstack, holds_two] at hholds
        rw [hholds.2.1.eq_none hflag]
        rfl
      · rw [if_neg hflag]
        refine ⟨not_false, trivial, _, rfl, fun h => absurd h hno, fun hm => ?_⟩
        have hholds := hm.holds
        rw [hstack, holds_two] at hholds
        rw [hholds.2.1.eq_some (Bool.not_eq_true _ ▸ hflag)]
        rfl
  · exact nomatch h

theorem lacks_binary {g : F → F → F} {st st' : List (Option F)}
    (h : Ref.binary (fun x y => some (g x y)) st = some st') :
    none ∈ st.take 2 ↔ st'.head? = some none := by
  obtain ⟨y, x, below, rfl, rfl⟩ := binary_eq_some h
  cases x <;> cases y <;> simp

theorem simulates_total {g : F → F → F} (hf : Follows s r) (hsp : s.sp < 30)
    (h : Ref.onStack (Ref.binary fun x y => some (g x y)) r rest = some q) :
    Simulates e s r (binary (fun x y => (g x y, false)) s rest) (none ∈ r.stack.take 2) True q :=
  simulates_binary e (fun _ _ => rfl) (fun _ => lacks_binary) hf hsp h

theorem simulates_div (hf : Follows s r) (hsp : s.sp < 30)
    (h : Ref.onStack (Ref.binary fun x y => if e.isZero y then none else some (e.div x y)) r rest =
      some q) :
    Simulates e s r
      (binary (fun x y => if e.isZero y then (e.one, true) else (e.div x y, false)) s rest)
      (none ∈ r.stack.take 2 ∨ ∃ y, r.stack.head? = some (some y) ∧ e.isZero y) True q := by
  refine simulates_binary e (fun a b => ?_) (fun st hst => ?_) hf hsp h
  · by_cases hzero : e.isZero b = true
    · rw [if_pos hzero, if_pos hzero, if_pos rfl]
    · rw [if_neg hzero, if_neg hzero, if_neg Bool.false_ne_true]
  · obtain ⟨y, x, below, hstack, rfl⟩ := binary_eq_some hst
    rw [hstack]
    cases y with
    | none => cases x <;> simp
    | some b => cases x <;> simp

/-- A pass of `Calcul` is a step of the reference, as long as nothing is lacking and no flag is left
behind. -/
theorem step_simulates (hf : Follows s r) (hsp : s.sp < 30) (h : Ref.step e r = some q) :
    Simulates e s r (step e s) (Lacks e r) (Kept e s r) q := by
  unfold Ref.step at h
  unfold step Lacks Kept
  have hss : ¬ ss ≤ s.sp := by
    unfold ss
    omega
  rw [if_neg hss, hf.chptr]
  cases hchptr : r.chptr with
  | nil =>
    rw [hchptr] at h
    exact absurd h (by simp)
  | cons c rest =>
    rw [hchptr] at h
    dsimp only at h ⊢
    by_cases hdigit : c.isDigit = true
    · rw [if_pos hdigit] at h
      simp only [if_pos hdigit]
      exact simulates_value e hf hsp h
    · rw [if_neg hdigit] at h
      simp only [if_neg hdigit]
      split at h
      · exact simulates_swap e hf hsp h
      · exact simulates_duplicate e hf hsp h
      · exact simulates_constant e hf hsp h
      · split at h
        · exact absurd h (by simp)
        · split_ifs at h with hf'
          simp only [if_pos hf']
          exact simulates_choose e hf hsp h
      · exact simulates_total e hf hsp h
      · exact simulates_total e hf hsp h
      · exact simulates_total e hf hsp h
      · exact simulates_div e hf hsp h
      · exact simulates_total e hf hsp h
      · exact simulates_total e hf hsp h
      · exact simulates_total e hf hsp h
      · exact simulates_replace e hf hsp h
      · exact simulates_limit e hf hsp h
      · exact simulates_limit e hf hsp h
      · exact simulates_assign e hf hsp h
      · exact simulates_skip e hf h
      · exact absurd h (by simp)

end Elements

/-! ## Runs together -/

/-- The states of `Calcul` and of the reference that are reached side by side. -/
inductive Along (s : Calc F) (r : Ref F) : Calc F → Ref F → Prop
  | start : Along s r s r
  | next {s' s'' : Calc F} {r' r'' : Ref F} : Along s r s' r' → step e s' = .ok (.next s'') →
      Ref.step e r' = some (.next r'') → Along s r s'' r''

/-- In every state that is reached with nothing found missing the stacks agree, and `SZARP_NO_DATA`
is stored exactly when the result is missing, the value of the result otherwise. -/
structure Right (stack : ℤ → F) (nodata : ℤ → Bool) (formula : List Char) : Prop where
  holds : ∀ s r, Along e (start stack nodata formula) (Ref.start formula) s r →
    s.calculNoData = false → Holds s.stack s.nodata s.sp r.stack
  stored : ∀ adr x, reference e formula = some (adr, x) →
    calcul e stack nodata formula = .ok (some (adr, word e x)) ∧
      (word e x = szarpNoData ↔ x = none)

/-- What the next pass needs: a place on the stack and, as long as nothing has been found missing,
that a result is missing when an operand is, that no flag is left behind, and that a value is not
stored as `SZARP_NO_DATA`. -/
structure Fit (formula : List Char) (s : Calc F) (r : Ref F) : Prop where
  place : s.sp < ss
  lacks : s.calculNoData = false → Lacks e r → ∃ adr, reference e formula = some (adr, none)
  kept : s.calculNoData = false → ¬ Lacks e r → Kept e s r
  value : ∀ adr y, Ref.step e r = some (.store adr (some y)) → e.toShort y ≠ szarpNoData

/-- Every pass that is reached has what it needs. -/
def Meets (stack : ℤ → F) (nodata : ℤ → Bool) (formula : List Char) : Prop :=
  ∀ s r, Along e (start stack nodata formula) (Ref.start formula) s r → Fit e formula s r

section Together

variable {s₀ s : Calc F} {r₀ r : Ref F} {n : ℕ} {result : ℕ × Option F}

theorem Follows.sp_nonneg (h : Follows s r) : 0 ≤ s.sp := by
  have hlen := h.length
  omega

theorem follows_start (stack : ℤ → F) (nodata : ℤ → Bool) (formula : List Char) :
    Follows (start stack nodata formula) (Ref.start formula) where
  chptr := rfl
  length := Int.le_refl 0
  target := nofun
  nullFormula := rfl

/-- A full stack ends the evaluation. -/
theorem step_full (h : ss ≤ s.sp) : step e s = .ok (.done none) := by
  unfold step
  rw [if_pos h]

theorem sp_lt_of_next {s' : Calc F} (h : step e s = .ok (.next s')) : s.sp < 30 := by
  by_contra hsp
  have hfull : ss ≤ s.sp := by
    unfold ss
    omega
  rw [step_full e hfull] at h
  exact nomatch h

theorem Along.follows (h₀ : Follows s₀ r₀) (h : Along e s₀ r₀ s r) : Follows s r := by
  induction h with
  | start => exact h₀
  | next _ hstep href ih =>
    obtain ⟨s', hs', hf, -⟩ := step_simulates e ih (sp_lt_of_next e hstep) href
    cases hstep.symm.trans hs'
    exact hf

theorem Along.runs (h₀ : Follows s₀ r₀) (h : Along e s₀ r₀ s r) (hn : s₀.chptr.length < n) :
    ∃ m, s.chptr.length < m ∧ run e n s₀ = run e m s ∧ Ref.run e n r₀ = Ref.run e m r := by
  induction h with
  | start => exact ⟨n, hn, rfl, rfl⟩
  | @next s' s'' r' r'' halong hstep href ih =>
    obtain ⟨m, hm, hrun, hrefRun⟩ := ih
    cases m with
    | zero => exact absurd hm (Nat.not_lt_zero _)
    | succ m =>
      rcases judged_step e (halong.follows e h₀).sp_nonneg with ⟨-, p, hp, hlen⟩ | ⟨-, f, hp⟩
      · cases hstep.symm.trans hp
        have hlt := (hlen s'' rfl).2
        refine ⟨m, by omega, ?_, ?_⟩
        · rw [hrun, run, hstep]
        · rw [hrefRun, Ref.run, href]
      · exact absurd (hstep.symm.trans hp) (by simp)

theorem Along.trans {s' : Calc F} {r' : Ref F} (h : Along e s₀ r₀ s r) (h' : Along e s r s' r') :
    Along e s₀ r₀ s' r' := by
  induction h' with
  | start => exact h
  | next _ hstep href ih => exact ih.next hstep href

/-- What has been found missing stays so. -/
theorem Along.calculNoData (h₀ : Follows s₀ r₀) (h : Along e s₀ r₀ s r)
    (hno : s₀.calculNoData = true) : s.calculNoData = true := by
  induction h with
  | start => exact hno
  | next halong hstep href ih =>
    obtain ⟨s', hs', -, hmono, -⟩ :=
      step_simulates e (halong.follows e h₀) (sp_lt_of_next e hstep) href
    cases hstep.symm.trans hs'
    exact hmono ih

theorem calculNoData_mono {s' : Calc F} {r' : Ref F} (hf : Follows s r)
    (hstep : step e s = .ok (.next s')) (href : Ref.step e r = some (.next r'))
    (h : s'.calculNoData = false) : s.calculNoData = false := by
  cases hno : s.calculNoData with
  | false => rfl
  | true =>
    have hyes := Along.calculNoData e hf (.next .start hstep href) hno
    exact absurd (h.symm.trans hyes) (by decide)

/-- With places on the stack `Calcul` gets where the reference stores the result. -/
theorem exists_store (h : Follows s r) (hplace : ∀ s' r', Along e s r s' r' → s'.sp < ss)
    (hrun : Ref.run e n r = some result) : ∃ s' r' m, Along e s r s' r' ∧
      Ref.step e r' = some (.store result.1 result.2) ∧ run e n s = run e (m + 1) s' := by
  induction n generalizing s r with
  | zero => exact nomatch hrun
  | succ n ih =>
    rw [Ref.run] at hrun
    split at hrun
    · exact nomatch hrun
    · rename_i adr x href
      cases hrun
      exact ⟨s, r, n, .start, href, rfl⟩
    · rename_i r' href
      have hsp : s.sp < 30 := hplace s r .start
      obtain ⟨s', hstep, hf, -⟩ := step_simulates e h hsp href
      have hnext : Along e s r s' r' := .next .start hstep href
      obtain ⟨t, u, m, halong, hstore, heq⟩ :=
        ih hf (fun t u halong => hplace t u (hnext.trans e halong)) hrun
      refine ⟨t, u, m, hnext.trans e halong, hstore, ?_⟩
      rw [run, hstep]
      exact heq

theorem Along.exists_step (h₀ : Follows s₀ r₀) (h : Along e s₀ r₀ s r)
    (hn : s₀.chptr.length < n) (hresult : Ref.run e n r₀ = some result) :
    ∃ q, Ref.step e r = some q := by
  obtain ⟨m, hm, -, href⟩ := h.runs e h₀ hn
  rw [hresult] at href
  cases m with
  | zero => exact absurd hm (Nat.not_lt_zero _)
  | succ m =>
    rw [Ref.run] at href
    cases hstep : Ref.step e r with
    | none =>
      rw [hstep] at href
      exact nomatch href
    | some q => exact ⟨q, rfl⟩

end Together

section Formula

variable {stack : ℤ → F} {nodata : ℤ → Bool} {formula : List Char} {s : Calc F} {r : Ref F}
  {result : ℕ × Option F}

theorem Along.results (h : Along e (Calcul.start stack nodata formula) (Ref.start formula) s r) :
    ∃ m, calcul e stack nodata formula = run e (m + 1) s ∧
      reference e formula = Ref.run e (m + 1) r := by
  obtain ⟨m, hm, hrun, href⟩ := h.runs e (follows_start stack nodata formula)
    (Nat.lt_succ_self formula.length)
  cases m with
  | zero => exact absurd hm (Nat.not_lt_zero _)
  | succ m => exact ⟨m, hrun, href⟩

/-- Where the reference stores a value, that is the result. -/
theorem reference_eq {adr : ℕ} {x : Option F}
    (h : Along e (start stack nodata formula) (Ref.start formula) s r)
    (hstep : Ref.step e r = some (.store adr x)) : reference e formula = some (adr, x) := by
  obtain ⟨m, -, href⟩ := h.results e
  rw [href, Ref.run, hstep]

theorem Right.place (hright : Right e stack nodata formula)
    (hresult : reference e formula = some result)
    (h : Along e (start stack nodata formula) (Ref.start formula) s r) : s.sp < ss := by
  by_contra hsp
  obtain ⟨m, hrun, -⟩ := h.results e
  rw [(hright.stored result.1 result.2 hresult).1, run, step_full e (Int.not_lt.mp hsp)] at hrun
  exact absurd hrun (by simp)

/-- Places on the stack lead to the pass that stores the result. -/
theorem exists_final (hplace : ∀ s' r', Along e s r s' r' → s'.sp < ss)
    (hresult : reference e formula = some result)
    (h : Along e (start stack nodata formula) (Ref.start formula) s r) :
    ∃ s' r' v, Along e s r s' r' ∧ Ref.step e r' = some (.store result.1 result.2) ∧
      calcul e stack nodata formula = .ok (some (result.1, v)) ∧
      (s'.calculNoData = true → v = szarpNoData) ∧ (Matches s' r' → v = word e result.2) := by
  have hf := h.follows e (follows_start stack nodata formula)
  obtain ⟨m, hrun, href⟩ := h.results e
  obtain ⟨s', r', m', halong, hstore, heq⟩ := exists_store e hf hplace (href.symm.trans hresult)
  have hsp : s'.sp < 30 := hplace s' r' halong
  obtain ⟨-, -, v, hstep, hv⟩ := step_simulates e (halong.follows e hf) hsp hstore
  refine ⟨s', r', v, halong, hstore, ?_, hv⟩
  rw [hrun, heq, run, hstep]

theorem Right.missing (hright : Right e stack nodata formula)
    (hresult : reference e formula = some result)
    (h : Along e (start stack nodata formula) (Ref.start formula) s r)
    (hno : s.calculNoData = true) : result.2 = none := by
  have hplace (s' r') (h' : Along e s r s' r') : s'.sp < ss :=
    hright.place e hresult (h.trans e h')
  obtain ⟨s', r', v, halong, -, hcalcul, hv, -⟩ := exists_final e hplace hresult h
  obtain ⟨hword, hiff⟩ := hright.stored result.1 result.2 hresult
  rw [hv (halong.calculNoData e (h.follows e (follows_start stack nodata formula)) hno),
    hword] at hcalcul
  exact hiff.mp (congrArg Prod.snd (Option.some.inj (Except.ok.inj hcalcul)))

theorem Right.meets (hright : Right e stack nodata formula)
    (hresult : reference e formula = some result) : Meets e stack nodata formula := by
  intro s r h
  have h₀ := follows_start stack nodata formula
  have hplace := hright.place e hresult h
  obtain ⟨q, hq⟩ := h.exists_step e h₀ (Nat.lt_succ_self _) hresult
  have hsim := step_simulates e (h.follows e h₀) hplace hq
  have hmatches (hno : s.calculNoData = false) : Matches s r := ⟨hno, hright.holds s r h hno⟩
  refine ⟨hplace, fun hno hlacks => ?_, fun hno hlacks => ?_, fun adr y hstore hword => ?_⟩
  · cases q with
    | store adr x => exact absurd hlacks hsim.1
    | next r' =>
      obtain ⟨s', hstep, -, -, hcases⟩ := hsim
      have hnone := hright.missing e hresult (h.next hstep hq) ((hcases (hmatches hno)).1 hlacks)
      refine ⟨result.1, ?_⟩
      rw [hresult, ← hnone]
  · cases q with
    | store adr x => exact hsim.2.1
    | next r' =>
      obtain ⟨s', hstep, -, -, hcases⟩ := hsim
      obtain ⟨hno', hiff⟩ := (hcases (hmatches hno)).2 hlacks
      exact hiff.mp (hright.holds s' r' (h.next hstep hq) hno')
  · exact nomatch (hright.stored adr (some y) (reference_eq e h hstore)).2.mp hword

theorem Meets.holds (hmeets : Meets e stack nodata formula)
    (h : Along e (start stack nodata formula) (Ref.start formula) s r)
    (hno : s.calculNoData = false) : Holds s.stack s.nodata s.sp r.stack := by
  induction h with
  | start => rfl
  | @next s' s'' r' r'' halong hstep href ih =>
    have hf := halong.follows e (follows_start stack nodata formula)
    have hno' := calculNoData_mono e hf hstep href hno
    obtain ⟨t, ht, -, -, hcases⟩ := step_simulates e hf (hmeets s' r' halong).place href
    cases hstep.symm.trans ht
    obtain ⟨hyes, hnot⟩ := hcases ⟨hno', ih hno'⟩
    have hlacks : ¬ Lacks e r' := by
      intro hlacks
      exact absurd (hno.symm.trans (hyes hlacks)) (by decide)
    exact (hnot hlacks).2.mpr ((hmeets s' r' halong).kept hno' hlacks)

theorem Meets.missing (hmeets : Meets e stack nodata formula)
    (h : Along e (start stack nodata formula) (Ref.start formula) s r)
    (hno : s.calculNoData = true) : ∃ adr, reference e formula = some (adr, none) := by
  induction h with
  | start => exact nomatch hno
  | @next s' s'' r' r'' halong hstep href ih =>
    cases hno' : s'.calculNoData with
    | true => exact ih hno'
    | false =>
      have hf := halong.follows e (follows_start stack nodata formula)
      obtain ⟨t, ht, -, -, hcases⟩ := step_simulates e hf (hmeets s' r' halong).place href
      cases hstep.symm.trans ht
      obtain ⟨-, hnot⟩ := hcases ⟨hno', hmeets.holds e halong hno'⟩
      refine (hmeets s' r' halong).lacks hno' ?_
      by_contra hlacks
      exact absurd ((hnot hlacks).1.symm.trans hno) (by decide)

theorem Meets.right (hmeets : Meets e stack nodata formula) : Right e stack nodata formula where
  holds _ _ h hno := hmeets.holds e h hno
  stored adr x hresult := by
    obtain ⟨s, r, v, halong, hstore, hcalcul, hmissing, hmatches⟩ :=
      exists_final e (fun s' r' h' => (hmeets s' r' h').place) hresult .start
    have hv : v = word e x := by
      cases hno : s.calculNoData with
      | true =>
        obtain ⟨adr', hnone⟩ := hmeets.missing e halong hno
        cases hresult.symm.trans hnone
        exact hmissing hno
      | false => exact hmatches ⟨hno, hmeets.holds e halong hno⟩
    rw [hv] at hcalcul
    refine ⟨hcalcul, fun hword => ?_, fun hx => by rw [hx]; rfl⟩
    cases x with
    | none => rfl
    | some y => exact absurd hword ((hmeets s r halong).value adr y hstore)

/-- Where every pass has what it needs, the word of the reference result is stored, and it is
`SZARP_NO_DATA` exactly for a missing result. -/
theorem Meets.stored (hmeets : Meets e stack nodata formula) {adr : ℕ} {x : Option F}
    (h : reference e formula = some (adr, x)) :
    calcul e stack nodata formula = .ok (some (adr, word e x)) ∧
      (word e x = szarpNoData ↔ x = none) :=
  (hmeets.right e).stored adr x h

/-- A well-formed formula is evaluated as the reference evaluates it exactly when every pass that is
reached has what it needs. -/
theorem noData_iff (h : reference e formula ≠ none) :
    Right e stack nodata formula ↔ Meets e stack nodata formula := by
  obtain ⟨result, hresult⟩ := Option.ne_none_iff_exists'.mp h
  exact ⟨fun hright => hright.meets e hresult, fun hmeets => hmeets.right e⟩

theorem noData_iff_sum :
    Right (wholeNumbers fun _ => 7) (fun _ => 0) (fun _ => false) ("0 #1 + #5 = ".toList) ↔
      Meets (wholeNumbers fun _ => 7) (fun _ => 0) (fun _ => false) ("0 #1 + #5 = ".toList) :=
  noData_iff _ (by decide +kernel)

/-- After `&` the operator `N` finds the wrong flag. -/
theorem swap_leaves_flag :
    reference (wholeNumbers fun _ => szarpNoData) ("0 #2 & N #5 = ".toList) = some (5, some 2) ∧
      calcul (wholeNumbers fun _ => szarpNoData) (fun _ => 0) (fun _ => false)
        ("0 #2 & N #5 = ".toList) = .ok (some (5, szarpNoData)) :=
  ⟨by decide +kernel, by decide +kernel⟩

end Formula

end Calcul
end Parcook
end Szarp
