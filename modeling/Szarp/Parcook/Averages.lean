import Szarp.Lib.Tally

/-!
# Running averages

`parcook.cc`: the rings of the last probes, minutes and ten minutes of every parameter, with the
counts and the sums from which the averages are computed.
-/

namespace Szarp
namespace Parcook

abbrev Word := BitVec 16

def noData : Word := BitVec.intMin 16

/-- `tParamInfo`: a parameter alone, or a word of a combined parameter with the index of the other
word. -/
inductive ParamInfo where
  | single
  | msw (other : ℕ)
  | lsw (other : ℕ)
deriving DecidableEq

/-- `Probes`, `Minutes` and `Min10s`, and what is computed from them. -/
inductive Level where
  | probe
  | minute
  | min10
deriving DecidableEq

def Level.size : Level → ℕ
  | probe => 6
  | minute => 10
  | min10 => 6

/-- The rings, counts and sums of all parameters. -/
structure Tables where
  ring : Level → ℕ → List Word
  cnts : Level → ℕ → ℕ
  sums : Level → ℕ → ℤ

def allocProbesMemory : Tables :=
  ⟨fun level _ => List.replicate level.size noData, fun _ _ => 0, fun _ _ => 0⟩

namespace Tables

variable (level : Level) (i : ℕ) (t : Tables)

/-- `Cnts[i][level]--`; `none`: the count wraps around. -/
def decCnt : Option Tables :=
  if t.cnts level i = 0 then none
  else
    some { t with
      cnts := Function.update t.cnts level (Function.update (t.cnts level) i (t.cnts level i - 1)) }

/-- `Cnts[i][level]++` of an `unsigned char`. -/
def incCnt : Option Tables :=
  if t.cnts level i = 255 then none
  else
    some { t with
      cnts := Function.update t.cnts level (Function.update (t.cnts level) i (t.cnts level i + 1)) }

/-- A number is added to a `long long`; `none`: the sum overflows. -/
def addSum (v : ℤ) : Option Tables :=
  let s := t.sums level i + v
  if -2 ^ 63 ≤ s ∧ s < 2 ^ 63 then
    some { t with sums := Function.update t.sums level (Function.update (t.sums level) i s) }
  else none

/-- `ovt[i][abuf] = v` -/
def setRing (abuf : ℕ) (v : Word) : Tables :=
  { t with
    ring := Function.update t.ring level
      (Function.update (t.ring level) i ((t.ring level i).set abuf v)) }

end Tables

/-- The signed number of two words. -/
def combine (msw lsw : Word) : ℤ := (msw ++ lsw).toInt

/-- `update_value`; `none`: an access outside a ring, a count that wraps around, or a sum that
overflows. -/
def updateValue (info : ℕ → ParamInfo) (level : Level) (ivt : ℕ → Word) (abuf i : ℕ) (t : Tables) :
    Option Tables := do
  match info i with
  | .single =>
    let old ← (t.ring level i)[abuf]?
    let t ← if old ≠ noData then (t.addSum level i (-old.toInt)).bind (Tables.decCnt level i)
      else some t
    let t := t.setRing level i abuf (ivt i)
    if ivt i ≠ noData then (t.addSum level i (ivt i).toInt).bind (Tables.incCnt level i)
    else some t
  | .lsw _ => some t
  | .msw other =>
    let pmsw ← (t.ring level i)[abuf]?
    let plsw ← (t.ring level other)[abuf]?
    let t ← if pmsw ≠ noData then
        (t.addSum level i (-combine pmsw plsw)).bind (Tables.decCnt level i)
      else some t
    let t := (t.setRing level i abuf (ivt i)).setRing level other abuf (ivt other)
    if ivt i ≠ noData then
      (t.addSum level i (combine (ivt i) (ivt other))).bind (Tables.incCnt level i)
    else some t

def calculateAverage (info : ℕ → ParamInfo) (t : Tables) (level : Level) (i : ℕ)
    (probes : ℕ → Word) : ℕ → Word :=
  match info i with
  | .single =>
    Function.update probes i
      (if t.cnts level i = 0 then noData
      else BitVec.ofInt 16 ((t.sums level i).tdiv (t.cnts level i)))
  | .lsw _ => probes
  | .msw other =>
    if t.cnts level i = 0 then Function.update probes i noData
    else
      let v : BitVec 32 := BitVec.ofInt 32 ((t.sums level i).tdiv (t.cnts level i))
      Function.update (Function.update probes i (v.extractLsb' 16 16)) other
        (v.extractLsb' 0 16)

/-! ## The main loop -/

/-- What `localtime` gives. That no second is a leap second is assumed: with a zone that counts them
`tm_sec` can be 60, which is past the rings. -/
structure LocalTime where
  tmSec : ℕ
  tmMin : ℕ
  tmSec_lt : tmSec < 60
  tmMin_lt : tmMin < 60

structure State where
  tables : Tables
  minute : ℕ → Word
  min10 : ℕ → Word
  hour : ℕ → Word
  firstTime : Bool
  lastMin : ℕ
  lastMin10 : ℕ

def updateValues (info : ℕ → ParamInfo) (vtLen : ℕ) (level : Level) (ivt : ℕ → Word) (abuf : ℕ)
    (t : Tables) : Option Tables :=
  (List.range vtLen).foldlM (fun t i => updateValue info level ivt abuf i t) t

def calculateAverages (info : ℕ → ParamInfo) (vtLen : ℕ) (t : Tables) (level : Level)
    (probes : ℕ → Word) : ℕ → Word :=
  (List.range vtLen).foldl (fun probes i => calculateAverage info t level i probes) probes

/-- One pass of `MainLoop`; `probe` are the values of the lines, the formulas and the scripts. -/
def mainLoop (info : ℕ → ParamInfo) (vtLen : ℕ) (time : LocalTime) (probe : ℕ → Word) (s : State) :
    Option State := do
  let t ← updateValues info vtLen .probe probe (time.tmSec / 10) s.tables
  let minute := calculateAverages info vtLen t .probe s.minute
  let t ← updateValues info vtLen .minute minute (time.tmMin % 10) t
  let s := { s with tables := t, minute := minute }
  let s ← if s.lastMin ≠ time.tmMin ∨ s.firstTime then do
      let min10 := calculateAverages info vtLen t .minute s.min10
      let t ← updateValues info vtLen .min10 min10 (time.tmMin / 10) t
      some { s with tables := t, min10 := min10 }
    else some s
  let s := { s with lastMin := time.tmMin }
  let s := if s.lastMin10 ≠ time.tmMin / 10 ∨ s.firstTime then
      { s with hour := calculateAverages info vtLen s.tables .min10 s.hour }
    else s
  some { s with lastMin10 := time.tmMin / 10, firstTime := false }

/-! ## Rings -/

def slot (v : Word) : Option ℤ := if v = noData then none else some v.toInt

def slot2 (msw lsw : Word) : Option ℤ := if msw = noData then none else some (combine msw lsw)

/-- The numbers in the ring of a parameter; those of a pair belong to its first word. -/
def slots (info : ℕ → ParamInfo) (t : Tables) (level : Level) (i : ℕ) : List (Option ℤ) :=
  match info i with
  | .single => (t.ring level i).map slot
  | .msw other => List.zipWith slot2 (t.ring level i) (t.ring level other)
  | .lsw _ => []

/-- The words of combined parameters are disjoint pairs. -/
structure Paired (info : ℕ → ParamInfo) (vtLen : ℕ) : Prop where
  msw : ∀ i < vtLen, ∀ l, info i = .msw l → l < vtLen ∧ info l = .lsw i
  lsw : ∀ i < vtLen, ∀ m, info i = .lsw m → m < vtLen ∧ info m = .msw i

/-- Counts and sums are those of the rings. -/
structure Exact (info : ℕ → ParamInfo) (vtLen : ℕ) (t : Tables) : Prop where
  length : ∀ level, ∀ i < vtLen, (t.ring level i).length = level.size
  cnts : ∀ level, ∀ i < vtLen, (∀ m, info i ≠ .lsw m) →
    t.cnts level i = Tally.count (slots info t level i)
  sums : ∀ level, ∀ i < vtLen, (∀ m, info i ≠ .lsw m) →
    t.sums level i = Tally.total (slots info t level i)

/-! ## Counts and sums -/

namespace Tables

def setTally (level : Level) (i c : ℕ) (s : ℤ) (t : Tables) : Tables :=
  { t with
    cnts := Function.update t.cnts level (Function.update (t.cnts level) i c)
    sums := Function.update t.sums level (Function.update (t.sums level) i s) }

variable {level : Level} {i k : ℕ} {t : Tables} {xs : List (Option ℤ)}

theorem setTally_self (t : Tables) : t.setTally level i (t.cnts level i) (t.sums level i) = t := by
  simp only [setTally, Function.update_eq_self]

theorem setTally_setTally (c c' : ℕ) (s s' : ℤ) :
    (t.setTally level i c s).setTally level i c' s' = t.setTally level i c' s' := by
  simp only [setTally, Function.update_self, Function.update_idem]

/-- The sums of a ring fit in a `long long`. -/
theorem abs_total_lt (hb : ∀ v, some v ∈ xs → |v| ≤ 2 ^ 31) (hlen : xs.length ≤ 10) :
    -2 ^ 63 ≤ Tally.total xs ∧ Tally.total xs < 2 ^ 63 := by
  have hcount : (Tally.count xs : ℤ) ≤ 10 := by
    have := Tally.count_le_length xs
    omega
  have hle := Tally.abs_total_le hb
  have habs : |Tally.total xs| ≤ 10 * 2 ^ 31 := hle.trans (by nlinarith)
  rw [abs_le] at habs
  constructor <;> linarith

theorem mem_set_none (hb : ∀ v, some v ∈ xs → |v| ≤ 2 ^ 31) :
    ∀ v, some v ∈ xs.set k none → |v| ≤ 2 ^ 31 := by
  intro v hv
  rcases List.mem_or_eq_of_mem_set hv with hv | hv
  · exact hb v hv
  · simp at hv

def takeOut (level : Level) (i : ℕ) (t : Tables) : Option ℤ → Option Tables
  | none => some t
  | some v => (t.addSum level i (-v)).bind (decCnt level i)

def putIn (level : Level) (i : ℕ) (t : Tables) : Option ℤ → Option Tables
  | none => some t
  | some v => (t.addSum level i v).bind (incCnt level i)

theorem takeOut_spec (hc : t.cnts level i = Tally.count xs) (hs : t.sums level i = Tally.total xs)
    {x : Option ℤ} (hk : xs[k]? = some x) (hb : ∀ v, some v ∈ xs → |v| ≤ 2 ^ 31)
    (hlen : xs.length ≤ 10) :
    t.takeOut level i x =
      some (t.setTally level i (Tally.count (xs.set k none)) (Tally.total (xs.set k none))) := by
  have hcount := Tally.count_set hk none
  have htotal := Tally.total_set hk none
  cases x with
  | none =>
    simp only [Option.isSome_none, Bool.false_eq_true, if_false, add_zero] at hcount
    simp only [Option.getD_none, add_zero] at htotal
    rw [hcount, htotal, ← hc, ← hs, setTally_self, takeOut]
  | some v =>
    simp only [Option.isSome_some, Option.isSome_none, Bool.false_eq_true, if_true, if_false,
      add_zero] at hcount
    simp only [Option.getD_some, Option.getD_none, add_zero] at htotal
    have hsum : t.sums level i + -v = Tally.total (xs.set k none) := by
      rw [hs]
      linarith
    have hfit := abs_total_lt (mem_set_none (k := k) hb) (by rw [List.length_set]; exact hlen)
    simp only [takeOut, addSum, hsum, if_pos hfit, Option.bind_some, decCnt]
    rw [if_neg (by rw [hc]; omega), show t.cnts level i - 1 = Tally.count (xs.set k none) by
      rw [hc]; omega]
    rfl

theorem putIn_spec {ys : List (Option ℤ)} (hc : t.cnts level i = Tally.count xs)
    (hs : t.sums level i = Tally.total xs) (hk : xs[k]? = some none) {y : Option ℤ}
    (hys : ys = xs.set k y) (hb : ∀ v, some v ∈ ys → |v| ≤ 2 ^ 31) (hlen : ys.length ≤ 10) :
    t.putIn level i y =
      some (t.setTally level i (Tally.count ys) (Tally.total ys)) := by
  have hcount := Tally.count_set hk y
  have htotal := Tally.total_set hk y
  rw [← hys] at hcount htotal
  simp only [Option.isSome_none, Bool.false_eq_true, if_false, add_zero] at hcount
  simp only [Option.getD_none, add_zero] at htotal
  cases y with
  | none =>
    simp only [Option.isSome_none, Bool.false_eq_true, if_false, add_zero] at hcount
    simp only [Option.getD_none, add_zero] at htotal
    rw [hcount, htotal, ← hc, ← hs, setTally_self, putIn]
  | some v =>
    simp only [Option.isSome_some, if_true] at hcount
    simp only [Option.getD_some] at htotal
    have hsum : t.sums level i + v = Tally.total ys := by rw [hs, htotal]
    have hfit := abs_total_lt hb hlen
    have hle := Tally.count_le_length ys
    simp only [putIn, addSum, hsum, if_pos hfit, Option.bind_some, incCnt]
    rw [if_neg (by rw [hc]; omega), show t.cnts level i + 1 = Tally.count ys by rw [hc]; omega]
    rfl

end Tables

/-! ## One update -/

theorem abs_toInt_le (v : Word) : |v.toInt| ≤ 2 ^ 31 := by
  have h1 := BitVec.toInt_lt (x := v)
  have h2 := BitVec.le_toInt (x := v)
  rw [abs_le]
  constructor <;> omega

theorem abs_combine_le (msw lsw : Word) : |combine msw lsw| ≤ 2 ^ 31 := by
  have h1 := BitVec.toInt_lt (x := msw ++ lsw)
  have h2 := BitVec.le_toInt (x := msw ++ lsw)
  rw [combine, abs_le]
  constructor <;> omega

theorem abs_le_of_mem_slots {info : ℕ → ParamInfo} {t : Tables} {level : Level} {i : ℕ} {v : ℤ}
    (h : some v ∈ slots info t level i) : |v| ≤ 2 ^ 31 := by
  unfold slots at h
  split at h
  · obtain ⟨w, -, hw⟩ := List.mem_map.mp h
    unfold slot at hw
    split_ifs at hw
    rw [← Option.some.inj hw]
    exact abs_toInt_le w
  · obtain ⟨k, hk⟩ := List.mem_iff_getElem?.mp h
    rw [List.getElem?_zipWith] at hk
    split at hk
    · rename_i msw lsw _ _
      rw [Option.some.injEq, slot2] at hk
      split_ifs at hk
      rw [← Option.some.inj hk]
      exact abs_combine_le msw lsw
    · simp at hk
  · simp at h

theorem update_update_apply {α : Type} (f : Level → ℕ → α) (level : Level) (i : ℕ) (a : α)
    (l : Level) (j : ℕ) : Function.update f level (Function.update (f level) i a) l j =
      if l = level ∧ j = i then a else f l j := by
  by_cases hl : l = level
  · subst hl
    by_cases hj : j = i
    · subst hj
      simp
    · simp [hj]
  · simp [hl]

theorem setRing_ring (level : Level) (i abuf : ℕ) (v : Word) (t : Tables) (l : Level) (j : ℕ) :
    (t.setRing level i abuf v).ring l j =
      if l = level ∧ j = i then (t.ring level i).set abuf v else t.ring l j :=
  update_update_apply t.ring level i _ l j

theorem length_setRing (level : Level) (i abuf : ℕ) (v : Word) (t : Tables) (l : Level) (j : ℕ) :
    ((t.setRing level i abuf v).ring l j).length = (t.ring l j).length := by
  rw [setRing_ring]
  split_ifs with h
  · rw [List.length_set, h.1, h.2]
  · rfl

theorem zipWith_set (f : Word → Word → Option ℤ) (xs ys : List Word) (k : ℕ) (a b : Word) :
    List.zipWith f (xs.set k a) (ys.set k b) = (List.zipWith f xs ys).set k (f a b) := by
  induction xs generalizing ys k with
  | nil => rfl
  | cons x xs ih =>
    cases ys with
    | nil => simp
    | cons y ys =>
      cases k with
      | zero => rfl
      | succ k => rw [List.set_cons_succ, List.set_cons_succ, List.zipWith_cons_cons, ih,
          List.zipWith_cons_cons, List.set_cons_succ]

theorem slots_congr {info : ℕ → ParamInfo} {t t' : Tables} {l : Level} {j : ℕ}
    (h : t'.ring l j = t.ring l j) (hother : ∀ o, info j = .msw o → t'.ring l o = t.ring l o) :
    slots info t' l j = slots info t l j := by
  unfold slots
  split
  · rw [h]
  · rename_i other heq
    rw [h, hother other heq]
  · rfl

structure Updated (info : ℕ → ParamInfo) (vtLen : ℕ) (level : Level) (i : ℕ) (t t' : Tables) :
    Prop where
  length : ∀ l j, (t'.ring l j).length = (t.ring l j).length
  cnts : t'.cnts level i = Tally.count (slots info t' level i)
  sums : t'.sums level i = Tally.total (slots info t' level i)
  frame : ∀ l j, ¬ (l = level ∧ j = i) → t'.cnts l j = t.cnts l j ∧ t'.sums l j = t.sums l j
  slots : ∀ l, ∀ j < vtLen, ¬ (l = level ∧ j = i) → (∀ m, info j ≠ .lsw m) →
    slots info t' l j = slots info t l j

section Update

variable {info : ℕ → ParamInfo} {vtLen : ℕ} {level : Level} {abuf i : ℕ} {t : Tables}

theorem updated_of_rings {t' : Tables} (hlength : ∀ l j, (t'.ring l j).length = (t.ring l j).length)
    (hslots : ∀ l, ∀ j < vtLen, ¬ (l = level ∧ j = i) → (∀ m, info j ≠ .lsw m) →
      slots info t' l j = slots info t l j)
    (hcnts : t'.cnts = t.cnts) (hsums : t'.sums = t.sums) :
    Updated info vtLen level i t (t'.setTally level i (Tally.count (slots info t' level i))
      (Tally.total (slots info t' level i))) := by
  refine ⟨hlength, ?_, ?_, ?_, hslots⟩
  · change Function.update t'.cnts level _ level i = _
    rw [update_update_apply, if_pos ⟨rfl, rfl⟩]
    rfl
  · change Function.update t'.sums level _ level i = _
    rw [update_update_apply, if_pos ⟨rfl, rfl⟩]
    rfl
  · intro l j hne
    change Function.update t'.cnts level _ l j = _ ∧ Function.update t'.sums level _ l j = _
    rw [update_update_apply, update_update_apply, if_neg hne, if_neg hne, hcnts, hsums]
    exact ⟨rfl, rfl⟩

theorem slots_length_le (h : Exact info vtLen t) (hi : i < vtLen) :
    (slots info t level i).length ≤ 10 := by
  have hlen := h.length level i hi
  have hsize : level.size ≤ 10 := by cases level <;> decide
  unfold slots
  split
  · rw [List.length_map]
    omega
  · rw [List.length_zipWith]
    omega
  · simp

theorem exchange_spec (h : Exact info vtLen t) (hi : i < vtLen) (hnot : ∀ m, info i ≠ .lsw m)
    {x y : Option ℤ} {w : Tables → Tables} (hx : (slots info t level i)[abuf]? = some x)
    (hy : slots info (w t) level i = (slots info t level i).set abuf y)
    (hwrite : ∀ c s, w (t.setTally level i c s) = (w t).setTally level i c s) :
    ((t.takeOut level i x).bind fun t => (w t).putIn level i y) =
      some ((w t).setTally level i (Tally.count (slots info (w t) level i))
        (Tally.total (slots info (w t) level i))) := by
  have hlt : abuf < (slots info t level i).length := (List.getElem?_eq_some_iff.mp hx).1
  have hremove := Tables.takeOut_spec (k := abuf) (h.cnts level i hi hnot) (h.sums level i hi hnot)
    hx (fun v => abs_le_of_mem_slots) (slots_length_le h hi)
  obtain ⟨c, hc⟩ : ∃ c, c = Tally.count ((slots info t level i).set abuf none) := ⟨_, rfl⟩
  obtain ⟨s, hs⟩ : ∃ s, s = Tally.total ((slots info t level i).set abuf none) := ⟨_, rfl⟩
  have hcnts : ((w t).setTally level i c s).cnts level i = c := by
    change Function.update (w t).cnts level _ level i = c
    rw [update_update_apply, if_pos ⟨rfl, rfl⟩]
  have hsums : ((w t).setTally level i c s).sums level i = s := by
    change Function.update (w t).sums level _ level i = s
    rw [update_update_apply, if_pos ⟨rfl, rfl⟩]
  have hinsert := @Tables.putIn_spec level i abuf _ _ (slots info (w t) level i)
    (hcnts.trans hc) (hsums.trans hs) (by rw [List.getElem?_set_self hlt]) y
    (by rw [hy, List.set_set]) (fun v => abs_le_of_mem_slots)
    (by rw [hy, List.length_set]; exact slots_length_le h hi)
  rw [hremove, Option.bind_some, ← hc, ← hs, hwrite, hinsert, Tables.setTally_setTally]

theorem updateValue_single (ivt : ℕ → Word) (h : Exact info vtLen t) (hp : Paired info vtLen)
    (hi : i < vtLen)
    (hinfo : info i = .single) (habuf : abuf < level.size) :
    ∃ t', updateValue info level ivt abuf i t = some t' ∧ Updated info vtLen level i t t' := by
  have hlt : abuf < (t.ring level i).length := by rw [h.length level i hi]; exact habuf
  have hnot : ∀ m, info i ≠ .lsw m := by
    intro m
    rw [hinfo]
    exact ParamInfo.noConfusion
  obtain ⟨old, hold⟩ : ∃ old, (t.ring level i)[abuf]? = some old :=
    ⟨_, List.getElem?_eq_getElem hlt⟩
  have hslots : slots info t level i = (t.ring level i).map slot := by rw [slots, hinfo]
  have hy : slots info (t.setRing level i abuf (ivt i)) level i =
      (slots info t level i).set abuf (slot (ivt i)) := by
    rw [hslots, slots, hinfo, ← List.map_set]
    dsimp only
    rw [setRing_ring, if_pos ⟨rfl, rfl⟩]
  have hspec := exchange_spec h hi hnot (x := slot old)
    (w := fun t => t.setRing level i abuf (ivt i))
    (by rw [hslots, List.getElem?_map, hold]; rfl) hy (fun _ _ => rfl)
  refine ⟨_, ?_, updated_of_rings (length_setRing level i abuf (ivt i) t) ?_ rfl rfl⟩
  · rw [← hspec, updateValue, hinfo, hold, slot, slot]
    dsimp only [Option.bind_eq_bind, Option.bind_some]
    by_cases hold' : old = noData <;> by_cases hnew : ivt i = noData <;>
      simp only [ne_eq, hold', hnew, not_true_eq_false, not_false_eq_true, if_true, if_false] <;> rfl
  · intro l j hj hne hlsw
    have hring : ∀ o, ¬ (l = level ∧ o = i) →
        (t.setRing level i abuf (ivt i)).ring l o = t.ring l o := by
      intro o ho
      rw [setRing_ring, if_neg ho]
    apply slots_congr (hring j hne)
    intro o ho
    apply hring
    rintro ⟨-, rfl⟩
    rw [(hp.msw j hj o ho).2] at hinfo
    exact ParamInfo.noConfusion hinfo

theorem updateValue_msw (ivt : ℕ → Word) (h : Exact info vtLen t) (hp : Paired info vtLen)
    (hi : i < vtLen)
    {other : ℕ} (hinfo : info i = .msw other) (habuf : abuf < level.size) :
    ∃ t', updateValue info level ivt abuf i t = some t' ∧ Updated info vtLen level i t t' := by
  obtain ⟨ho, hinfo'⟩ := hp.msw i hi other hinfo
  have hlt : abuf < (t.ring level i).length := by rw [h.length level i hi]; exact habuf
  have hlt' : abuf < (t.ring level other).length := by rw [h.length level other ho]; exact habuf
  have hnot : ∀ m, info i ≠ .lsw m := by
    intro m
    rw [hinfo]
    exact ParamInfo.noConfusion
  have hio : i ≠ other := by
    rintro rfl
    exact hnot i hinfo'
  obtain ⟨pmsw, hmsw⟩ : ∃ v, (t.ring level i)[abuf]? = some v := ⟨_, List.getElem?_eq_getElem hlt⟩
  obtain ⟨plsw, hlsw⟩ : ∃ v, (t.ring level other)[abuf]? = some v :=
    ⟨_, List.getElem?_eq_getElem hlt'⟩
  have hslots : ∀ t, slots info t level i =
      List.zipWith slot2 (t.ring level i) (t.ring level other) := by
    intro t
    rw [slots, hinfo]
  -- `w` writes both words; the rings of other parameters are left alone by it
  obtain ⟨w, hw⟩ : ∃ w : Tables → Tables, w = fun t =>
    (t.setRing level i abuf (ivt i)).setRing level other abuf (ivt other) := ⟨_, rfl⟩
  have hring : ∀ l o, ¬ (l = level ∧ (o = i ∨ o = other)) → (w t).ring l o = t.ring l o := by
    intro l o hne
    rw [hw]
    dsimp only
    rw [setRing_ring, if_neg (fun hl => hne ⟨hl.1, Or.inr hl.2⟩), setRing_ring,
      if_neg (fun hl => hne ⟨hl.1, Or.inl hl.2⟩)]
  have hringi : (w t).ring level i = (t.ring level i).set abuf (ivt i) := by
    rw [hw]
    dsimp only
    rw [setRing_ring, if_neg (fun hl => hio hl.2), setRing_ring, if_pos ⟨rfl, rfl⟩]
  have hringo : (w t).ring level other = (t.ring level other).set abuf (ivt other) := by
    rw [hw]
    dsimp only
    rw [setRing_ring, if_pos ⟨rfl, rfl⟩, setRing_ring, if_neg (fun hl => hio hl.2.symm)]
  have hy : slots info (w t) level i =
      (slots info t level i).set abuf (slot2 (ivt i) (ivt other)) := by
    rw [hslots, hslots, hringi, hringo, zipWith_set]
  have hspec := exchange_spec h hi hnot (x := slot2 pmsw plsw) (w := w)
    (by rw [hslots, List.getElem?_zipWith, hmsw, hlsw]) hy (fun c s => by rw [hw]; rfl)
  refine ⟨_, ?_, @updated_of_rings _ _ _ _ _ (w t) ?_ ?_ (by rw [hw]; rfl) (by rw [hw]; rfl)⟩
  · rw [← hspec, updateValue, hinfo, hmsw, slot2, slot2, hw]
    dsimp only [Option.bind_eq_bind, Option.bind_some]
    rw [hlsw]
    dsimp only [Option.bind_eq_bind, Option.bind_some]
    -- whether the old and the new number are missing decides what is counted and summed
    by_cases hold : pmsw = noData <;> by_cases hnew : ivt i = noData <;>
      simp only [ne_eq, hold, hnew, not_true_eq_false, not_false_eq_true, if_true, if_false] <;> rfl
  · intro l j
    rw [hw]
    dsimp only
    rw [length_setRing, length_setRing]
  -- another parameter shares no word with this pair
  · intro l j hj hne hnlsw
    apply slots_congr
    · apply hring
      rintro ⟨rfl, rfl | rfl⟩
      · exact hne ⟨rfl, rfl⟩
      · exact hnlsw i hinfo'
    · intro o hjo
      have hinfoo := (hp.msw j hj o hjo).2
      apply hring
      rintro ⟨rfl, rfl | rfl⟩
      · exact hnot j hinfoo
      · rw [hinfo', ParamInfo.lsw.injEq] at hinfoo
        exact hne ⟨rfl, hinfoo.symm⟩

theorem updateValue_exact (ivt : ℕ → Word) (h : Exact info vtLen t) (hp : Paired info vtLen)
    (hi : i < vtLen)
    (habuf : abuf < level.size) :
    ∃ t', updateValue info level ivt abuf i t = some t' ∧ Exact info vtLen t' := by
  have hexact : ∀ t', Updated info vtLen level i t t' → Exact info vtLen t' := by
    intro t' hu
    refine ⟨fun l j hj => (hu.length l j).trans (h.length l j hj), fun l j hj hlsw => ?_,
      fun l j hj hlsw => ?_⟩
    · by_cases heq : l = level ∧ j = i
      · obtain ⟨rfl, rfl⟩ := heq
        exact hu.cnts
      · rw [(hu.frame l j heq).1, hu.slots l j hj heq hlsw]
        exact h.cnts l j hj hlsw
    · by_cases heq : l = level ∧ j = i
      · obtain ⟨rfl, rfl⟩ := heq
        exact hu.sums
      · rw [(hu.frame l j heq).2, hu.slots l j hj heq hlsw]
        exact h.sums l j hj hlsw
  cases hinfo : info i with
  | single =>
    obtain ⟨t', ht', hu⟩ := updateValue_single ivt h hp hi hinfo habuf
    exact ⟨t', ht', hexact t' hu⟩
  | msw other =>
    obtain ⟨t', ht', hu⟩ := updateValue_msw ivt h hp hi hinfo habuf
    exact ⟨t', ht', hexact t' hu⟩
  | lsw m =>
    refine ⟨t, ?_, h⟩
    rw [updateValue, hinfo]

/-! ## Passes -/

theorem updateValues_exact (h : Exact info vtLen t) (hp : Paired info vtLen) (ivt : ℕ → Word)
    (habuf : abuf < level.size) :
    ∃ t', updateValues info vtLen level ivt abuf t = some t' ∧ Exact info vtLen t' := by
  have hloop : ∀ is : List ℕ, (∀ i ∈ is, i < vtLen) → ∀ t, Exact info vtLen t →
      ∃ t', is.foldlM (fun t i => updateValue info level ivt abuf i t) t = some t' ∧
        Exact info vtLen t' := by
    intro is
    induction is with
    | nil => exact fun _ t ht => ⟨t, rfl, ht⟩
    | cons i is ih =>
      intro his t ht
      obtain ⟨t1, h1, hexact⟩ := updateValue_exact ivt ht hp (his i List.mem_cons_self)
        habuf
      obtain ⟨t2, h2, hexact'⟩ := ih (fun j hj => his j (List.mem_cons_of_mem _ hj)) t1 hexact
      refine ⟨t2, ?_, hexact'⟩
      rw [List.foldlM_cons, h1]
      exact h2
  exact hloop (List.range vtLen) (fun i hi => List.mem_range.mp hi) t h

end Update

theorem mainLoop_exact {info : ℕ → ParamInfo} {vtLen : ℕ} {s : State}
    (h : Exact info vtLen s.tables) (hp : Paired info vtLen) (time : LocalTime)
    (probe : ℕ → Word) :
    ∃ s', mainLoop info vtLen time probe s = some s' ∧ Exact info vtLen s'.tables := by
  have hsec := time.tmSec_lt
  have hmin := time.tmMin_lt
  obtain ⟨t1, h1, hexact1⟩ := @updateValues_exact _ _ .probe (time.tmSec / 10) _ h hp
    probe (by change _ < 6; omega)
  obtain ⟨t2, h2, hexact2⟩ := @updateValues_exact _ _ .minute (time.tmMin % 10) _
    hexact1 hp (calculateAverages info vtLen t1 .probe s.minute) (by change _ < 10; omega)
  obtain ⟨t3, h3, hexact3⟩ := @updateValues_exact _ _ .min10 (time.tmMin / 10) _
    hexact2 hp (calculateAverages info vtLen t2 .minute s.min10) (by change _ < 6; omega)
  rw [mainLoop, h1]
  dsimp only [Option.bind_eq_bind, Option.bind_some]
  rw [h2]
  dsimp only [Option.bind_eq_bind, Option.bind_some]
  by_cases hchange : s.lastMin ≠ time.tmMin ∨ s.firstTime = true
  · rw [if_pos hchange, h3]
    dsimp only [Option.bind_eq_bind, Option.bind_some]
    split_ifs
    · exact ⟨_, rfl, hexact3⟩
    · exact ⟨_, rfl, hexact3⟩
  · rw [if_neg hchange]
    split_ifs
    · exact ⟨_, rfl, hexact2⟩
    · exact ⟨_, rfl, hexact2⟩

theorem allocProbesMemory_exact (info : ℕ → ParamInfo) (vtLen : ℕ) :
    Exact info vtLen allocProbesMemory := by
  have hslot : slot noData = none := by decide
  have hslot2 : slot2 noData noData = none := by decide
  have hslots : ∀ level i, (∀ m, info i ≠ .lsw m) →
      slots info allocProbesMemory level i = List.replicate level.size none := by
    intro level i hlsw
    unfold slots allocProbesMemory
    split
    · rw [List.map_replicate, hslot]
    · rw [List.zipWith_replicate, Nat.min_self, hslot2]
    · rename_i m hm
      exact absurd hm (hlsw m)
  refine ⟨fun level i _ => List.length_replicate, fun level i _ hlsw => ?_,
    fun level i _ hlsw => ?_⟩
  · rw [hslots level i hlsw, Tally.count_replicate_none]
    rfl
  · rw [hslots level i hlsw, Tally.total_replicate_none]
    rfl

def run (info : ℕ → ParamInfo) (vtLen : ℕ) (s : State) (passes : List (LocalTime × (ℕ → Word))) :
    Option State :=
  passes.foldlM (fun s p => mainLoop info vtLen p.1 p.2 s) s

/-- However many passes there are and whenever they happen: no count wraps around, no sum
overflows, and counts and sums are those of the rings. -/
theorem run_exact (info : ℕ → ParamInfo) (vtLen : ℕ) (hp : Paired info vtLen) (s : State)
    (hs : s.tables = allocProbesMemory) (passes : List (LocalTime × (ℕ → Word))) :
    ∃ s', run info vtLen s passes = some s' ∧ Exact info vtLen s'.tables ∧
      ∀ level, ∀ i < vtLen, (∀ m, info i ≠ .lsw m) → s'.tables.cnts level i ≤ level.size := by
  have hloop : ∀ s, Exact info vtLen s.tables → ∃ s', run info vtLen s passes = some s' ∧
      Exact info vtLen s'.tables := by
    induction passes with
    | nil => exact fun s hs => ⟨s, rfl, hs⟩
    | cons p passes ih =>
      intro s hs
      obtain ⟨s1, h1, hexact⟩ := mainLoop_exact hs hp p.1 p.2
      obtain ⟨s2, h2, hexact'⟩ := ih s1 hexact
      refine ⟨s2, ?_, hexact'⟩
      rw [run, List.foldlM_cons, h1]
      exact h2
  obtain ⟨s', hs', hexact⟩ := hloop s (by rw [hs]; exact allocProbesMemory_exact info vtLen)
  refine ⟨s', hs', hexact, fun level i hi hlsw => ?_⟩
  have hcount := Tally.count_le_length (slots info s'.tables level i)
  rw [← hexact.cnts level i hi hlsw] at hcount
  apply hcount.trans
  unfold slots
  split
  · rw [List.length_map, hexact.length level i hi]
  · rw [List.length_zipWith, hexact.length level i hi]
    exact Nat.min_le_left _ _
  · exact Nat.zero_le _

/-- Parameters 0 and 1 are the words of a combined parameter, and parameter 2 is alone. -/
def pairInfo : ℕ → ParamInfo
  | 0 => .msw 1
  | 1 => .lsw 0
  | _ => .single

theorem paired_pairInfo : Paired pairInfo 3 := by
  constructor
  · intro i hi l hl
    interval_cases i <;> simp_all [pairInfo]
    subst hl
    exact ⟨by decide, rfl⟩
  · intro i hi m hm
    interval_cases i <;> simp_all [pairInfo]
    subst hm
    exact ⟨by decide, rfl⟩

/-- After one pass the sum of the pair is the number of its words. -/
theorem run_exact_one_pass :
    ∃ s', run pairInfo 3 ⟨allocProbesMemory, fun _ => 0, fun _ => 0, fun _ => 0, true, 0, 0⟩
        [(⟨30, 5, by decide, by decide⟩, fun i => if i = 2 then noData else 1)] = some s' ∧
      s'.tables.cnts .probe 0 = Tally.count (slots pairInfo s'.tables .probe 0) ∧
      s'.tables.sums .probe 0 = Tally.total (slots pairInfo s'.tables .probe 0) := by
  obtain ⟨s', hs', hexact, -⟩ := run_exact pairInfo 3 paired_pairInfo
    ⟨allocProbesMemory, fun _ => 0, fun _ => 0, fun _ => 0, true, 0, 0⟩ rfl
    [(⟨30, 5, by decide, by decide⟩, fun i => if i = 2 then noData else 1)]
  have hnot : ∀ m, pairInfo 0 ≠ .lsw m := fun m => ParamInfo.noConfusion
  exact ⟨s', hs', hexact.cnts .probe 0 (by decide) hnot, hexact.sums .probe 0 (by decide) hnot⟩

end Parcook
end Szarp
