import Szarp.Meaner.SaveParam
import Szarp.Szbase.CombinedDatablock

/-!
# The cache of the writer

`szbwriter_cache.cc`: values of a parameter are collected while their times follow each other, and
are written to the mapped file of the month together.
-/

namespace Szarp
namespace Meaner
open Szbase

/-! ## Names of files -/

/-- One character of `wchar2szb`; `pc` is the character written before. -/
def szbChar (pc c : Char) : Char :=
  if c = ':' then if pc = '/' then '_' else '/'
  else if c.isAlphanum then c
  else
    match c with
    | 'Ą' => 'A' | 'ą' => 'a' | 'Ć' => 'C' | 'ć' => 'c' | 'Ę' => 'E' | 'ę' => 'e'
    | 'Ł' => 'L' | 'ł' => 'l' | 'Ń' => 'N' | 'ń' => 'n' | 'Ó' => 'O' | 'ó' => 'o'
    | 'Ś' => 'S' | 'ś' => 's' | 'Ź' => 'Z' | 'ź' => 'z' | 'Ż' => 'Z' | 'ż' => 'z'
    | _ => '_'

def wchar2szbFrom (pc : Char) : List Char → List Char
  | [] => []
  | c :: cs => szbChar pc c :: wchar2szbFrom (szbChar pc c) cs

def wchar2szb (name : List Char) : List Char := wchar2szbFrom '/' name

/-! ## The cache -/

structure Key where
  name : List Char
  isDouble : Bool
  year : ℤ
  month : ℕ
deriving DecidableEq

/-- A value; `D` is the type `double`. -/
structure Value (D : Type) where
  probe : D
  time : ℤ

/-- `Values`: the part of the array that is in use, with the time of its first value. -/
structure Values (D : Type) where
  probes : List D
  time : ℤ
  maxLength : ℕ

def szbMoveTime (t : ℤ) (count : ℕ) (customLength : ℤ) : ℤ :=
  if t ≤ 0 then -1 else if customLength ≤ 0 then -1 else t + customLength * count

def Values.add {D : Type} (t : ℤ) (v : D) (probeLength : ℤ) (vs : Values D) : Bool × Values D :=
  let vs := if vs.probes.length = 0 then { vs with time := t } else vs
  if vs.probes.length ≥ vs.maxLength then (false, vs)
  else
    let currTime := szbMoveTime vs.time vs.probes.length probeLength
    if t > currTime then (false, vs)
    else if t < currTime then (false, vs)
    else (true, { vs with probes := vs.probes ++ [v] })

/-- A pointer to a `TMMapParam`, which maps a file. -/
inductive Ptr where
  | null
  | live (path : List Char)
  | dangling
deriving DecidableEq

/-- `delete`; `none`: what the pointer points to was deleted before. -/
def Ptr.delete : Ptr → Option Ptr
  | null => some null
  | live _ => some dangling
  | dangling => none

/-- The cache, and the pieces that were written to the files. -/
structure ProbeCache (D : Type) where
  values : Values D
  lastKey : Option Key
  param : Ptr
  lsw : Ptr
  msw : Ptr
  writes : List Char → List (ℕ × List Word)

/-- What the cache is made with: the number of decimal places of every parameter of the
configuration, `rint(prec * v)` in floating point for a number of decimal places, and the length
of the probes. -/
structure Setup (D : Type) where
  prec : List Char → Option ℕ
  rint : ℕ → D → ℤ
  probeLength : ℤ

namespace ProbeCache

variable {D : Type} (e : Setup D)

/-- The constructor of `TMMapParam` for a parameter; `none`: there is no such parameter, or its file
cannot be opened. -/
def openMap (name : List Char) (k : Key) : Option Ptr := do
  let _ ← e.prec name
  let path := SaveParam.monthFile (wchar2szb name) e.probeLength (k.year, k.month)
  if path = [] then none else some (.live path)

/-- `TMMapParam::write`; `none`: an assertion fails, or there is no mapped file. -/
def mapWrite (p : Ptr) (t : ℤ) (probes : List Word) (c : ProbeCache D) : Option (ProbeCache D) :=
  match p with
  | .live path =>
    let index := szbProbeind t e.probeLength
    if 0 ≤ index ∧ index + probes.length ≤ 31 * 24 * (3600 / e.probeLength) then
      some { c with
        writes := Function.update c.writes path (c.writes path ++ [(index.toNat, probes)]) }
    else none
  | _ => none

/-- Conversions of a `double`; undefined when the number does not fit. -/
def toShort (r : ℤ) : Option Word :=
  if -2 ^ 15 ≤ r ∧ r < 2 ^ 15 then some (BitVec.ofInt 16 r) else none

def toInt (r : ℤ) : Option (BitVec 32) :=
  if -2 ^ 31 ≤ r ∧ r < 2 ^ 31 then some (BitVec.ofInt 32 r) else none

def flush (c : ProbeCache D) : Option (ProbeCache D) :=
  if c.values.probes = [] then some c
  else do
    let k ← c.lastKey
    let prec ← e.prec k.name
    let c ← if k.isDouble then do
        let vs ← c.values.probes.mapM fun v => toInt (e.rint prec v)
        let c ← mapWrite e c.lsw c.values.time (vs.map (BitVec.extractLsb' 0 16)) c
        mapWrite e c.msw c.values.time (vs.map (BitVec.extractLsb' 16 16)) c
      else do
        let sp ← c.values.probes.mapM fun v => toShort (e.rint prec v)
        mapWrite e c.param c.values.time sp c
    some { c with values := { c.values with probes := [] } }

def deleteOld (c : ProbeCache D) : Option (ProbeCache D) :=
  match c.lastKey with
  | none => some c
  | some k =>
    if k.isDouble then do
      let msw ← c.msw.delete
      let lsw ← c.lsw.delete
      some { c with msw := msw, lsw := lsw }
    else do
      let param ← c.param.delete
      some { c with param := param }

def createNew (k : Key) (c : ProbeCache D) : Option (ProbeCache D) :=
  if k.isDouble then do
    let msw ← openMap e (k.name ++ " msw".toList) k
    let lsw ← openMap e (k.name ++ " lsw".toList) k
    some { c with msw := msw, lsw := lsw, lastKey := some k }
  else do
    let param ← openMap e k.name k
    some { c with param := param, lastKey := some k }

/-- `while( !m_values.add( … ) ) flush()`, with a bound on the number of passes. -/
def addLoop (v : Value D) : ℕ → ProbeCache D → Option (ProbeCache D)
  | 0, _ => none
  | n + 1, c =>
    let (done, values) := c.values.add v.time v.probe e.probeLength
    let c := { c with values := values }
    if done then some c else (flush e c).bind (addLoop v n)

def add (passes : ℕ) (c : ProbeCache D) (k : Key) (v : Value D) : Option (ProbeCache D) := do
  let c ← if c.lastKey = some k then some c
    else do
      let c ← flush e c
      let c ← deleteOld c
      createNew e k c
  addLoop e v passes c

def destroy (c : ProbeCache D) : Option (ProbeCache D) := do
  let c ← flush e c
  let param ← c.param.delete
  let lsw ← c.lsw.delete
  let msw ← c.msw.delete
  some { c with param := param, lsw := lsw, msw := msw }

def new (maxProbes : ℕ) : ProbeCache D :=
  ⟨⟨[], 0, maxProbes⟩, none, .null, .null, .null, fun _ => []⟩

def run (passes maxProbes : ℕ) (adds : List (Key × Value D)) : Option (ProbeCache D) :=
  (adds.foldlM (fun c a => add e passes c a.1 a.2) (new maxProbes)).bind (destroy e)

end ProbeCache

/-! ## Names and times -/

theorem wchar2szbFrom_append_space (pc : Char) (name rest : List Char) :
    wchar2szbFrom pc (name ++ ' ' :: rest) =
      wchar2szbFrom pc name ++ '_' :: wchar2szbFrom '_' rest := by
  induction name generalizing pc with
  | nil => rfl
  | cons c cs ih => rw [List.cons_append, wchar2szbFrom, ih, wchar2szbFrom, List.cons_append]

theorem wchar2szb_msw (name : List Char) :
    wchar2szb (name ++ " msw".toList) = wchar2szb name ++ "_msw".toList := by
  change wchar2szbFrom '/' (name ++ ' ' :: ['m', 's', 'w']) = _
  rw [wchar2szbFrom_append_space]
  rfl

theorem wchar2szb_lsw (name : List Char) :
    wchar2szb (name ++ " lsw".toList) = wchar2szb name ++ "_lsw".toList := by
  change wchar2szbFrom '/' (name ++ ' ' :: ['l', 's', 'w']) = _
  rw [wchar2szbFrom_append_space]
  rfl

theorem szbProbeind_eq_div (t probeLength : ℤ) :
    szbProbeind t probeLength =
      (t - monthStart (szbTime2my t).1 (szbTime2my t).2) / probeLength := by
  obtain ⟨-, -, h3, h4, h5, h6, -⟩ := Gregorian.gmtime_fields t
  have h31 : (Gregorian.gmtime t).tmMday ≤ 31 := h4.trans (Gregorian.monthLength_pos _ _).2
  have hday : (Gregorian.gmtime t).tmMday = (dateOf t).2.2 := rfl
  have hstart := monthStart_add t
  have hsec : (Gregorian.gmtime t).tmHour * 3600 + (Gregorian.gmtime t).tmMin * 60 +
      (Gregorian.gmtime t).tmSec = t % 86400 := by
    simp only [Gregorian.gmtime]
    omega
  rw [hday] at h3 h31
  rw [szbTime2my_eq]
  simp only [szbProbeind, hday, daySec_getD h3 h31, hourSec_getD h5 h6]
  congr 1
  omega

def ProbeLength (n : ℤ) : Prop := n = 10 ∨ n = 600

theorem monthStart_emod {n : ℤ} (h : ProbeLength n) (year : ℤ) (month : ℕ) :
    monthStart year month % n = 0 := by
  unfold monthStart
  rcases h with rfl | rfl <;> omega

theorem szbProbeind_add {t n : ℤ} (hn : ProbeLength n) {j : ℤ}
    (h : szbTime2my (t + n * j) = szbTime2my t) :
    szbProbeind (t + n * j) n = szbProbeind t n + j := by
  have hpos : n ≠ 0 := by rcases hn with rfl | rfl <;> decide
  rw [szbProbeind_eq_div, szbProbeind_eq_div, h, ← Int.add_mul_ediv_left _ _ hpos]
  congr 1
  ring

/-- Times at which probes start are told apart by month and index. -/
theorem szbProbeind_inj {t t' n : ℤ} (hn : ProbeLength n) (ht : t % n = 0) (ht' : t' % n = 0)
    (hmy : szbTime2my t = szbTime2my t') (h : szbProbeind t n = szbProbeind t' n) : t = t' := by
  rw [szbProbeind_eq_div, szbProbeind_eq_div, hmy] at h
  have hstart := monthStart_emod hn (szbTime2my t').1 (szbTime2my t').2
  rcases hn with rfl | rfl <;> omega

/-- An index is inside the mapped file. -/
theorem szbProbeind_lt (t : ℤ) {n : ℤ} (hn : ProbeLength n) :
    szbProbeind t n + 1 ≤ 31 * 24 * (3600 / n) := by
  have h4 := (Gregorian.gmtime_fields t).2.2.2.1.trans (Gregorian.monthLength_pos _ _).2
  have hday : (Gregorian.gmtime t).tmMday = (dateOf t).2.2 := rfl
  have hstart := monthStart_add t
  rw [hday] at h4
  rw [szbProbeind_eq_div, szbTime2my_eq]
  dsimp only
  rcases hn with rfl | rfl <;> omega

/-! ## Collecting values -/

namespace Values

variable {D : Type} {vs : Values D} {t probeLength : ℤ}

theorem add_nil (v : D) (hlen : 0 < probeLength) (h : vs.probes = []) (hmax : 1 ≤ vs.maxLength)
    (ht : 0 < t) : vs.add t v probeLength = (true, { vs with time := t, probes := [v] }) := by
  obtain ⟨probes, time, maxLength⟩ := vs
  obtain rfl : probes = [] := h
  dsimp only at hmax
  simp only [add, List.length_nil, if_true, ge_iff_le, szbMoveTime, if_neg (not_le.mpr ht),
    if_neg (not_le.mpr hlen), Nat.cast_zero, mul_zero, add_zero, gt_iff_lt, lt_irrefl, if_false,
    List.nil_append]
  rw [if_neg (by omega)]

theorem add_next (v : D) (hlen : 0 < probeLength) (h : vs.probes ≠ []) (htime : 0 < vs.time)
    (hroom : vs.probes.length < vs.maxLength) (ht : t = vs.time + probeLength * vs.probes.length) :
    vs.add t v probeLength = (true, { vs with probes := vs.probes ++ [v] }) := by
  have hne : ¬ vs.probes.length = 0 := fun h0 => h (List.length_eq_zero_iff.mp h0)
  simp only [add, if_neg hne, if_neg (not_le.mpr hroom), szbMoveTime, if_neg (not_le.mpr htime),
    if_neg (not_le.mpr hlen), ← ht, gt_iff_lt, lt_irrefl, if_false]

theorem add_other (v : D) (hlen : 0 < probeLength) (h : vs.probes ≠ []) (htime : 0 < vs.time)
    (hnext : ¬ (vs.probes.length < vs.maxLength ∧ t = vs.time + probeLength * vs.probes.length)) :
    vs.add t v probeLength = (false, vs) := by
  have hne : ¬ vs.probes.length = 0 := fun h0 => h (List.length_eq_zero_iff.mp h0)
  simp only [add, if_neg hne, szbMoveTime, if_neg (not_le.mpr htime), if_neg (not_le.mpr hlen)]
  split_ifs with h1 h2 h3
  · rfl
  · rfl
  · rfl
  · exact absurd ⟨by omega, by omega⟩ hnext

end Values

/-! ## Samples -/

namespace ProbeCache

section Samples

variable {D : Type} (e : Setup D)

def rounded (k : Key) (v : D) : ℤ := e.rint ((e.prec k.name).getD 0) v

def fileOf (name : List Char) (k : Key) : List Char :=
  SaveParam.monthFile (wchar2szb name) e.probeLength (k.year, k.month)

def wordOf (k : Key) (path : List Char) : Option (D → Word) :=
  if k.isDouble then
    if path = fileOf e (k.name ++ " msw".toList) k then
      some fun v => (BitVec.ofInt 32 (rounded e k v)).extractLsb' 16 16
    else if path = fileOf e (k.name ++ " lsw".toList) k then
      some fun v => (BitVec.ofInt 32 (rounded e k v)).extractLsb' 0 16
    else none
  else if path = fileOf e k.name k then some fun v => BitVec.ofInt 16 (rounded e k v)
  else none

def pieceOf (path : List Char) (a : Key × Value D) : List (ℕ × List Word) :=
  match wordOf e a.1 path with
  | none => []
  | some word => [((szbProbeind a.2.time e.probeLength).toNat, [word a.2.probe])]

/-- The values in the cache, as they will be written to a file. -/
def pending (path : List Char) (c : ProbeCache D) : List (ℕ × List Word) :=
  if c.values.probes = [] then []
  else
    match c.lastKey.bind (wordOf e · path) with
    | none => []
    | some word =>
      [((szbProbeind c.values.time e.probeLength).toNat, c.values.probes.map word)]

/-- The key is one of a parameter in the configuration, for a month of the data base. -/
structure Known (k : Key) : Prop where
  name : k.name ≠ []
  month : ValidMonth k.year k.month
  param : e.prec k.name ≠ none
  words : k.isDouble = true →
    e.prec (k.name ++ " msw".toList) ≠ none ∧ e.prec (k.name ++ " lsw".toList) ≠ none

def Converts (k : Key) (v : D) : Prop :=
  if k.isDouble then -2 ^ 31 ≤ rounded e k v ∧ rounded e k v < 2 ^ 31
  else -2 ^ 15 ≤ rounded e k v ∧ rounded e k v < 2 ^ 15

end Samples

/-! ## Writing the values -/

section Flush

variable {D : Type} {e : Setup D}

/-- The values in the cache belong to a month of a key. -/
structure Buffered (e : Setup D) (k : Key) (vs : Values D) : Prop where
  time : 0 < vs.time
  month : szbTime2my vs.time = (k.year, k.month)
  fits : szbProbeind vs.time e.probeLength + vs.probes.length ≤ 31 * 24 * (3600 / e.probeLength)
  converts : ∀ v ∈ vs.probes, Converts e k v

/-- Which files are mapped; a key of the other kind never came. -/
structure Mapped (e : Setup D) (double : Bool) (c : ProbeCache D) : Prop where
  fresh : c.lastKey = none →
    c.param = .null ∧ c.lsw = .null ∧ c.msw = .null ∧ c.values.probes = []
  single : ∀ k, c.lastKey = some k → double = false →
    c.param = .live (fileOf e k.name k) ∧ c.lsw = .null ∧ c.msw = .null
  pair : ∀ k, c.lastKey = some k → double = true →
    c.param = .null ∧ c.lsw = .live (fileOf e (k.name ++ " lsw".toList) k) ∧
      c.msw = .live (fileOf e (k.name ++ " msw".toList) k)
  known : ∀ k, c.lastKey = some k → Known e k ∧ k.isDouble = double

theorem wchar2szb_ne_nil {name : List Char} (h : name ≠ []) : wchar2szb name ≠ [] := by
  cases name with
  | nil => exact absurd rfl h
  | cons c cs => simp [wchar2szb, wchar2szbFrom]

theorem fileOf_ne_nil {k : Key} (h : ValidMonth k.year k.month) {name : List Char}
    (hname : name ≠ []) : fileOf e name k ≠ [] :=
  szbCreatefilenameNe_ne_nil.mpr ⟨wchar2szb_ne_nil hname, h⟩

/-- The two words of a value are in different files. -/
theorem msw_ne_lsw {k : Key} (h : Known e k) :
    fileOf e (k.name ++ " msw".toList) k ≠ fileOf e (k.name ++ " lsw".toList) k := by
  intro heq
  have hname := (SaveParam.monthFile_inj (fileOf_ne_nil h.month (by simp)) heq).1
  rw [wchar2szb_msw, wchar2szb_lsw, List.append_cancel_left_eq] at hname
  exact absurd hname (by decide)

theorem mapM_some_of_forall {α β : Type} {f : α → Option β} {g : α → β} {xs : List α}
    (h : ∀ x ∈ xs, f x = some (g x)) : xs.mapM f = some (xs.map g) := by
  induction xs with
  | nil => rfl
  | cons x xs ih =>
    rw [List.mapM_cons, h x List.mem_cons_self, ih fun y hy => h y (List.mem_cons_of_mem x hy)]
    rfl

theorem mapWrite_live {k : Key} {vs : Values D} (hn : ProbeLength e.probeLength)
    (h : Buffered e k vs) (path : List Char) (c : ProbeCache D) {probes : List Word}
    (hlen : probes.length = vs.probes.length) :
    mapWrite e (.live path) vs.time probes c = some { c with
      writes := Function.update c.writes path
        (c.writes path ++ [((szbProbeind vs.time e.probeLength).toNat, probes)]) } := by
  have hnonneg := szbProbeind_nonneg vs.time (show 0 < e.probeLength by
    rcases hn with hn | hn <;> rw [hn] <;> decide)
  have hfits := h.fits
  simp only [mapWrite]
  rw [if_pos ⟨hnonneg, by rw [hlen]; exact hfits⟩]

/-- All values that are in the cache are written. -/
theorem flush_spec (hn : ProbeLength e.probeLength) {double : Bool} {c : ProbeCache D}
    (hm : Mapped e double c)
    (hb : ∀ k, c.lastKey = some k → c.values.probes ≠ [] → Buffered e k c.values) :
    flush e c = some { c with
      values := { c.values with probes := [] }
      writes := fun path => c.writes path ++ pending e path c } := by
  unfold flush pending
  -- with nothing in the cache no file is looked at
  by_cases hnil : c.values.probes = []
  · rw [if_pos hnil]
    simp only [if_pos hnil, List.append_nil]
    rw [← hnil]
  rw [if_neg hnil]
  simp only [if_neg hnil]
  obtain ⟨k, hk⟩ : ∃ k, c.lastKey = some k :=
    Option.ne_none_iff_exists'.mp fun hnone => hnil (hm.fresh hnone).2.2.2
  obtain ⟨hknown, hkind⟩ := hm.known k hk
  obtain ⟨prec, hprec⟩ := Option.ne_none_iff_exists'.mp hknown.param
  have hround : ∀ v, e.rint prec v = rounded e k v := by
    intro v
    rw [rounded, hprec, Option.getD_some]
  have hbuf := hb k hk hnil
  rw [hk]
  simp only [Option.bind_eq_bind, Option.bind_some, hprec]
  cases hdouble : double with
  -- one file, with a word for each value
  | false =>
    rw [hdouble] at hkind
    obtain ⟨hparam, hlsw, hmsw⟩ := hm.single k hk hdouble
    have hconv : c.values.probes.mapM (fun v => toShort (e.rint prec v)) =
        some (c.values.probes.map fun v => BitVec.ofInt 16 (rounded e k v)) := by
      apply mapM_some_of_forall
      intro v hv
      have hfit := hbuf.converts v hv
      rw [Converts, hkind, if_neg (by decide)] at hfit
      rw [hround, toShort, if_pos hfit]
    simp only [hkind, Bool.false_eq_true, if_false, hconv, Option.bind_some, hparam, wordOf]
    rw [mapWrite_live hn hbuf _ c (List.length_map _)]
    dsimp only [Option.bind_some]
    congr 2
    funext path
    by_cases hpath : path = fileOf e k.name k
    · rw [hpath, Function.update_self, if_pos rfl]
    · rw [Function.update_of_ne hpath, if_neg hpath, List.append_nil]
  | true =>
    -- two files, of the more and of the less significant words
    rw [hdouble] at hkind
    obtain ⟨hparam, hlsw, hmsw⟩ := hm.pair k hk hdouble
    have hconv : c.values.probes.mapM (fun v => toInt (e.rint prec v)) =
        some (c.values.probes.map fun v => BitVec.ofInt 32 (rounded e k v)) := by
      apply mapM_some_of_forall
      intro v hv
      have hfit := hbuf.converts v hv
      rw [Converts, hkind, if_pos rfl] at hfit
      rw [hround, toInt, if_pos hfit]
    have hne := msw_ne_lsw hknown
    simp only [hkind, if_true, hconv, Option.bind_some, hlsw, wordOf]
    rw [mapWrite_live hn hbuf _ c (by rw [List.length_map, List.length_map])]
    simp only [Option.bind_some, hmsw]
    rw [mapWrite_live hn hbuf _ _ (by rw [List.length_map, List.length_map])]
    dsimp only [Option.bind_some]
    congr 2
    -- the second write is to another file, so the order of the two is of no account
    funext path
    rw [Function.update_of_ne hne]
    by_cases hpath : path = fileOf e (k.name ++ " msw".toList) k
    · rw [hpath, Function.update_self, if_pos rfl, List.map_map]
      rfl
    · rw [Function.update_of_ne hpath, if_neg hpath]
      by_cases hpath' : path = fileOf e (k.name ++ " lsw".toList) k
      · rw [hpath', Function.update_self, if_pos rfl, List.map_map]
        rfl
      · rw [Function.update_of_ne hpath', if_neg hpath', List.append_nil]

/-- What is known of the cache after some values have been added. -/
structure Inv (e : Setup D) (maxProbes : ℕ) (double : Bool) (adds : List (Key × Value D))
    (c : ProbeCache D) : Prop where
  max : c.values.maxLength = maxProbes
  mapped : Mapped e double c
  buffer : ∀ k, c.lastKey = some k → c.values.probes ≠ [] → Buffered e k c.values
  samples : ∀ path i, Overlay.valueAt (c.writes path ++ pending e path c) i =
    Overlay.valueAt (adds.flatMap (pieceOf e path)) i

variable {maxProbes : ℕ} {double : Bool} {adds : List (Key × Value D)} {c : ProbeCache D}

theorem inv_new (e : Setup D) (maxProbes : ℕ) (double : Bool) :
    Inv e maxProbes double [] (new maxProbes) where
  max := rfl
  mapped :=
    { fresh := fun _ => ⟨rfl, rfl, rfl, rfl⟩
      single := fun _ h => nomatch h
      pair := fun _ h => nomatch h
      known := fun _ h => nomatch h }
  buffer := fun _ h => nomatch h
  samples := fun _ _ => rfl

theorem pending_of_nil {c : ProbeCache D} (h : c.values.probes = []) (path : List Char) :
    pending e path c = [] := by rw [pending, if_pos h]

theorem Inv.flush (hn : ProbeLength e.probeLength) (h : Inv e maxProbes double adds c) :
    ∃ c', ProbeCache.flush e c = some c' ∧ Inv e maxProbes double adds c' ∧
      c'.values.probes = [] ∧ c'.lastKey = c.lastKey := by
  refine ⟨_, flush_spec hn h.mapped h.buffer, ⟨h.max, ?_, fun _ _ hne => absurd rfl hne, ?_⟩, rfl,
    rfl⟩
  · obtain ⟨fresh, single, pair, known⟩ := h.mapped
    refine ⟨fun hnone => ?_, single, pair, known⟩
    obtain ⟨h1, h2, h3, -⟩ := fresh hnone
    exact ⟨h1, h2, h3, rfl⟩
  · intro path i
    rw [pending_of_nil rfl, List.append_nil]
    exact h.samples path i

theorem openMap_eq {k : Key} (h : ValidMonth k.year k.month) {name : List Char} (hname : name ≠ [])
    (hprec : e.prec name ≠ none) : openMap e name k = some (.live (fileOf e name k)) := by
  obtain ⟨prec, hsome⟩ := Option.ne_none_iff_exists'.mp hprec
  have hne : fileOf e name k ≠ [] := fileOf_ne_nil h hname
  rw [openMap, hsome]
  dsimp only [Option.bind_eq_bind, Option.bind_some]
  exact if_neg hne

theorem deleteOld_spec (h : Mapped e double c) :
    ∃ c', deleteOld c = some c' ∧ c'.values = c.values ∧ c'.writes = c.writes ∧
      (double = false → c'.lsw = .null ∧ c'.msw = .null) ∧ (double = true → c'.param = .null) := by
  cases hkey : c.lastKey with
  | none =>
    obtain ⟨h1, h2, h3, -⟩ := h.fresh hkey
    exact ⟨c, by rw [deleteOld, hkey], rfl, rfl, fun _ => ⟨h2, h3⟩, fun _ => h1⟩
  | some k =>
    obtain ⟨-, hkind⟩ := h.known k hkey
    cases hdouble : double with
    | false =>
      obtain ⟨h1, h2, h3⟩ := h.single k hkey hdouble
      rw [hdouble] at hkind
      refine ⟨{ c with param := .dangling }, ?_, rfl, rfl, fun _ => ⟨h2, h3⟩, nofun⟩
      rw [deleteOld, hkey]
      dsimp only
      rw [if_neg (by rw [hkind]; decide), h1]
      rfl
    | true =>
      obtain ⟨h1, h2, h3⟩ := h.pair k hkey hdouble
      rw [hdouble] at hkind
      refine ⟨{ c with msw := .dangling, lsw := .dangling }, ?_, rfl, rfl, nofun, fun _ => h1⟩
      rw [deleteOld, hkey]
      dsimp only
      rw [if_pos hkind, h2, h3]
      rfl

theorem createNew_spec {k : Key} (hknown : Known e k) (hkind : k.isDouble = double)
    (hsingle : double = false → c.lsw = .null ∧ c.msw = .null)
    (hpair : double = true → c.param = .null) :
    ∃ c', createNew e k c = some c' ∧ c'.values = c.values ∧ c'.writes = c.writes ∧
      c'.lastKey = some k ∧ Mapped e double c' := by
  cases hdouble : double with
  | false =>
    obtain ⟨h1, h2⟩ := hsingle hdouble
    rw [hdouble] at hkind
    refine ⟨{ c with param := .live (fileOf e k.name k), lastKey := some k }, ?_, rfl, rfl, rfl,
      ⟨nofun, ?_, nofun, ?_⟩⟩
    · rw [createNew, if_neg (by rw [hkind]; decide),
        openMap_eq hknown.month hknown.name hknown.param]
      rfl
    · intro k' hk' _
      rw [← Option.some.inj hk']
      exact ⟨rfl, h1, h2⟩
    · intro k' hk'
      rw [← Option.some.inj hk']
      exact ⟨hknown, hkind⟩
  | true =>
    have h1 := hpair hdouble
    rw [hdouble] at hkind
    obtain ⟨hmsw, hlsw⟩ := hknown.words hkind
    refine ⟨{ c with
      msw := .live (fileOf e (k.name ++ " msw".toList) k)
      lsw := .live (fileOf e (k.name ++ " lsw".toList) k)
      lastKey := some k }, ?_, rfl, rfl, rfl, ⟨nofun, nofun, ?_, ?_⟩⟩
    · rw [createNew, if_pos hkind, openMap_eq hknown.month (by simp) hmsw,
        openMap_eq hknown.month (by simp) hlsw]
      rfl
    · intro k' hk' _
      rw [← Option.some.inj hk']
      exact ⟨h1, rfl, rfl⟩
    · intro k' hk'
      rw [← Option.some.inj hk']
      exact ⟨hknown, hkind⟩

theorem Inv.switch (h : Inv e maxProbes double adds c) (hnil : c.values.probes = []) {k : Key}
    (hknown : Known e k) (hkind : k.isDouble = double) :
    ∃ c', (deleteOld c).bind (createNew e k) = some c' ∧ Inv e maxProbes double adds c' ∧
      c'.values.probes = [] ∧ c'.lastKey = some k := by
  obtain ⟨c1, h1, hv1, hw1, hsingle, hpair⟩ := deleteOld_spec h.mapped
  obtain ⟨c2, h2, hv2, hw2, hk2, hm2⟩ := createNew_spec hknown hkind hsingle hpair
  have hnil2 : c2.values.probes = [] := by rw [hv2, hv1, hnil]
  refine ⟨c2, by rw [h1, Option.bind_some, h2], ⟨?_, hm2, fun _ _ hne => absurd hnil2 hne, ?_⟩,
    hnil2, hk2⟩
  · rw [hv2, hv1, h.max]
  · intro path i
    rw [pending_of_nil hnil2, hw2, hw1, ← h.samples path i, pending_of_nil hnil]

theorem Inv.push (hn : ProbeLength e.probeLength) (h : Inv e maxProbes double adds c) {k : Key}
    (hk : c.lastKey = some k) (hne : c.values.probes ≠ []) {v : Value D}
    (htime : v.time = c.values.time + e.probeLength * c.values.probes.length)
    (hmonth : szbTime2my v.time = (k.year, k.month)) (hconv : Converts e k v.probe) :
    Inv e maxProbes double (adds ++ [(k, v)])
      { c with values := { c.values with probes := c.values.probes ++ [v.probe] } } := by
  have hbuf := h.buffer k hk hne
  have hpos : 0 < e.probeLength := by rcases hn with hn | hn <;> rw [hn] <;> decide
  have hindex : szbProbeind v.time e.probeLength =
      szbProbeind c.values.time e.probeLength + c.values.probes.length := by
    rw [htime]
    apply szbProbeind_add hn
    rw [← htime, hmonth, hbuf.month]
  refine ⟨h.max, ⟨fun hnone => ?_, h.mapped.single, h.mapped.pair, h.mapped.known⟩, ?_, ?_⟩
  · rw [hk] at hnone
    exact nomatch hnone
  · intro k' hk' _
    rw [hk, Option.some.injEq] at hk'
    subst hk'
    refine ⟨hbuf.time, hbuf.month, ?_, ?_⟩
    · have hlt := szbProbeind_lt v.time hn
      rw [hindex] at hlt
      rw [List.length_append, List.length_singleton]
      push_cast
      omega
    · intro w hw
      rcases List.mem_append.mp hw with hw | hw
      · exact hbuf.converts w hw
      · rw [List.mem_singleton.mp hw]
        exact hconv
  · intro path i
    have hnonneg := szbProbeind_nonneg c.values.time hpos
    have hold := h.samples path i
    rw [pending, if_neg hne, hk, Option.bind_some] at hold
    rw [pending, if_neg (by simp)]
    dsimp only
    rw [hk, Option.bind_some, List.flatMap_append, Overlay.valueAt_append, Overlay.valueAt_append,
      ← hold, Overlay.valueAt_append]
    simp only [List.flatMap_cons, List.flatMap_nil, List.append_nil, pieceOf]
    cases wordOf e k path with
    | none => rfl
    | some word =>
      dsimp only
      have hcast : (szbProbeind c.values.time e.probeLength).toNat + c.values.probes.length =
          (szbProbeind c.values.time e.probeLength + c.values.probes.length).toNat := by omega
      rw [hindex, List.map_append, List.map_singleton, Overlay.valueAt_concat, List.length_map,
        hcast, ← Option.or_assoc]
      rfl

theorem Inv.first (hn : ProbeLength e.probeLength) (h : Inv e maxProbes double adds c) {k : Key}
    (hk : c.lastKey = some k) (hnil : c.values.probes = []) {v : Value D} (htime : 0 < v.time)
    (hmonth : szbTime2my v.time = (k.year, k.month)) (hconv : Converts e k v.probe) :
    Inv e maxProbes double (adds ++ [(k, v)])
      { c with values := { c.values with time := v.time, probes := [v.probe] } } := by
  refine ⟨h.max, ⟨fun hnone => ?_, h.mapped.single, h.mapped.pair, h.mapped.known⟩, ?_, ?_⟩
  · rw [hk] at hnone
    exact nomatch hnone
  · intro k' hk' _
    rw [hk, Option.some.injEq] at hk'
    subst hk'
    refine ⟨htime, hmonth, szbProbeind_lt v.time hn, ?_⟩
    intro w hw
    rw [List.mem_singleton.mp hw]
    exact hconv
  · intro path i
    have hold := h.samples path i
    rw [pending_of_nil hnil, List.append_nil] at hold
    rw [pending, if_neg (by simp)]
    dsimp only
    rw [hk, Option.bind_some, List.flatMap_append, Overlay.valueAt_append, Overlay.valueAt_append,
      ← hold]
    simp only [List.flatMap_cons, List.flatMap_nil, List.append_nil, pieceOf]
    cases wordOf e k path <;> rfl

theorem Inv.addLoop (hn : ProbeLength e.probeLength) (hmax : 1 ≤ maxProbes)
    (h : Inv e maxProbes double adds c) {k : Key} (hk : c.lastKey = some k) {v : Value D}
    (htime : 0 < v.time) (hmonth : szbTime2my v.time = (k.year, k.month))
    (hconv : Converts e k v.probe) (passes : ℕ) :
    ∃ c', ProbeCache.addLoop e v (passes + 2) c = some c' ∧
      Inv e maxProbes double (adds ++ [(k, v)]) c' := by
  have hpos : 0 < e.probeLength := by rcases hn with hn | hn <;> rw [hn] <;> decide
  -- an empty cache takes every value
  have hempty : ∀ {c : ProbeCache D} (passes : ℕ), Inv e maxProbes double adds c →
      c.lastKey = some k → c.values.probes = [] →
      ∃ c', ProbeCache.addLoop e v (passes + 1) c = some c' ∧
        Inv e maxProbes double (adds ++ [(k, v)]) c' := by
    intro c passes h hk hnil
    refine ⟨_, ?_, h.first hn hk hnil htime hmonth hconv⟩
    rw [ProbeCache.addLoop, Values.add_nil v.probe hpos hnil (by rw [h.max]; exact hmax) htime]
    rfl
  by_cases hnil : c.values.probes = []
  · exact hempty (passes + 1) h hk hnil
  have hbuf := h.buffer k hk hnil
  by_cases hnext : c.values.probes.length < c.values.maxLength ∧
      v.time = c.values.time + e.probeLength * c.values.probes.length
  · refine ⟨_, ?_, h.push hn hk hnil hnext.2 hmonth hconv⟩
    rw [ProbeCache.addLoop, Values.add_next v.probe hpos hnil hbuf.time hnext.1 hnext.2]
    rfl
  · obtain ⟨c1, h1, hinv1, hnil1, hk1⟩ := h.flush hn
    obtain ⟨c2, h2, hinv2⟩ := hempty passes hinv1 (hk1.trans hk) hnil1
    refine ⟨c2, ?_, hinv2⟩
    rw [ProbeCache.addLoop, Values.add_other v.probe hpos hnil hbuf.time hnext]
    simp only [Bool.false_eq_true, if_false]
    rw [h1, Option.bind_some, h2]

theorem Inv.add (hn : ProbeLength e.probeLength) (hmax : 1 ≤ maxProbes)
    (h : Inv e maxProbes double adds c) {k : Key} (hknown : Known e k) (hkind : k.isDouble = double)
    {v : Value D} (htime : 0 < v.time) (hmonth : szbTime2my v.time = (k.year, k.month))
    (hconv : Converts e k v.probe) (passes : ℕ) :
    ∃ c', ProbeCache.add e (passes + 2) c k v = some c' ∧
      Inv e maxProbes double (adds ++ [(k, v)]) c' := by
  unfold ProbeCache.add
  by_cases hk : c.lastKey = some k
  · rw [if_pos hk]
    exact h.addLoop hn hmax hk htime hmonth hconv passes
  · obtain ⟨c1, h1, hinv1, hnil1, -⟩ := h.flush hn
    obtain ⟨c2, h2, hinv2, -, hk2⟩ := hinv1.switch hnil1 hknown hkind
    obtain ⟨c3, h3, hinv3⟩ := hinv2.addLoop hn hmax hk2 htime hmonth hconv passes
    refine ⟨c3, ?_, hinv3⟩
    rw [if_neg hk, h1]
    dsimp only [Option.bind_eq_bind, Option.bind_some]
    rw [← Option.bind_assoc, h2, Option.bind_some, h3]

/-- No file is closed twice when there is only one kind of keys. -/
theorem Inv.destroy (hn : ProbeLength e.probeLength) (h : Inv e maxProbes double adds c) :
    ∃ c', ProbeCache.destroy e c = some c' ∧
      ∀ path i, Overlay.valueAt (c'.writes path) i =
        Overlay.valueAt (adds.flatMap (pieceOf e path)) i := by
  obtain ⟨c1, h1, hinv1, hnil1, -⟩ := h.flush hn
  have hsamples : ∀ path i, Overlay.valueAt (c1.writes path) i =
      Overlay.valueAt (adds.flatMap (pieceOf e path)) i := by
    intro path i
    have := hinv1.samples path i
    rwa [pending_of_nil hnil1, List.append_nil] at this
  have hlive : ∀ p : Ptr, p ≠ .dangling → ∃ q, p.delete = some q := by
    intro p hp
    cases p with
    | null => exact ⟨_, rfl⟩
    | live path => exact ⟨_, rfl⟩
    | dangling => exact absurd rfl hp
  have hptrs : c1.param ≠ .dangling ∧ c1.lsw ≠ .dangling ∧ c1.msw ≠ .dangling := by
    cases hk : c1.lastKey with
    | none =>
      obtain ⟨h1, h2, h3, -⟩ := hinv1.mapped.fresh hk
      rw [h1, h2, h3]
      exact ⟨nofun, nofun, nofun⟩
    | some k =>
      cases hdouble : double with
      | false =>
        obtain ⟨h1, h2, h3⟩ := hinv1.mapped.single k hk hdouble
        rw [h1, h2, h3]
        exact ⟨nofun, nofun, nofun⟩
      | true =>
        obtain ⟨h1, h2, h3⟩ := hinv1.mapped.pair k hk hdouble
        rw [h1, h2, h3]
        exact ⟨nofun, nofun, nofun⟩
  obtain ⟨p, hp⟩ := hlive _ hptrs.1
  obtain ⟨l, hl⟩ := hlive _ hptrs.2.1
  obtain ⟨m, hm⟩ := hlive _ hptrs.2.2
  refine ⟨{ c1 with param := p, lsw := l, msw := m }, ?_, hsamples⟩
  unfold ProbeCache.destroy
  rw [h1]
  dsimp only [Option.bind_eq_bind, Option.bind_some]
  rw [hp, hl, hm]
  rfl

end Flush

/-! ## Runs -/

section Runs

variable {D : Type} {e : Setup D}

/-- The time of a value is the start of a probe in the month of its key. -/
structure Added (e : Setup D) (a : Key × Value D) : Prop where
  known : Known e a.1
  aligned : a.2.time % e.probeLength = 0
  month : szbTime2my a.2.time = (a.1.year, a.1.month)

/-- The rounded value can be read back: it fits in its words, and the first word of two is not the
one that means no data. -/
def Fits (e : Setup D) (k : Key) (v : D) : Prop :=
  if k.isDouble then -2 ^ 31 + 2 ^ 16 ≤ rounded e k v ∧ rounded e k v < 2 ^ 31
  else -2 ^ 15 ≤ rounded e k v ∧ rounded e k v < 2 ^ 15

/-- When the cache works: there is one kind of keys, the times are behind the epoch, the values
fit, and different parameters have different files. -/
structure Regular (e : Setup D) (adds : List (Key × Value D)) : Prop where
  kind : ∀ a ∈ adds, ∀ b ∈ adds, a.1.isDouble = b.1.isDouble
  time : ∀ a ∈ adds, 0 < a.2.time
  fits : ∀ a ∈ adds, Fits e a.1 a.2.probe
  files : ∀ a ∈ adds, ∀ b ∈ adds, wchar2szb a.1.name = wchar2szb b.1.name → a.1.name = b.1.name

theorem Fits.converts {k : Key} {v : D} (h : Fits e k v) : Converts e k v := by
  unfold Fits at h
  unfold Converts
  cases hk : k.isDouble with
  | false =>
    rw [hk, if_neg (by decide)] at h
    rw [if_neg (by decide)]
    exact h
  | true =>
    rw [hk, if_pos rfl] at h
    rw [if_pos rfl]
    omega

theorem run_samples (hn : ProbeLength e.probeLength) {maxProbes : ℕ} (hmax : 1 ≤ maxProbes)
    {adds : List (Key × Value D)} (hadds : ∀ a ∈ adds, Added e a) (h : Regular e adds)
    (passes : ℕ) :
    ∃ c, run e (passes + 2) maxProbes adds = some c ∧
      ∀ path i, Overlay.valueAt (c.writes path) i =
        Overlay.valueAt (adds.flatMap (pieceOf e path)) i := by
  -- the kind of the keys, if there are any
  obtain ⟨double, hdouble⟩ : ∃ double, ∀ a ∈ adds, a.1.isDouble = double := by
    cases adds with
    | nil => exact ⟨false, fun a ha => nomatch ha⟩
    | cons a adds => exact ⟨a.1.isDouble, fun b hb => h.kind b hb a List.mem_cons_self⟩
  have hloop : ∀ (rest done : List (Key × Value D)) (c : ProbeCache D), (∀ a ∈ rest, a ∈ adds) →
      Inv e maxProbes double done c →
      ∃ c', rest.foldlM (fun c a => add e (passes + 2) c a.1 a.2) c = some c' ∧
        Inv e maxProbes double (done ++ rest) c' := by
    intro rest
    induction rest with
    | nil =>
      intro done c _ hinv
      refine ⟨c, rfl, ?_⟩
      rwa [List.append_nil]
    | cons a rest ih =>
      intro done c hmem hinv
      have ha := hmem a List.mem_cons_self
      obtain ⟨c1, h1, hinv1⟩ := hinv.add hn hmax (hadds a ha).known (hdouble a ha) (h.time a ha)
        (hadds a ha).month (h.fits a ha).converts passes
      obtain ⟨c2, h2, hinv2⟩ := ih (done ++ [a]) c1
        (fun b hb => hmem b (List.mem_cons_of_mem a hb)) hinv1
      refine ⟨c2, ?_, ?_⟩
      · rw [List.foldlM_cons, h1]
        exact h2
      · rwa [List.append_assoc, List.singleton_append] at hinv2
  obtain ⟨c1, h1, hinv1⟩ := hloop adds [] _ (fun a ha => ha) (inv_new e maxProbes double)
  obtain ⟨c2, h2, hsamples⟩ := hinv1.destroy hn
  exact ⟨c2, by rw [run, h1, Option.bind_some, h2], hsamples⟩

/-- The value that was added last for a key and a time. -/
def lastAdd (k : Key) (t : ℤ) : List (Key × Value D) → Option D
  | [] => none
  | a :: adds =>
    (lastAdd k t adds).or (if a.1 = k ∧ a.2.time = t then some a.2.probe else none)

theorem mem_of_lastAdd {k : Key} {t : ℤ} {adds : List (Key × Value D)} {v : D}
    (h : lastAdd k t adds = some v) : ∃ a ∈ adds, a.1 = k ∧ a.2.probe = v := by
  induction adds with
  | nil => exact nomatch h
  | cons a adds ih =>
    rw [lastAdd, Option.or_eq_some_iff] at h
    rcases h with h | ⟨-, h⟩
    · obtain ⟨b, hb, hkey⟩ := ih h
      exact ⟨b, List.mem_cons_of_mem a hb, hkey⟩
    · split_ifs at h with hkey
      exact ⟨a, List.mem_cons_self, hkey.1, Option.some.inj h⟩

def filesOf (e : Setup D) (k : Key) : List (List Char) :=
  if k.isDouble then [fileOf e (k.name ++ " msw".toList) k, fileOf e (k.name ++ " lsw".toList) k]
  else [fileOf e k.name k]

theorem wordOf_ne_none {k : Key} {path : List Char} :
    wordOf e k path ≠ none ↔ path ∈ filesOf e k := by
  unfold wordOf filesOf
  generalize fileOf e (k.name ++ " msw".toList) k = msw
  generalize fileOf e (k.name ++ " lsw".toList) k = lsw
  cases k.isDouble with
  | false => by_cases h : path = fileOf e k.name k <;> simp [h]
  | true =>
    by_cases h : path = msw
    · simp [h]
    · by_cases h' : path = lsw
      · rw [if_pos rfl, if_pos rfl, if_neg h, if_pos h', h']
        simp
      · simp [h, h']

/-- Only the slots of added values are written. -/
theorem mem_of_valueAt {adds : List (Key × Value D)} {path : List Char} {i : ℕ}
    (h : Overlay.valueAt (adds.flatMap (pieceOf e path)) i ≠ none) :
    ∃ a ∈ adds, path ∈ filesOf e a.1 ∧ i = (szbProbeind a.2.time e.probeLength).toNat := by
  induction adds with
  | nil => exact absurd rfl h
  | cons a adds ih =>
    rw [List.flatMap_cons, Overlay.valueAt_append] at h
    by_cases hrest : Overlay.valueAt (adds.flatMap (pieceOf e path)) i = none
    · rw [hrest, Option.none_or] at h
      refine ⟨a, List.mem_cons_self, ?_⟩
      cases hword : wordOf e a.1 path with
      | none =>
        rw [pieceOf, hword] at h
        exact absurd rfl h
      | some word =>
        refine ⟨wordOf_ne_none.mp (by rw [hword]; simp), ?_⟩
        rw [pieceOf, hword] at h
        dsimp only at h
        rw [Overlay.valueAt_singleton, List.length_singleton] at h
        split_ifs at h with hi
        · omega
        · exact absurd rfl h
    · obtain ⟨b, hb, hfile⟩ := ih hrest
      exact ⟨b, List.mem_cons_of_mem a hb, hfile⟩

/-- A file that belongs to one key only holds the last value for every time. -/
theorem valueAt_eq_lastAdd (hn : ProbeLength e.probeLength) {adds : List (Key × Value D)}
    (hadds : ∀ a ∈ adds, Added e a) {k : Key} {path : List Char} {word : D → Word}
    (hword : wordOf e k path = some word)
    (honly : ∀ a ∈ adds, wordOf e a.1 path ≠ none → a.1 = k) {t : ℤ}
    (ht : t % e.probeLength = 0) (hmonth : szbTime2my t = (k.year, k.month)) :
    Overlay.valueAt (adds.flatMap (pieceOf e path)) (szbProbeind t e.probeLength).toNat =
      (lastAdd k t adds).map word := by
  have hpos : 0 < e.probeLength := by rcases hn with hn | hn <;> rw [hn] <;> decide
  induction adds with
  | nil => rfl
  | cons a adds ih =>
    have hrest := ih (fun b hb => hadds b (List.mem_cons_of_mem a hb))
      (fun b hb => honly b (List.mem_cons_of_mem a hb))
    have hadded := hadds a List.mem_cons_self
    have honly' := honly a List.mem_cons_self
    rw [List.flatMap_cons, Overlay.valueAt_append, hrest, lastAdd]
    have hhead : Overlay.valueAt (pieceOf e path a) (szbProbeind t e.probeLength).toNat =
        (if a.1 = k ∧ a.2.time = t then some a.2.probe else none).map word := by
      by_cases hkey : a.1 = k
      · rw [pieceOf, hkey, hword]
        dsimp only
        have h1 := szbProbeind_nonneg t hpos
        have h2 := szbProbeind_nonneg a.2.time hpos
        rw [Overlay.valueAt_singleton, List.length_singleton]
        by_cases htime : a.2.time = t
        · rw [htime, if_pos (by omega), if_pos ⟨rfl, rfl⟩, Nat.sub_self]
          rfl
        · have hindex : szbProbeind a.2.time e.probeLength ≠ szbProbeind t e.probeLength := by
            intro heq
            apply htime
            apply szbProbeind_inj hn hadded.aligned ht _ heq
            rw [hadded.month, hmonth, hkey]
          rw [if_neg (by omega), if_neg (fun hand => htime hand.2)]
          rfl
      · have hnone : wordOf e a.1 path = none := by
          by_contra hne
          exact hkey (honly' hne)
        rw [pieceOf, hnone, if_neg (fun hand => hkey hand.1)]
        rfl
    rw [hhead]
    cases lastAdd k t adds <;> simp

theorem combinedProbe_words (prec : ℕ) {r : ℤ} (h : -2 ^ 31 + 2 ^ 16 ≤ r) (h' : r < 2 ^ 31) :
    combinedProbe prec ((BitVec.ofInt 32 r).extractLsb' 16 16)
      ((BitVec.ofInt 32 r).extractLsb' 0 16) = .value (r / 10 ^ prec) := by
  have hint : (BitVec.ofInt 32 r).toInt = r := by
    apply BitVec.toInt_ofInt_eq_self (by decide) <;> omega
  have hjoin : ((BitVec.ofInt 32 r).extractLsb' 16 16).signExtend 32 <<< 16 |||
      ((BitVec.ofInt 32 r).extractLsb' 0 16).setWidth 32 = BitVec.ofInt 32 r := by
    generalize BitVec.ofInt 32 r = v
    apply BitVec.eq_of_getLsbD_eq
    intro i hi
    simp only [BitVec.getLsbD_or, BitVec.getLsbD_shiftLeft, BitVec.getLsbD_signExtend,
      BitVec.getLsbD_setWidth, BitVec.getLsbD_extractLsb']
    by_cases hlt : i < 16
    · simp [hlt, hi]
    · have h1 : i - 16 < 16 := by omega
      have h2 : 16 + (i - 16) = i := by omega
      have h3 : i - 16 < 32 := by omega
      simp [hlt, hi, h1, h2, h3]
  have hne : (BitVec.ofInt 32 r).extractLsb' 16 16 ≠ fileNodata := by
    intro heq
    have hnat := congrArg BitVec.toNat heq
    rw [BitVec.extractLsb'_toNat, Nat.shiftRight_eq_div_pow] at hnat
    have hnodata : fileNodata.toNat = 32768 := by decide
    rw [hnodata] at hnat
    have hlt := (BitVec.ofInt 32 r).isLt
    rw [BitVec.toInt_eq_toNat_cond] at hint
    split_ifs at hint <;> omega
  rw [combinedProbe, if_neg hne, hjoin, hint]

/-- Two keys of one kind with a common file are the same. -/
theorem filesOf_inj {k k' : Key} (hk : Known e k) (hkind : k.isDouble = k'.isDouble)
    (hfiles : wchar2szb k.name = wchar2szb k'.name → k.name = k'.name) {path : List Char}
    (h : path ∈ filesOf e k) (h' : path ∈ filesOf e k') : k = k' := by
  -- files with a common name belong to one name and one month
  have hfile : ∀ {name name' : List Char}, name ≠ [] → fileOf e name k = fileOf e name' k' →
      wchar2szb name = wchar2szb name' ∧ k.year = k'.year ∧ k.month = k'.month := by
    intro name name' hname heq
    have hinj := SaveParam.monthFile_inj (fileOf_ne_nil hk.month hname) heq
    exact ⟨hinj.1, (Prod.mk.inj hinj.2).1, (Prod.mk.inj hinj.2).2⟩
  have hkey : k.name = k'.name → k.year = k'.year → k.month = k'.month → k = k' := by
    intro h1 h2 h3
    cases k
    cases k'
    simp_all
  unfold filesOf at h h'
  rw [← hkind] at h'
  cases hdouble : k.isDouble with
  | false =>
    rw [hdouble, if_neg (by decide), List.mem_singleton] at h h'
    obtain ⟨h1, h2, h3⟩ := hfile hk.name (h.symm.trans h')
    exact hkey (hfiles h1) h2 h3
  | true =>
    rw [hdouble, if_pos rfl] at h h'
    simp only [List.mem_cons, List.not_mem_nil, or_false] at h h'
    rcases h with h | h <;> rcases h' with h' | h' <;>
      obtain ⟨h1, h2, h3⟩ := hfile (by simp) (h.symm.trans h')
    · rw [wchar2szb_msw, wchar2szb_msw, List.append_cancel_right_eq] at h1
      exact hkey (hfiles h1) h2 h3
    · rw [wchar2szb_msw, wchar2szb_lsw] at h1
      exact absurd (List.append_inj' h1 (by simp)).2 (by simp)
    · rw [wchar2szb_lsw, wchar2szb_msw] at h1
      exact absurd (List.append_inj' h1 (by simp)).2 (by simp)
    · rw [wchar2szb_lsw, wchar2szb_lsw, List.append_cancel_right_eq] at h1
      exact hkey (hfiles h1) h2 h3

/-- Nothing is lost or misplaced when the cache is used regularly. -/
theorem run_lastAdd (hn : ProbeLength e.probeLength) {maxProbes : ℕ} (hmax : 1 ≤ maxProbes)
    {adds : List (Key × Value D)} (hadds : ∀ a ∈ adds, Added e a) (h : Regular e adds)
    (passes : ℕ) :
    ∃ c, run e (passes + 2) maxProbes adds = some c ∧
      (∀ path i, Overlay.valueAt (c.writes path) i ≠ none →
        ∃ a ∈ adds, path ∈ filesOf e a.1 ∧ i = (szbProbeind a.2.time e.probeLength).toNat) ∧
      ∀ k ∈ adds.map Prod.fst, ∀ t, t % e.probeLength = 0 → szbTime2my t = (k.year, k.month) →
        (k.isDouble = false →
          (Overlay.valueAt (c.writes (fileOf e k.name k))
            (szbProbeind t e.probeLength).toNat).map BitVec.toInt =
              (lastAdd k t adds).map (rounded e k)) ∧
        (k.isDouble = true →
          match lastAdd k t adds,
            Overlay.valueAt (c.writes (fileOf e (k.name ++ " msw".toList) k))
              (szbProbeind t e.probeLength).toNat,
            Overlay.valueAt (c.writes (fileOf e (k.name ++ " lsw".toList) k))
              (szbProbeind t e.probeLength).toNat with
          | none, none, none => True
          | some v, some msw, some lsw =>
            ∀ prec, combinedProbe prec msw lsw = .value (rounded e k v / 10 ^ prec)
          | _, _, _ => False) := by
  obtain ⟨c, hrun, hsamples⟩ := run_samples hn hmax hadds h passes
  refine ⟨c, hrun, fun path i hne => mem_of_valueAt (hsamples path i ▸ hne), ?_⟩
  -- an added key is the only one of its files, so these hold what was added last for it
  intro k hk t ht hmonth
  obtain ⟨a, ha, rfl⟩ := List.mem_map.mp hk
  have hvalue : ∀ {path word}, wordOf e a.1 path = some word →
      Overlay.valueAt (c.writes path) (szbProbeind t e.probeLength).toNat =
        (lastAdd a.1 t adds).map word := by
    intro path word hword
    rw [hsamples]
    apply valueAt_eq_lastAdd hn hadds hword _ ht hmonth
    intro b hb hne
    apply filesOf_inj (hadds b hb).known (h.kind b hb a ha) (h.files b hb a ha)
      (wordOf_ne_none.mp hne)
    exact wordOf_ne_none.mp (by rw [hword]; simp)
  have hfits : ∀ v, lastAdd a.1 t adds = some v → Fits e a.1 v := by
    intro v hv
    obtain ⟨b, hb, hkey, rfl⟩ := mem_of_lastAdd hv
    rw [← hkey]
    exact h.fits b hb
  constructor
  -- one word
  · intro hsingle
    rw [@hvalue _ (fun v => BitVec.ofInt 16 (rounded e a.1 v))
      (by rw [wordOf, hsingle, if_neg (by decide), if_pos rfl])]
    cases hlast : lastAdd a.1 t adds with
    | none => rfl
    | some v =>
      have hfit := hfits v hlast
      rw [Fits, hsingle, if_neg (by decide)] at hfit
      simp only [Option.map_some, Option.some.injEq]
      apply BitVec.toInt_ofInt_eq_self (by decide) <;> omega
  -- two words, from which a combined parameter is read
  · intro hpair
    have hne := msw_ne_lsw (hadds a ha).known
    rw [@hvalue _ (fun v => (BitVec.ofInt 32 (rounded e a.1 v)).extractLsb' 16 16)
        (by rw [wordOf, hpair, if_pos rfl, if_pos rfl]),
      @hvalue _ (fun v => (BitVec.ofInt 32 (rounded e a.1 v)).extractLsb' 0 16)
        (by rw [wordOf, hpair, if_pos rfl, if_neg hne.symm, if_pos rfl])]
    cases hlast : lastAdd a.1 t adds with
    | none => trivial
    | some v =>
      have hfit := hfits v hlast
      rw [Fits, hpair, if_pos rfl] at hfit
      exact fun prec => combinedProbe_words prec hfit.1 hfit.2

end Runs

/-- Numbers are whole, and every parameter has no decimal places. -/
def wholeNumbers : Setup ℤ := ⟨fun _ => some 0, fun prec v => v * 10 ^ prec, 600⟩

/-- Two probes of a parameter with one sample, the second of which is replaced. -/
def singleAdds : List (Key × Value ℤ) :=
  [(⟨['a'], false, 1970, 1⟩, ⟨5, 600⟩), (⟨['a'], false, 1970, 1⟩, ⟨6, 1200⟩),
    (⟨['a'], false, 1970, 1⟩, ⟨7, 1200⟩)]

/-- Then a probe of a parameter with two words. -/
def mixedAdds : List (Key × Value ℤ) := singleAdds ++ [(⟨['b'], true, 1970, 1⟩, ⟨8, 600⟩)]

theorem added_mixedAdds : ∀ a ∈ mixedAdds, Added wholeNumbers a := by
  have hknown : ∀ name double, name ≠ [] → Known wholeNumbers ⟨name, double, 1970, 1⟩ := by
    intro name double hname
    have hmonth : ValidMonth 1970 1 := by
      unfold ValidMonth
      decide
    refine ⟨hname, hmonth, ?_, fun _ => ⟨?_, ?_⟩⟩ <;> exact Option.some_ne_none 0
  intro a ha
  simp only [mixedAdds, singleAdds, List.cons_append, List.nil_append, List.mem_cons,
    List.not_mem_nil, or_false] at ha
  rcases ha with rfl | rfl | rfl | rfl <;>
    exact ⟨hknown _ _ (by decide), by decide, by decide +kernel⟩

/-- Everything is added, but the destructor deletes a file that was closed when the key changed. -/
theorem mixedAdds_deleted_twice :
    (∀ a ∈ mixedAdds, Added wholeNumbers a) ∧
      (mixedAdds.foldlM (fun c a => add wholeNumbers 2 c a.1 a.2) (new 5)).isSome = true ∧
      run wholeNumbers 2 5 mixedAdds = none := by
  refine ⟨added_mixedAdds, by decide +kernel, ?_⟩
  rw [← Option.isNone_iff_eq_none]
  decide +kernel

/-- The probe at twenty past midnight has its last value. -/
theorem run_lastAdd_singleAdds :
    ∃ c, run wholeNumbers 2 5 singleAdds = some c ∧
      (Overlay.valueAt (c.writes (fileOf wholeNumbers ['a'] ⟨['a'], false, 1970, 1⟩))
        (szbProbeind 1200 600).toNat).map BitVec.toInt = some 7 := by
  have hadds : ∀ a ∈ singleAdds, Added wholeNumbers a :=
    fun a ha => added_mixedAdds a (List.mem_append_left _ ha)
  have hregular : Regular wholeNumbers singleAdds := by
    refine ⟨by decide, by decide, ?_, by decide⟩
    unfold Fits
    decide
  obtain ⟨c, hrun, -, hlast⟩ := run_lastAdd (Or.inr rfl) (show 1 ≤ 5 by decide) hadds hregular 0
  refine ⟨c, hrun, ?_⟩
  exact (hlast ⟨['a'], false, 1970, 1⟩ (by decide) 1200 (by decide) (by decide +kernel)).1 rfl

end ProbeCache
end Meaner
end Szarp
