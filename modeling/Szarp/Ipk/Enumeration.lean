import Szarp.Ipk.Config
import Szarp.Lib.Walk
import Mathlib.Data.List.Nodup
import Mathlib.Algebra.GroupWithZero.Nat
import Mathlib.Data.List.Range
import Mathlib.Data.Set.Function

/-!
# Enumeration of the parameters

`TParam::GetNext` and the functions of `tparam.cc` and `tszarpconfig.cc` that number the parameters
by it. A pointer to a parameter is its place in the tree.
-/

namespace Szarp
namespace Ipk

/-- A pointer to a parameter of unit `u` of radio `r` of device `d`, or of one of the two lists. -/
inductive ParamPtr where
  | inUnit (d r u i : ℕ)
  | defined (i : ℕ)
  | drawDefinable (i : ℕ)
deriving DecidableEq, Repr

def Unit.getParamsCount (u : Unit) : ℕ := u.params.length

def Device.getParamsCount (d : Device) : ℕ :=
  (d.radios.map fun r => (r.units.map Unit.getParamsCount).sum).sum

/-! ## The first parameter of a rest of a list -/

def firstInUnits (d r : ℕ) : ℕ → List Unit → Option ParamPtr
  | _, [] => none
  | u, x :: us => if x.params = [] then firstInUnits d r (u + 1) us else some (.inUnit d r u 0)

def firstInRadios (d : ℕ) : ℕ → List Radio → Option ParamPtr
  | _, [] => none
  | r, x :: rs => (firstInUnits d r 0 x.units).or (firstInRadios d (r + 1) rs)

def firstInDevices : ℕ → List Device → Option ParamPtr
  | _, [] => none
  | d, x :: ds => (firstInRadios d 0 x.radios).or (firstInDevices (d + 1) ds)

namespace SzarpConfig

variable (cfg : SzarpConfig)

def radios (d : ℕ) : List Radio := (cfg.devices.getD d {}).radios

def units (d r : ℕ) : List Unit := ((cfg.radios d).getD r {}).units

def params (d r u : ℕ) : List Param := ((cfg.units d r).getD u {}).params

def param : ParamPtr → Option Param
  | .inUnit d r u i => (cfg.params d r u)[i]?
  | .defined i => cfg.defined[i]?
  | .drawDefinable i => cfg.drawDefinable[i]?

def getFirstDefined : Option ParamPtr := if cfg.defined = [] then none else some (.defined 0)

def getFirstDrawDefinable : Option ParamPtr :=
  if cfg.drawDefinable = [] then none else some (.drawDefinable 0)

def getFirstParam : Option ParamPtr :=
  (firstInDevices 0 cfg.devices).or (cfg.getFirstDefined.or cfg.getFirstDrawDefinable)

/-- The pointer after a unit-less parameter that is the last one of its list. -/
def afterUnitless (p : Param) : Option ParamPtr :=
  if p.ftype = .definable ∨ p.ftype = .luaVA ∨ p.ftype = .luaAV then none
  else cfg.getFirstDrawDefinable

def getNext (global : Bool) : ParamPtr → Option ParamPtr
  | .inUnit d r u i =>
    if i + 1 < (cfg.params d r u).length then some (.inUnit d r u (i + 1))
    else if global then
      (firstInUnits d r (u + 1) ((cfg.units d r).drop (u + 1))).or
        ((firstInRadios d (r + 1) ((cfg.radios d).drop (r + 1))).or
          ((firstInDevices (d + 1) (cfg.devices.drop (d + 1))).or
            (cfg.getFirstDefined.or cfg.getFirstDrawDefinable)))
    else none
  | .defined i =>
    if i + 1 < cfg.defined.length then some (.defined (i + 1))
    else if global then cfg.afterUnitless (cfg.defined.getD i {})
    else none
  | .drawDefinable i =>
    if i + 1 < cfg.drawDefinable.length then some (.drawDefinable (i + 1))
    else if global then cfg.afterUnitless (cfg.drawDefinable.getD i {})
    else none

def getNextParam (p : ParamPtr) : Option ParamPtr := cfg.getNext true p

def getNthParam (n : ℕ) (global : Bool) (p : ParamPtr) : Option ParamPtr :=
  Walk.nth (cfg.getNext global) n (some p)

def getParamByIPC (ipcInd : ℕ) : Option ParamPtr :=
  match cfg.getFirstParam with
  | none => none
  | some p => cfg.getNthParam ipcInd true p

/-- `TParam::GetIpcInd`; `none` when the parameter is not met in the first `n` ones. -/
def getIpcInd (n : ℕ) (p : ParamPtr) : Option ℕ :=
  Walk.find cfg.getNextParam p n cfg.getFirstParam

def getParamsCount : ℕ := (cfg.devices.map Device.getParamsCount).sum

/-! ## Document order -/

def unitPtrs (d r u : ℕ) : List ParamPtr :=
  (List.range (cfg.params d r u).length).map (ParamPtr.inUnit d r u)

def radioPtrs (d r : ℕ) : List ParamPtr :=
  (List.range (cfg.units d r).length).flatMap (cfg.unitPtrs d r)

def devicePtrs (d : ℕ) : List ParamPtr :=
  (List.range (cfg.radios d).length).flatMap (cfg.radioPtrs d)

def devicesPtrs : List ParamPtr := (List.range cfg.devices.length).flatMap cfg.devicePtrs

def definedPtrs : List ParamPtr := (List.range cfg.defined.length).map ParamPtr.defined

def drawDefinablePtrs : List ParamPtr :=
  (List.range cfg.drawDefinable.length).map ParamPtr.drawDefinable

def paramPtrs : List ParamPtr := cfg.devicesPtrs ++ (cfg.definedPtrs ++ cfg.drawDefinablePtrs)

variable {cfg}

theorem lt_of_lt_params {d r u i : ℕ} (h : i < (cfg.params d r u).length) :
    d < cfg.devices.length ∧ r < (cfg.radios d).length ∧ u < (cfg.units d r).length := by
  have hu : u < (cfg.units d r).length := by
    by_contra hu
    simp [params, List.getElem?_eq_none (not_lt.mp hu)] at h
  have hr : r < (cfg.radios d).length := by
    by_contra hr
    simp [units, List.getElem?_eq_none (not_lt.mp hr)] at hu
  have hd : d < cfg.devices.length := by
    by_contra hd
    simp [radios, List.getElem?_eq_none (not_lt.mp hd)] at hr
  exact ⟨hd, hr, hu⟩

theorem mem_devicesPtrs {p : ParamPtr} :
    p ∈ cfg.devicesPtrs ↔ ∃ d r u i, i < (cfg.params d r u).length ∧ p = .inUnit d r u i := by
  simp only [devicesPtrs, devicePtrs, radioPtrs, unitPtrs, List.mem_flatMap, List.mem_map,
    List.mem_range]
  constructor
  · rintro ⟨d, -, r, -, u, -, i, hi, rfl⟩
    exact ⟨d, r, u, i, hi, rfl⟩
  · rintro ⟨d, r, u, i, hi, rfl⟩
    obtain ⟨hd, hr, hu⟩ := lt_of_lt_params hi
    exact ⟨d, hd, r, hr, u, hu, i, hi, rfl⟩

theorem mem_paramPtrs {p : ParamPtr} : p ∈ cfg.paramPtrs ↔ (cfg.param p).isSome := by
  cases p <;> simp [paramPtrs, mem_devicesPtrs, definedPtrs, drawDefinablePtrs, param]

theorem nodup_flatMap_range {f : ℕ → List ParamPtr} {g : ParamPtr → ℕ} (n : ℕ)
    (hf : ∀ i, (f i).Nodup) (hg : ∀ i, ∀ p ∈ f i, g p = i) : ((List.range n).flatMap f).Nodup := by
  rw [List.nodup_flatMap]
  refine ⟨fun i _ => hf i, List.nodup_range.imp ?_⟩
  intro i j hij p hi hj
  exact hij ((hg i p hi).symm.trans (hg j p hj))

theorem nodup_devicesPtrs : cfg.devicesPtrs.Nodup := by
  apply nodup_flatMap_range (g := fun | .inUnit d _ _ _ => d | _ => 0)
  · intro d
    apply nodup_flatMap_range (g := fun | .inUnit _ r _ _ => r | _ => 0)
    · intro r
      apply nodup_flatMap_range (g := fun | .inUnit _ _ u _ => u | _ => 0)
      · intro u
        exact List.nodup_range.map fun i j hij => by simpa using hij
      · intro u p hp
        simp only [unitPtrs, List.mem_map] at hp
        obtain ⟨i, -, rfl⟩ := hp
        rfl
    · intro r p hp
      simp only [radioPtrs, unitPtrs, List.mem_flatMap, List.mem_map] at hp
      obtain ⟨u, -, i, -, rfl⟩ := hp
      rfl
  · intro d p hp
    simp only [devicePtrs, radioPtrs, unitPtrs, List.mem_flatMap, List.mem_map] at hp
    obtain ⟨r, -, u, -, i, -, rfl⟩ := hp
    rfl

theorem nodup_paramPtrs : cfg.paramPtrs.Nodup := by
  have hdefined : cfg.definedPtrs.Nodup := List.nodup_range.map fun i j hij => by simpa using hij
  have hdraw : cfg.drawDefinablePtrs.Nodup :=
    List.nodup_range.map fun i j hij => by simpa using hij
  rw [paramPtrs, List.nodup_append, List.nodup_append]
  refine ⟨nodup_devicesPtrs, ⟨hdefined, hdraw, ?_⟩, ?_⟩
  · intro p hp q hq
    simp only [definedPtrs, drawDefinablePtrs, List.mem_map] at hp hq
    obtain ⟨⟨i, -, rfl⟩, ⟨j, -, rfl⟩⟩ := And.intro hp hq
    exact ParamPtr.noConfusion
  · intro p hp q hq
    obtain ⟨d, r, u, i, -, rfl⟩ := mem_devicesPtrs.mp hp
    simp only [definedPtrs, drawDefinablePtrs, List.mem_append, List.mem_map] at hq
    obtain ⟨j, -, rfl⟩ | ⟨j, -, rfl⟩ := hq <;> exact ParamPtr.noConfusion

theorem map_range_getD {α β : Type*} (l : List α) (f : α → β) (a : α) :
    (List.range l.length).map (fun i => f (l.getD i a)) = l.map f := by
  apply List.ext_getElem
  · simp
  · intro i hi hi'
    simp at hi
    simp [hi]

theorem length_devicesPtrs : cfg.devicesPtrs.length = cfg.getParamsCount := by
  have hunits : ∀ d r, (cfg.radioPtrs d r).length =
      ((cfg.units d r).map Unit.getParamsCount).sum := by
    intro d r
    rw [← map_range_getD _ _ {}, radioPtrs, List.length_flatMap]
    simp [unitPtrs, Unit.getParamsCount, params]
  have hdevice : ∀ d, (cfg.devicePtrs d).length = (cfg.devices.getD d {}).getParamsCount := by
    intro d
    rw [Device.getParamsCount, ← map_range_getD _ _ {}, devicePtrs, List.length_flatMap]
    simp only [hunits]
    rfl
  rw [getParamsCount, ← map_range_getD _ _ {}, devicesPtrs, List.length_flatMap]
  simp only [hdevice]

/-! ## The walk -/

theorem drop_eq_cons {α : Type*} {l : List α} {n : ℕ} {x : α} {xs : List α}
    (h : l.drop n = x :: xs) : l[n]? = some x ∧ l.drop (n + 1) = xs := by
  have hlt : n < l.length := by
    by_contra hn
    rw [List.drop_eq_nil_of_le (not_lt.mp hn)] at h
    exact absurd h.symm (List.cons_ne_nil x xs)
  rw [List.drop_eq_getElem_cons hlt, List.cons.injEq] at h
  exact ⟨by rw [List.getElem?_eq_getElem hlt, h.1], h.2⟩

theorem head?_unitPtrs (d r u : ℕ) : (cfg.unitPtrs d r u).head? =
    if cfg.params d r u = [] then none else some (.inUnit d r u 0) := by
  cases h : cfg.params d r u with
  | nil => simp [unitPtrs, h]
  | cons p ps => simp [unitPtrs, h, List.range_succ_eq_map]

theorem firstInUnits_drop {d r u : ℕ} {us : List Unit} (h : (cfg.units d r).drop u = us) :
    firstInUnits d r u us = ((List.range' u us.length).flatMap (cfg.unitPtrs d r)).head? := by
  induction us generalizing u with
  | nil => rfl
  | cons x us ih =>
    obtain ⟨hx, hus⟩ := drop_eq_cons h
    have hparams : cfg.params d r u = x.params := by simp [params, hx]
    rw [firstInUnits, List.length_cons, List.range'_succ, List.flatMap_cons, List.head?_append,
      head?_unitPtrs, ih hus, hparams]
    split <;> rfl

theorem firstInRadios_drop {d r : ℕ} {rs : List Radio} (h : (cfg.radios d).drop r = rs) :
    firstInRadios d r rs = ((List.range' r rs.length).flatMap (cfg.radioPtrs d)).head? := by
  induction rs generalizing r with
  | nil => rfl
  | cons x rs ih =>
    obtain ⟨hx, hrs⟩ := drop_eq_cons h
    have hunits : cfg.units d r = x.units := by simp [units, hx]
    rw [firstInRadios, List.length_cons, List.range'_succ, List.flatMap_cons, List.head?_append,
      ih hrs, radioPtrs, List.range_eq_range', hunits, firstInUnits_drop (by simpa using hunits)]

theorem firstInDevices_drop {d : ℕ} {ds : List Device} (h : cfg.devices.drop d = ds) :
    firstInDevices d ds = ((List.range' d ds.length).flatMap cfg.devicePtrs).head? := by
  induction ds generalizing d with
  | nil => rfl
  | cons x ds ih =>
    obtain ⟨hx, hds⟩ := drop_eq_cons h
    have hradios : cfg.radios d = x.radios := by simp [radios, hx]
    rw [firstInDevices, List.length_cons, List.range'_succ, List.flatMap_cons, List.head?_append,
      ih hds, devicePtrs, List.range_eq_range', hradios,
      firstInRadios_drop (by simpa using hradios)]

/-- Where the walk goes on after the radio lines of a device. -/
def afterDevice (cfg : SzarpConfig) (d : ℕ) : Option ParamPtr :=
  (firstInDevices (d + 1) (cfg.devices.drop (d + 1))).or
    (cfg.getFirstDefined.or cfg.getFirstDrawDefinable)

/-- Where the walk goes on after the units of a radio line. -/
def afterRadio (cfg : SzarpConfig) (d r : ℕ) : Option ParamPtr :=
  (firstInRadios d (r + 1) ((cfg.radios d).drop (r + 1))).or (cfg.afterDevice d)

theorem follows_units {d r u : ℕ} {us : List Unit} (h : (cfg.units d r).drop u = us) :
    Walk.Follows cfg.getNextParam (cfg.afterRadio d r)
      ((List.range' u us.length).flatMap (cfg.unitPtrs d r)) := by
  induction us generalizing u with
  | nil => trivial
  | cons x us ih =>
    obtain ⟨-, hus⟩ := drop_eq_cons h
    rw [List.length_cons, List.range'_succ, List.flatMap_cons, Walk.follows_append]
    refine ⟨?_, ih hus⟩
    rw [← firstInUnits_drop hus]
    apply (Walk.follows_range ?_).mpr
    · intro i hi
      rw [getNextParam, getNext, if_neg (by omega), if_pos rfl, hus]
      rfl
    · intro i hi
      rw [getNextParam, getNext, if_pos hi]

theorem follows_radios {d r : ℕ} {rs : List Radio} (h : (cfg.radios d).drop r = rs) :
    Walk.Follows cfg.getNextParam (cfg.afterDevice d)
      ((List.range' r rs.length).flatMap (cfg.radioPtrs d)) := by
  induction rs generalizing r with
  | nil => trivial
  | cons x rs ih =>
    obtain ⟨-, hrs⟩ := drop_eq_cons h
    rw [List.length_cons, List.range'_succ, List.flatMap_cons, Walk.follows_append]
    refine ⟨?_, ih hrs⟩
    have hafter : cfg.afterRadio d r =
        ((List.range' (r + 1) rs.length).flatMap (cfg.radioPtrs d)).head?.or
          (cfg.afterDevice d) := by
      rw [afterRadio, hrs, firstInRadios_drop hrs]
    rw [← hafter, radioPtrs, List.range_eq_range']
    exact follows_units rfl

theorem follows_devices {d : ℕ} {ds : List Device} (h : cfg.devices.drop d = ds) :
    Walk.Follows cfg.getNextParam (cfg.getFirstDefined.or cfg.getFirstDrawDefinable)
      ((List.range' d ds.length).flatMap cfg.devicePtrs) := by
  induction ds generalizing d with
  | nil => trivial
  | cons x ds ih =>
    obtain ⟨-, hds⟩ := drop_eq_cons h
    rw [List.length_cons, List.range'_succ, List.flatMap_cons, Walk.follows_append]
    refine ⟨?_, ih hds⟩
    have hafter : cfg.afterDevice d = ((List.range' (d + 1) ds.length).flatMap
        cfg.devicePtrs).head?.or (cfg.getFirstDefined.or cfg.getFirstDrawDefinable) := by
      rw [afterDevice, hds, firstInDevices_drop hds]
    rw [← hafter, devicePtrs, List.range_eq_range']
    exact follows_radios rfl

theorem head?_definedPtrs : cfg.definedPtrs.head? = cfg.getFirstDefined := by
  cases h : cfg.defined with
  | nil => simp [definedPtrs, getFirstDefined, h]
  | cons p ps => simp [definedPtrs, getFirstDefined, h, List.range_succ_eq_map]

theorem head?_drawDefinablePtrs : cfg.drawDefinablePtrs.head? = cfg.getFirstDrawDefinable := by
  cases h : cfg.drawDefinable with
  | nil => simp [drawDefinablePtrs, getFirstDrawDefinable, h]
  | cons p ps => simp [drawDefinablePtrs, getFirstDrawDefinable, h, List.range_succ_eq_map]

theorem getFirstParam_eq : cfg.getFirstParam = cfg.paramPtrs.head? := by
  have hdevices : firstInDevices 0 cfg.devices = cfg.devicesPtrs.head? := by
    rw [devicesPtrs, List.range_eq_range']
    exact firstInDevices_drop List.drop_zero
  rw [getFirstParam, hdevices, paramPtrs, List.head?_append, List.head?_append,
    head?_definedPtrs, head?_drawDefinablePtrs]

theorem forall_last_iff {l : List Param} {P : Param → Prop} :
    (∀ i, i + 1 = l.length → P (l.getD i {})) ↔ ∀ p ∈ l.getLast?, P p := by
  rw [List.getLast?_eq_getElem?]
  constructor
  · intro h p hp
    obtain ⟨hlt, hget⟩ := List.getElem?_eq_some_iff.mp hp
    have hlast := h (l.length - 1) (by omega)
    rwa [List.getD_eq_getElem?_getD, List.getElem?_eq_getElem hlt, hget] at hlast
  · intro h i hi
    have hlt : i < l.length := by omega
    rw [List.getD_eq_getElem?_getD, List.getElem?_eq_getElem hlt]
    apply h
    rw [show l.length - 1 = i by omega, List.getElem?_eq_getElem hlt]
    rfl

theorem follows_definedPtrs {stop : Option ParamPtr} :
    Walk.Follows cfg.getNextParam stop cfg.definedPtrs ↔
      ∀ p ∈ cfg.defined.getLast?, cfg.afterUnitless p = stop := by
  rw [definedPtrs, Walk.follows_range, ← forall_last_iff]
  · apply forall₂_congr
    intro i hi
    rw [getNextParam, getNext, if_neg (by omega), if_pos rfl]
  · intro i hi
    rw [getNextParam, getNext, if_pos hi]

theorem follows_drawDefinablePtrs {stop : Option ParamPtr} :
    Walk.Follows cfg.getNextParam stop cfg.drawDefinablePtrs ↔
      ∀ p ∈ cfg.drawDefinable.getLast?, cfg.afterUnitless p = stop := by
  rw [drawDefinablePtrs, Walk.follows_range, ← forall_last_iff]
  · apply forall₂_congr
    intro i hi
    rw [getNextParam, getNext, if_neg (by omega), if_pos rfl]
  · intro i hi
    rw [getNextParam, getNext, if_pos hi]

/-- The types after which `GetNext` ends the walk. -/
def EndsWalk (t : FormulaType) : Prop := t = .definable ∨ t = .luaVA ∨ t = .luaAV

/-- The last defined parameter does not end the walk, and the last draw definable one does. -/
def LastsTyped (cfg : SzarpConfig) : Prop :=
  (∀ p ∈ cfg.defined.getLast?, ¬ EndsWalk p.ftype) ∧
    ∀ p ∈ cfg.drawDefinable.getLast?, EndsWalk p.ftype

theorem afterUnitless_eq_none (h : cfg.drawDefinable ≠ []) (p : Param) :
    cfg.afterUnitless p = none ↔ EndsWalk p.ftype := by
  unfold afterUnitless EndsWalk
  split <;> simp_all [getFirstDrawDefinable]

theorem afterUnitless_eq_first (h : cfg.drawDefinable ≠ []) (p : Param) :
    cfg.afterUnitless p = cfg.getFirstDrawDefinable ↔ ¬ EndsWalk p.ftype := by
  unfold afterUnitless EndsWalk
  split <;> simp_all [getFirstDrawDefinable]

theorem afterUnitless_of_nil (h : cfg.drawDefinable = []) (p : Param) :
    cfg.afterUnitless p = none := by
  simp [afterUnitless, getFirstDrawDefinable, h]

theorem follows_paramPtrs : Walk.Follows cfg.getNextParam none cfg.paramPtrs ↔
    cfg.drawDefinable = [] ∨ cfg.LastsTyped := by
  have hdevices : Walk.Follows cfg.getNextParam
      (cfg.getFirstDefined.or cfg.getFirstDrawDefinable) cfg.devicesPtrs := by
    rw [devicesPtrs, List.range_eq_range']
    exact follows_devices List.drop_zero
  rw [paramPtrs, Walk.follows_append, Walk.follows_append, List.head?_append, head?_definedPtrs,
    head?_drawDefinablePtrs, Option.or_none, Option.or_none, follows_definedPtrs,
    follows_drawDefinablePtrs]
  by_cases hnil : cfg.drawDefinable = []
  · have hfirst : cfg.getFirstDrawDefinable = none := if_pos hnil
    rw [hfirst, Option.or_none] at hdevices
    simp [hdevices, afterUnitless_of_nil hnil, hfirst, hnil]
  · simp only [hdevices, afterUnitless_eq_first hnil, afterUnitless_eq_none hnil, hnil, true_and,
      false_or, LastsTyped]

/-- The walk meets every parameter once, in document order, and its numbers are a bijection under
which the parameters of the devices come first. -/
structure Enumerates (cfg : SzarpConfig) : Prop where
  walk : ∃ n, Walk.collect cfg.getNextParam n cfg.getFirstParam = some cfg.paramPtrs
  nodup : cfg.paramPtrs.Nodup
  complete : ∀ p, p ∈ cfg.paramPtrs ↔ (cfg.param p).isSome
  ipc : ∃ ind : ParamPtr → ℕ,
    (∀ p ∈ cfg.paramPtrs, ∃ n, cfg.getIpcInd n p = some (ind p)) ∧
    (∀ p ∈ cfg.paramPtrs, cfg.getParamByIPC (ind p) = some p) ∧
    (∀ p ∈ cfg.paramPtrs, ∀ q ∈ cfg.paramPtrs, ind p = ind q → p = q) ∧
    (∀ p ∈ cfg.paramPtrs, p ∈ cfg.devicesPtrs ↔ ind p < cfg.getParamsCount) ∧
    ∀ i < cfg.getParamsCount, ∃ p ∈ cfg.devicesPtrs, ind p = i

theorem getIpcInd_of_follows (h : Walk.Follows cfg.getNextParam none cfg.paramPtrs) {p : ParamPtr}
    (hp : p ∈ cfg.paramPtrs) :
    cfg.getIpcInd cfg.paramPtrs.length p = some (cfg.paramPtrs.idxOf p) := by
  rw [getIpcInd, getFirstParam_eq]
  exact Walk.find_of_follows h hp

theorem getParamByIPC_of_follows (h : Walk.Follows cfg.getNextParam none cfg.paramPtrs) (i : ℕ) :
    cfg.getParamByIPC i = cfg.paramPtrs[i]? := by
  have hnth := Walk.nth_of_follows h i
  rw [← getFirstParam_eq] at hnth
  rw [getParamByIPC, ← hnth]
  cases cfg.getFirstParam with
  | none => cases i <;> rfl
  | some p => rfl

theorem mem_devicesPtrs_iff_idxOf {p : ParamPtr} :
    p ∈ cfg.devicesPtrs ↔ cfg.paramPtrs.idxOf p < cfg.getParamsCount := by
  rw [← length_devicesPtrs, paramPtrs, List.idxOf_append]
  by_cases hd : p ∈ cfg.devicesPtrs
  · simp [hd, List.idxOf_lt_length_of_mem]
  · simp [hd]

/-- The enumeration is a bijection exactly when no draw definable parameter exists, or the types of
the last defined and the last draw definable parameter end the walk in the right list. -/
theorem enumerates_iff (cfg : SzarpConfig) :
    cfg.Enumerates ↔ cfg.drawDefinable = [] ∨ cfg.LastsTyped := by
  rw [← follows_paramPtrs]
  constructor
  · intro h
    obtain ⟨n, hn⟩ := h.walk
    exact (Walk.follows_of_collect hn).1
  · intro h
    refine ⟨⟨cfg.paramPtrs.length, ?_⟩, nodup_paramPtrs, fun _ => mem_paramPtrs,
      cfg.paramPtrs.idxOf, ?_, ?_, ?_, fun p _ => mem_devicesPtrs_iff_idxOf, ?_⟩
    · rw [getFirstParam_eq]
      exact Walk.collect_of_follows h le_rfl
    · intro p hp
      exact ⟨_, getIpcInd_of_follows h hp⟩
    · intro p hp
      rw [getParamByIPC_of_follows h, List.getElem?_idxOf hp]
    · intro p hp q hq hpq
      exact (List.idxOf_inj hp).mp hpq
    · intro i hi
      rw [← length_devicesPtrs] at hi
      have hi' : i < cfg.paramPtrs.length := by
        rw [paramPtrs, List.length_append]
        omega
      have hget : cfg.paramPtrs[i] = cfg.devicesPtrs[i] := by
        simp only [paramPtrs]
        exact List.getElem_append_left hi
      exact ⟨cfg.devicesPtrs[i], List.getElem_mem hi,
        hget ▸ nodup_paramPtrs.idxOf_getElem i hi'⟩

def oneDevice : List Device := [{ radios := [{ units := [{ params := [{}] }] }] }]

/-- A last defined parameter in Lua hides the draw definable one, and a draw definable parameter
given by an RPN formula is followed by itself. -/
theorem not_enumerates_lua_rpn :
    ¬ Enumerates ⟨oneDevice, [{ ftype := .luaVA }], [{ ftype := .definable }]⟩ ∧
      ¬ Enumerates ⟨oneDevice, [], [{ ftype := .rpn }]⟩ := by
  have hlasts : ∀ cfg : SzarpConfig, cfg.drawDefinable ≠ [] → ¬ cfg.LastsTyped →
      ¬ cfg.Enumerates := by
    intro cfg hne hlast h
    obtain ⟨n, hn⟩ := h.walk
    exact (follows_paramPtrs.mp (Walk.follows_of_collect hn).1).elim hne hlast
  constructor
  · apply hlasts _ (List.cons_ne_nil _ _)
    intro h
    exact h.1 _ rfl (.inr (.inl rfl))
  · apply hlasts _ (List.cons_ne_nil _ _)
    intro h
    obtain h | h | h := h.2 _ rfl <;> exact FormulaType.noConfusion h

end SzarpConfig
end Ipk
end Szarp
