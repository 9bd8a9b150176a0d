import Szarp.Ipk.ParamsAgree

/-!
# Where the two loaders agree

The tree parser and the reader on one document. They read the attributes of a device and the
definition of a parameter in different ways, and agree exactly on the documents where that makes no
difference.
-/

namespace Szarp
namespace Ipk

open Xml Numeral

namespace Document

open Reader

/-! ## Devices -/

def UnitElem.params (u : UnitElem) : List ParamElem :=
  (elems u.inner).filterMap fun
    | .param p => some p
    | .send _ => none

def UnitElem.Agrees (u : UnitElem) : Prop := ∀ p ∈ u.params, p.Agrees

section Devices

variable {F : Type} {conv : Conversions F}

theorem unitTrees_loc {loc : String} (h : loc ≠ "period") (name : Name) (hname : unitTrees name) :
    name.loc ≠ loc := by
  rw [unitTrees, decide_eq_true_iff] at hname
  rw [hname]
  exact Ne.symm h

theorem UnitElem.node_named (u : UnitElem) :
    u.node.named "param" = u.params.map ParamElem.node := by
  have hfilter := filter_nodesOf UnitItem.node u.inner
    (unitTrees_loc (show "param" ≠ "period" by decide))
  rw [Node.named]
  refine hfilter.trans ?_
  unfold UnitElem.params
  induction elems u.inner with
  | nil => rfl
  | cons i items ih =>
    rw [List.map_cons]
    cases i with
    | param p =>
      rw [List.filter_cons_of_pos (by simp [UnitItem.node, ParamElem.node, elementNode_loc]), ih]
      rfl
    | send l =>
      rw [List.filter_cons_of_neg (by simp [UnitItem.node, Leaf.node, elementNode_loc]), ih]
      rfl

theorem unitAttr_spec {u u' : Unit} {kv : String × String} (h : unitAttr u kv = some u') :
    u'.id = (if kv.1 = "id" then firstChar kv.2 else u.id) ∧
      u'.type = (if kv.1 = "type" then atoi kv.2 else u.type) ∧
      u'.subtype = (if kv.1 = "subtype" then atoi kv.2 else u.subtype) ∧
      u'.bufsize = (if kv.1 = "bufsize" then atoi kv.2 else u.bufsize) ∧
      u'.params = u.params := by
  obtain ⟨k, c⟩ := kv
  have hcast := @atoi_of_lexicalCast c
  simp only [unitAttr] at h
  split_ifs at h <;>
    simp only [Option.some.injEq, Option.map_eq_some_iff] at h <;> grind

theorem foldlM_unitAttr {a : Attrs} {u : Unit} (h : a.list.foldlM unitAttr {} = some u) :
    u.id = ((a.get "id").map firstChar).getD '\x00' ∧
      u.type = ((a.get "type").map atoi).getD 0 ∧
      u.subtype = ((a.get "subtype").map atoi).getD 0 ∧
      u.bufsize = ((a.get "bufsize").map atoi).getD 0 ∧ u.params = [] := by
  refine ⟨?_, ?_, ?_, ?_, ?_⟩
  · exact a.field_foldlM Unit.id "id" firstChar (fun _ _ _ h => (unitAttr_spec h).1) h
  · exact a.field_foldlM Unit.type "type" atoi (fun _ _ _ h => (unitAttr_spec h).2.1) h
  · exact a.field_foldlM Unit.subtype "subtype" atoi (fun _ _ _ h => (unitAttr_spec h).2.2.1) h
  · exact a.field_foldlM Unit.bufsize "bufsize" atoi (fun _ _ _ h => (unitAttr_spec h).2.2.2.1) h
  · exact Attrs.foldlM_const Unit.params (fun _ _ _ h => (unitAttr_spec h).2.2.2.2) h

theorem foldlM_unitItems {items : List UnitItem} {u u' : Unit}
    (h : items.foldlM (UnitItem.read conv) u = some u') :
    ∃ ps, (items.filterMap fun
        | .param p => some p
        | .send _ => none).mapM (ParamElem.read conv) = some ps ∧
      u' = { u with params := u.params ++ ps } := by
  induction items generalizing u with
  | nil => exact ⟨[], rfl, by rw [← Option.some.inj h, List.append_nil]⟩
  | cons i items ih =>
    rw [List.foldlM_cons, Option.bind_eq_bind, Option.bind_eq_some_iff] at h
    obtain ⟨u₁, hu₁, h⟩ := h
    obtain ⟨ps, hps, rfl⟩ := ih h
    cases i with
    | param p =>
      obtain ⟨q, hq, rfl⟩ := Option.map_eq_some_iff.mp hu₁
      refine ⟨q :: ps, Traverse.mapM_cons_eq_some.mpr ⟨q, ps, hq, hps, rfl⟩, ?_⟩
      simp
    | send l =>
      obtain ⟨-, hu₁⟩ := Option.ite_none_right_eq_some.mp hu₁
      rw [← Option.some.inj hu₁]
      exact ⟨ps, hps, rfl⟩

theorem UnitElem.agrees_iff {u : UnitElem} {d r : Unit} (hdom : Dom.parseUnit u.node = some d)
    (hread : u.read conv = some r) : d.compared = r.compared ↔ u.Agrees := by
  have hprop : ∀ key, u.node.prop key = u.attrs.get key := fun _ => rfl
  unfold Dom.parseUnit at hdom
  simp only [hprop, Option.bind_eq_bind, Option.bind_eq_some_iff, u.node_named] at hdom
  obtain ⟨id, hid, hdom⟩ := hdom
  split at hdom
  · exact nomatch hdom
  · simp only [Option.bind_eq_some_iff, Option.pure_def, Option.some.injEq] at hdom
    obtain ⟨type, htype, subtype, hsubtype, bufsize, hbufsize, params, hparams, sends, -, rfl⟩ :=
      hdom
    rw [UnitElem.read, Option.ite_none_left_eq_some, Option.bind_eq_bind,
      Option.bind_eq_some_iff] at hread
    obtain ⟨-, u₀, hu₀, hread⟩ := hread
    obtain ⟨hid', htype', hsubtype', hbufsize', hparams'⟩ := foldlM_unitAttr hu₀
    obtain ⟨ps, hps, rfl⟩ := foldlM_unitItems hread
    rw [List.mapM_map] at hparams
    have hlist := Traverse.map_eq_map_iff (c := Param.compared) (A := ParamElem.Agrees)
      (fun p _ d r hd hr => ParamElem.agrees_iff hd hr) hparams hps
    simp only [Unit.compared, Unit.mk.injEq, hid', htype', hsubtype', hbufsize', hparams', hid,
      htype, hsubtype, hbufsize, Option.map_some, Option.getD_some, List.nil_append, true_and,
      and_true]
    exact hlist

theorem readUnits_eq (r : Radio) (us : List UnitElem) :
    readUnits conv r us = (us.mapM (UnitElem.read conv)).map fun us =>
      { r with units := r.units ++ us } := by
  induction us generalizing r with
  | nil => simp [readUnits]
  | cons u us ih =>
    rw [readUnits, List.foldlM_cons, List.mapM_cons]
    cases u.read conv with
    | none => rfl
    | some u' =>
      refine (ih _).trans ?_
      cases us.mapM (UnitElem.read conv) <;> simp

theorem filter_units {nodes : List (Child unitTrees UnitElem)} :
    (nodesOf UnitElem.node nodes).filter (fun c => c.loc = some "unit") =
      (elems nodes).map UnitElem.node := by
  rw [filter_nodesOf UnitElem.node nodes (unitTrees_loc (by decide))]
  apply List.filter_eq_self.mpr
  intro n hn
  obtain ⟨u, -, rfl⟩ := List.mem_map.mp hn
  rfl

theorem units_agree_iff {us : List UnitElem} {ds rs : List Unit}
    (hdom : (us.map UnitElem.node).mapM Dom.parseUnit = some ds)
    (hread : us.mapM (UnitElem.read conv) = some rs) :
    ds.map Unit.compared = rs.map Unit.compared ↔ ∀ u ∈ us, u.Agrees := by
  rw [List.mapM_map] at hdom
  exact Traverse.map_eq_map_iff (fun u _ d r hd hr => UnitElem.agrees_iff hd hr) hdom hread

theorem RadioElem.agrees_iff {e : RadioElem} {d r : Radio}
    (hdom : Dom.parseRadio e.node = some d) (hread : e.read conv = some r) :
    d.compared = r.compared ↔ ∀ u ∈ elems e.inner, u.Agrees := by
  have hnamed : e.node.named "unit" = (elems e.inner).map UnitElem.node := filter_units
  have hid : Dom.radioId e.node = (e.attrs.get "id").map firstChar := rfl
  simp only [Dom.parseRadio, hnamed, hid, Option.bind_eq_bind, Option.bind_eq_some_iff,
    Option.map_eq_some_iff] at hdom
  obtain ⟨-, ⟨id, hid, rfl⟩, ds, hds, hdom⟩ := hdom
  obtain ⟨-, hdom⟩ := Option.ite_none_left_eq_some.mp hdom
  obtain rfl := Option.some.inj hdom
  simp only [RadioElem.read, hid, readUnits_eq, Option.bind_eq_bind, Option.bind_eq_some_iff,
    Option.map_eq_some_iff] at hread
  obtain ⟨-, ⟨rs, hrs, rfl⟩, hread⟩ := hread
  obtain ⟨-, hread⟩ := Option.ite_none_left_eq_some.mp hread
  obtain rfl := Option.some.inj hread
  simp only [Radio.compared, Radio.mk.injEq, List.nil_append, true_and]
  exact units_agree_iff hds hrs

theorem deviceAttr_spec {d d' : Device} {kv : String × String} (h : deviceAttr d kv = some d') :
    d'.daemon = (if kv.1 = "daemon" then kv.2 else d.daemon) ∧
      d'.path = (if kv.1 = "path" then kv.2 else d.path) ∧
      d'.speed = (if kv.1 = "speed" then atoi kv.2 else d.speed) ∧
      d'.stop = (if kv.1 = "stop" then atoi kv.2 else d.stop) ∧
      d'.protocol = (if kv.1 = "protocol" then atoi kv.2 else d.protocol) ∧
      (d'.special, d'.specialValue) =
        (if kv.1 = "special" then (true, atoi kv.2) else (d.special, d.specialValue)) ∧
      d'.options = (if kv.1 = "options" then kv.2 else d.options) ∧
      d'.radios = d.radios := by
  obtain ⟨k, c⟩ := kv
  have hcast := @atoi_of_lexicalCast c
  simp only [deviceAttr] at h
  split_ifs at h <;>
    simp only [Option.some.injEq, Option.map_eq_some_iff] at h <;> grind

/-- The attributes of a device as the reader takes them, each by itself. -/
def deviceOf (a : Attrs) : Device :=
  let special := ((a.get "special").map fun c => (true, atoi c)).getD (false, 0)
  { daemon := (a.get "daemon").getD ""
    path := (a.get "path").getD ""
    speed := ((a.get "speed").map atoi).getD (-1)
    stop := ((a.get "stop").map atoi).getD (-1)
    protocol := ((a.get "protocol").map atoi).getD (-1)
    special := special.1
    specialValue := special.2
    options := (a.get "options").getD "" }

theorem foldlM_deviceAttr {a : Attrs} {d : Device} (h : a.list.foldlM deviceAttr {} = some d) :
    d = deviceOf a := by
  have hdaemon := a.field_foldlM Device.daemon "daemon" id (fun _ _ _ h => (deviceAttr_spec h).1) h
  have hpath := a.field_foldlM Device.path "path" id (fun _ _ _ h => (deviceAttr_spec h).2.1) h
  have hspeed := a.field_foldlM Device.speed "speed" atoi
    (fun _ _ _ h => (deviceAttr_spec h).2.2.1) h
  have hstop := a.field_foldlM Device.stop "stop" atoi
    (fun _ _ _ h => (deviceAttr_spec h).2.2.2.1) h
  have hprotocol := a.field_foldlM Device.protocol "protocol" atoi
    (fun _ _ _ h => (deviceAttr_spec h).2.2.2.2.1) h
  have hspecial := a.field_foldlM (fun d => (d.special, d.specialValue)) "special"
    (fun c => (true, atoi c)) (fun _ _ _ h => (deviceAttr_spec h).2.2.2.2.2.1) h
  have hoptions := a.field_foldlM Device.options "options" id
    (fun _ _ _ h => (deviceAttr_spec h).2.2.2.2.2.2.1) h
  have hradios := Attrs.foldlM_const Device.radios
    (fun _ _ _ h => (deviceAttr_spec h).2.2.2.2.2.2.2) h
  obtain ⟨daemon, path, speed, stop, protocol, special, specialValue, options, radios⟩ := d
  simp only [Option.map_id_fun, id] at hdaemon hpath hoptions
  simp only [deviceOf, Device.mk.injEq]
  exact ⟨hdaemon, hpath, hspeed, hstop, hprotocol, congrArg Prod.fst hspecial,
    congrArg Prod.snd hspecial, hoptions, hradios⟩

/-- The attributes of a device where the tree parser reads them all. -/
def AttrsAgree (a : Attrs) : Prop :=
  (a.get "path" = none → ((a.get "stop").map atoi).getD (-1) = -1) ∧
    (a.get "path" = none ∨ a.get "stop" = none → ((a.get "protocol").map atoi).getD (-1) = -1)

theorem deviceAttrs_eq_iff {node : Node} {a : Attrs} (hprop : ∀ key, node.prop key = a.get key)
    (hdaemon : (a.get "daemon").isSome) :
    Dom.deviceSpecial (Dom.deviceAttrs node) (node.prop "special") = deviceOf a ↔ AttrsAgree a := by
  obtain ⟨daemon, hdaemon⟩ := Option.isSome_iff_exists.mp hdaemon
  simp only [Dom.deviceAttrs, hprop, hdaemon, deviceOf, AttrsAgree]
  cases a.get "path" <;> cases a.get "stop" <;> cases a.get "protocol" <;>
    cases a.get "special" <;> simp [Dom.deviceSpecial, eq_comm]

theorem foldlM_addRadio (rs : List RadioElem) (d : Device) :
    rs.foldlM (addRadio conv) d = (rs.mapM (RadioElem.read conv)).map fun rs =>
      { d with radios := d.radios ++ rs } := by
  induction rs generalizing d with
  | nil => simp
  | cons r rs ih =>
    rw [List.foldlM_cons, List.mapM_cons, addRadio]
    cases r.read conv with
    | none => rfl
    | some r' =>
      refine (ih _).trans ?_
      cases rs.mapM (RadioElem.read conv) <;> simp

theorem DeviceElem.compared_iff {d e : Device} {ds rs : List Radio} (hd : d.radios = [])
    (he : e.radios = []) : { d with radios := ds }.compared = { e with radios := rs }.compared ↔
      d = e ∧ ds.map Radio.compared = rs.map Radio.compared := by
  obtain ⟨daemon, path, speed, stop, protocol, special, specialValue, options, radios⟩ := d
  obtain ⟨daemon', path', speed', stop', protocol', special', specialValue', options', radios'⟩ := e
  obtain rfl : radios = [] := hd
  obtain rfl : radios' = [] := he
  simp [Device.compared, and_assoc]

theorem domAttrs_radios (node : Node) (special : Option String) :
    (Dom.deviceSpecial (Dom.deviceAttrs node) special).radios = [] := by
  have hattrs : (Dom.deviceAttrs node).radios = [] := by
    unfold Dom.deviceAttrs
    split
    · rfl
    · split
      · rfl
      · split
        · rfl
        · split <;> rfl
  cases special with
  | none => exact hattrs
  | some c => exact hattrs

theorem named_units {before : List Blank} {first : UnitElem}
    {rest : List (Child unitTrees UnitElem)} {loc : String} (h : loc ≠ "period") :
    (DeviceInner.units before first rest).nodes.filter (fun c => c.loc = some loc) =
      ((first :: elems rest).map UnitElem.node).filter fun c => c.loc = some loc := by
  have hblanks : (before.map Blank.node).filter (fun c => c.loc = some loc) = [] := by
    rw [List.filter_eq_nil_iff]
    intro n hn
    obtain ⟨b, -, rfl⟩ := List.mem_map.mp hn
    cases b <;> exact nofun
  have hunits := filter_nodesOf UnitElem.node (Child.elem first :: rest) (unitTrees_loc h)
  rw [DeviceInner.nodes, List.filter_append, hblanks, List.nil_append]
  exact hunits

def DeviceInner.units' : DeviceInner → List UnitElem
  | radios inner _ => (elems inner).flatMap fun r => elems r.inner
  | units _ first rest => first :: elems rest

/-- The attributes of a device are read alike and its parameters agree. -/
def DeviceElem.Agrees (d : DeviceElem) : Prop :=
  AttrsAgree d.attrs ∧ ∀ u ∈ d.inner.units', u.Agrees

theorem DeviceElem.agrees_iff {e : DeviceElem} {d r : Device}
    (hdom : Dom.parseDevice e.node = some d) (hread : e.read conv = some r) :
    d.compared = r.compared ↔ e.Agrees := by
  have hprop : ∀ key, e.node.prop key = e.attrs.get key := fun _ => rfl
  rw [DeviceElem.read, Option.ite_none_left_eq_some, Option.bind_eq_bind,
    Option.bind_eq_some_iff] at hread
  obtain ⟨hvalid, d₀, hd₀, hread⟩ := hread
  obtain rfl := foldlM_deviceAttr hd₀
  have hdaemon : (e.attrs.get "daemon").isSome := by
    simpa [areValidAttr, Option.isSome_iff_ne_none] using hvalid
  have hattrs := deviceAttrs_eq_iff hprop hdaemon
  have hradios := domAttrs_radios e.node (e.node.prop "special")
  unfold Dom.parseDevice at hdom
  unfold DeviceElem.Agrees
  cases hinner : e.inner with
  | radios inner hsome =>
    have hnamed : e.node.named "radio" = (elems inner).map RadioElem.node := by
      have hchildren : e.node.children = nodesOf RadioElem.node inner := by
        rw [DeviceElem.node, hinner]
        rfl
      rw [Node.named, hchildren,
        filter_nodesOf RadioElem.node inner fun _ h => absurd h Bool.false_ne_true]
      apply List.filter_eq_self.mpr
      intro n hn
      obtain ⟨r, -, rfl⟩ := List.mem_map.mp hn
      rfl
    rw [hinner, DeviceInner.read, foldlM_addRadio, Option.map_eq_some_iff] at hread
    obtain ⟨rs, hrs, rfl⟩ := hread
    rw [if_neg (by simpa [hnamed] using hsome), Option.ite_none_left_eq_some,
      Option.bind_eq_bind, Option.bind_eq_some_iff, hnamed, List.mapM_map] at hdom
    obtain ⟨-, ds, hds, hdom⟩ := hdom
    obtain rfl := Option.some.inj hdom
    have hlist := Traverse.map_eq_map_iff (c := Radio.compared)
      (A := fun r : RadioElem => ∀ u ∈ elems r.inner, u.Agrees)
      (fun r _ d r' hd hr => RadioElem.agrees_iff hd hr) hds hrs
    rw [DeviceElem.compared_iff hradios rfl, hattrs]
    simp only [deviceOf, List.nil_append, hlist, DeviceInner.units', List.forall_mem_flatMap]
  | units before first rest =>
    have hchildren : e.node.children = (DeviceInner.units before first rest).nodes := by
      rw [DeviceElem.node, hinner]
      rfl
    have hnone : e.node.named "radio" = [] := by
      rw [Node.named, hchildren, named_units (by decide), List.filter_eq_nil_iff]
      intro n hn
      obtain ⟨u, -, rfl⟩ := List.mem_map.mp hn
      simp [UnitElem.node, Node.loc]
    have hunits : e.node.named "unit" = (first :: elems rest).map UnitElem.node := by
      rw [Node.named, hchildren, named_units (by decide)]
      apply List.filter_eq_self.mpr
      intro n hn
      obtain ⟨u, -, rfl⟩ := List.mem_map.mp hn
      rfl
    have hid : Dom.radioId e.node = some '\x00' := rfl
    simp only [hinner, DeviceInner.read, readUnits_eq, Option.bind_eq_bind, Option.bind_eq_some_iff,
      Option.map_eq_some_iff] at hread
    obtain ⟨-, ⟨rs, hrs, rfl⟩, hread⟩ := hread
    obtain ⟨-, hread⟩ := Option.ite_none_left_eq_some.mp hread
    obtain rfl := Option.some.inj hread
    simp only [hnone, if_true, Dom.parseRadio, hid, hunits, Option.bind_eq_bind,
      Option.bind_eq_some_iff, Option.bind_some] at hdom
    obtain ⟨radio, ⟨ds, hds, hradio⟩, hdom⟩ := hdom
    obtain ⟨-, hradio⟩ := Option.ite_none_left_eq_some.mp hradio
    obtain rfl := Option.some.inj hradio
    obtain rfl := Option.some.inj hdom
    rw [DeviceElem.compared_iff hradios rfl, hattrs]
    simp only [deviceOf, List.nil_append, List.map_cons, List.map_nil, Radio.compared,
      List.cons.injEq, Radio.mk.injEq, true_and, and_true, units_agree_iff hds hrs,
      DeviceInner.units']

end Devices

/-! ## The document -/

def RootItem.device? : RootItem → Option DeviceElem
  | device d => some d
  | _ => none

def RootItem.definedParams : RootItem → List ParamElem
  | defined _ inner => elems inner
  | _ => []

def RootItem.drawParams : RootItem → List ParamElem
  | drawDefinable _ inner => elems inner
  | _ => []

/-- The trees that a loader makes of the children of the root, put behind what it has. -/
def Loads (f : DeviceElem → Option Device) (g : ParamElem → Option Param) (items : List RootItem)
    (t t' : SzarpConfig) : Prop :=
  ∃ ds ps qs, (items.filterMap RootItem.device?).mapM f = some ds ∧
    (items.flatMap RootItem.definedParams).mapM g = some ps ∧
    (items.flatMap RootItem.drawParams).mapM g = some qs ∧
    t' = ⟨t.devices ++ ds, t.defined ++ ps, t.drawDefinable ++ qs⟩

section Loads

variable {f : DeviceElem → Option Device} {g : ParamElem → Option Param}

theorem Loads.nil (t : SzarpConfig) : Loads f g [] t t := by
  refine ⟨[], [], [], rfl, rfl, rfl, ?_⟩
  simp

theorem Loads.cons {i : RootItem} {items : List RootItem} {t t₁ t₂ : SzarpConfig}
    (h₁ : Loads f g [i] t t₁) (h₂ : Loads f g items t₁ t₂) : Loads f g (i :: items) t t₂ := by
  obtain ⟨ds, ps, qs, hds, hps, hqs, rfl⟩ := h₁
  obtain ⟨ds', ps', qs', hds', hps', hqs', rfl⟩ := h₂
  have happend : i :: items = [i] ++ items := rfl
  refine ⟨ds ++ ds', ps ++ ps', qs ++ qs', ?_, ?_, ?_, ?_⟩
  · rw [happend, List.filterMap_append, List.mapM_append, hds, hds']
    rfl
  · rw [happend, List.flatMap_append, List.mapM_append, hps, hps']
    rfl
  · rw [happend, List.flatMap_append, List.mapM_append, hqs, hqs']
    rfl
  · simp

/-- A section comes at most once, and only while there is nothing of it. -/
def Fresh (k : RootItem → Bool) (ps : List Param) (items : List RootItem) : Prop :=
  ps = [] ∧ (items.filter k).length ≤ 1 ∨ items.filter k = []

theorem Fresh.head {k : RootItem → Bool} {ps : List Param} {i : RootItem} {items : List RootItem}
    (h : Fresh k ps (i :: items)) (hi : k i) : ps = [] := by
  obtain h | h := h
  · exact h.1
  · simp [hi] at h

theorem Fresh.tail {k : RootItem → Bool} {ps ps' : List Param} {i : RootItem}
    {items : List RootItem} (h : Fresh k ps (i :: items)) (hps : k i = false → ps' = ps) :
    Fresh k ps' items := by
  cases hi : k i with
  | false => simpa [Fresh, hi, hps hi] using h
  | true =>
    right
    obtain ⟨-, h⟩ | h := h
    · simpa [hi] using h
    · simp [hi] at h

variable {σ : Type} {t : σ → SzarpConfig} {step : σ → RootItem → Option σ}

/-- A loop over the children of the root loads them when each step does. -/
theorem loads_foldlM (hstep : ∀ {s i s'}, Fresh RootItem.isDefined (t s).defined [i] →
      Fresh RootItem.isDrawDefinable (t s).drawDefinable [i] → step s i = some s' →
      Loads f g [i] (t s) (t s'))
    {items : List RootItem} {s s' : σ} (hdefined : Fresh RootItem.isDefined (t s).defined items)
    (hdraw : Fresh RootItem.isDrawDefinable (t s).drawDefinable items)
    (h : items.foldlM step s = some s') : Loads f g items (t s) (t s') := by
  induction items generalizing s with
  | nil =>
    rw [← Option.some.inj h]
    exact Loads.nil _
  | cons i items ih =>
    rw [List.foldlM_cons, Option.bind_eq_bind, Option.bind_eq_some_iff] at h
    obtain ⟨s₁, hs₁, h⟩ := h
    have hone : ∀ {k ps}, Fresh k ps (i :: items) → Fresh k ps [i] := by
      intro k ps hfresh
      cases hi : k i with
      | false => exact .inr (by simp [hi])
      | true => exact .inl ⟨hfresh.head hi, by simp [hi]⟩
    have hload := hstep (hone hdefined) (hone hdraw) hs₁
    apply hload.cons
    obtain ⟨ds, ps, qs, -, hps, hqs, htree⟩ := hload
    refine ih (hdefined.tail ?_) (hdraw.tail ?_) h
    · intro hi
      have hnil : [i].flatMap RootItem.definedParams = [] := by
        cases i <;> first | rfl | exact nomatch hi
      rw [hnil] at hps
      simp [htree, ← Option.some.inj hps]
    · intro hi
      have hnil : [i].flatMap RootItem.drawParams = [] := by
        cases i <;> first | rfl | exact nomatch hi
      rw [hnil] at hqs
      simp [htree, ← Option.some.inj hqs]

end Loads

section Root

variable {F : Type} {conv : Conversions F}

theorem read_loads {cfg cfg' : SzarpConfig} {i : RootItem}
    (hdefined : Fresh RootItem.isDefined cfg.defined [i])
    (hdraw : Fresh RootItem.isDrawDefinable cfg.drawDefinable [i])
    (h : i.read conv cfg = some cfg') :
    Loads (DeviceElem.read conv) (ParamElem.read conv) [i] cfg cfg' := by
  cases i with
  | device d =>
    obtain ⟨r, hr, rfl⟩ := Option.map_eq_some_iff.mp h
    refine ⟨[r], [], [], ?_, rfl, rfl, ?_⟩
    · simp [RootItem.device?, hr]
    · simp
  | defined a inner =>
    have hnil := hdefined.head rfl
    obtain ⟨ps, hps, rfl⟩ := Option.map_eq_some_iff.mp h
    have hmapM : (elems inner).mapM (ParamElem.read conv) = some ps := by
      simpa using (Traverse.foldlM_snoc (f := ParamElem.read conv) (elems inner) []).symm.trans hps
    refine ⟨[], ps, [], rfl, ?_, rfl, ?_⟩
    · simpa [RootItem.definedParams] using hmapM
    · obtain ⟨devices, defined, draw⟩ := cfg
      obtain rfl : defined = [] := hnil
      split <;> simp_all
  | drawDefinable a inner =>
    have hnil := hdraw.head rfl
    obtain ⟨ps, hps, rfl⟩ := Option.map_eq_some_iff.mp h
    have hmapM : (elems inner).mapM (ParamElem.read conv) = some ps := by
      simpa using (Traverse.foldlM_snoc (f := ParamElem.read conv) (elems inner) []).symm.trans hps
    refine ⟨[], [], ps, rfl, rfl, ?_, ?_⟩
    · simpa [RootItem.drawParams] using hmapM
    · obtain ⟨devices, defined, draw⟩ := cfg
      obtain rfl : draw = [] := hnil
      split <;> simp_all
  | seasons a inner =>
    obtain ⟨-, h⟩ := Option.ite_none_right_eq_some.mp h
    obtain rfl := Option.some.inj h
    refine ⟨[], [], [], rfl, rfl, rfl, ?_⟩
    simp
  | boilers a inner =>
    obtain ⟨-, h⟩ := Option.ite_none_right_eq_some.mp h
    obtain rfl := Option.some.inj h
    refine ⟨[], [], [], rfl, rfl, rfl, ?_⟩
    simp

theorem RootItem.section_named (name : Name) (a : Attrs) (inner : List (Child noTrees ParamElem)) :
    (Node.element name a (nodesOf ParamElem.node inner)).named "param" =
      (elems inner).map ParamElem.node := by
  rw [Node.named, Node.children,
    filter_nodesOf ParamElem.node inner fun _ h => absurd h Bool.false_ne_true]
  apply List.filter_eq_self.mpr
  intro n hn
  obtain ⟨p, -, rfl⟩ := List.mem_map.mp hn
  simp [ParamElem.node, elementNode_loc]

/-- What the tree parser does at a child of the root. -/
def RootItem.parse (conv : Conversions F) (s : Dom.State F) (i : RootItem) :
    Option (Dom.State F) :=
  Dom.parseChild conv s i.node

theorem parse_loads {s s' : Dom.State F} {i : RootItem}
    (hdefined : Fresh RootItem.isDefined s.config.tree.defined [i])
    (hdraw : Fresh RootItem.isDrawDefinable s.config.tree.drawDefinable [i])
    (h : i.parse conv s = some s') :
    Loads (fun d => Dom.parseDevice d.node) (fun p => Dom.parseParam false p.node) [i]
      s.config.tree s'.config.tree := by
  -- one case for each child of the root; only the first three put something behind what is there
  cases i with
  | device d =>
    have hloc : (RootItem.device d).node.loc = some "device" := rfl
    rw [RootItem.parse, Dom.parseChild] at h
    simp only [hloc, if_true, Option.bind_eq_bind, Option.bind_eq_some_iff] at h
    obtain ⟨r, hr, h⟩ := h
    obtain rfl := Option.some.inj h
    refine ⟨[r], [], [], ?_, rfl, rfl, ?_⟩
    · have hr' : Dom.parseDevice d.node = some r := hr
      simp [RootItem.device?, hr']
    · simp
  | defined a inner =>
    have hnil := hdefined.head rfl
    have hloc : (RootItem.defined a inner).node.loc = some "defined" := rfl
    have hnamed : (RootItem.defined a inner).node.named "param" = (elems inner).map ParamElem.node :=
      RootItem.section_named _ _ _
    rw [RootItem.parse, Dom.parseChild] at h
    simp only [hloc, hnamed, Option.some.injEq, String.reduceEq, if_false, if_true,
      Option.bind_eq_bind, Option.bind_eq_some_iff, List.mapM_map] at h
    obtain ⟨ps, hps, h⟩ := h
    obtain rfl := Option.some.inj h
    refine ⟨[], ps, [], rfl, ?_, rfl, ?_⟩
    · simpa [RootItem.definedParams, Function.comp_def] using hps
    -- `addSection` begins a list with the first parameters, and the tree had none of this section
    · by_cases hempty : ps = []
      · simp [Dom.addSection, hempty]
      · simp [Dom.addSection, hempty, hnil, Dom.appendTo]
  | drawDefinable a inner =>
    have hnil := hdraw.head rfl
    have hloc : (RootItem.drawDefinable a inner).node.loc = some "drawdefinable" := rfl
    have hnamed : (RootItem.drawDefinable a inner).node.named "param" =
        (elems inner).map ParamElem.node := RootItem.section_named _ _ _
    rw [RootItem.parse, Dom.parseChild] at h
    simp only [hloc, hnamed, Option.some.injEq, String.reduceEq, if_false, if_true,
      Option.bind_eq_bind, Option.bind_eq_some_iff, List.mapM_map] at h
    obtain ⟨ps, hps, h⟩ := h
    obtain rfl := Option.some.inj h
    refine ⟨[], [], ps, rfl, rfl, ?_, ?_⟩
    · simpa [RootItem.drawParams, Function.comp_def] using hps
    · by_cases hempty : ps = []
      · simp [Dom.addSection, hempty]
      · simp [Dom.addSection, hempty, hnil, Dom.appendTo]
  | seasons a inner =>
    have hloc : (RootItem.seasons a inner).node.loc = some "seasons" := elementNode_loc _ _ _
    rw [RootItem.parse, Dom.parseChild] at h
    simp only [hloc, Option.some.injEq, String.reduceEq, if_false, if_true, Option.bind_eq_bind,
      Option.bind_eq_some_iff] at h
    obtain ⟨seasons, -, h⟩ := h
    obtain rfl := Option.some.inj h
    refine ⟨[], [], [], rfl, rfl, rfl, ?_⟩
    simp
  | boilers a inner =>
    have hloc : (RootItem.boilers a inner).node.loc = some "boilers" := rfl
    rw [RootItem.parse, Dom.parseChild] at h
    simp only [hloc, Option.some.injEq, String.reduceEq, if_false, if_true, Option.bind_eq_bind,
      Option.bind_eq_some_iff] at h
    obtain ⟨boilers, -, h⟩ := h
    obtain rfl := Option.some.inj h
    refine ⟨[], [], [], rfl, rfl, rfl, ?_⟩
    simp

theorem foldlM_parseChild (cs : List (Child configTrees RootItem)) (s : Dom.State F) :
    (nodesOf RootItem.node cs).foldlM (Dom.parseChild conv) s =
      (elems cs).foldlM (RootItem.parse conv) s := by
  have hblank : ∀ (b : Blank) (s : Dom.State F), Dom.parseChild conv s b.node = some s := by
    intro b s
    cases b <;> rfl
  induction cs generalizing s with
  | nil => rfl
  | cons c cs ih =>
    have hcons : nodesOf RootItem.node (c :: cs) =
        c.nodes RootItem.node ++ nodesOf RootItem.node cs := rfl
    rw [hcons, List.foldlM_append]
    cases c with
    | blank b =>
      rw [Child.nodes, List.foldlM_cons, hblank]
      exact ih s
    | skipped t =>
      have htree : Dom.parseChild conv s (elementNode t.name t.attrs t.inner) = some s := by
        have hname : t.name.loc = "mobile" ∨ t.name.loc = "rules" := by
          have hignored := t.ignored
          rw [configTrees, decide_eq_true_iff] at hignored
          obtain hignored | hignored := hignored
          · exact .inl (congrArg Name.loc hignored)
          · exact .inr (congrArg Name.loc hignored)
        unfold Dom.parseChild
        rw [elementNode_loc]
        obtain hname | hname := hname <;> simp [hname]
      rw [Child.nodes, List.foldlM_cons, htree]
      simp only [Option.bind_eq_bind, Option.bind_some, List.foldlM_cons, hblank]
      exact ih s
    | elem i =>
      have helems : elems (Child.elem i :: cs) = i :: elems cs := rfl
      rw [helems, Child.nodes, List.foldlM_cons, List.foldlM_cons, RootItem.parse]
      cases Dom.parseChild conv s i.node with
      | none => rfl
      | some s' => exact ih s'

end Root

def RootItem.Agrees : RootItem → Prop
  | device d => d.Agrees
  | defined _ inner => ∀ p ∈ elems inner, p.Agrees
  | drawDefinable _ inner => ∀ p ∈ elems inner, p.Agrees
  | _ => True

/-- Every device and every defined parameter of a document agrees. -/
def Agrees (doc : Document) : Prop := ∀ i ∈ elems doc.inner, i.Agrees

theorem agrees_iff_lists (items : List RootItem) : (∀ i ∈ items, i.Agrees) ↔
    (∀ d ∈ items.filterMap RootItem.device?, d.Agrees) ∧
      (∀ p ∈ items.flatMap RootItem.definedParams, p.Agrees) ∧
      ∀ p ∈ items.flatMap RootItem.drawParams, p.Agrees := by
  have hone : ∀ i : RootItem, i.Agrees ↔ (∀ d, i.device? = some d → d.Agrees) ∧
      (∀ p ∈ i.definedParams, p.Agrees) ∧ ∀ p ∈ i.drawParams, p.Agrees := by
    intro i
    cases i <;> simp [RootItem.Agrees, RootItem.device?, RootItem.definedParams, RootItem.drawParams]
  simp only [hone, List.mem_filterMap, List.mem_flatMap]
  constructor
  · intro h
    refine ⟨?_, ?_, ?_⟩
    · rintro d ⟨i, hi, hd⟩
      exact (h i hi).1 d hd
    · rintro p ⟨i, hi, hp⟩
      exact (h i hi).2.1 p hp
    · rintro p ⟨i, hi, hp⟩
      exact (h i hi).2.2 p hp
  · rintro ⟨hdevices, hdefined, hdraw⟩ i hi
    exact ⟨fun d hd => hdevices d ⟨i, hi, hd⟩, fun p hp => hdefined p ⟨i, hi, hp⟩,
      fun p hp => hdraw p ⟨i, hi, hp⟩⟩

end Document

section LoadersAgree

variable {F : Type} {conv : Conversions F}

/-- A document that both loaders accept gives both the same configuration exactly when each of its
devices and parameters is one they read alike. -/
theorem loaders_agree_iff {doc : Document} {dom : Configuration F} {cfg : SzarpConfig}
    (hdom : Dom.parseXML conv doc.node = some dom) (hread : Reader.parseXML conv doc.node = some cfg) :
    dom.tree.compared = cfg.compared ↔ doc.Agrees := by
  rw [Reader.parseXML_eq, Document.read, Option.ite_none_right_eq_some] at hread
  obtain ⟨rs, ps, qs, hrs, hps, hqs, rfl⟩ := Document.loads_foldlM (t := id)
    Document.read_loads (.inl ⟨rfl, doc.single_defined⟩) (.inl ⟨rfl, doc.single_drawDefinable⟩)
    hread.2
  simp only [Dom.parseXML, Option.bind_eq_bind] at hdom
  obtain ⟨-, hdom⟩ := Option.ite_none_left_eq_some.mp hdom
  simp only [Option.bind_eq_some_iff] at hdom
  obtain ⟨version, -, title, -, hdom⟩ := hdom
  obtain ⟨-, hdom⟩ := Option.ite_none_left_eq_some.mp hdom
  simp only [Option.bind_eq_some_iff] at hdom
  obtain ⟨readFreq, -, sendFreq, -, s, hs, hdom⟩ := hdom
  obtain ⟨-, hdom⟩ := Option.ite_none_left_eq_some.mp hdom
  obtain rfl := Option.some.inj hdom
  have hchildren : doc.node.children = Document.nodesOf Document.RootItem.node doc.inner := rfl
  rw [hchildren, Document.foldlM_parseChild] at hs
  obtain ⟨ds, ps', qs', hds, hps', hqs', htree⟩ := Document.loads_foldlM
    (t := fun s => s.config.tree) Document.parse_loads (.inl ⟨rfl, doc.single_defined⟩)
    (.inl ⟨rfl, doc.single_drawDefinable⟩) hs
  have hdevices := Traverse.map_eq_map_iff (c := Device.compared)
    (fun d _ _ _ hd hr => Document.DeviceElem.agrees_iff hd hr) hds hrs
  have hdefined := Traverse.map_eq_map_iff (c := Param.compared)
    (fun p _ _ _ hd hr => Document.ParamElem.agrees_iff hd hr) hps' hps
  have hdraw := Traverse.map_eq_map_iff (c := Param.compared)
    (fun p _ _ _ hd hr => Document.ParamElem.agrees_iff hd hr) hqs' hqs
  rw [htree, Document.Agrees, Document.agrees_iff_lists, ← hdevices, ← hdefined, ← hdraw]
  simp [SzarpConfig.compared]

end LoadersAgree

/-! ### Two devices -/

/-- Conversions for documents where there is nothing to convert but whole numbers. -/
def wholeNumbers : Conversions ℤ where
  scanFloat := scanInt
  negative v := v < 0
  isFloat c := (scanInt c).isSome
  isDouble c := (scanInt c).isSome
  isDateTime _ := false

def lineUnit : Document.UnitElem where
  attrs := ⟨[("id", "1"), ("type", "1"), ("subtype", "1"), ("bufsize", "1")], by decide⟩
  inner := [.elem (.param
    { attrs := ⟨[("name", "Boiler:Inlet:Temperature"), ("short_name", "Tin"), ("unit", "C"),
        ("prec", "1")], by decide⟩
      inner := none
      single := by decide })]

def lineDocument (device : Attrs) : Document where
  attrs := ⟨[("version", "1.0"), ("title", "Line"), ("read_freq", "10"), ("send_freq", "10")],
    by decide⟩
  inner := [.elem (.device ⟨device, .units [] lineUnit []⟩)]
  single_defined := Nat.zero_le 1
  single_drawDefinable := Nat.zero_le 1

def serialLine : Attrs :=
  ⟨[("daemon", "/opt/szarp/bin/mbdmn"), ("path", "/dev/ttyS0"), ("speed", "9600"), ("stop", "1"),
    ("protocol", "2")], by decide⟩

def pathlessLine : Attrs :=
  ⟨[("daemon", "/opt/szarp/bin/mbdmn"), ("speed", "9600"), ("stop", "1")], by decide⟩

theorem serialLine_agrees : ∃ dom cfg,
    Dom.parseXML wholeNumbers (lineDocument serialLine).node = some dom ∧
      Reader.parseXML wholeNumbers (lineDocument serialLine).node = some cfg ∧
      dom.tree.compared = cfg.compared := by
  obtain ⟨dom, hdom⟩ := Option.isSome_iff_exists.mp
    (show (Dom.parseXML wholeNumbers (lineDocument serialLine).node).isSome by decide +kernel)
  obtain ⟨cfg, hread⟩ := Option.isSome_iff_exists.mp
    (show (Reader.parseXML wholeNumbers (lineDocument serialLine).node).isSome by decide +kernel)
  refine ⟨dom, cfg, hdom, hread, (loaders_agree_iff hdom hread).mpr ?_⟩
  have hattrs : Document.AttrsAgree serialLine := by
    constructor <;> decide
  have hparams : ∀ p ∈ lineUnit.params, p.Agrees := by
    intro p hp
    obtain rfl := List.mem_singleton.mp hp
    exact ⟨nofun, nofun⟩
  intro i hi
  obtain rfl := List.mem_singleton.mp hi
  refine ⟨hattrs, fun u hu => ?_⟩
  obtain rfl := List.mem_singleton.mp hu
  exact hparams

theorem pathlessLine_disagrees : ∃ dom cfg,
    Dom.parseXML wholeNumbers (lineDocument pathlessLine).node = some dom ∧
      Reader.parseXML wholeNumbers (lineDocument pathlessLine).node = some cfg ∧
      dom.tree.compared ≠ cfg.compared := by
  obtain ⟨dom, hdom⟩ := Option.isSome_iff_exists.mp
    (show (Dom.parseXML wholeNumbers (lineDocument pathlessLine).node).isSome by decide +kernel)
  obtain ⟨cfg, hread⟩ := Option.isSome_iff_exists.mp
    (show (Reader.parseXML wholeNumbers (lineDocument pathlessLine).node).isSome by decide +kernel)
  have hstops : (Dom.parseXML wholeNumbers (lineDocument pathlessLine).node).map
      (fun dom => dom.tree.devices.map Device.stop) = some [-1] := by decide +kernel
  have hstops' : (Reader.parseXML wholeNumbers (lineDocument pathlessLine).node).map
      (fun cfg => cfg.devices.map Device.stop) = some [1] := by decide +kernel
  rw [hdom, Option.map_some, Option.some.injEq] at hstops
  rw [hread, Option.map_some, Option.some.injEq] at hstops'
  refine ⟨dom, cfg, hdom, hread, fun h => ?_⟩
  have hdevices := congrArg (fun cfg => cfg.devices.map Device.stop) h
  simp only [SzarpConfig.compared, List.map_map] at hdevices
  have hstop : Device.stop ∘ Device.compared = Device.stop := rfl
  rw [hstop, hstops, hstops'] at hdevices
  exact absurd hdevices (by decide)

end Ipk
end Szarp
