import Szarp.Ipk.ReaderDocument
import Szarp.Lib.Traverse

/-!
# Where the two loaders agree on a parameter

What is compared of two configurations, and when the tree parser and the reader get the same of one
parameter. They differ in the precision of a parameter with values and in its definition.
-/

namespace Szarp
namespace Ipk

open Xml Numeral

/-! ## What is compared -/

def Param.compared (p : Param) : Param :=
  { name := p.name
    prec := p.prec
    baseInd := p.baseInd
    inbase := p.inbase
    formula := p.formula
    ftype := p.ftype }

def Unit.compared (u : Unit) : Unit :=
  { id := u.id
    type := u.type
    subtype := u.subtype
    bufsize := u.bufsize
    params := u.params.map Param.compared }

def Radio.compared (r : Radio) : Radio := ⟨r.id, r.units.map Unit.compared⟩

def Device.compared (d : Device) : Device := { d with radios := d.radios.map Radio.compared }

def SzarpConfig.compared (cfg : SzarpConfig) : SzarpConfig :=
  { devices := cfg.devices.map Device.compared
    defined := cfg.defined.map Param.compared
    drawDefinable := cfg.drawDefinable.map Param.compared }

/-- The fields that a definition does not change. -/
def Param.fixed (p : Param) : String × ℤ × ℤ × Bool := (p.name, p.prec, p.baseInd, p.inbase)

theorem Param.compared_eq_iff {p q : Param} : p.compared = q.compared ↔
    p.fixed = q.fixed ∧ p.formula = q.formula ∧ p.ftype = q.ftype := by
  simp [Param.compared, Param.fixed, and_assoc]

namespace Document

open Reader

/-! ## The conditions -/

def luaBeforeType (a : Attrs) : Prop :=
  "type" ∈ (a.list.dropWhile fun kv => kv.1 ≠ "lua_formula").map Prod.fst

/-- A Lua definition has no formula, and another one has no `lua_formula` that the reader takes for
its type. -/
def DefineAgrees (a : Attrs) : Prop :=
  if a.get "type" = some "LUA" then (a.get "formula").getD "" = ""
  else a.get "lua_formula" = none ∨
    (a.get "type" = some "RPN" ∨ a.get "type" = some "DRAWDEFINABLE") ∧ luaBeforeType a

def ParamElem.items (p : ParamElem) : List ParamItem := elems (p.inner.getD [])

def ParamItem.isValue : ParamItem → Bool
  | value .. => true
  | _ => false

def ParamItem.Agrees : ParamItem → Prop
  | define _ a _ => DefineAgrees a
  | _ => True

/-- A parameter with values has no precision, and its definition agrees. -/
def ParamElem.Agrees (p : ParamElem) : Prop :=
  (p.items.any ParamItem.isValue → ((p.attrs.get "prec").map atoi).getD 0 = 0) ∧
    ∀ i ∈ p.items, i.Agrees

/-! ## Trees -/

section Named

variable {trees : Name → Bool} {α : Type}

/-- Blanks and ignored trees are no elements of a name. -/
theorem filter_nodesOf (node : α → Node) (cs : List (Child trees α)) {loc : String}
    (h : ∀ name, trees name → name.loc ≠ loc) :
    (nodesOf node cs).filter (fun c => c.loc = some loc) =
      ((elems cs).map node).filter fun c => c.loc = some loc := by
  have hblank : ∀ b : Blank, b.node.loc ≠ some loc := by
    intro b
    cases b <;> exact nofun
  induction cs with
  | nil => rfl
  | cons c cs ih =>
    have hcons : nodesOf node (c :: cs) = c.nodes node ++ nodesOf node cs := rfl
    rw [hcons, List.filter_append, ih]
    cases c with
    | blank b => simp [Child.nodes, hblank, elems]
    | skipped t =>
      have ht : (elementNode t.name t.attrs t.inner).loc ≠ some loc := by
        have hne := h t.name t.ignored
        cases t.inner <;> simpa [elementNode, Node.loc] using hne
      simp [Child.nodes, hblank, ht, elems]
    | elem a =>
      have helems : elems (Child.elem a :: cs) = a :: elems cs := rfl
      rw [helems, List.map_cons, Child.nodes, ← List.filter_append]
      rfl

end Named

theorem elementNode_loc (name : Name) (a : Attrs) (inner : Option (List Node)) :
    (elementNode name a inner).loc = some name.loc := by
  cases inner <;> rfl

theorem elementNode_prop (name : Name) (a : Attrs) (inner : Option (List Node)) (key : String) :
    (elementNode name a inner).prop key = a.get key := by
  cases inner <;> rfl

theorem elementNode_children (name : Name) (a : Attrs) (inner : Option (List Node)) :
    (elementNode name a inner).children = inner.getD [] := by
  cases inner <;> rfl

def ParamItem.loc : ParamItem → String
  | value .. => "value"
  | raport .. => "raport"
  | analysis .. => "analysis"
  | draw .. => "draw"
  | define .. => "define"

theorem ParamItem.node_loc (i : ParamItem) : i.node.loc = some i.loc := by
  cases i <;> exact elementNode_loc _ _ _

theorem ParamElem.node_named (p : ParamElem) {loc : String} (hdoc : loc ≠ "doc")
    (heditable : loc ≠ "editable") :
    p.node.named loc = (p.items.filter fun i => i.loc = loc).map ParamItem.node := by
  have htrees : ∀ name, paramTrees name → name.loc ≠ loc := by
    intro name hname hloc
    simp [paramTrees, hloc, hdoc, heditable] at hname
  have hchildren : p.node.children = nodesOf ParamItem.node (p.inner.getD []) := by
    rw [ParamElem.node, elementNode_children]
    cases p.inner <;> rfl
  rw [Node.named, hchildren, filter_nodesOf ParamItem.node _ htrees, List.filter_map]
  congr 1
  apply List.filter_congr
  intro i _
  simp [i.node_loc]

/-! ## Parameters -/

def baseIndOf (c : String) : ℤ × Bool := if c = "auto" then (-1, true) else (atoi c, 0 ≤ atoi c)

def typeFtype (t : FormulaType) (c : String) : FormulaType :=
  if c = "RPN" then .rpn else if c = "DRAWDEFINABLE" then .definable else t

section Params

variable {F : Type} {conv : Conversions F}

theorem paramAttr_spec {s s' : ParamState} {kv : String × String}
    (h : paramAttr conv s kv = some s') :
    s'.param.name = (if kv.1 = "name" then kv.2 else s.param.name) ∧
      s'.param.prec = (if kv.1 = "prec" then atoi kv.2 else s.param.prec) ∧
      (s'.param.baseInd, s'.param.inbase) =
        (if kv.1 = "base_ind" then baseIndOf kv.2 else (s.param.baseInd, s.param.inbase)) ∧
      s'.param.formula = s.param.formula ∧ s'.param.ftype = s.param.ftype ∧
      s'.isFormula = s.isFormula := by
  obtain ⟨k, c⟩ := kv
  have hcast := @atoi_of_lexicalCast c
  simp only [paramAttr] at h
  split_ifs at h <;>
    simp only [Option.some.injEq, Option.map_eq_some_iff] at h <;>
    grind [Dom.setAutoBase, Dom.setBaseInd, baseIndOf]

theorem foldlM_paramAttr {a : Attrs} {s : ParamState}
    (h : a.list.foldlM (paramAttr conv) {} = some s) :
    s.param.fixed = ((a.get "name").getD "", ((a.get "prec").map atoi).getD 0,
        ((a.get "base_ind").map baseIndOf).getD (-1, false)) ∧
      s.param.formula = "" ∧ s.param.ftype = .none ∧ s.isFormula = false := by
  have hname := a.field_foldlM (fun s => s.param.name) "name" id
    (fun _ _ _ h => (paramAttr_spec h).1) h
  have hprec := a.field_foldlM (fun s => s.param.prec) "prec" atoi
    (fun _ _ _ h => (paramAttr_spec h).2.1) h
  have hbase := a.field_foldlM (fun s => (s.param.baseInd, s.param.inbase)) "base_ind" baseIndOf
    (fun _ _ _ h => (paramAttr_spec h).2.2.1) h
  have hformula := Attrs.foldlM_const (fun s => s.param.formula)
    (fun _ _ _ h => (paramAttr_spec h).2.2.2.1) h
  have hftype := Attrs.foldlM_const (fun s => s.param.ftype)
    (fun _ _ _ h => (paramAttr_spec h).2.2.2.2.1) h
  have hisFormula := Attrs.foldlM_const (fun s => s.isFormula)
    (fun _ _ _ h => (paramAttr_spec h).2.2.2.2.2) h
  refine ⟨?_, hformula, hftype, hisFormula⟩
  simp only [Param.fixed, hprec, ← hbase]
  simpa using hname

theorem defineAttr_spec {s s' : ParamState} {kv : String × String}
    (h : defineAttr conv s kv = some s') :
    s'.param.fixed = s.param.fixed ∧
      s'.param.ftype = (if kv.1 = "type" then typeFtype s.param.ftype kv.2
        else if kv.1 = "lua_formula" then (Dom.luaFormula kv.2).getD s.param.ftype
        else s.param.ftype) ∧
      (kv.1 ≠ "formula" → s'.param.formula = s.param.formula ∧ s'.isFormula = s.isFormula) ∧
      (kv.1 = "formula" → s.isFormula = false → s'.param.formula = kv.2) ∧
      (kv.1 = "lua_formula" → (Dom.luaFormula kv.2).isSome) := by
  obtain ⟨k, c⟩ := kv
  simp only [defineAttr] at h
  split_ifs at h <;>
    simp only [Option.some.injEq, Option.map_eq_some_iff] at h <;>
    grind [Param.fixed, typeAttr, typeFtype]

/-! ### Definitions -/

theorem foldlM_formula_frame {l : List (String × String)} (hl : "formula" ∉ l.map Prod.fst)
    {s s' : ParamState} (h : l.foldlM (defineAttr conv) s = some s') :
    s'.param.formula = s.param.formula := by
  induction l generalizing s with
  | nil => rw [Option.some.inj h]
  | cons kv l ih =>
    rw [List.foldlM_cons, Option.bind_eq_bind, Option.bind_eq_some_iff] at h
    obtain ⟨s₁, hs₁, h⟩ := h
    rw [List.map_cons, List.mem_cons, not_or] at hl
    rw [ih hl.2 h, ((defineAttr_spec hs₁).2.2.1 (Ne.symm hl.1)).1]

theorem foldlM_formula {l : List (String × String)} (hl : (l.map Prod.fst).Nodup)
    {s s' : ParamState} (hs : s.isFormula = false)
    (h : l.foldlM (defineAttr conv) s = some s') :
    s'.param.formula = (l.lookup "formula").getD s.param.formula := by
  induction l generalizing s with
  | nil => rw [Option.some.inj h]; rfl
  | cons kv l ih =>
    rw [List.foldlM_cons, Option.bind_eq_bind, Option.bind_eq_some_iff] at h
    obtain ⟨s₁, hs₁, h⟩ := h
    obtain ⟨k, v⟩ := kv
    rw [List.map_cons, List.nodup_cons] at hl
    by_cases hk : k = "formula"
    · subst hk
      rw [foldlM_formula_frame hl.1 h, (defineAttr_spec hs₁).2.2.2.1 rfl hs,
        List.lookup_cons_self]
      rfl
    · have hne : ("formula" == k) = false := by simpa using Ne.symm hk
      obtain ⟨hformula, hisFormula⟩ := (defineAttr_spec hs₁).2.2.1 hk
      rw [ih hl.2 (hisFormula.trans hs) h, hformula, List.lookup_cons, hne]

def ftypeStep (t : FormulaType) (kv : String × String) : FormulaType :=
  if kv.1 = "type" then typeFtype t kv.2
  else if kv.1 = "lua_formula" then (Dom.luaFormula kv.2).getD t
  else t

theorem foldlM_ftype {l : List (String × String)} {s s' : ParamState}
    (h : l.foldlM (defineAttr conv) s = some s') :
    s'.param.ftype = l.foldl ftypeStep s.param.ftype ∧
      ∀ v, ("lua_formula", v) ∈ l → (Dom.luaFormula v).isSome := by
  induction l generalizing s with
  | nil => exact ⟨by rw [Option.some.inj h]; rfl, nofun⟩
  | cons kv l ih =>
    rw [List.foldlM_cons, Option.bind_eq_bind, Option.bind_eq_some_iff] at h
    obtain ⟨s₁, hs₁, h⟩ := h
    obtain ⟨hftype, hlua⟩ := ih h
    refine ⟨?_, ?_⟩
    · rw [hftype, (defineAttr_spec hs₁).2.1]
      rfl
    · intro v hv
      obtain rfl | hv := List.mem_cons.mp hv
      · exact (defineAttr_spec hs₁).2.2.2.2 rfl
      · exact hlua v hv

theorem foldl_ftypeStep {l : List (String × String)} (hl : (l.map Prod.fst).Nodup)
    (hlua : "lua_formula" ∉ l.map Prod.fst) (t : FormulaType) :
    l.foldl ftypeStep t = ((l.lookup "type").map (typeFtype t)).getD t := by
  induction l generalizing t with
  | nil => rfl
  | cons kv l ih =>
    obtain ⟨k, v⟩ := kv
    rw [List.map_cons, List.mem_cons, not_or] at hlua
    rw [List.map_cons, List.nodup_cons] at hl
    rw [List.foldl_cons, ih hl.2 hlua.2]
    by_cases hk : k = "type"
    · subst hk
      have hnone : l.lookup "type" = none := by
        rw [List.lookup_eq_none_iff]
        intro kv hkv
        simpa using fun hkey : "type" = kv.1 => hl.1 (List.mem_map.mpr ⟨kv, hkv, hkey.symm⟩)
      rw [hnone, List.lookup_cons_self]
      rfl
    · have hne : ("type" == k) = false := by simpa using Ne.symm hk
      have hstep : ftypeStep t (k, v) = t := by
        rw [ftypeStep, if_neg hk, if_neg (Ne.symm hlua.1)]
      rw [List.lookup_cons, hne, hstep]

/-- With `lua_formula` what stands before it does not count. -/
theorem foldl_ftypeStep_lua {l : List (String × String)} (hl : (l.map Prod.fst).Nodup) {v : String}
    {u : FormulaType} (hv : l.lookup "lua_formula" = some v) (hu : Dom.luaFormula v = some u)
    (t : FormulaType) :
    l.foldl ftypeStep t = (((l.dropWhile fun kv => kv.1 ≠ "lua_formula").lookup "type").map
      (typeFtype u)).getD u := by
  induction l generalizing t with
  | nil => exact nomatch hv
  | cons kv l ih =>
    obtain ⟨k, c⟩ := kv
    rw [List.map_cons, List.nodup_cons] at hl
    rw [List.foldl_cons]
    by_cases hk : k = "lua_formula"
    · subst hk
      rw [List.lookup_cons_self] at hv
      obtain rfl := Option.some.inj hv
      have hstep : ftypeStep t ("lua_formula", c) = u := by
        rw [ftypeStep, if_neg (by simp), if_pos rfl, hu, Option.getD_some]
      have hne : ("type" == "lua_formula") = false := by decide
      rw [hstep, foldl_ftypeStep hl.2 hl.1, List.dropWhile_cons_of_neg (by simp),
        List.lookup_cons, hne]
    · have hne : ("lua_formula" == k) = false := by simpa using Ne.symm hk
      rw [List.lookup_cons, hne] at hv
      rw [ih hl.2 hv, List.dropWhile_cons_of_pos (by simpa using hk)]

theorem luaFormula_ne {c : String} {u : FormulaType} (h : Dom.luaFormula c = some u) :
    u ≠ .none ∧ u ≠ .rpn ∧ u ≠ .definable := by
  unfold Dom.luaFormula at h
  split at h <;> simp at h <;> simp [← h]

theorem newDef_fields (p : Param) (node : Node) :
    (Dom.newDef p node).compared = p.compared ∧ (Dom.newDef p node).paramType = p.paramType := by
  unfold Dom.newDef
  split <;> exact ⟨rfl, rfl⟩

theorem defineScript_fields {p p' : Param} {node : Node} (h : Dom.defineScript p node = some p') :
    p'.compared = p.compared ∧ p'.paramType = p.paramType := by
  unfold Dom.defineScript at h
  split at h
  · simp [← Option.some.inj h]
  · rw [Option.ite_none_left_eq_some] at h
    rw [← Option.some.inj h.2]
    exact newDef_fields _ node

/-- What the tree parser reads of a definition. -/
theorem parseDefine_spec {p p' : Param} {node : Node} (h : Dom.parseDefine p node = some p') :
    ∃ type, node.prop "type" = some type ∧
      if type = "LUA" then ∃ lua u, node.prop "lua_formula" = some lua ∧
        Dom.luaFormula lua = some u ∧ p'.compared = { p with ftype := u }.compared
      else ∃ formula, node.prop "formula" = some formula ∧
        p'.compared = { p with formula := formula, ftype := typeFtype p.ftype type }.compared := by
  simp only [Dom.parseDefine, Option.bind_eq_bind, Option.bind_eq_some_iff] at h
  obtain ⟨p₁, htype, p₂, hscript, h⟩ := h
  obtain ⟨hfields, hparamType⟩ := defineScript_fields hscript
  simp only [Dom.defineType, Option.bind_eq_bind, Option.bind_eq_some_iff] at htype
  obtain ⟨type, hprop, htype⟩ := htype
  refine ⟨type, hprop, ?_⟩
  by_cases hlua : type = "LUA"
  · subst hlua
    rw [if_pos rfl]
    simp only [String.reduceEq, if_false, if_true, Option.bind_eq_some_iff, Option.pure_def,
      Option.some.injEq] at htype
    obtain ⟨lua, hluaProp, u, hu, rfl⟩ := htype
    rw [if_pos (by rw [hparamType])] at h
    obtain rfl := Option.some.inj h
    exact ⟨lua, u, hluaProp, hu, hfields⟩
  · rw [if_neg hlua] at htype ⊢
    have hp₁ : p₁.paramType ≠ .lua ∧
        p₁.compared = { p with ftype := typeFtype p.ftype type }.compared := by
      unfold typeFtype
      split_ifs at htype ⊢ <;> simp [← Option.some.inj htype, Param.compared]
    rw [if_neg (by rw [hparamType]; exact hp₁.1), Option.bind_eq_some_iff] at h
    obtain ⟨formula, hformula, h⟩ := h
    refine ⟨formula, hformula, ?_⟩
    have hp₂ := hfields.trans hp₁.2
    have hp' : p'.compared = { p₂ with formula := formula }.compared := by
      rw [← Option.some.inj h]
      split
      · exact (newDef_fields _ node).1
      · rfl
    rw [hp']
    simp only [Param.compared, Param.mk.injEq] at hp₂ ⊢
    simp [hp₂]

/-- The attributes of a definition for the reader. -/
theorem readDefine_spec {a : Attrs} {s s' : ParamState} (h : readDefine conv s a = some s')
    (hs : s.isFormula = false) :
    s'.param.fixed = s.param.fixed ∧
      s'.param.formula = (a.get "formula").getD s.param.formula ∧
      s'.param.ftype = a.list.foldl ftypeStep s.param.ftype ∧
      ∀ v, a.get "lua_formula" = some v → (Dom.luaFormula v).isSome := by
  rw [readDefine, Option.ite_none_left_eq_some] at h
  obtain ⟨-, h⟩ := h
  have hfixed := Attrs.foldlM_const (fun s => s.param.fixed) (fun _ _ _ h => (defineAttr_spec h).1) h
  have hformula := foldlM_formula a.nodup (by exact hs) h
  refine ⟨hfixed, hformula, ?_, ?_⟩
  · exact (foldlM_ftype h).1
  · intro v hv
    exact (foldlM_ftype h).2 v (Attrs.get_eq_some.mp hv)

theorem lookup_dropWhile {a : Attrs} {f : String × String → Bool} {key c c' : String}
    (h : (a.list.dropWhile f).lookup key = some c') (hc : a.get key = some c) : c' = c := by
  have hsuffix := List.dropWhile_suffix (l := a.list) f
  have hnodup : ((a.list.dropWhile f).map Prod.fst).Nodup :=
    a.nodup.sublist (hsuffix.sublist.map Prod.fst)
  have hmem := hsuffix.subset ((Attrs.lookup_eq_some hnodup).mp h)
  rw [← Attrs.get_eq_some, hc] at hmem
  exact (Option.some.inj hmem).symm

/-- The type of the formula for the reader, where there is a `lua_formula`. -/
theorem foldl_ftypeStep_eq {a : Attrs} {type lua : String} {u : FormulaType}
    (htype : a.get "type" = some type) (hlua : a.get "lua_formula" = some lua)
    (hu : Dom.luaFormula lua = some u) (t : FormulaType) [Decidable (luaBeforeType a)] :
    a.list.foldl ftypeStep t = if luaBeforeType a then typeFtype u type else u := by
  rw [foldl_ftypeStep_lua a.nodup hlua hu]
  cases hlookup : (a.list.dropWhile fun kv => kv.1 ≠ "lua_formula").lookup "type" with
  | none =>
    have hnot : ¬ luaBeforeType a := by
      rw [List.lookup_eq_none_iff] at hlookup
      intro hmem
      obtain ⟨kv, hkv, hkey⟩ := List.mem_map.mp hmem
      simpa [hkey] using hlookup kv hkv
    rw [if_neg hnot]
    rfl
  | some c =>
    obtain rfl := lookup_dropWhile hlookup htype
    have hbefore : luaBeforeType a := by
      by_contra hnot
      have hnone : (a.list.dropWhile fun kv => kv.1 ≠ "lua_formula").lookup "type" = none := by
        rw [List.lookup_eq_none_iff]
        intro kv hkv
        simpa using fun hkey : "type" = kv.1 => hnot (List.mem_map.mpr ⟨kv, hkv, hkey.symm⟩)
      rw [hnone] at hlookup
      exact nomatch hlookup
    rw [if_pos hbefore]
    rfl

/-- The definitions agree exactly when they are read alike. -/
theorem defineAgrees_iff {a : Attrs} {s s' : ParamState} (hread : readDefine conv s a = some s')
    (hs : s.isFormula = false) {p p' : Param} {node : Node} {Q : Prop}
    (hdom : Dom.parseDefine p node = some p') (hprop : ∀ key, node.prop key = a.get key)
    (hp : p.fixed = s.param.fixed ↔ Q) (hformula : p.formula = "" ∧ s.param.formula = "")
    (hftype : p.ftype = .none ∧ s.param.ftype = .none) :
    p'.compared = s'.param.compared ↔ Q ∧ DefineAgrees a := by
  classical
  obtain ⟨hfixed, hreadFormula, hreadFtype, hluaOk⟩ := readDefine_spec hread hs
  obtain ⟨type, htype, hdom⟩ := parseDefine_spec hdom
  rw [hprop] at htype
  rw [hformula.2] at hreadFormula
  rw [hftype.2] at hreadFtype
  unfold DefineAgrees
  by_cases hlua : type = "LUA"
  · subst hlua
    rw [if_pos rfl] at hdom
    obtain ⟨lua, u, hluaProp, hu, hdom⟩ := hdom
    rw [hprop] at hluaProp
    have hsame : a.list.foldl ftypeStep .none = u := by
      rw [foldl_ftypeStep_eq htype hluaProp hu]
      split <;> rfl
    have hfields : { p with ftype := u }.fixed = p.fixed := rfl
    rw [if_pos htype, hdom, Param.compared_eq_iff, hfixed, hfields, hp, hreadFormula, hreadFtype,
      hsame, hformula.1, eq_comm (a := "")]
    simp
  · rw [if_neg hlua] at hdom
    obtain ⟨formula, hformulaProp, hdom⟩ := hdom
    rw [hprop] at hformulaProp
    rw [if_neg (by simpa [htype] using hlua), hdom, Param.compared_eq_iff]
    have hiff : typeFtype .none type = a.list.foldl ftypeStep .none ↔
        a.get "lua_formula" = none ∨
          (a.get "type" = some "RPN" ∨ a.get "type" = some "DRAWDEFINABLE") ∧ luaBeforeType a := by
      cases hluaProp : a.get "lua_formula" with
      | none =>
        have hnot := Attrs.get_eq_none.mp hluaProp
        rw [Attrs.get] at htype
        simp [foldl_ftypeStep a.nodup hnot, htype]
      | some lua =>
        obtain ⟨u, hu⟩ := Option.isSome_iff_exists.mp (hluaOk lua hluaProp)
        obtain ⟨hnone, hrpn, hdraw⟩ := luaFormula_ne hu
        rw [foldl_ftypeStep_eq htype hluaProp hu, htype]
        by_cases hbefore : luaBeforeType a
        · rw [if_pos hbefore]
          unfold typeFtype
          split_ifs <;> simp_all [hnone.symm]
        · rw [if_neg hbefore]
          unfold typeFtype
          split_ifs <;> simp [hbefore, hnone.symm, hrpn.symm, hdraw.symm]
    have hfields : { p with formula := formula, ftype := typeFtype p.ftype type }.fixed = p.fixed :=
      rfl
    rw [hfixed, hfields, hp, hreadFormula, hformulaProp, hreadFtype, hftype.1, hiff]
    simp

/-! ### Items -/

theorem ParamItem.read_fields {i : ParamItem} (hi : i.isDefine = false) {s s' : ParamState}
    (h : i.read conv s = some s') :
    s'.param.compared = s.param.compared ∧ s'.isFormula = s.isFormula := by
  cases i with
  | value pre l =>
    obtain ⟨v, -, rfl⟩ := Option.map_eq_some_iff.mp h
    exact ⟨rfl, rfl⟩
  | raport pre l =>
    obtain ⟨-, h⟩ := Option.ite_none_right_eq_some.mp h
    rw [← Option.some.inj h]
    exact ⟨rfl, rfl⟩
  | analysis pre l =>
    obtain ⟨-, h⟩ := Option.ite_none_right_eq_some.mp h
    rw [← Option.some.inj h]
    exact ⟨rfl, rfl⟩
  | draw a inner =>
    obtain ⟨-, h⟩ := Option.ite_none_right_eq_some.mp h
    rw [← Option.some.inj h]
    exact ⟨rfl, rfl⟩
  | define pre a inner => exact nomatch hi

theorem foldlM_items {items : List ParamItem} (hitems : ∀ i ∈ items, i.isDefine = false)
    {s s' : ParamState} (h : items.foldlM (ParamItem.read conv) s = some s') :
    s'.param.compared = s.param.compared ∧ s'.isFormula = s.isFormula := by
  induction items generalizing s with
  | nil => rw [Option.some.inj h]; exact ⟨rfl, rfl⟩
  | cons i items ih =>
    rw [List.foldlM_cons, Option.bind_eq_bind, Option.bind_eq_some_iff] at h
    obtain ⟨s₁, hs₁, h⟩ := h
    obtain ⟨hfields, hisFormula⟩ := ih (fun j hj => hitems j (List.mem_cons_of_mem i hj)) h
    obtain ⟨hfields₁, hisFormula₁⟩ := ParamItem.read_fields (hitems i List.mem_cons_self) hs₁
    exact ⟨hfields.trans hfields₁, hisFormula.trans hisFormula₁⟩

theorem foldl_script_compared (scripts : List Script) (s : ParamState) :
    (scripts.foldl Script.read s).param.compared = s.param.compared := by
  induction scripts generalizing s with
  | nil => rfl
  | cons script scripts ih => exact ih (script.read s)

/-- The reader at the items of a parameter: with one definition it is read in a state that has the
attributes only. -/
theorem foldlM_define {l₁ l₂ : List ParamItem} {pre : Option String} {a : Attrs}
    {inner : Option (List (Child paramTrees Script))} (h₁ : ∀ i ∈ l₁, i.isDefine = false)
    (h₂ : ∀ i ∈ l₂, i.isDefine = false) {s s' : ParamState}
    (h : (l₁ ++ ParamItem.define pre a inner :: l₂).foldlM (ParamItem.read conv) s = some s') :
    ∃ t t', t.param.compared = s.param.compared ∧ t.isFormula = s.isFormula ∧
      readDefine conv t a = some t' ∧ s'.param.compared = t'.param.compared := by
  rw [List.foldlM_append, Option.bind_eq_bind, Option.bind_eq_some_iff] at h
  obtain ⟨t, ht, h⟩ := h
  rw [List.foldlM_cons, Option.bind_eq_bind, Option.bind_eq_some_iff] at h
  obtain ⟨t₁, ht₁, h⟩ := h
  obtain ⟨t', ht', rfl⟩ := Option.map_eq_some_iff.mp ht₁
  obtain ⟨hfields, hisFormula⟩ := foldlM_items h₁ ht
  exact ⟨t, t', hfields, hisFormula, ht',
    (foldlM_items h₂ h).1.trans (foldl_script_compared _ t')⟩

theorem ParamElem.read_eq_some {p : ParamElem} {r : Param} (h : p.read conv = some r) :
    ∃ s s', p.attrs.list.foldlM (paramAttr conv) {} = some s ∧
      p.items.foldlM (ParamItem.read conv) s = some s' ∧ r = s'.param := by
  unfold ParamElem.read at h
  split at h
  · exact nomatch h
  · rw [Option.bind_eq_bind, Option.bind_eq_some_iff] at h
    obtain ⟨s, hs, h⟩ := h
    unfold ParamElem.items
    cases hinner : p.inner with
    | none =>
      rw [hinner] at h
      exact ⟨s, s, hs, rfl, (Option.some.inj h).symm⟩
    | some inner =>
      simp only [hinner, Option.bind_eq_some_iff] at h
      obtain ⟨s', hs', h⟩ := h
      obtain ⟨-, h⟩ := Option.ite_none_left_eq_some.mp h
      exact ⟨s, s', hs, hs', (Option.some.inj h).symm⟩

theorem baseIndAttr_fields (p : Param) (c : Option String) :
    (Dom.baseIndAttr p c).formula = p.formula ∧ (Dom.baseIndAttr p c).ftype = p.ftype ∧
      (Dom.baseIndAttr p c).fixed =
        (p.name, p.prec, (c.map baseIndOf).getD (p.baseInd, p.inbase)) := by
  cases c with
  | none => exact ⟨rfl, rfl, rfl⟩
  | some c =>
    by_cases hc : c = "auto"
    · simp [Dom.baseIndAttr, Dom.setAutoBase, Param.fixed, baseIndOf, hc]
    · simp [Dom.baseIndAttr, Dom.setBaseInd, Param.fixed, baseIndOf, hc]

/-- A parameter before its definition has the attributes that the reader gives it, except for the
precision of one with values. -/
theorem paramHead_spec {p : ParamElem} {p₀ : Param} (h : Dom.paramHead p.node = some p₀) :
    p₀.formula = "" ∧ p₀.ftype = .none ∧
      (p₀.fixed = ((p.attrs.get "name").getD "", ((p.attrs.get "prec").map atoi).getD 0,
        ((p.attrs.get "base_ind").map baseIndOf).getD (-1, false)) ↔
          (p.items.any ParamItem.isValue → ((p.attrs.get "prec").map atoi).getD 0 = 0)) := by
  have hprop : ∀ key, p.node.prop key = p.attrs.get key := elementNode_prop _ _ _
  simp only [Dom.paramHead, hprop, Option.bind_eq_bind, Option.bind_eq_some_iff, Option.pure_def,
    Option.some.injEq] at h
  obtain ⟨name, hname, values, hvalues, raports, -, prec, hprec, rfl⟩ := h
  obtain ⟨hformula, hftype, hfixed⟩ := baseIndAttr_fields
    { name := name
      shortName := (p.attrs.get "short_name").getD ""
      drawName := (p.attrs.get "draw_name").getD ""
      unit := (p.attrs.get "unit").getD ""
      values := values
      raports := raports
      prec := prec } (p.attrs.get "base_ind")
  refine ⟨hformula, hftype, ?_⟩
  have hany : p.items.any ParamItem.isValue ↔ values ≠ [] := by
    rw [p.node_named (by decide) (by decide)] at hvalues
    have hlength := Traverse.length_eq_of_mapM hvalues
    rw [List.length_map] at hlength
    rw [← List.length_pos_iff, hlength, List.length_pos_iff, ne_eq, List.filter_eq_nil_iff,
      List.any_eq_true]
    push Not
    constructor
    · rintro ⟨i, hi, hvalue⟩
      refine ⟨i, hi, ?_⟩
      cases i <;> simp_all [ParamItem.isValue, ParamItem.loc]
    · rintro ⟨i, hi, hloc⟩
      refine ⟨i, hi, ?_⟩
      cases i <;> simp_all [ParamItem.isValue, ParamItem.loc]
  rw [hfixed, hname, hany]
  simp only [Option.getD_some, Prod.mk.injEq, true_and, and_true]
  rw [Dom.parsePrec, hprop] at hprec
  by_cases hvalues : values = []
  · rw [if_pos hvalues] at hprec
    simp [hvalues, hprec]
  · rw [if_neg hvalues, Option.some.injEq] at hprec
    simp [hvalues, ← hprec, eq_comm]

theorem ParamElem.head_define (p : ParamElem) : (p.node.named "define").head? =
    ((p.items.filter ParamItem.isDefine).head?).map ParamItem.node := by
  rw [p.node_named (by decide) (by decide), List.head?_map]
  congr 2
  apply List.filter_congr
  intro i _
  cases i <;> rfl

/-- The two loaders read a parameter alike exactly when it agrees. -/
theorem ParamElem.agrees_iff {inUnit : Bool} {p : ParamElem} {d r : Param}
    (hdom : Dom.parseParam inUnit p.node = some d) (hread : p.read conv = some r) :
    d.compared = r.compared ↔ p.Agrees := by
  rw [Dom.parseParam, p.head_define, Option.bind_eq_bind, Option.bind_eq_some_iff] at hdom
  obtain ⟨p₀, hp₀, hdom⟩ := hdom
  obtain ⟨hformula, hftype, hfixed⟩ := paramHead_spec hp₀
  obtain ⟨s, s', hs, hs', rfl⟩ := ParamElem.read_eq_some hread
  obtain ⟨hsfixed, hsformula, hsftype, hsIsFormula⟩ := foldlM_paramAttr hs
  rw [← hsfixed] at hfixed
  have hsingle := p.single
  change (p.items.filter ParamItem.isDefine).length ≤ 1 at hsingle
  unfold ParamElem.Agrees
  cases hdefs : p.items.filter ParamItem.isDefine with
  | nil =>
    have hnone : ∀ i ∈ p.items, i.isDefine = false := by
      intro i hi
      simpa using List.filter_eq_nil_iff.mp hdefs i hi
    have hagrees : ∀ i ∈ p.items, i.Agrees := by
      intro i hi
      cases i with
      | define pre a inner => exact nomatch hnone _ hi
      | _ => trivial
    simp only [hdefs, List.head?_nil, Option.map_none] at hdom
    obtain ⟨-, hdom⟩ := Option.ite_none_right_eq_some.mp hdom
    obtain rfl := Option.some.inj hdom
    rw [(foldlM_items hnone hs').1, Param.compared_eq_iff, hfixed, hformula, hsformula, hftype,
      hsftype]
    simp only [and_true, and_iff_left hagrees]
  | cons i defs =>
    rw [hdefs, List.length_cons] at hsingle
    obtain rfl : defs = [] := List.length_eq_zero_iff.mp (by omega)
    obtain ⟨l₁, l₂, hitems, hl₁, hi, hl₂⟩ := List.filter_eq_cons_iff.mp hdefs
    simp only [hdefs, List.head?_cons, Option.map_some] at hdom
    cases i with
    | define pre a inner =>
      have h₁ : ∀ j ∈ l₁, j.isDefine = false := fun j hj => by simpa using hl₁ j hj
      have h₂ : ∀ j ∈ l₂, j.isDefine = false := by
        intro j hj
        simpa using List.filter_eq_nil_iff.mp hl₂ j hj
      rw [hitems] at hs'
      obtain ⟨t, t', htfields, htIsFormula, ht', hfields⟩ := foldlM_define h₁ h₂ hs'
      rw [Param.compared_eq_iff, hsformula, hsftype] at htfields
      rw [← htfields.1] at hfixed
      rw [hfields, defineAgrees_iff ht' (htIsFormula.trans hsIsFormula) hdom
        (elementNode_prop _ _ _) hfixed ⟨hformula, htfields.2.1⟩ ⟨hftype, htfields.2.2⟩]
      have hagrees : (∀ j ∈ p.items, j.Agrees) ↔ DefineAgrees a := by
        rw [hitems]
        constructor
        · exact fun h => h (.define pre a inner) (by simp)
        · intro ha j hj
          cases j with
          | define pre' a' inner' =>
            rw [List.mem_append, List.mem_cons] at hj
            rcases hj with hj | hj | hj
            · exact nomatch h₁ _ hj
            · obtain ⟨rfl, rfl, rfl⟩ := ParamItem.define.inj hj
              exact ha
            · exact nomatch h₂ _ hj
          | _ => trivial
      rw [hagrees]
    | _ => exact nomatch hi

end Params

end Document
end Ipk
end Szarp
