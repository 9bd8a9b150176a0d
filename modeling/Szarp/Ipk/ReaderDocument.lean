import Szarp.Ipk.ReaderLoops

/-!
# What the reader makes of a document

The configuration that the reader computes, by recursion over a document of the schema instead of
over its events.
-/

namespace Szarp
namespace Ipk
namespace Document

open Xml Reader

section Read

attribute [local simp] paramLoop radioLoop deviceLoop drawLoop configLoop unitLoop

variable {F : Type} (conv : Conversions F)

/-! ## Draws -/

def TreeNode.ok : TreeNode → Bool
  | leaf l => treeNodeOk conv l.attrs
  | parent attrs _ child _ => treeNodeOk conv attrs && child.ok

namespace TreeNode

def attrs : TreeNode → Attrs
  | leaf l => l.attrs
  | parent attrs _ _ _ => attrs

def inner : TreeNode → Option (List Node)
  | leaf l => l.inner.map fun bs => bs.map Blank.node
  | parent _ before child after => some (before.map Blank.node ++ child.node :: after.map Blank.node)

theorem node_eq (t : TreeNode) : t.node = elementNode ⟨none, "treenode"⟩ t.attrs t.inner := by
  cases t <;> rfl

end TreeNode

theorem TreeNode.events_eq (t : TreeNode) :
    t.node.events = .start ⟨none, "treenode"⟩ t.attrs t.inner.isNone ::
      tailEvents ⟨none, "treenode"⟩ t.inner := by
  rw [t.node_eq, elementNode_events]

theorem readTreeNode_eq (t : TreeNode) (fuel : ℕ) (es : List Event)
    (hfuel : t.node.events.length ≤ fuel) :
    readTreeNode conv fuel t.attrs t.inner.isNone (tailEvents ⟨none, "treenode"⟩ t.inner ++ es) =
      if t.ok conv then some es else none := by
  induction t generalizing fuel es with
  | leaf l =>
    rw [TreeNode.events_eq, List.length_cons] at hfuel
    obtain ⟨fuel, rfl⟩ := Nat.exists_eq_add_of_le' hfuel
    obtain ⟨a, inner⟩ := l
    cases hok : treeNodeOk conv a with
    | false => simp [readTreeNode, TreeNode.ok, TreeNode.attrs, hok]
    | true =>
      cases inner with
      | none => simp [readTreeNode, TreeNode.ok, TreeNode.attrs, TreeNode.inner, tailEvents, hok]
      | some bs =>
        have hnext : nextTag noTrees (eventsOf (bs.map Blank.node) ++
            .stop ⟨none, "treenode"⟩ :: es) = some (.stop ⟨none, "treenode"⟩, es) := by
          rw [nextTag_blanks, nextTag_noTrees_stop]
        simp [readTreeNode, TreeNode.ok, TreeNode.attrs, TreeNode.inner, tailEvents, hok, hnext]
  | parent a before child after ih =>
    simp only [TreeNode.node, Node.events, eventsOf_append, eventsOf, List.length_cons,
      List.length_append] at hfuel
    obtain ⟨fuel, rfl⟩ := Nat.exists_eq_add_one_of_ne_zero (show fuel ≠ 0 by omega)
    have hnext : nextTag noTrees (tailEvents ⟨none, "treenode"⟩
        (TreeNode.parent a before child after).inner ++ es) =
        some (.start ⟨none, "treenode"⟩ child.attrs child.inner.isNone,
          tailEvents ⟨none, "treenode"⟩ child.inner ++ (eventsOf (after.map Blank.node) ++
            .stop ⟨none, "treenode"⟩ :: es)) := by
      rw [TreeNode.inner, tailEvents, eventsOf_append, eventsOf, List.append_assoc,
        List.append_assoc, nextTag_blanks, child.node_eq, elementNode_events, List.cons_append,
        List.cons_append, nextTag_noTrees_start, List.append_assoc]
      rfl
    have hchild := ih fuel (eventsOf (after.map Blank.node) ++ .stop ⟨none, "treenode"⟩ :: es)
      (by omega)
    have hlast : nextTag noTrees (eventsOf (after.map Blank.node) ++
        .stop ⟨none, "treenode"⟩ :: es) = some (.stop ⟨none, "treenode"⟩, es) := by
      rw [nextTag_blanks, nextTag_noTrees_stop]
    have hattrs : (TreeNode.parent a before child after).attrs = a := rfl
    have hinner : (TreeNode.parent a before child after).inner.isNone = false := rfl
    cases hok : treeNodeOk conv a with
    | false => simp [readTreeNode, TreeNode.ok, hattrs, hok]
    | true =>
      rw [readTreeNode, hnext, hattrs, hinner, TreeNode.ok]
      cases hchildOk : child.ok conv <;> simp [hok, hchild, hchildOk, hlast, isTag]

/-! ### Loops of draws -/

theorem drawLoop_startsWithNextTag :
    StartsWithNextTag noTrees fun fuel (_ : PUnit.{1}) es => drawLoop conv fuel es := by
  intro fuel _ es es' h
  cases fuel with
  | zero => rfl
  | succ fuel => simp only [drawLoop, h]

theorem drawLoop_stop (fuel : ℕ) (es : List Event) :
    drawLoop conv (fuel + 1) (.stop ⟨none, "draw"⟩ :: es) = some es := by
  simp [drawLoop, isTag]

theorem drawLoop_elem (t : TreeNode) (fuel : ℕ) (es : List Event)
    (hfuel : t.node.events.length < fuel) :
    ∃ fuel', fuel ≤ fuel' + t.node.events.length ∧ ∀ s : PUnit.{1},
      drawLoop conv fuel (t.node.events ++ es) =
        (if t.ok conv then some s else none).bind fun _ => drawLoop conv fuel' es := by
  obtain ⟨fuel, rfl⟩ := Nat.exists_eq_add_one_of_ne_zero (show fuel ≠ 0 by omega)
  have ht := readTreeNode_eq conv t fuel es (by omega)
  rw [t.events_eq, List.length_cons]
  refine ⟨fuel, by omega, fun s => ?_⟩
  rw [List.cons_append, drawLoop, nextTag_noTrees_start]
  cases hok : t.ok conv <;> simp [isTag, hok, ht]

theorem foldlM_check {α : Type} (check : α → Bool) (l : List α) :
    l.foldlM (fun s a => if check a then some s else none) PUnit.unit =
      if l.all check then some PUnit.unit else none := by
  induction l with
  | nil => rfl
  | cons a l ih =>
    rw [List.foldlM_cons, List.all_cons]
    cases check a with
    | false => rfl
    | true => exact ih

theorem drawLoop_inner (inner : List (Child noTrees TreeNode)) (fuel : ℕ) (es : List Event)
    (hfuel : (tailEvents ⟨none, "draw"⟩ (some (nodesOf TreeNode.node inner))).length ≤ fuel) :
    drawLoop conv fuel (tailEvents ⟨none, "draw"⟩ (some (nodesOf TreeNode.node inner)) ++ es) =
      if (elems inner).all (TreeNode.ok conv) then some es else none := by
  rw [tailEvents, List.length_append, List.length_singleton] at hfuel
  obtain ⟨fuel', hle, hloop⟩ := loop_children (drawLoop_startsWithNextTag conv)
    (drawLoop_elem conv) inner fuel (.stop ⟨none, "draw"⟩ :: es) (by omega)
  obtain ⟨fuel', rfl⟩ := Nat.exists_eq_add_one_of_ne_zero (show fuel' ≠ 0 by omega)
  rw [tailEvents, List.append_assoc, List.singleton_append, hloop PUnit.unit,
    foldlM_check (TreeNode.ok conv), drawLoop_stop]
  cases (elems inner).all (TreeNode.ok conv) <;> rfl

theorem readDraw_eq (a : Attrs) (inner : Option (List (Child noTrees TreeNode))) (fuel : ℕ)
    (es : List Event)
    (hfuel : (tailEvents ⟨none, "draw"⟩ (inner.map (nodesOf TreeNode.node))).length ≤ fuel) :
    readDraw conv fuel a (inner.map (nodesOf TreeNode.node)).isNone
        (tailEvents ⟨none, "draw"⟩ (inner.map (nodesOf TreeNode.node)) ++ es) =
      if drawOk conv a ∧ (elems (inner.getD [])).all (TreeNode.ok conv) then some es else none := by
  rw [readDraw]
  cases hok : drawOk conv a with
  | false => simp
  | true =>
    cases inner with
    | none => simp [tailEvents, elems]
    | some inner => simpa using drawLoop_inner conv inner fuel es hfuel

/-! ## Scripts -/

def Script.text (s : Script) : Option String :=
  let texts := s.pieces.filterMap fun
    | .text content => some content
    | .cdata content => some content
    | .comment => none
  if texts = [] then none else some (String.join texts)

theorem readString_pieces (ps : List ScriptPiece) (es : List Event) :
    readString 0 (eventsOf (ps.map ScriptPiece.node) ++ .stop ⟨none, "script"⟩ :: es) =
      ps.filterMap fun
        | .text content => some content
        | .cdata content => some content
        | .comment => none := by
  induction ps with
  | nil => rfl
  | cons p ps ih =>
    rw [List.map_cons, eventsOf, List.append_assoc]
    cases p with
    | text content => exact congrArg (content :: ·) ih
    | cdata content => exact congrArg (content :: ·) ih
    | comment => exact ih

theorem scriptLoop_pieces (ps : List ScriptPiece) (script : Option String) (fuel : ℕ)
    (es : List Event) (hfuel : (eventsOf (ps.map ScriptPiece.node)).length < fuel) :
    scriptLoop fuel script
        (eventsOf (ps.map ScriptPiece.node) ++ .stop ⟨none, "script"⟩ :: es) =
      some (script, es) := by
  induction ps generalizing fuel with
  | nil =>
    obtain ⟨fuel, rfl⟩ := Nat.exists_eq_add_one_of_ne_zero (show fuel ≠ 0 by omega)
    simp [eventsOf, scriptLoop, isTag]
  | cons p ps ih =>
    rw [List.map_cons, eventsOf, List.length_append] at hfuel
    obtain ⟨fuel, rfl⟩ := Nat.exists_eq_add_one_of_ne_zero (show fuel ≠ 0 by omega)
    have hcons : eventsOf ((p :: ps).map ScriptPiece.node) ++ .stop ⟨none, "script"⟩ :: es =
        p.node.events ++ (eventsOf (ps.map ScriptPiece.node) ++ .stop ⟨none, "script"⟩ :: es) := by
      rw [List.map_cons, eventsOf, List.append_assoc]
    rw [hcons]
    cases p with
    | text content => exact ih (fuel + 1) (by omega)
    | comment => exact ih (fuel + 1) (by omega)
    | cdata content =>
      have hlength : (ScriptPiece.cdata content).node.events.length = 1 := rfl
      have hnext : nextTag noTrees ((ScriptPiece.cdata content).node.events ++
          (eventsOf (ps.map ScriptPiece.node) ++ .stop ⟨none, "script"⟩ :: es)) =
            some (.cdata content, eventsOf (ps.map ScriptPiece.node) ++
              .stop ⟨none, "script"⟩ :: es) := rfl
      rw [scriptLoop, hnext]
      exact ih fuel (by omega)

/-! ## Parameters -/

def Script.read (s : ParamState) (script : Script) : ParamState :=
  { s with param := { s.param with script := script.text } }

/-- What the reader does at an element of a parameter. -/
def ParamItem.read (s : ParamState) : ParamItem → Option ParamState
  | value _ l => (readValue l.attrs).map fun v =>
      { s with param := { s.param with values := s.param.values ++ [v] } }
  | raport _ l =>
    if raportOk conv l.attrs then
      let raport : Raport := ⟨(l.attrs.get "title").getD ""⟩
      some { s with param := { s.param with raports := s.param.raports ++ [raport] } }
    else none
  | analysis _ l => if analysisOk conv l.attrs then some s else none
  | draw attrs inner =>
    if drawOk conv attrs ∧ (elems (inner.getD [])).all (TreeNode.ok conv) then some s else none
  | define _ attrs inner =>
    (readDefine conv s attrs).map fun s => (elems (inner.getD [])).foldl Script.read s

def ParamElem.read (p : ParamElem) : Option Param := do
  if !areValidAttr ["name"] p.attrs then none
  else
    let s ← p.attrs.list.foldlM (paramAttr conv) {}
    match p.inner with
    | none => return s.param
    | some inner =>
      let s ← (elems inner).foldlM (ParamItem.read conv) s
      if !s.isPrecAttr ∧ s.param.values = [] then none else return s.param

theorem paramLoop_startsWithNextTag : StartsWithNextTag paramTrees (paramLoop conv) := by
  intro fuel s es es' h
  cases fuel with
  | zero => rfl
  | succ fuel => simp only [paramLoop, h]

/-- The tags at whose ends nothing happens. -/
def innerTags : List String := ["raport", "value", "draw", "analysis", "define", "script"]

theorem paramLoop_stop {pre : Option String} {loc : String} (h : loc ∈ innerTags) (fuel : ℕ)
    (s : ParamState) (es : List Event) :
    paramLoop conv (fuel + 1) s (.stop ⟨pre, loc⟩ :: es) = paramLoop conv fuel s es := by
  have htrees : paramTrees ⟨pre, loc⟩ = false := by
    simp only [innerTags, List.mem_cons, List.not_mem_nil, or_false] at h
    rcases h with rfl | rfl | rfl | rfl | rfl | rfl <;> rfl
  rw [paramLoop, nextTag_stop htrees]
  exact if_pos h

theorem paramLoop_end {pre : Option String} (fuel : ℕ) (s : ParamState) (es : List Event) :
    paramLoop conv (fuel + 1) s (.stop ⟨pre, "param"⟩ :: es) = some (s, es) := by
  rw [paramLoop, nextTag_stop rfl]
  rfl

theorem paramLoop_script (script : Script) (fuel : ℕ) (es : List Event)
    (hfuel : script.node.events.length < fuel) :
    ∃ fuel', fuel ≤ fuel' + script.node.events.length ∧ ∀ s,
      paramLoop conv fuel s (script.node.events ++ es) =
        (some (script.read s)).bind fun s' => paramLoop conv fuel' s' es := by
  obtain ⟨fuel, rfl⟩ := Nat.exists_eq_add_one_of_ne_zero (show fuel ≠ 0 by omega)
  have hevents : script.node.events ++ es = .start ⟨none, "script"⟩ script.attrs false ::
      (eventsOf (script.pieces.map ScriptPiece.node) ++ .stop ⟨none, "script"⟩ :: es) := by
    simp [Script.node, Node.events]
  have hlength : script.node.events.length =
      (eventsOf (script.pieces.map ScriptPiece.node)).length + 2 := by
    simp [Script.node, Node.events]
  refine ⟨fuel, by omega, fun s => ?_⟩
  have hloop := scriptLoop_pieces script.pieces script.text fuel es (by omega)
  have htext : scriptText false (eventsOf (script.pieces.map ScriptPiece.node) ++
      .stop ⟨none, "script"⟩ :: es) = script.text := by
    simp only [scriptText, Script.text, readString_pieces, Bool.false_eq_true, if_false]
  rw [hevents, paramLoop, nextTag_start rfl]
  simp [isLocalTag, isTag, htext, hloop, Script.read]

theorem paramLoop_leaf (pre : Option String) {loc : String} (h : loc ∈ innerTags)
    (inner : Option (List Blank)) (fuel : ℕ) (es : List Event)
    (hfuel : (tailEvents ⟨pre, loc⟩ (inner.map fun bs => bs.map Blank.node)).length < fuel) :
    ∃ fuel', fuel ≤ fuel' + (tailEvents ⟨pre, loc⟩ (inner.map fun bs => bs.map Blank.node)).length ∧
      ∀ s, paramLoop conv fuel s
        (tailEvents ⟨pre, loc⟩ (inner.map fun bs => bs.map Blank.node) ++ es) =
          paramLoop conv fuel' s es :=
  loop_leaf (paramLoop_startsWithNextTag conv) (paramLoop_stop conv h) inner fuel es hfuel

theorem paramLoop_define (pre : Option String) (inner : Option (List (Child paramTrees Script)))
    (fuel : ℕ) (es : List Event)
    (hfuel : (tailEvents ⟨pre, "define"⟩ (inner.map (nodesOf Script.node))).length < fuel) :
    ∃ fuel', fuel ≤ fuel' + (tailEvents ⟨pre, "define"⟩ (inner.map (nodesOf Script.node))).length ∧
      ∀ s, paramLoop conv fuel s
        (tailEvents ⟨pre, "define"⟩ (inner.map (nodesOf Script.node)) ++ es) =
          paramLoop conv fuel' ((elems (inner.getD [])).foldl Script.read s) es := by
  cases inner with
  | none => exact ⟨fuel, Nat.le_add_right fuel _, fun s => rfl⟩
  | some inner =>
    rw [Option.map_some, tailEvents, List.length_append, List.length_singleton] at hfuel ⊢
    obtain ⟨fuel', hle, hloop⟩ := loop_children (paramLoop_startsWithNextTag conv)
      (paramLoop_script conv) inner fuel (.stop ⟨pre, "define"⟩ :: es) (by omega)
    obtain ⟨fuel', rfl⟩ := Nat.exists_eq_add_one_of_ne_zero (show fuel' ≠ 0 by omega)
    refine ⟨fuel', by omega, fun s => ?_⟩
    have hfold : ∀ (l : List Script) (s : ParamState),
        l.foldlM (fun s script => some (Script.read s script)) s = some (l.foldl Script.read s) := by
      intro l
      induction l with
      | nil => exact fun s => rfl
      | cons script l ih => exact fun s => ih (Script.read s script)
    rw [List.append_assoc, List.singleton_append, hloop s, hfold]
    exact paramLoop_stop conv (by decide) fuel' _ es

theorem paramLoop_elem (i : ParamItem) (fuel : ℕ) (es : List Event)
    (hfuel : i.node.events.length < fuel) :
    ∃ fuel', fuel ≤ fuel' + i.node.events.length ∧ ∀ s,
      paramLoop conv fuel s (i.node.events ++ es) =
        (i.read conv s).bind fun s' => paramLoop conv fuel' s' es := by
  obtain ⟨fuel, rfl⟩ := Nat.exists_eq_add_one_of_ne_zero (show fuel ≠ 0 by omega)
  cases i with
  | value pre l =>
    rw [ParamItem.node, Leaf.node, elementNode_events, List.length_cons] at hfuel ⊢
    obtain ⟨fuel', hle, hleaf⟩ := paramLoop_leaf conv pre (show "value" ∈ innerTags by decide)
      l.inner fuel es (by omega)
    refine ⟨fuel', by omega, fun s => ?_⟩
    rw [List.cons_append, paramLoop, nextTag_start rfl, ParamItem.read]
    cases hvalue : readValue l.attrs <;> simp [isLocalTag, hleaf, hvalue]
  | raport pre l =>
    rw [ParamItem.node, Leaf.node, elementNode_events, List.length_cons] at hfuel ⊢
    obtain ⟨fuel', hle, hleaf⟩ := paramLoop_leaf conv pre (show "raport" ∈ innerTags by decide)
      l.inner fuel es (by omega)
    refine ⟨fuel', by omega, fun s => ?_⟩
    rw [List.cons_append, paramLoop, nextTag_start rfl, ParamItem.read]
    cases hok : raportOk conv l.attrs <;> simp [isLocalTag, hleaf, hok]
  | analysis pre l =>
    rw [ParamItem.node, Leaf.node, elementNode_events, List.length_cons] at hfuel ⊢
    obtain ⟨fuel', hle, hleaf⟩ := paramLoop_leaf conv pre (show "analysis" ∈ innerTags by decide)
      l.inner fuel es (by omega)
    refine ⟨fuel', by omega, fun s => ?_⟩
    rw [List.cons_append, paramLoop, nextTag_start rfl, ParamItem.read]
    cases hok : analysisOk conv l.attrs <;> simp [isLocalTag, hleaf, hok]
  | draw a inner =>
    rw [ParamItem.node, elementNode_events, List.length_cons] at hfuel ⊢
    refine ⟨fuel, by omega, fun s => ?_⟩
    have hdraw := readDraw_eq conv a inner fuel es (by omega)
    rw [List.cons_append, paramLoop, nextTag_start rfl, ParamItem.read]
    by_cases hok : drawOk conv a ∧ (elems (inner.getD [])).all (TreeNode.ok conv)
    · rw [if_pos hok] at hdraw ⊢
      simp only [isLocalTag, Option.bind_eq_bind, Option.bind_some, hdraw]
      simp
    · rw [if_neg hok] at hdraw ⊢
      simp only [isLocalTag, Option.bind_eq_bind, Option.bind_some, hdraw]
      simp
  | define pre a inner =>
    rw [ParamItem.node, elementNode_events, List.length_cons] at hfuel ⊢
    obtain ⟨fuel', hle, hinner⟩ := paramLoop_define conv pre inner fuel es (by omega)
    refine ⟨fuel', by omega, fun s => ?_⟩
    rw [List.cons_append, paramLoop, nextTag_start rfl, ParamItem.read]
    cases hdefine : readDefine conv s a <;> simp [isLocalTag, hinner, hdefine]

theorem readParam_eq (p : ParamElem) (fuel : ℕ) (es : List Event)
    (hfuel : p.node.events.length ≤ fuel) :
    readParam conv fuel p.attrs p.inner.isNone
        (tailEvents ⟨none, "param"⟩ (p.inner.map (nodesOf ParamItem.node)) ++ es) =
      (p.read conv).map fun r => (r, es) := by
  rw [ParamElem.node, elementNode_events, List.length_cons] at hfuel
  rw [readParam, ParamElem.read]
  split
  · rfl
  · cases hattrs : p.attrs.list.foldlM (paramAttr conv) {} with
    | none => rfl
    | some s =>
      obtain ⟨a, inner, hsingle⟩ := p
      cases inner with
      | none => rfl
      | some inner =>
        rw [Option.map_some, tailEvents, List.length_append, List.length_singleton] at hfuel
        obtain ⟨fuel', hle, hloop⟩ := loop_children (paramLoop_startsWithNextTag conv)
          (paramLoop_elem conv) inner fuel (.stop ⟨none, "param"⟩ :: es) (by omega)
        obtain ⟨fuel', rfl⟩ := Nat.exists_eq_add_one_of_ne_zero (show fuel' ≠ 0 by omega)
        have hinner : paramLoop conv fuel s (eventsOf (nodesOf ParamItem.node inner) ++
            .stop ⟨none, "param"⟩ :: es) =
              ((elems inner).foldlM (ParamItem.read conv) s).map fun s' => (s', es) := by
          rw [hloop s]
          cases (elems inner).foldlM (ParamItem.read conv) s with
          | none => rfl
          | some s' => exact paramLoop_end conv fuel' s' es
        cases hfold : (elems inner).foldlM (ParamItem.read conv) s with
        | none => simp [tailEvents, hinner, hfold]
        | some s' =>
          simp only [tailEvents, Option.map_some, List.append_assoc, List.singleton_append, hinner,
            hfold, Option.bind_eq_bind, Option.bind_some, Option.isNone_some, Bool.false_eq_true,
            if_false]
          split <;> rfl

/-! ## Devices -/

def UnitItem.read (u : Unit) : UnitItem → Option Unit
  | param p => (p.read conv).map fun p => { u with params := u.params ++ [p] }
  | send l => if sendOk conv l.attrs l.inner.isNone then some u else none

def UnitElem.read (u : UnitElem) : Option Unit := do
  if !areValidAttr ["id", "type", "subtype", "bufsize"] u.attrs then none
  else
    let r ← u.attrs.list.foldlM unitAttr {}
    (elems u.inner).foldlM (UnitItem.read conv) r

theorem unitLoop_startsWithNextTag : StartsWithNextTag unitTrees (unitLoop conv) := by
  intro fuel u es es' h
  cases fuel with
  | zero => rfl
  | succ fuel => simp only [unitLoop, h]

theorem unitLoop_send_stop (fuel : ℕ) (u : Unit) (es : List Event) :
    unitLoop conv (fuel + 1) u (.stop ⟨none, "send"⟩ :: es) = unitLoop conv fuel u es := by
  rw [unitLoop, nextTag_stop rfl]
  simp [isTag]

theorem unitLoop_end (fuel : ℕ) (u : Unit) (es : List Event) :
    unitLoop conv (fuel + 1) u (.stop ⟨none, "unit"⟩ :: es) = some (u, es) := by
  rw [unitLoop, nextTag_stop rfl]
  simp [isTag]

theorem unitLoop_elem (i : UnitItem) (fuel : ℕ) (es : List Event)
    (hfuel : i.node.events.length < fuel) :
    ∃ fuel', fuel ≤ fuel' + i.node.events.length ∧ ∀ u,
      unitLoop conv fuel u (i.node.events ++ es) =
        (i.read conv u).bind fun u' => unitLoop conv fuel' u' es := by
  obtain ⟨fuel, rfl⟩ := Nat.exists_eq_add_one_of_ne_zero (show fuel ≠ 0 by omega)
  cases i with
  | param p =>
    have hparam := readParam_eq conv p fuel es (by rw [UnitItem.node] at hfuel; omega)
    rw [UnitItem.node, ParamElem.node, elementNode_events, List.length_cons] at hfuel ⊢
    refine ⟨fuel, by omega, fun u => ?_⟩
    rw [List.cons_append, unitLoop, nextTag_start rfl, UnitItem.read]
    cases hread : p.read conv <;> simp [isTag, hparam, hread]
  | send l =>
    rw [UnitItem.node, Leaf.node, elementNode_events, List.length_cons] at hfuel ⊢
    obtain ⟨fuel', hle, hleaf⟩ := loop_leaf (unitLoop_startsWithNextTag conv)
      (unitLoop_send_stop conv) l.inner fuel es (by omega)
    refine ⟨fuel', by omega, fun u => ?_⟩
    rw [List.cons_append, unitLoop, nextTag_start rfl, UnitItem.read]
    cases hok : sendOk conv l.attrs l.inner.isNone <;> simp [isTag, hleaf, hok]

/-- The events of a unit behind its start. -/
def UnitElem.tail (u : UnitElem) : List Event :=
  eventsOf (nodesOf UnitItem.node u.inner) ++ [.stop ⟨none, "unit"⟩]

theorem UnitElem.events_eq (u : UnitElem) :
    u.node.events = .start ⟨none, "unit"⟩ u.attrs false :: u.tail := rfl

theorem readUnit_eq (u : UnitElem) (fuel : ℕ) (es : List Event)
    (hfuel : u.node.events.length ≤ fuel) :
    readUnit conv fuel u.attrs (u.tail ++ es) = (u.read conv).map fun r => (r, es) := by
  rw [u.events_eq, List.length_cons, UnitElem.tail, List.length_append,
    List.length_singleton] at hfuel
  rw [readUnit, UnitElem.read, UnitElem.tail, List.append_assoc, List.singleton_append]
  split
  · rfl
  · cases hattrs : u.attrs.list.foldlM unitAttr {} with
    | none => rfl
    | some r =>
      obtain ⟨fuel', hle, hloop⟩ := loop_children (unitLoop_startsWithNextTag conv)
        (unitLoop_elem conv) u.inner fuel (.stop ⟨none, "unit"⟩ :: es) (by omega)
      obtain ⟨fuel', rfl⟩ := Nat.exists_eq_add_one_of_ne_zero (show fuel' ≠ 0 by omega)
      simp only [Option.bind_eq_bind, Option.bind_some, hloop r]
      cases (elems u.inner).foldlM (UnitItem.read conv) r with
      | none => rfl
      | some u' => exact unitLoop_end conv fuel' u' es

def readUnits (r : Radio) (us : List UnitElem) : Option Radio :=
  us.foldlM (fun r u => (u.read conv).map fun u => { r with units := r.units ++ [u] }) r

def RadioElem.read (r : RadioElem) : Option Radio :=
  match r.attrs.get "id" with
  | none => none
  | some id => do
    let r ← readUnits conv { id := firstChar id } (elems r.inner)
    if r.units = [] then none else return r

theorem radioLoop_startsWithNextTag : StartsWithNextTag unitTrees (radioLoop conv) := by
  intro fuel r es es' h
  cases fuel with
  | zero => rfl
  | succ fuel => simp only [radioLoop, h]

theorem radioLoop_elem (u : UnitElem) (fuel : ℕ) (es : List Event)
    (hfuel : u.node.events.length < fuel) :
    ∃ fuel', fuel ≤ fuel' + u.node.events.length ∧ ∀ r : Radio,
      radioLoop conv fuel r (u.node.events ++ es) =
        ((u.read conv).map fun u => { r with units := r.units ++ [u] }).bind
          fun r' => radioLoop conv fuel' r' es := by
  obtain ⟨fuel, rfl⟩ := Nat.exists_eq_add_one_of_ne_zero (show fuel ≠ 0 by omega)
  have hunit := readUnit_eq conv u fuel es (by omega)
  rw [u.events_eq, List.length_cons] at hfuel ⊢
  refine ⟨fuel, by omega, fun r => ?_⟩
  rw [List.cons_append, radioLoop, nextTag_start rfl]
  cases hread : u.read conv <;> simp [isTag, hunit, hread]

theorem radioLoop_units {tag : String} (htag : tag = "radio" ∨ tag = "device")
    (us : List (Child unitTrees UnitElem)) (r : Radio) (fuel : ℕ) (es : List Event)
    (hfuel : (eventsOf (nodesOf UnitElem.node us)).length < fuel) :
    radioLoop conv fuel r (eventsOf (nodesOf UnitElem.node us) ++ .stop ⟨none, tag⟩ :: es) =
      (readUnits conv r (elems us)).map fun r => (r, es) := by
  obtain ⟨fuel', hle, hloop⟩ := loop_children (radioLoop_startsWithNextTag conv)
    (radioLoop_elem conv) us fuel (.stop ⟨none, tag⟩ :: es) hfuel
  obtain ⟨fuel', rfl⟩ := Nat.exists_eq_add_one_of_ne_zero (show fuel' ≠ 0 by omega)
  have hend : ∀ r, radioLoop conv (fuel' + 1) r (.stop ⟨none, tag⟩ :: es) = some (r, es) := by
    intro r
    obtain rfl | rfl := htag
    · rw [radioLoop, nextTag_stop rfl]
      simp [isTag]
    · rw [radioLoop, nextTag_stop rfl]
      simp [isTag]
  rw [hloop r, readUnits]
  simp only [hend]
  cases (elems us).foldlM (fun r u => (u.read conv).map fun u => { r with units := r.units ++ [u] }) r
    <;> rfl

def RadioElem.tail (r : RadioElem) : List Event :=
  eventsOf (nodesOf UnitElem.node r.inner) ++ [.stop ⟨none, "radio"⟩]

theorem RadioElem.events_eq (r : RadioElem) :
    r.node.events = .start ⟨none, "radio"⟩ r.attrs false :: r.tail := rfl

theorem readRadio_eq (r : RadioElem) (fuel : ℕ) (es : List Event)
    (hfuel : r.node.events.length ≤ fuel) :
    readRadio conv fuel (r.node.events ++ es) = (r.read conv).map fun r => (r, es) := by
  rw [r.events_eq, List.length_cons, RadioElem.tail, List.length_append,
    List.length_singleton] at hfuel
  obtain ⟨fuel, rfl⟩ := Nat.exists_eq_add_one_of_ne_zero (show fuel ≠ 0 by omega)
  rw [readRadio, RadioElem.read, r.events_eq, List.cons_append, radioLoop, nextTag_start rfl]
  cases hid : r.attrs.get "id" with
  | none => simp [isTag, hid]
  | some id =>
    have hunits := radioLoop_units conv (.inl rfl) r.inner { id := firstChar id } fuel es (by omega)
    simp only [isTag, hid, RadioElem.tail, List.append_assoc, List.singleton_append, hunits,
      Option.bind_eq_bind, Option.bind_some, decide_true, if_true]
    cases readUnits conv { id := firstChar id } (elems r.inner) with
    | none => rfl
    | some r' =>
      simp only [Option.map_some, Option.bind_some]
      split <;> rfl

def addRadio (d : Device) (r : RadioElem) : Option Device :=
  (r.read conv).map fun r => { d with radios := d.radios ++ [r] }

def DeviceInner.read (d : Device) : DeviceInner → Option Device
  | radios inner _ => (elems inner).foldlM (addRadio conv) d
  | units _ first rest => do
    let r ← readUnits conv {} (first :: elems rest)
    if r.units = [] then none else return { d with radios := d.radios ++ [r] }

def DeviceElem.read (d : DeviceElem) : Option Device := do
  if !areValidAttr ["daemon"] d.attrs then none
  else
    let r ← d.attrs.list.foldlM deviceAttr {}
    d.inner.read conv r

theorem deviceLoop_startsWithNextTag : StartsWithNextTag noTrees (deviceLoop conv) := by
  intro fuel d es es' h
  cases fuel with
  | zero => rfl
  | succ fuel => simp only [deviceLoop, h]

theorem deviceLoop_elem (r : RadioElem) (fuel : ℕ) (es : List Event)
    (hfuel : r.node.events.length < fuel) :
    ∃ fuel', fuel ≤ fuel' + r.node.events.length ∧ ∀ d,
      deviceLoop conv fuel d (r.node.events ++ es) =
        (addRadio conv d r).bind fun d' => deviceLoop conv fuel' d' es := by
  obtain ⟨fuel, rfl⟩ := Nat.exists_eq_add_one_of_ne_zero (show fuel ≠ 0 by omega)
  have hradio := readRadio_eq conv r fuel es (by omega)
  rw [r.events_eq, List.cons_append] at hradio
  rw [r.events_eq, List.length_cons]
  refine ⟨fuel, by omega, fun d => ?_⟩
  rw [List.cons_append, deviceLoop, nextTag_noTrees_start, addRadio]
  cases hread : r.read conv <;> simp [isTag, hradio, hread]

theorem deviceLoop_inner (inner : DeviceInner) (d : Device) (fuel : ℕ) (es : List Event)
    (hfuel : (eventsOf inner.nodes).length + 1 < fuel) :
    deviceLoop conv fuel d (eventsOf inner.nodes ++ .stop ⟨none, "device"⟩ :: es) =
      (inner.read conv d).map fun d => (d, es) := by
  cases inner with
  | radios inner hsome =>
    obtain ⟨fuel', hle, hloop⟩ := loop_children (deviceLoop_startsWithNextTag conv)
      (deviceLoop_elem conv) inner fuel (.stop ⟨none, "device"⟩ :: es)
      (by rw [DeviceInner.nodes] at hfuel; omega)
    rw [DeviceInner.nodes] at hfuel ⊢
    obtain ⟨fuel', rfl⟩ := Nat.exists_eq_add_one_of_ne_zero (show fuel' ≠ 0 by omega)
    have hend : ∀ d, deviceLoop conv (fuel' + 1) d (.stop ⟨none, "device"⟩ :: es) = some (d, es) := by
      intro d
      simp [deviceLoop, isTag]
    rw [hloop d, DeviceInner.read]
    simp only [hend]
    cases (elems inner).foldlM (addRadio conv) d <;> rfl
  | units before first rest =>
    have hevents : eventsOf (DeviceInner.units before first rest).nodes ++
        .stop ⟨none, "device"⟩ :: es = eventsOf (before.map Blank.node) ++
          (eventsOf (nodesOf UnitElem.node (.elem first :: rest)) ++
            .stop ⟨none, "device"⟩ :: es) := by
      rw [DeviceInner.nodes, eventsOf_append, List.append_assoc]
      rfl
    have hlength : (eventsOf (DeviceInner.units before first rest).nodes).length =
        (eventsOf (before.map Blank.node)).length +
          (eventsOf (nodesOf UnitElem.node (.elem first :: rest))).length := by
      rw [DeviceInner.nodes, eventsOf_append, List.length_append]
      rfl
    have hunits : eventsOf (nodesOf UnitElem.node (.elem first :: rest)) =
        .start ⟨none, "unit"⟩ first.attrs false ::
          (first.tail ++ eventsOf (nodesOf UnitElem.node rest)) := rfl
    have hpos : 0 < (eventsOf (nodesOf UnitElem.node (.elem first :: rest))).length := by
      rw [hunits, List.length_cons]
      exact Nat.succ_pos _
    obtain ⟨fuel, rfl⟩ := Nat.exists_eq_add_one_of_ne_zero (show fuel ≠ 0 by omega)
    have hradio : radioLoop conv fuel {} (eventsOf (nodesOf UnitElem.node (.elem first :: rest)) ++
        .stop ⟨none, "device"⟩ :: es) =
          (readUnits conv {} (first :: elems rest)).map fun r => (r, es) :=
      radioLoop_units conv (.inr rfl) (.elem first :: rest) {} fuel es (by omega)
    rw [hunits, List.cons_append] at hradio
    rw [hevents, deviceLoop, nextTag_blanks, hunits, List.cons_append, nextTag_noTrees_start,
      DeviceInner.read]
    simp only [isTag, readRadio, hradio, Option.bind_eq_bind, Option.bind_some]
    cases readUnits conv {} (first :: elems rest) with
    | none => simp
    | some r =>
      by_cases hnil : r.units = []
      · simp [hnil]
      · simp [hnil]

theorem readDevice_eq (d : DeviceElem) (fuel : ℕ) (es : List Event)
    (hfuel : d.node.events.length ≤ fuel) :
    readDevice conv fuel d.attrs (eventsOf d.inner.nodes ++ .stop ⟨none, "device"⟩ :: es) =
      (d.read conv).map fun r => (r, es) := by
  rw [DeviceElem.node, Node.events, List.length_cons, List.length_append,
    List.length_singleton] at hfuel
  rw [readDevice, DeviceElem.read]
  split
  · rfl
  · cases hattrs : d.attrs.list.foldlM deviceAttr {} with
    | none => rfl
    | some r => exact deviceLoop_inner conv d.inner r fuel es (by omega)

/-! ## The document -/

def addParam (ps : List Param) (p : ParamElem) : Option (List Param) :=
  (p.read conv).map fun p => ps ++ [p]

section SectionLoop

variable {is : Name → String → Bool} {tag : String}

theorem sectionLoop_startsWithNextTag : StartsWithNextTag noTrees (sectionLoop conv is tag) := by
  intro fuel ps es es' h
  cases fuel with
  | zero => rfl
  | succ fuel => simp only [sectionLoop, h]

theorem sectionLoop_elem (hparam : is ⟨none, "param"⟩ "param") (p : ParamElem) (fuel : ℕ)
    (es : List Event) (hfuel : p.node.events.length < fuel) :
    ∃ fuel', fuel ≤ fuel' + p.node.events.length ∧ ∀ ps,
      sectionLoop conv is tag fuel ps (p.node.events ++ es) =
        (addParam conv ps p).bind fun ps' => sectionLoop conv is tag fuel' ps' es := by
  obtain ⟨fuel, rfl⟩ := Nat.exists_eq_add_one_of_ne_zero (show fuel ≠ 0 by omega)
  have hread := readParam_eq conv p fuel es (by omega)
  rw [ParamElem.node, elementNode_events, List.length_cons] at hfuel ⊢
  refine ⟨fuel, by omega, fun ps => ?_⟩
  rw [List.cons_append, sectionLoop, nextTag_noTrees_start, addParam]
  cases hp : p.read conv <;> simp [hparam, hread, hp]

theorem sectionLoop_eq (hparam : is ⟨none, "param"⟩ "param") (htag : is ⟨none, tag⟩ tag)
    (hne : is ⟨none, tag⟩ "param" = false) (ps : List (Child noTrees ParamElem)) (fuel : ℕ)
    (es : List Event) (hfuel : (eventsOf (nodesOf ParamElem.node ps)).length < fuel) :
    sectionLoop conv is tag fuel []
        (eventsOf (nodesOf ParamElem.node ps) ++ .stop ⟨none, tag⟩ :: es) =
      ((elems ps).foldlM (addParam conv) []).map fun ps => (ps, es) := by
  obtain ⟨fuel', hle, hloop⟩ := loop_children (sectionLoop_startsWithNextTag conv)
    (sectionLoop_elem conv hparam) ps fuel (.stop ⟨none, tag⟩ :: es) hfuel
  obtain ⟨fuel', rfl⟩ := Nat.exists_eq_add_one_of_ne_zero (show fuel' ≠ 0 by omega)
  have hend : ∀ ps, sectionLoop conv is tag (fuel' + 1) ps (.stop ⟨none, tag⟩ :: es) =
      some (ps, es) := by
    intro ps
    simp [sectionLoop, htag, hne]
  rw [hloop []]
  simp only [hend]
  cases (elems ps).foldlM (addParam conv) [] <;> rfl

end SectionLoop

/-! ### Seasons and boilers -/

section LeafLoop

variable (tag outer : String) (ok : Attrs → Bool)

theorem leafLoop_startsWithNextTag :
    StartsWithNextTag noTrees fun fuel (_ : PUnit.{1}) es => leafLoop tag outer ok fuel es := by
  intro fuel _ es es' h
  cases fuel with
  | zero => rfl
  | succ fuel => simp only [leafLoop, h]

theorem leafLoop_elem (l : Leaf) (fuel : ℕ) (es : List Event)
    (hfuel : (l.node ⟨none, tag⟩).events.length < fuel) :
    ∃ fuel', fuel ≤ fuel' + (l.node ⟨none, tag⟩).events.length ∧ ∀ s : PUnit.{1},
      leafLoop tag outer ok fuel ((l.node ⟨none, tag⟩).events ++ es) =
        (if ok l.attrs then some s else none).bind fun _ => leafLoop tag outer ok fuel' es := by
  obtain ⟨fuel, rfl⟩ := Nat.exists_eq_add_one_of_ne_zero (show fuel ≠ 0 by omega)
  rw [Leaf.node, elementNode_events, List.length_cons] at hfuel ⊢
  have hstop : ∀ fuel (_ : PUnit.{1}) es,
      leafLoop tag outer ok (fuel + 1) (.stop ⟨none, tag⟩ :: es) = leafLoop tag outer ok fuel es := by
    intro fuel _ es
    simp [leafLoop, isTag]
  obtain ⟨fuel', hle, hleaf⟩ := loop_leaf
    (leafLoop_startsWithNextTag tag outer ok) hstop l.inner fuel es (by omega)
  refine ⟨fuel', by omega, fun s => ?_⟩
  have hleaf := hleaf s
  rw [List.cons_append, leafLoop, nextTag_noTrees_start]
  cases hok : ok l.attrs <;> simp [isTag, hok, hleaf]

theorem leafLoop_eq {tag outer : String} (hne : outer ≠ tag) (ls : List (Child noTrees Leaf)) (fuel : ℕ)
    (es : List Event) (hfuel : (eventsOf (nodesOf (Leaf.node ⟨none, tag⟩) ls)).length < fuel) :
    leafLoop tag outer ok fuel
        (eventsOf (nodesOf (Leaf.node ⟨none, tag⟩) ls) ++ .stop ⟨none, outer⟩ :: es) =
      if (elems ls).all fun l => ok l.attrs then some es else none := by
  obtain ⟨fuel', hle, hloop⟩ := loop_children (leafLoop_startsWithNextTag tag outer ok)
    (leafLoop_elem tag outer ok) ls fuel (.stop ⟨none, outer⟩ :: es) hfuel
  obtain ⟨fuel', rfl⟩ := Nat.exists_eq_add_one_of_ne_zero (show fuel' ≠ 0 by omega)
  have hend : leafLoop tag outer ok (fuel' + 1) (.stop ⟨none, outer⟩ :: es) = some es := by
    simp [leafLoop, isTag, hne]
  rw [hloop PUnit.unit, hend, foldlM_check fun l : Leaf => ok l.attrs]
  cases (elems ls).all fun l => ok l.attrs <;> rfl

end LeafLoop

theorem readSeasons_eq (a : Attrs) (inner : Option (List (Child noTrees Leaf))) (fuel : ℕ)
    (es : List Event)
    (hfuel : (tailEvents ⟨none, "seasons"⟩
      (inner.map (nodesOf (Leaf.node ⟨none, "season"⟩)))).length ≤ fuel) :
    readSeasons conv fuel a (inner.map (nodesOf (Leaf.node ⟨none, "season"⟩))).isNone
        (tailEvents ⟨none, "seasons"⟩ (inner.map (nodesOf (Leaf.node ⟨none, "season"⟩))) ++ es) =
      if seasonsOk conv a ∧ (elems (inner.getD [])).all (fun l => seasonOk conv l.attrs) then some es
      else none := by
  rw [readSeasons]
  cases hok : seasonsOk conv a with
  | false => simp
  | true =>
    cases inner with
    | none => simp [tailEvents, elems]
    | some ls =>
      rw [Option.map_some, tailEvents, List.length_append, List.length_singleton] at hfuel
      have hloop := leafLoop_eq (seasonOk conv) (show "seasons" ≠ "season" by decide) ls fuel es
        (by omega)
      simpa [tailEvents, seasonsLoop] using hloop

def BoilerElem.ok (b : BoilerElem) : Bool :=
  boilerOk conv b.attrs && (elems b.inner).all fun l => intervalOk conv l.attrs

theorem boilersLoop_startsWithNextTag : StartsWithNextTag noTrees (boilersLoop conv) := by
  intro fuel any es es' h
  cases fuel with
  | zero => rfl
  | succ fuel => simp only [boilersLoop, h]

theorem boilersLoop_elem (b : BoilerElem) (fuel : ℕ) (es : List Event)
    (hfuel : b.node.events.length < fuel) :
    ∃ fuel', fuel ≤ fuel' + b.node.events.length ∧ ∀ any,
      boilersLoop conv fuel any (b.node.events ++ es) =
        (if b.ok conv then some true else none).bind fun any => boilersLoop conv fuel' any es := by
  obtain ⟨fuel, rfl⟩ := Nat.exists_eq_add_one_of_ne_zero (show fuel ≠ 0 by omega)
  rw [BoilerElem.node, Node.events, List.length_cons, List.length_append,
    List.length_singleton] at hfuel ⊢
  have hloop := leafLoop_eq (intervalOk conv) (show "boiler" ≠ "interval" by decide) b.inner
    fuel es (by omega)
  refine ⟨fuel, by omega, fun any => ?_⟩
  rw [List.cons_append, List.append_assoc, List.singleton_append, boilersLoop,
    nextTag_noTrees_start, BoilerElem.ok]
  cases hattrs : boilerOk conv b.attrs with
  | false => simp [isTag, hattrs]
  | true =>
    cases hinner : (elems b.inner).all fun l => intervalOk conv l.attrs <;>
      simp [isTag, hattrs, boilerLoop, hloop, hinner]

theorem boilersLoop_eq (bs : List (Child noTrees BoilerElem)) (fuel : ℕ) (es : List Event)
    (hfuel : (eventsOf (nodesOf BoilerElem.node bs)).length < fuel) :
    boilersLoop conv fuel false
        (eventsOf (nodesOf BoilerElem.node bs) ++ .stop ⟨none, "boilers"⟩ :: es) =
      if elems bs ≠ [] ∧ (elems bs).all (BoilerElem.ok conv) then some es else none := by
  obtain ⟨fuel', hle, hloop⟩ := loop_children (boilersLoop_startsWithNextTag conv)
    (boilersLoop_elem conv) bs fuel (.stop ⟨none, "boilers"⟩ :: es) hfuel
  obtain ⟨fuel', rfl⟩ := Nat.exists_eq_add_one_of_ne_zero (show fuel' ≠ 0 by omega)
  have hend : ∀ any, boilersLoop conv (fuel' + 1) any (.stop ⟨none, "boilers"⟩ :: es) =
      if any then some es else none := by
    intro any
    simp [boilersLoop, isTag]
  have hfold : ∀ (l : List BoilerElem) (any : Bool),
      l.foldlM (fun _ b => if b.ok conv then some true else none) any =
        if l.all (BoilerElem.ok conv) then some (any || !l.isEmpty) else none := by
    intro l
    induction l with
    | nil => exact fun any => by simp
    | cons b l ih =>
      intro any
      rw [List.foldlM_cons]
      cases hb : b.ok conv <;> simp [hb, ih]
  rw [hloop false, hfold]
  simp only [hend]
  cases hall : (elems bs).all (BoilerElem.ok conv) with
  | false => simp
  | true => cases elems bs <;> simp

/-! ### The root -/

/-- What the reader does at a child of the root. -/
def RootItem.read (cfg : SzarpConfig) : RootItem → Option SzarpConfig
  | device d => (d.read conv).map fun d => { cfg with devices := cfg.devices ++ [d] }
  | defined _ inner => ((elems inner).foldlM (addParam conv) []).map fun ps =>
      if ps = [] then cfg else { cfg with defined := ps }
  | drawDefinable _ inner => ((elems inner).foldlM (addParam conv) []).map fun ps =>
      if ps = [] then cfg else { cfg with drawDefinable := ps }
  | seasons attrs inner =>
    if seasonsOk conv attrs ∧ (elems (inner.getD [])).all (fun l => seasonOk conv l.attrs) then
      some cfg
    else none
  | boilers _ inner =>
    if elems inner ≠ [] ∧ (elems inner).all (BoilerElem.ok conv) then some cfg else none

theorem configLoop_startsWithNextTag : StartsWithNextTag configTrees (configLoop conv) := by
  intro fuel cfg es es' h
  cases fuel with
  | zero => rfl
  | succ fuel => simp only [configLoop, h]

theorem configLoop_elem (i : RootItem) (fuel : ℕ) (es : List Event)
    (hfuel : i.node.events.length < fuel) :
    ∃ fuel', fuel ≤ fuel' + i.node.events.length ∧ ∀ cfg,
      configLoop conv fuel cfg (i.node.events ++ es) =
        (i.read conv cfg).bind fun cfg' => configLoop conv fuel' cfg' es := by
  obtain ⟨fuel, rfl⟩ := Nat.exists_eq_add_one_of_ne_zero (show fuel ≠ 0 by omega)
  cases i with
  | device d =>
    have hdevice := readDevice_eq conv d fuel es (by rw [RootItem.node] at hfuel; omega)
    rw [RootItem.node, DeviceElem.node, Node.events, List.length_cons]
    refine ⟨fuel, by omega, fun cfg => ?_⟩
    rw [List.cons_append, List.append_assoc, List.singleton_append, configLoop, nextTag_start rfl,
      RootItem.read]
    cases hread : d.read conv <;> simp [isTag, hdevice, hread]
  | defined a inner =>
    rw [RootItem.node, Node.events, List.length_cons, List.length_append,
      List.length_singleton] at hfuel ⊢
    have hloop := sectionLoop_eq conv (show isTag ⟨none, "param"⟩ "param" by decide)
      (show isTag ⟨none, "defined"⟩ "defined" by decide) (by decide) inner fuel es (by omega)
    refine ⟨fuel, by omega, fun cfg => ?_⟩
    rw [List.cons_append, List.append_assoc, List.singleton_append, configLoop, nextTag_start rfl,
      RootItem.read]
    cases hread : (elems inner).foldlM (addParam conv) [] <;>
      simp [isTag, readDefined, hloop, hread]
  | drawDefinable a inner =>
    rw [RootItem.node, Node.events, List.length_cons, List.length_append,
      List.length_singleton] at hfuel ⊢
    have hloop := sectionLoop_eq conv (show isLocalTag ⟨none, "param"⟩ "param" by decide)
      (show isLocalTag ⟨none, "drawdefinable"⟩ "drawdefinable" by decide) (by decide) inner fuel es
      (by omega)
    refine ⟨fuel, by omega, fun cfg => ?_⟩
    rw [List.cons_append, List.append_assoc, List.singleton_append, configLoop, nextTag_start rfl,
      RootItem.read]
    cases hread : (elems inner).foldlM (addParam conv) [] <;>
      simp [isTag, readDrawDefinable, hloop, hread]
  | seasons a inner =>
    rw [RootItem.node, elementNode_events, List.length_cons] at hfuel ⊢
    have hseasons := readSeasons_eq conv a inner fuel es (by omega)
    refine ⟨fuel, by omega, fun cfg => ?_⟩
    rw [List.cons_append, configLoop, nextTag_start rfl, RootItem.read]
    by_cases hok : seasonsOk conv a ∧ (elems (inner.getD [])).all (fun l => seasonOk conv l.attrs)
    · rw [if_pos hok] at hseasons ⊢
      simp only [isTag, hseasons, Option.bind_eq_bind, Option.bind_some]
      simp
    · rw [if_neg hok] at hseasons ⊢
      simp only [isTag, hseasons, Option.bind_eq_bind, Option.bind_some]
      simp
  | boilers a inner =>
    rw [RootItem.node, Node.events, List.length_cons, List.length_append,
      List.length_singleton] at hfuel ⊢
    have hboilers := boilersLoop_eq conv inner fuel es (by omega)
    refine ⟨fuel, by omega, fun cfg => ?_⟩
    rw [List.cons_append, List.append_assoc, List.singleton_append, configLoop, nextTag_start rfl,
      RootItem.read]
    by_cases hok : elems inner ≠ [] ∧ (elems inner).all (BoilerElem.ok conv)
    · rw [if_pos hok] at hboilers ⊢
      simp only [isTag, hboilers, Option.bind_eq_bind, Option.bind_some]
      simp
    · rw [if_neg hok] at hboilers ⊢
      simp only [isTag, hboilers, Option.bind_eq_bind, Option.bind_some]
      simp

end Read

end Document

section Document

variable {F : Type} (conv : Conversions F)

def Document.read (doc : Document) : Option SzarpConfig :=
  if Reader.rootOk doc.attrs then
    (Document.elems doc.inner).foldlM (Document.RootItem.read conv) {}
  else none

/-- The reader computes the configuration of a document from its events. -/
theorem Reader.parseXML_eq (doc : Document) :
    Reader.parseXML conv doc.node = doc.read conv := by
  rw [Reader.parseXML, Document.node, Xml.Node.events, List.length_cons, List.length_append,
    List.length_singleton, Reader.configLoop, Document.nextTag_start rfl, Document.read]
  cases hok : Reader.rootOk doc.attrs with
  | false => simp [Reader.isTag, hok]
  | true =>
    obtain ⟨fuel, hle, hloop⟩ := Document.loop_children
      (Document.configLoop_startsWithNextTag conv) (Document.configLoop_elem conv) doc.inner
      ((Xml.eventsOf (Document.nodesOf Document.RootItem.node doc.inner)).length + 1 + 1)
      [.stop ⟨none, "params"⟩] (by omega)
    obtain ⟨fuel, rfl⟩ := Nat.exists_eq_add_one_of_ne_zero (show fuel ≠ 0 by omega)
    have hend : ∀ cfg, Reader.configLoop conv (fuel + 1) cfg [.stop ⟨none, "params"⟩] =
        some cfg := by
      intro cfg
      rw [Reader.configLoop, Document.nextTag_stop rfl]
      simp [Reader.isTag]
    simp only [Reader.isTag, decide_true, if_true, hok, Option.bind_eq_bind, Option.bind_some,
      hloop, hend]
    exact Option.bind_fun_some _

end Document

end Ipk
end Szarp
