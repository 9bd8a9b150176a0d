import Szarp.Ipk.Reader

/-!
# Documents of the schema

Trees nested as `resources/dtd/ipk-params.rng` says, with any attributes and with blanks between the
tags. A tree that the reader ignores has a blank behind it, because `NextTag` leaves the node that
follows such a tree. Elements that have to hold others are not written as empty tags.
-/

namespace Szarp
namespace Ipk
namespace Document

open Xml Reader

/-! ## Children of an element -/

/-- What stands between tags. -/
inductive Blank where
  | text (content : String)
  | comment

def Blank.node : Blank → Node
  | text content => .text content
  | comment => .comment

def elementNode (name : Name) (a : Attrs) : Option (List Node) → Node
  | none => .empty name a
  | some ns => .element name a ns

/-- A tree that is ignored and the blank behind it. -/
structure Skipped (trees : Name → Bool) where
  name : Name
  attrs : Attrs
  inner : Option (List Node)
  after : Blank
  ignored : trees name

inductive Child (trees : Name → Bool) (α : Type) where
  | blank (b : Blank)
  | skipped (t : Skipped trees)
  | elem (a : α)

section Children

variable {trees : Name → Bool} {α : Type} (node : α → Node)

def Child.nodes : Child trees α → List Node
  | blank b => [b.node]
  | skipped t => [elementNode t.name t.attrs t.inner, t.after.node]
  | elem a => [node a]

def nodesOf (cs : List (Child trees α)) : List Node := cs.flatMap (Child.nodes node)

/-- The elements among children. -/
def elems (cs : List (Child trees α)) : List α :=
  cs.filterMap fun
    | .elem a => some a
    | _ => none

end Children

structure Leaf where
  attrs : Attrs
  inner : Option (List Blank)

def Leaf.node (name : Name) (l : Leaf) : Node :=
  elementNode name l.attrs (l.inner.map fun bs => bs.map Blank.node)

/-! ## Parameters -/

inductive TreeNode where
  | leaf (l : Leaf)
  | parent (attrs : Attrs) (before : List Blank) (child : TreeNode) (after : List Blank)

def TreeNode.node : TreeNode → Node
  | leaf l => l.node ⟨none, "treenode"⟩
  | parent attrs before child after =>
    .element ⟨none, "treenode"⟩ attrs
      (before.map Blank.node ++ child.node :: after.map Blank.node)

inductive ScriptPiece where
  | text (content : String)
  | cdata (content : String)
  | comment

def ScriptPiece.node : ScriptPiece → Node
  | text content => .text content
  | cdata content => .cdata content
  | comment => .comment

structure Script where
  attrs : Attrs
  pieces : List ScriptPiece

def Script.node (s : Script) : Node :=
  .element ⟨none, "script"⟩ s.attrs (s.pieces.map ScriptPiece.node)

inductive ParamItem where
  | value (pre : Option String) (l : Leaf)
  | raport (pre : Option String) (l : Leaf)
  | analysis (pre : Option String) (l : Leaf)
  | draw (attrs : Attrs) (inner : Option (List (Child noTrees TreeNode)))
  | define (pre : Option String) (attrs : Attrs) (inner : Option (List (Child paramTrees Script)))

def ParamItem.node : ParamItem → Node
  | value pre l => l.node ⟨pre, "value"⟩
  | raport pre l => l.node ⟨pre, "raport"⟩
  | analysis pre l => l.node ⟨pre, "analysis"⟩
  | draw attrs inner => elementNode ⟨none, "draw"⟩ attrs (inner.map (nodesOf TreeNode.node))
  | define pre attrs inner => elementNode ⟨pre, "define"⟩ attrs (inner.map (nodesOf Script.node))

def ParamItem.isDefine : ParamItem → Bool
  | define .. => true
  | _ => false

/-- A parameter; the schema allows one definition. -/
structure ParamElem where
  attrs : Attrs
  inner : Option (List (Child paramTrees ParamItem))
  single : ((elems (inner.getD [])).filter ParamItem.isDefine).length ≤ 1

def ParamElem.node (p : ParamElem) : Node :=
  elementNode ⟨none, "param"⟩ p.attrs (p.inner.map (nodesOf ParamItem.node))

/-! ## Devices -/

inductive UnitItem where
  | param (p : ParamElem)
  | send (l : Leaf)

def UnitItem.node : UnitItem → Node
  | param p => p.node
  | send l => l.node ⟨none, "send"⟩

structure UnitElem where
  attrs : Attrs
  inner : List (Child unitTrees UnitItem)

def UnitElem.node (u : UnitElem) : Node :=
  .element ⟨none, "unit"⟩ u.attrs (nodesOf UnitItem.node u.inner)

structure RadioElem where
  attrs : Attrs
  inner : List (Child unitTrees UnitElem)

def RadioElem.node (r : RadioElem) : Node :=
  .element ⟨none, "radio"⟩ r.attrs (nodesOf UnitElem.node r.inner)

/-- A device holds radios or units. -/
inductive DeviceInner where
  | radios (inner : List (Child noTrees RadioElem)) (some_radio : elems inner ≠ [])
  | units (before : List Blank) (first : UnitElem) (rest : List (Child unitTrees UnitElem))

def DeviceInner.nodes : DeviceInner → List Node
  | radios inner _ => nodesOf RadioElem.node inner
  | units before first rest => before.map Blank.node ++ first.node :: nodesOf UnitElem.node rest

structure DeviceElem where
  attrs : Attrs
  inner : DeviceInner

def DeviceElem.node (d : DeviceElem) : Node := .element ⟨none, "device"⟩ d.attrs d.inner.nodes

/-! ## The document -/

structure BoilerElem where
  attrs : Attrs
  inner : List (Child noTrees Leaf)

def BoilerElem.node (b : BoilerElem) : Node :=
  .element ⟨none, "boiler"⟩ b.attrs (nodesOf (Leaf.node ⟨none, "interval"⟩) b.inner)

inductive RootItem where
  | device (d : DeviceElem)
  | defined (attrs : Attrs) (inner : List (Child noTrees ParamElem))
  | drawDefinable (attrs : Attrs) (inner : List (Child noTrees ParamElem))
  | seasons (attrs : Attrs) (inner : Option (List (Child noTrees Leaf)))
  | boilers (attrs : Attrs) (inner : List (Child noTrees BoilerElem))

namespace RootItem

def node : RootItem → Node
  | device d => d.node
  | defined attrs inner => .element ⟨none, "defined"⟩ attrs (nodesOf ParamElem.node inner)
  | drawDefinable attrs inner =>
    .element ⟨none, "drawdefinable"⟩ attrs (nodesOf ParamElem.node inner)
  | seasons attrs inner =>
    elementNode ⟨none, "seasons"⟩ attrs (inner.map (nodesOf (Leaf.node ⟨none, "season"⟩)))
  | boilers attrs inner => .element ⟨none, "boilers"⟩ attrs (nodesOf BoilerElem.node inner)

def isDefined : RootItem → Bool
  | defined .. => true
  | _ => false

def isDrawDefinable : RootItem → Bool
  | drawDefinable .. => true
  | _ => false

end RootItem

end Document

/-- A document of the schema, with at most one section of each kind of defined parameters. -/
structure Document where
  attrs : Xml.Attrs
  inner : List (Document.Child Reader.configTrees Document.RootItem)
  single_defined : ((Document.elems inner).filter Document.RootItem.isDefined).length ≤ 1
  single_drawDefinable :
    ((Document.elems inner).filter Document.RootItem.isDrawDefinable).length ≤ 1

def Document.node (doc : Document) : Xml.Node :=
  .element ⟨none, "params"⟩ doc.attrs (nodesOf RootItem.node doc.inner)

end Ipk
end Szarp
