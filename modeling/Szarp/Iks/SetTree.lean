import Szarp.Iks.Colors

/-!
# Sets as property trees

`Set::from_json`, `Set::from_xml`, `Set::get_json_ptree` and `Set::get_xml_ptree` of
`iks/server/data/set.cpp`, and the folding of XML attributes of `iks/server/utils/ptree.cpp`.
-/

namespace Szarp
namespace Iks

/-! ## Attributes -/

def xmlattr : Text := "<xmlattr>".toList

def IsAttr (key : Text) : Prop := key.head? = some '@'

instance (key : Text) : Decidable (IsAttr key) := inferInstanceAs (Decidable (_ = _))

/-- The attributes of `fold_xmlattr` at the root. -/
def foldAttrs (t : Tree) : Tree :=
  match t.children.find xmlattr with
  | none => t
  | some attr =>
    (attr.children.foldl (fun t e => t.putChild (treePath ('@' :: e.1)) e.2) t).erase xmlattr

/-- The attributes of `unfold_xmlattr` at the root: the first two loops. -/
def unfoldAttrs (t : Tree) : Option Tree :=
  let t' := t.children.foldl (fun t e =>
    if IsAttr e.1 then t.putChild (treePath ("<xmlattr>.".toList ++ e.1.drop 1)) e.2 else t) t
  -- the second loop goes on from the child that it has just erased
  if ∃ e ∈ t'.children, IsAttr e.1 then none else some t'

mutual

/-- `fold_xmlattr`; the other children are neither read nor changed by the attributes. -/
def foldXmlattr : Tree → Tree
  | .node d r => foldAttrs (.node d (foldChildren r))
termination_by structural t => t

def foldChildren : List (Text × Tree) → List (Text × Tree)
  | [] => []
  | (k, t) :: r =>
    (k, if k ≠ xmlattr ∧ ¬ IsAttr k then foldXmlattr t else t) :: foldChildren r
termination_by structural r => r

end

mutual

/-- `unfold_xmlattr`; the other children are neither read nor changed by the attributes. -/
def unfoldXmlattr : Tree → Option Tree
  | .node d r => do
    let r' ← unfoldChildren r
    unfoldAttrs (.node d r')

def unfoldChildren : List (Text × Tree) → Option (List (Text × Tree))
  | [] => some []
  | (k, t) :: r => do
    let t' ← (if k ≠ xmlattr then unfoldXmlattr t else some t)
    let r' ← unfoldChildren r
    some ((k, t') :: r')

end

namespace Set

/-! ## Colours and options -/

def lexicalUnsigned (s : Text) : Option ℕ :=
  let digits := if s.head? = some '-' ∨ s.head? = some '+' then s.drop 1 else s
  let value := digits.foldl (fun n c => n * 10 + (c.toNat - '0'.toNat)) 0
  if digits = [] ∨ ¬ digits.all Char.isDigit ∨ 2 ^ 32 ≤ value then none
  else some (if s.head? = some '-' then (2 ^ 32 - value) % 2 ^ 32 else value)

def hexColour (n : ℕ) : Text :=
  let digits := Nat.toDigits 16 n
  '#' :: (List.replicate (6 - digits.length) '0' ++ digits)

def convertColour (value : Text) : Text :=
  if value.head? = some '#' then value
  else
    match lexicalUnsigned value with
    | none => "#000000".toList
    | some n => hexColour (n % 2 ^ 24)

def convertColourOf (key : String) (t : Tree) : Tree :=
  match getText key t with
  | none => t
  | some value => putText key (convertColour value) t

/-- `Set::convert_float`; `shown` is what is put for an optional text. -/
def convertFloat (shown : Text → Text) (key : String) (t : Tree) : Tree :=
  match getText key t with
  | none => t
  | some value => putText key (shown (value.map fun c => if c = ',' then '.' else c)) t

def upgradeOption (prev curr : String) (t : Tree) : Tree :=
  match getText prev t with
  | none => t
  | some value => (putText curr value t).erase prev.toList

/-! ## The parameters -/

section

variable (parse : Text → Option ℚ) (print : ℚ → Text)

def getNumber (key : String) (t : Tree) : Option ℚ := (getText key t).bind parse

/-- The first loop of `from_json` on one parameter: a read order is written again. -/
def normalOrder (t : Tree) : Tree :=
  match getNumber parse "@order" t with
  | none => t
  | some o => putText "@order" (print o) t

/-- `max_order` behind the first loop. -/
def maxOrder (params : List Tree) : ℚ :=
  params.foldl (fun m t =>
    match getNumber parse "@order" t with
    | none => m
    | some o => max m o) 0

/-- `Set::convert_color_names_to_hex` on one parameter. -/
def convertColorName (t : Tree) : Tree :=
  match getText "@graph_color" t with
  | none => t
  | some c =>
    match Colors.nameToHex.find? fun e => e.1.toList = c with
    | some e => putText "@graph_color" e.2.toList t
    | none => putText "@graph_color" (c.map Char.toLower) t

/-- The loop that puts parameters without order at the end, from a number of them on. -/
def addOrders (top : ℚ) : ℕ → List Tree → List Tree
  | _, [] => []
  | i, t :: params =>
    match getNumber parse "@order" t with
    | some _ => t :: addOrders top i params
    | none => putText "@order" (print (top + (i + 1))) t :: addOrders top (i + 1) params

abbrev ParamsMap := MultiIndex ParamId.first ParamId.order

/-- The last loop of `from_json`; a missing name or order is an exception. -/
def insertParams : List Tree → ParamsMap → Option ParamsMap
  | [], c => some c
  | t :: params, c => do
    let name ← getText "@name" t
    let order ← getNumber parse "@order" t
    insertParams params (c.insert ⟨String.ofList name, order, t.erase "@order".toList⟩)

/-- What the loop of `from_xml` makes of the child of a parameter. -/
def xmlParam (t : Tree) : Option ParamId := do
  let name ← getText "@name" t
  let pt := upgradeOption "@bg_color" "@background_color" t
  let pt := upgradeOption "@color" "@graph_color" pt
  let pt := convertColourOf "@background_color" pt
  let pt := convertColourOf "@graph_color" pt
  let order ← getNumber parse "@order" t
  some ⟨String.ofList name, order, pt.erase "@order".toList⟩

def insertXmlParams : List Tree → ParamsMap → Option ParamsMap
  | [], c => some c
  | t :: params, c => do
    let p ← xmlParam parse t
    insertXmlParams params (c.insert p)

/-! ## Reading and writing -/

variable (hashFn : String → UInt64) (shown : Text → Text)

/-- The read set, with the hash put into its description by `update_hash`. -/
def finished (name : Text) (params : List ParamId) (desc : Tree) : Set Tree :=
  let s : Set Tree := ⟨String.ofList name, none, params.map fun p => (p.first, p.desc), desc⟩
  { s with setDesc := putText "@hash" (Nat.repr (s.hash hashFn).toNat).toList desc }

/-- `Set::from_json` of a new set; there is no result when an exception is thrown or the colours
need more passes. -/
def fromJson (fuel : ℕ) (ptree : Tree) : Option (Set Tree) := do
  let name ← getText "@name" ptree
  let pdesc ← ptree.getChild (treePath "params".toList)
  let params := pdesc.children.map Prod.snd
  let top := maxOrder parse params
  let params := (params.map (normalOrder parse print)).map convertColorName
  let index ← insertParams parse (addOrders parse print top 0 params) MultiIndex.empty
  let coloured ← generateColorsLikeDraw3 fuel index.entries
  some (finished hashFn name coloured (ptree.erase "params".toList))

/-- `Set::from_xml` of a new set. -/
def fromXml (ptree : Tree) : Option (Set Tree) := do
  let desc := foldXmlattr ptree
  let name ← getText "@name" desc
  let desc := convertColourOf "@background_color" desc
  let desc := convertColourOf "@background_text_color" desc
  let desc := convertColourOf "@text_color" desc
  let desc := convertFloat shown "@spacing_vertical" desc
  let desc := convertFloat shown "@spacing_horizontal" desc
  let rows := (desc.children.filter fun e => e.1 = "param".toList).map Prod.snd
  let index ← insertXmlParams parse rows MultiIndex.empty
  some (finished hashFn name index.entries (desc.erase "param".toList))

end

def getJsonPtree (s : Set Tree) : Tree :=
  s.setDesc.putChild (treePath "params".toList) (.node [] (s.params.map fun p => ([], p.2)))

def getXmlPtree (s : Set Tree) : Option Tree :=
  let json := s.getJsonPtree
  let rows := ((json.getChild (treePath "params".toList)).getD (.node [] [])).children
  let pset := rows.foldl (fun t e => t.addChild "param".toList e.2) json
  unfoldXmlattr (.node [] [("set".toList, (pset.erase "params".toList).erase "@hash".toList)])

end Set
end Iks
end Szarp
