import Szarp.Ipk.Dom

/-!
# Loading a configuration from a pull reader

`TSzarpConfig::loadXMLReader` and the `parseXML(xmlTextReaderPtr)` functions that it calls. A parser
gets the events that are still ahead and returns those that are ahead when it is done; `none` stands
for a document that is refused. Every turn of a loop reads an event, so the number of events is
enough fuel.
-/

namespace Szarp
namespace Ipk
namespace Reader

open Xml Numeral

/-! ## XMLWrapper -/

/-- What `NextTag` has to leave out: nothing, the next node, or a tree that is open `depth` levels
deep. -/
inductive Skip where
  | none
  | one
  | inside (depth : ℕ)

/-- The loop of `NextTag`. After a tree that is ignored `xmlTextReaderNext` is at the node behind it,
which the next turn of the loop then leaves. -/
def advance (ignored : Name → Bool) : Skip → List Event → List Event
  | _, [] => []
  | .one, _ :: es => advance ignored .none es
  | .inside depth, e :: es =>
    match e, depth with
    | .start _ _ false, depth => advance ignored (.inside (depth + 1)) es
    | .stop _, 0 => advance ignored .one es
    | .stop _, depth + 1 => advance ignored (.inside depth) es
    | _, depth => advance ignored (.inside depth) es
  | .none, e :: es =>
    match e with
    | .text _ => advance ignored .none es
    | .comment => advance ignored .none es
    | .cdata _ => e :: es
    | .start name _ isEmpty =>
      if ignored name then advance ignored (if isEmpty then .one else .inside 0) es else e :: es
    | .stop name => if ignored name then advance ignored .one es else e :: es

def nextTag (ignored : Name → Bool) (ahead : List Event) : Option (Event × List Event) :=
  match advance ignored .none ahead with
  | [] => none
  | e :: es => some (e, es)

def noTrees : Name → Bool := fun _ => false

def paramTrees (name : Name) : Bool := name.loc = "doc" ∨ name.loc = "editable"

def unitTrees (name : Name) : Bool := name = ⟨some "rate", "period"⟩

def configTrees (name : Name) : Bool :=
  name = ⟨none, "mobile"⟩ ∨ name = ⟨some "checker", "rules"⟩

def isTag (name : Name) (tag : String) : Bool := name = ⟨none, tag⟩

def isLocalTag (name : Name) (tag : String) : Bool := name.loc = tag

def areValidAttr (need : List String) (a : Attrs) : Bool := need.all fun key => (a.get key).isSome

section Parsers

variable {F : Type} (conv : Conversions F)

/-! ## Elements of which nothing is kept here -/

/-- What the loop over the attributes expects of one. -/
inductive AttrKind where
  | int
  | float
  | double
  | oneOf (names : List String)

def castOk : AttrKind → String → Bool
  | .int, s => (lexicalCast s).isSome
  | .float, s => conv.isFloat s
  | .double, s => conv.isDouble s
  | .oneOf names, s => s ∈ names

/-- Attributes that are needed, and attributes that have to be converted. -/
def checkAttrs (need : List String) (kinds : List (String × AttrKind)) (a : Attrs) : Bool :=
  areValidAttr need a &&
    a.list.all fun kv => ((kinds.lookup kv.1).map fun kind => castOk conv kind kv.2).getD true

def raportOk : Attrs → Bool := checkAttrs conv ["title"] [("order", .double)]

def drawOk : Attrs → Bool :=
  checkAttrs conv ["title"]
    [("prior", .double), ("order", .double), ("max", .double), ("min", .double), ("scale", .int),
      ("minscale", .double), ("maxscale", .double)]

def treeNodeOk : Attrs → Bool :=
  checkAttrs conv ["name"] [("prior", .double), ("draw_prior", .double)]

def analysisOk : Attrs → Bool :=
  checkAttrs conv ["boiler_no", "param_type"]
    [("boiler_no", .int), ("param_type", .oneOf ["analysis_enable", "regulator_work_time",
      "coal_volume", "energy_coal_volume_ratio", "left_grate_speed", "right_grate_speed",
      "max_air_stream", "min_air_stream", "left_coal_gate_height", "right_coal_gate_height",
      "analysis_status", "air_stream", "air_stream_result"])]

/-- `TSendParam::parseXML`; a tag without anything is not configured. -/
def sendOk (a : Attrs) (isEmpty : Bool) : Bool :=
  isEmpty && a.list.isEmpty ||
    checkAttrs conv ["repeat", "type"]
      [("value", .int), ("repeat", .int),
        ("type", .oneOf ["probe", "min", "min10", "hour", "day"])] a

def dayKeys : List String := ["month_start", "day_start", "month_end", "day_end"]

def seasonsOk : Attrs → Bool := checkAttrs conv dayKeys (dayKeys.map fun key => (key, .int))

def seasonOk : Attrs → Bool :=
  checkAttrs conv ("year" :: dayKeys) (("year" :: dayKeys).map fun key => (key, .int))

def boilerOk : Attrs → Bool :=
  checkAttrs conv ["boiler_no", "grate_speed", "coal_gate_height", "boiler_type"]
    [("boiler_no", .int), ("grate_speed", .float), ("coal_gate_height", .float),
      ("boiler_type", .oneOf ["WR-1,25", "WR-2,5", "WR-5", "WR-10", "WR-25"])]

def intervalOk : Attrs → Bool :=
  let keys := ["duration", "grate_speed_upper", "grate_speed_lower"]
  checkAttrs conv keys (keys.map fun key => (key, .int))

/-- `TTreeNode::parseXML` -/
def readTreeNode : ℕ → Attrs → Bool → List Event → Option (List Event)
  | 0, _, _, _ => none
  | fuel + 1, a, isEmpty, ahead => do
    if !treeNodeOk conv a then none
    else if isEmpty then return ahead
    else
      let (e, ahead) ← nextTag noTrees ahead
      match e with
      | .start name a isEmpty =>
        if isTag name "treenode" then
          let ahead ← readTreeNode fuel a isEmpty ahead
          let (_, ahead) ← nextTag noTrees ahead
          return ahead
        else return ahead
      | _ => return ahead

def drawLoop : ℕ → List Event → Option (List Event)
  | 0, _ => none
  | fuel + 1, ahead => do
    let (e, ahead) ← nextTag noTrees ahead
    match e with
    | .start name a isEmpty =>
      if isTag name "treenode" then
        let ahead ← readTreeNode conv fuel a isEmpty ahead
        drawLoop fuel ahead
      else if isTag name "draw" then return ahead
      else none
    | .stop name =>
      if isTag name "treenode" then drawLoop fuel ahead
      else if isTag name "draw" then return ahead
      else none
    | _ => none

/-- `TDraw::parseXML` -/
def readDraw (fuel : ℕ) (a : Attrs) (isEmpty : Bool) (ahead : List Event) : Option (List Event) :=
  if !drawOk conv a then none else if isEmpty then some ahead else drawLoop conv fuel ahead

/-- A loop over elements of which only the attributes are looked at. -/
def leafLoop (tag outer : String) (ok : Attrs → Bool) : ℕ → List Event → Option (List Event)
  | 0, _ => none
  | fuel + 1, ahead => do
    let (e, ahead) ← nextTag noTrees ahead
    match e with
    | .start name a _ =>
      if isTag name tag then if ok a then leafLoop tag outer ok fuel ahead else none
      else if isTag name outer then return ahead
      else none
    | .stop name =>
      if isTag name tag then leafLoop tag outer ok fuel ahead
      else if isTag name outer then return ahead
      else none
    | _ => none

def seasonsLoop : ℕ → List Event → Option (List Event) :=
  leafLoop "season" "seasons" (seasonOk conv)

/-- `TSSeason::parseXML` -/
def readSeasons (fuel : ℕ) (a : Attrs) (isEmpty : Bool) (ahead : List Event) :
    Option (List Event) :=
  if !seasonsOk conv a then none else if isEmpty then some ahead else seasonsLoop conv fuel ahead

/-- `TBoiler::parseXML` behind the attributes. -/
def boilerLoop : ℕ → List Event → Option (List Event) :=
  leafLoop "interval" "boiler" (intervalOk conv)

/-- `TBoilers::parseXML`; `any` tells whether there was a boiler, without which the caller refuses
the document. -/
def boilersLoop : ℕ → Bool → List Event → Option (List Event)
  | 0, _, _ => none
  | fuel + 1, any, ahead => do
    let (e, ahead) ← nextTag noTrees ahead
    match e with
    | .start name a _ =>
      if isTag name "boiler" then
        if boilerOk conv a then
          let ahead ← boilerLoop conv fuel ahead
          boilersLoop fuel true ahead
        else none
      else if isTag name "boilers" then if any then return ahead else none
      else none
    | .stop name =>
      if isTag name "boiler" then boilersLoop fuel any ahead
      else if isTag name "boilers" then if any then return ahead else none
      else none
    | _ => none

/-! ## Parameters -/

/-- `xmlTextReaderReadString`: the texts up to the end of the current element. -/
def readString : ℕ → List Event → List String
  | _, [] => []
  | depth, .start _ _ false :: es => readString (depth + 1) es
  | 0, .stop _ :: _ => []
  | depth + 1, .stop _ :: es => readString depth es
  | depth, .text content :: es => content :: readString depth es
  | depth, .cdata content :: es => content :: readString depth es
  | depth, _ :: es => readString depth es

/-- The content of the element whose start has just been read. -/
def scriptText (isEmpty : Bool) (ahead : List Event) : Option String :=
  let texts := if isEmpty then [] else readString 0 ahead
  if texts = [] then none else some (String.join texts)

/-- `TScript::parseXML` behind its start. -/
def scriptLoop : ℕ → Option String → List Event → Option (Option String × List Event)
  | 0, _, _ => none
  | fuel + 1, script, ahead => do
    let (e, ahead) ← nextTag noTrees ahead
    match e with
    | .start name _ isEmpty =>
      if isTag name "script" then scriptLoop fuel (scriptText isEmpty ahead) ahead else none
    | .stop name => if isTag name "script" then return (script, ahead) else none
    | .cdata _ => scriptLoop fuel script ahead
    | _ => none

/-- The local variables of `TParam::parseXML`. -/
structure ParamState where
  param : Param := {}
  isPrecAttr : Bool := false
  isFormula : Bool := false

def paramAttr (s : ParamState) (kv : String × String) : Option ParamState :=
  if kv.1 = "name" then some { s with param := { s.param with name := kv.2 } }
  else if kv.1 = "short_name" then some { s with param := { s.param with shortName := kv.2 } }
  else if kv.1 = "draw_name" then some { s with param := { s.param with drawName := kv.2 } }
  else if kv.1 = "unit" then some { s with param := { s.param with unit := kv.2 } }
  else if kv.1 = "sum_divisor" then if conv.isDouble kv.2 then some s else none
  else if kv.1 = "period" then (lexicalCast kv.2).map fun _ => s
  else if kv.1 = "base_ind" then
    if kv.2 = "auto" then some { s with param := Dom.setAutoBase s.param }
    else (lexicalCast kv.2).map fun v => { s with param := Dom.setBaseInd s.param v }
  else if kv.1 = "prec" then
    (lexicalCast kv.2).map fun v => { s with param := { s.param with prec := v }, isPrecAttr := true }
  else some s

def valueAttr (v : Value) (kv : String × String) : Option Value :=
  if kv.1 = "int" then (lexicalCast kv.2).map fun i => { v with int := i }
  else if kv.1 = "name" then some { v with name := kv.2 }
  else some v

def readValue (a : Attrs) : Option Value :=
  if !areValidAttr ["int", "name"] a then none else a.list.foldlM valueAttr ⟨0, ""⟩

def typeAttr (p : Param) (c : String) : Param :=
  if c = "RPN" then { p with ftype := .rpn }
  else if c = "DRAWDEFINABLE" then { p with ftype := .definable, paramType := .definable }
  else if c = "LUA" then { p with paramType := .lua }
  else p

def defineAttr (s : ParamState) (kv : String × String) : Option ParamState :=
  if kv.1 = "type" then some { s with param := typeAttr s.param kv.2 }
  else if kv.1 = "lua_formula" then
    (Dom.luaFormula kv.2).map fun t => { s with param := { s.param with ftype := t } }
  else if kv.1 = "lua_start_offset" then (lexicalCast kv.2).map fun _ => s
  else if kv.1 = "lua_end_offset" then (lexicalCast kv.2).map fun _ => s
  else if kv.1 = "lua_start_date_time" then if conv.isDateTime kv.2 then some s else none
  else if kv.1 = "formula" then
    -- only the first formula counts when there are several definitions
    if s.isFormula then some s
    else some { s with param := { s.param with formula := kv.2 }, isFormula := true }
  else if kv.1 = "new_def" then
    some { s with param := { s.param with isNewDef := kv.2 = "yes" } }
  else some s

def readDefine (s : ParamState) (a : Attrs) : Option ParamState :=
  if !areValidAttr ["type"] a then none
  else a.list.foldlM (defineAttr conv) { s with param := { s.param with paramType := .real } }

def paramLoop : ℕ → ParamState → List Event → Option (ParamState × List Event)
  | 0, _, _ => none
  | fuel + 1, s, ahead => do
    let (e, ahead) ← nextTag paramTrees ahead
    match e with
    | .start name a isEmpty =>
      if isLocalTag name "raport" then
        if raportOk conv a then
          let raport : Raport := ⟨(a.get "title").getD ""⟩
          paramLoop fuel { s with param := { s.param with raports := s.param.raports ++ [raport] } }
            ahead
        else none
      else if isLocalTag name "value" then
        let v ← readValue a
        paramLoop fuel { s with param := { s.param with values := s.param.values ++ [v] } } ahead
      else if isLocalTag name "draw" then
        let ahead ← readDraw conv fuel a isEmpty ahead
        paramLoop fuel s ahead
      else if isLocalTag name "analysis" then
        if analysisOk conv a then paramLoop fuel s ahead else none
      else if isLocalTag name "define" then
        let s ← readDefine conv s a
        paramLoop fuel s ahead
      else if isLocalTag name "script" then
        -- the wrapper of `TScript` looks at the qualified name
        if isTag name "script" then
          let (script, ahead) ← scriptLoop fuel (scriptText isEmpty ahead) ahead
          paramLoop fuel { s with param := { s.param with script := script } } ahead
        else none
      else if isLocalTag name "param" then return (s, ahead)
      else none
    | .stop name =>
      if name.loc ∈ ["raport", "value", "draw", "analysis", "define", "script"] then
        paramLoop fuel s ahead
      else if isLocalTag name "param" then return (s, ahead)
      else none
    | _ => none

/-- `TParam::parseXML`; an empty tag is not looked at further. -/
def readParam (fuel : ℕ) (a : Attrs) (isEmpty : Bool) (ahead : List Event) :
    Option (Param × List Event) := do
  if !areValidAttr ["name"] a then none
  else
    let s ← a.list.foldlM (paramAttr conv) {}
    if isEmpty then return (s.param, ahead)
    else
      let (s, ahead) ← paramLoop conv fuel s ahead
      if !s.isPrecAttr ∧ s.param.values = [] then none else return (s.param, ahead)

/-! ## Devices -/

def unitAttr (u : Unit) (kv : String × String) : Option Unit :=
  if kv.1 = "id" then if kv.2.utf8ByteSize ≠ 1 then none else some { u with id := firstChar kv.2 }
  else if kv.1 = "type" then (lexicalCast kv.2).map fun v => { u with type := v }
  else if kv.1 = "subtype" then (lexicalCast kv.2).map fun v => { u with subtype := v }
  else if kv.1 = "bufsize" then (lexicalCast kv.2).map fun v => { u with bufsize := v }
  else if kv.1 = "name" then some { u with name := kv.2 }
  else some u

/-- The elements inside of a unit. The end of a parameter is parsed as another one, which then has
no name. -/
def unitLoop : ℕ → Unit → List Event → Option (Unit × List Event)
  | 0, _, _ => none
  | fuel + 1, u, ahead => do
    let (e, ahead) ← nextTag unitTrees ahead
    match e with
    | .start name a isEmpty =>
      if isTag name "param" then
        let (p, ahead) ← readParam conv fuel a isEmpty ahead
        unitLoop fuel { u with params := u.params ++ [p] } ahead
      else if isTag name "unit" then return (u, ahead)
      else if isTag name "send" then if sendOk conv a isEmpty then unitLoop fuel u ahead else none
      else none
    | .stop name =>
      if isTag name "unit" then return (u, ahead)
      else if isTag name "send" then unitLoop fuel u ahead
      else none
    | _ => none

/-- `TUnit::parseXML` -/
def readUnit (fuel : ℕ) (a : Attrs) (ahead : List Event) : Option (Unit × List Event) := do
  if !areValidAttr ["id", "type", "subtype", "bufsize"] a then none
  else
    let u ← a.list.foldlM unitAttr {}
    unitLoop conv fuel u ahead

/-- The loop of `TRadio::parseXML`; it starts at the tag it is called for. -/
def radioLoop : ℕ → Radio → List Event → Option (Radio × List Event)
  | 0, _, _ => none
  | fuel + 1, r, ahead => do
    let (e, ahead) ← nextTag unitTrees ahead
    match e with
    | .start name a _ =>
      if isTag name "radio" then
        match a.get "id" with
        | none => none
        | some id => radioLoop fuel { r with id := firstChar id } ahead
      else if isTag name "unit" then
        let (u, ahead) ← readUnit conv fuel a ahead
        radioLoop fuel { r with units := r.units ++ [u] } ahead
      else none
    | .stop name =>
      if isTag name "radio" then return (r, ahead)
      else if isTag name "unit" then radioLoop fuel r ahead
      else if isTag name "device" then return (r, ahead)
      else none
    | _ => none

/-- `TRadio::parseXML` -/
def readRadio (fuel : ℕ) (ahead : List Event) : Option (Radio × List Event) := do
  let (r, ahead) ← radioLoop conv fuel {} ahead
  if r.units = [] then none else return (r, ahead)

def deviceAttr (d : Device) (kv : String × String) : Option Device :=
  if kv.1 = "daemon" then some { d with daemon := kv.2 }
  else if kv.1 = "path" then some { d with path := kv.2 }
  else if kv.1 = "speed" then (lexicalCast kv.2).map fun v => { d with speed := v }
  else if kv.1 = "stop" then (lexicalCast kv.2).map fun v => { d with stop := v }
  else if kv.1 = "protocol" then (lexicalCast kv.2).map fun v => { d with protocol := v }
  else if kv.1 = "special" then
    (lexicalCast kv.2).map fun v => { d with special := true, specialValue := v }
  else if kv.1 = "options" then some { d with options := kv.2 }
  else some d

/-- The elements inside of a device. The parser of the radio of a device without radios has read
the end of the device when it is done. -/
def deviceLoop : ℕ → Device → List Event → Option (Device × List Event)
  | 0, _, _ => none
  | fuel + 1, d, ahead => do
    let (e, ahead) ← nextTag noTrees ahead
    match e with
    | .start name _ _ =>
      if isTag name "radio" then
        let (r, ahead) ← readRadio conv fuel (e :: ahead)
        deviceLoop fuel { d with radios := d.radios ++ [r] } ahead
      else if isTag name "unit" then
        let (r, ahead) ← readRadio conv fuel (e :: ahead)
        return ({ d with radios := d.radios ++ [r] }, ahead)
      else if isTag name "device" then return (d, ahead)
      else none
    | .stop name =>
      if isTag name "radio" then deviceLoop fuel d ahead
      else if isTag name "unit" then return (d, ahead)
      else if isTag name "device" then return (d, ahead)
      else none
    | _ => none

/-- `TDevice::parseXML` -/
def readDevice (fuel : ℕ) (a : Attrs) (ahead : List Event) : Option (Device × List Event) := do
  if !areValidAttr ["daemon"] a then none
  else
    let d ← a.list.foldlM deviceAttr {}
    deviceLoop conv fuel d ahead

/-! ## The document -/

/-- `TDefined::parseXML` and `TDrawdefinable::parseXML`; the latter looks at local names. -/
def sectionLoop (is : Name → String → Bool) (tag : String) :
    ℕ → List Param → List Event → Option (List Param × List Event)
  | 0, _, _ => none
  | fuel + 1, ps, ahead => do
    let (e, ahead) ← nextTag noTrees ahead
    match e with
    | .start name a isEmpty =>
      if is name "param" then
        let (p, ahead) ← readParam conv fuel a isEmpty ahead
        sectionLoop is tag fuel (ps ++ [p]) ahead
      else if is name tag then return (ps, ahead)
      else none
    | .stop name =>
      if is name "param" then sectionLoop is tag fuel ps ahead
      else if is name tag then return (ps, ahead)
      else none
    | _ => none

def readDefined : ℕ → List Param → List Event → Option (List Param × List Event) :=
  sectionLoop conv isTag "defined"

def readDrawDefinable : ℕ → List Param → List Event → Option (List Param × List Event) :=
  sectionLoop conv isLocalTag "drawdefinable"

def rootAttrOk (kv : String × String) : Bool :=
  if kv.1 = "read_freq" then ((lexicalCast kv.2).map fun v => decide (0 < v)).getD false
  else if kv.1 = "send_freq" then ((lexicalCast kv.2).map fun v => decide (0 < v)).getD false
  else if kv.1 = "version" then kv.2 = "1.0"
  else true

def rootOk (a : Attrs) : Bool :=
  areValidAttr ["read_freq", "send_freq", "version"] a && a.list.all rootAttrOk

/-- The loop of `TSzarpConfig::parseXML`; it starts at the root. -/
def configLoop : ℕ → SzarpConfig → List Event → Option SzarpConfig
  | 0, _, _ => none
  | fuel + 1, cfg, ahead => do
    let (e, ahead) ← nextTag configTrees ahead
    match e with
    | .start name a isEmpty =>
      if isTag name "params" then if rootOk a then configLoop fuel cfg ahead else none
      else if isTag name "device" then
        let (d, ahead) ← readDevice conv fuel a ahead
        configLoop fuel { cfg with devices := cfg.devices ++ [d] } ahead
      else if isTag name "defined" then
        let (ps, ahead) ← readDefined conv fuel [] ahead
        configLoop fuel (if ps = [] then cfg else { cfg with defined := ps }) ahead
      else if isTag name "drawdefinable" then
        let (ps, ahead) ← readDrawDefinable conv fuel [] ahead
        configLoop fuel (if ps = [] then cfg else { cfg with drawDefinable := ps }) ahead
      else if isTag name "seasons" then
        let ahead ← readSeasons conv fuel a isEmpty ahead
        configLoop fuel cfg ahead
      else if isTag name "boilers" then
        let ahead ← boilersLoop conv fuel false ahead
        configLoop fuel cfg ahead
      else none
    | .stop name =>
      if isTag name "params" then return cfg
      else if name.pre = none ∧
          name.loc ∈ ["device", "defined", "drawdefinable", "seasons", "boilers"] then
        configLoop fuel cfg ahead
      else none
    | _ => none

/-- `TSzarpConfig::parseXML` on the events of a document. -/
def parseXML (root : Node) : Option SzarpConfig :=
  configLoop conv (root.events.length + 1) {} root.events

end Parsers

end Reader
end Ipk
end Szarp
