import Szarp.Ipk.Config
import Szarp.Lib.Numeral
import Szarp.Lib.Xml

/-!
# Loading a configuration from a document tree

`TSzarpConfig::loadXMLDOM` and the `parseXML(xmlNodePtr)` functions that it calls. `none` stands for
a document that is refused. Titles, descriptions and colours of draws and the analysis of boilers
cannot make the parser refuse a parameter and are left out.
-/

namespace Szarp
namespace Ipk

open Xml Numeral

/-- What the C and boost libraries make of texts that are not integers: `sscanf` with `%f`, and
whether `lexical_cast` to `float` and `double` and `time_from_string` accept them. -/
structure Conversions (F : Type) where
  scanFloat : String → Option F
  negative : F → Bool
  isFloat : String → Bool
  isDouble : String → Bool
  isDateTime : String → Bool

structure Season where
  monthStart : ℤ := 4
  dayStart : ℤ := 15
  monthEnd : ℤ := 10
  dayEnd : ℤ := 15
deriving DecidableEq, Repr

/-- `TSSeason`; the seasons of single years are a map. -/
structure Seasons where
  defs : Season := {}
  seasons : List (ℤ × Season) := []
deriving DecidableEq, Repr

inductive BoilerType where
  | wr1_25
  | wr2_5
  | wr5
  | wr10
  | wr25
deriving DecidableEq, Repr

structure Interval where
  gratespeedLower : ℤ
  gratespeedUpper : ℤ
  duration : ℤ
deriving DecidableEq, Repr

/-- `TBoiler` -/
structure Boiler (F : Type) where
  boilerNo : ℤ
  grateSpeed : F
  coalGateHeight : F
  boilerType : BoilerType
  intervals : List Interval
deriving DecidableEq, Repr

/-- A configuration with what stands around its parameters. -/
structure Configuration (F : Type) where
  title : String := ""
  readFreq : ℤ := 0
  sendFreq : ℤ := 0
  tree : SzarpConfig := {}
  boilers : List (Boiler F) := []
  seasons : Seasons := {}
deriving DecidableEq, Repr

def firstChar (s : String) : Char := s.toList.headD '\x00'

namespace Dom

/-! ## Parameters -/

def setBaseInd (p : Param) (index : ℤ) : Param :=
  { p with
    baseInd := index
    inbase := 0 ≤ index
    paramType := if 0 ≤ index then .real else .definable }

def setAutoBase (p : Param) : Param := { p with baseInd := -1, inbase := true }

def baseIndAttr (p : Param) : Option String → Param
  | none => p
  | some c => if c = "auto" then setAutoBase p else setBaseInd p (atoi c)

def parseValue (node : Node) : Option Value := do
  let int ← node.prop "int"
  let name ← node.prop "name"
  return ⟨atoi int, name⟩

def parseRaport (node : Node) : Option Raport := (node.prop "title").map Raport.mk

def luaFormula : String → Option FormulaType
  | "va" => some .luaVA
  | "av" => some .luaAV
  | "ipc" => some .luaIPC
  | _ => none

/-- `xmlNodeListGetString`: nothing without text among the nodes. -/
def nodeListGetString (ns : List Node) : Option String :=
  let texts := ns.filterMap fun
    | .text content => some content
    | .cdata content => some content
    | _ => none
  if texts = [] then none else some (String.join texts)

def newDef (p : Param) (node : Node) : Param :=
  match node.prop "new_def" with
  | none => p
  | some c => { p with isNewDef := c = "yes" }

/-- The attribute `type` of a definition, and `lua_formula`. An unknown type is not refused, since
the check looks at a pointer that is not null. -/
def defineType (p : Param) (node : Node) : Option Param := do
  let p := { p with paramType := .real }
  let type ← node.prop "type"
  if type = "RPN" then
    return { p with ftype := .rpn }
  else if type = "DRAWDEFINABLE" then
    return { p with ftype := .definable, paramType := .definable }
  else if type = "LUA" then
    let formula ← node.prop "lua_formula"
    let ftype ← luaFormula formula
    return { p with ftype := ftype, paramType := .lua }
  else
    return p

/-- The first `script` of a definition; one without content is refused. -/
def defineScript (p : Param) (node : Node) : Option Param :=
  match (node.named "script").head? with
  | none => some p
  | some script =>
    if script.children = [] then none
    else some (newDef { p with script := nodeListGetString script.children } node)

def parseDefine (p : Param) (node : Node) : Option Param := do
  let p ← defineType p node
  let p ← defineScript p node
  if p.paramType = .lua then return p
  else
    let formula ← node.prop "formula"
    let p := { p with formula := formula }
    return if p.ftype = .definable then newDef p node else p

/-- The precision is looked for where there are no values. -/
def parsePrec (node : Node) (values : List Value) : Option ℤ :=
  if values = [] then (node.prop "prec").map atoi else some 0

def paramHead (node : Node) : Option Param := do
  let name ← node.prop "name"
  let values ← (node.named "value").mapM parseValue
  let raports ← (node.named "raport").mapM parseRaport
  let prec ← parsePrec node values
  let p : Param :=
    { name := name
      shortName := (node.prop "short_name").getD ""
      drawName := (node.prop "draw_name").getD ""
      unit := (node.prop "unit").getD ""
      values := values
      raports := raports
      prec := prec }
  return baseIndAttr p (node.prop "base_ind")

/-- `TParam::parseXML`; a parameter outside of units needs a definition. -/
def parseParam (inUnit : Bool) (node : Node) : Option Param := do
  let p ← paramHead node
  match (node.named "define").head? with
  | none => if inUnit then return p else none
  | some define => parseDefine p define

/-! ## Devices -/

def probeType : String → Option ProbeType
  | "probe" => some .probe
  | "min" => some .min
  | "min10" => some .min10
  | "hour" => some .hour
  | "day" => some .day
  | _ => none

/-- `TSendParam::parseXML` -/
def parseSend (node : Node) : Option SendParam :=
  match node.prop "param", node.prop "value" with
  | none, none => some {}
  | param, value => do
    let repeatRate ← node.prop "repeat"
    let type ← node.prop "type"
    let type ← probeType type
    return {
      configured := true
      paramName := param.getD ""
      value := if param.isSome then 0 else (value.map atoi).getD 0
      repeatRate := atoi repeatRate
      type := type
      sendNoData := (node.prop "send_no_data").isSome }

/-- `TUnit::parseXML`; `xmlStrlen` counts bytes. -/
def parseUnit (node : Node) : Option Unit := do
  let id ← node.prop "id"
  if id.utf8ByteSize ≠ 1 then none
  else
    let type ← node.prop "type"
    let subtype ← node.prop "subtype"
    let bufsize ← node.prop "bufsize"
    let params ← (node.named "param").mapM (parseParam true)
    let sendParams ← (node.named "send").mapM parseSend
    return {
      id := firstChar id
      type := atoi type
      subtype := atoi subtype
      bufsize := atoi bufsize
      name := (node.prop "name").getD ""
      params := params
      sendParams := sendParams }

/-- The id of a radio; a device without radios has none. -/
def radioId (node : Node) : Option Char :=
  if node.loc = some "radio" then (node.prop "id").map firstChar else some '\x00'

/-- `TRadio::parseXML`, of a radio or of a device without radios. -/
def parseRadio (node : Node) : Option Radio := do
  let id ← radioId node
  let units ← (node.named "unit").mapM parseUnit
  if units = [] then none else return ⟨id, units⟩

/-- The attributes of a device up to the label `inside`: a missing one ends their reading. -/
def deviceAttrs (node : Node) : Device :=
  match node.prop "daemon" with
  | none => {}
  | some daemon =>
    let d : Device :=
      { daemon := daemon
        options := (node.prop "options").getD ""
        speed := ((node.prop "speed").map atoi).getD (-1) }
    match node.prop "path" with
    | none => d
    | some path =>
      match node.prop "stop" with
      | none => { d with path := path }
      | some stop =>
        match node.prop "protocol" with
        | none => { d with path := path, stop := atoi stop }
        | some protocol => { d with path := path, stop := atoi stop, protocol := atoi protocol }

def deviceSpecial (d : Device) : Option String → Device
  | none => d
  | some c => { d with special := true, specialValue := atoi c }

/-- `TDevice::parseXML` -/
def parseDevice (node : Node) : Option Device := do
  let d := deviceSpecial (deviceAttrs node) (node.prop "special")
  if node.named "radio" = [] then
    let radio ← parseRadio node
    return { d with radios := [radio] }
  else if d.special then none
  else
    let radios ← (node.named "radio").mapM parseRadio
    return { d with radios := radios }

/-! ## Seasons and boilers -/

def scanAttr (node : Node) (key : String) : Option ℤ := (node.prop key).bind scanInt

def parseSeason (node : Node) : Option Season := do
  let monthStart ← scanAttr node "month_start"
  let dayStart ← scanAttr node "day_start"
  let monthEnd ← scanAttr node "month_end"
  let dayEnd ← scanAttr node "day_end"
  return ⟨monthStart, dayStart, monthEnd, dayEnd⟩

def parseYear (node : Node) : Option (ℤ × Season) := do
  let year ← scanAttr node "year"
  let season ← parseSeason node
  return (year, season)

/-- `TSSeason::parseXML`; the last season of a year counts. -/
def parseSeasons (node : Node) : Option Seasons := do
  let defs ← parseSeason node
  let years ← (node.named "season").mapM parseYear
  return ⟨defs, years.foldl (fun m ys => m.filter (fun e => e.1 ≠ ys.1) ++ [ys]) []⟩

def scanNatural (node : Node) (key : String) : Option ℤ :=
  (scanAttr node key).filter fun v => 0 ≤ v

def boilerType : String → Option BoilerType
  | "WR-1,25" => some .wr1_25
  | "WR-2,5" => some .wr2_5
  | "WR-5" => some .wr5
  | "WR-10" => some .wr10
  | "WR-25" => some .wr25
  | _ => none

/-- `TAnalysisInterval::parseXML` -/
def parseInterval (node : Node) : Option Interval := do
  let duration ← scanNatural node "duration"
  let upper ← scanNatural node "grate_speed_upper"
  let lower ← scanNatural node "grate_speed_lower"
  return ⟨lower, upper, duration⟩

section Config

variable {F : Type} (conv : Conversions F)

def scanPositive (node : Node) (key : String) : Option F :=
  ((node.prop key).bind conv.scanFloat).filter fun x => !conv.negative x

/-- `TBoiler::parseXML` -/
def parseBoiler (node : Node) : Option (Boiler F) := do
  let boilerNo ← scanNatural node "boiler_no"
  let grateSpeed ← scanPositive conv node "grate_speed"
  let coalGateHeight ← scanPositive conv node "coal_gate_height"
  let type ← node.prop "boiler_type"
  let type ← boilerType type
  let intervals ← (node.named "interval").mapM parseInterval
  return ⟨boilerNo, grateSpeed, coalGateHeight, type, intervals⟩

/-! ## The document -/

/-- Where the last parameter outside of units has been put. -/
inductive Section where
  | defined
  | drawDefinable

/-- A configuration under way, with the list that `p` points into. -/
structure State (F : Type) where
  config : Configuration F
  last : Section := .defined

def appendTo (tree : SzarpConfig) (ps : List Param) : Section → SzarpConfig
  | .defined => { tree with defined := tree.defined ++ ps }
  | .drawDefinable => { tree with drawDefinable := tree.drawDefinable ++ ps }

/-- The parameters of a section: the first ones of their kind start a list, others are put behind
the parameter that was read last, in whatever list it is. -/
def addSection (s : State F) (sec : Section) (ps : List Param) : State F :=
  let isNew : Bool := match sec with
    | .defined => s.config.tree.defined = []
    | .drawDefinable => s.config.tree.drawDefinable = []
  if ps = [] then s
  else
    let last := if isNew then sec else s.last
    { config := { s.config with tree := appendTo s.config.tree ps last }, last := last }

def parseChild (s : State F) (node : Node) : Option (State F) :=
  if node.loc = some "device" then do
    let device ← parseDevice node
    let tree := { s.config.tree with devices := s.config.tree.devices ++ [device] }
    return { s with config := { s.config with tree := tree } }
  else if node.loc = some "defined" then do
    let params ← (node.named "param").mapM (parseParam false)
    return addSection s .defined params
  else if node.loc = some "drawdefinable" then do
    let params ← (node.named "param").mapM (parseParam false)
    return addSection s .drawDefinable params
  else if node.loc = some "boilers" then do
    let boilers ← (node.named "boiler").mapM (parseBoiler conv)
    return { s with config := { s.config with boilers := s.config.boilers ++ boilers } }
  else if node.loc = some "seasons" then do
    let seasons ← parseSeasons node
    return { s with config := { s.config with seasons := seasons } }
  else some s

/-- A frequency has to be positive. -/
def freqAttr (node : Node) (key : String) : Option ℤ :=
  ((node.prop key).map atoi).filter fun v => 0 < v

/-- `TSzarpConfig::parseXML`; a missing title is no string. -/
def parseXML (root : Node) : Option (Configuration F) := do
  if root.loc ≠ some "params" then none
  else
    let version ← root.prop "version"
    let title ← root.prop "title"
    if version ≠ "1.0" then none
    else
      let readFreq ← freqAttr root "read_freq"
      let sendFreq ← freqAttr root "send_freq"
      let config : Configuration F := { title := title, readFreq := readFreq, sendFreq := sendFreq }
      let s ← root.children.foldlM (parseChild conv) { config := config }
      if s.config.tree.devices = [] then none else return s.config

end Config

end Dom
end Ipk
end Szarp
