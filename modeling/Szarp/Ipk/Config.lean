import Mathlib.Data.Int.Notation
import Mathlib.Data.Nat.Notation

/-!
# The configuration tree

`szarp_config.h`: the objects that the parsers of `params.xml` build. Lists linked through `next`
pointers are lists here.
-/

namespace Szarp
namespace Ipk

inductive FormulaType where
  | none
  | rpn
  | definable
  | luaVA
  | luaAV
  | luaIPC
deriving DecidableEq, Repr

inductive ParamType where
  | real
  | combined
  | definable
  | lua
deriving DecidableEq, Repr

structure Value where
  int : ℤ
  name : String
deriving DecidableEq, Repr

/-- `TRaport`, by its title. -/
structure Raport where
  title : String
deriving DecidableEq, Repr

structure Param where
  name : String := ""
  shortName : String := ""
  drawName : String := ""
  unit : String := ""
  values : List Value := []
  prec : ℤ := 0
  baseInd : ℤ := -1
  inbase : Bool := false
  formula : String := ""
  ftype : FormulaType := .none
  paramType : ParamType := .real
  isNewDef : Bool := false
  script : Option String := none
  raports : List Raport := []
deriving DecidableEq, Repr

inductive ProbeType where
  | probe
  | min
  | min10
  | hour
  | day
deriving DecidableEq, Repr

structure SendParam where
  configured : Bool := false
  paramName : String := ""
  value : ℤ := 0
  repeatRate : ℤ := 0
  type : ProbeType := .probe
  sendNoData : Bool := false
deriving DecidableEq, Repr

/-- `TUnit` -/
structure Unit where
  id : Char := '\x00'
  type : ℤ := 0
  subtype : ℤ := 0
  bufsize : ℤ := 0
  name : String := ""
  params : List Param := []
  sendParams : List SendParam := []
deriving DecidableEq, Repr

/-- `TRadio`; the id is zero in the container of the units of a device without radio modems. -/
structure Radio where
  id : Char := '\x00'
  units : List Unit := []
deriving DecidableEq, Repr

/-- `TDevice` -/
structure Device where
  daemon : String := ""
  path : String := ""
  speed : ℤ := -1
  stop : ℤ := -1
  protocol : ℤ := -1
  special : Bool := false
  specialValue : ℤ := 0
  options : String := ""
  radios : List Radio := []
deriving DecidableEq, Repr

structure SzarpConfig where
  devices : List Device := []
  defined : List Param := []
  drawDefinable : List Param := []
deriving DecidableEq, Repr

end Ipk
end Szarp
