import Szarp.Boruta.ModbusClient

/-!
# Configuration of Modbus units

`configure` of `modbus_unit`: the params and send elements of a unit become operations on registers,
which are made as they are needed and are entered in the sets of received and sent registers. What
does not matter for these tables (timeouts, the unit id, the value for missing data) is left out.
-/

namespace Szarp
namespace Boruta

/-! ## Attributes -/

inductive Attr (α : Type) where
  | missing
  | value (a : α)
  | invalid
deriving DecidableEq

inductive FloatOrder where
  | lswmsw
  | mswlsw
deriving DecidableEq

inductive DoubleOrder where
  | lsdmsd
  | msdlsd
deriving DecidableEq

inductive ValType where
  | integer
  | bcd
  | long
  | float
  | double
  | decimal2
  | decimal3
deriving DecidableEq

inductive Part where
  | least
  | most
deriving DecidableEq

/-- A param or send element: `address` is the number that is read from the attribute, and `prec` the
factor for the precision, when the parameter is found. -/
structure Element where
  address : Attr ℤ
  registerType : Attr RegisterType
  valType : Attr ValType
  floatOrder : Attr FloatOrder
  doubleOrder : Attr DoubleOrder
  valOp : Attr Part
  valOp2 : Attr Part
  prec : Option ℤ

structure ModbusUnit where
  params : List Element
  sends : List Element
  floatOrder : Attr FloatOrder
  doubleOrder : Attr DoubleOrder

/-! ## Operations -/

/-- `parcook_modbus_val_op` with references to registers. -/
inductive ParcookOp (ρ : Type) where
  | short (reg : ρ)
  | bcd (reg : ρ)
  | long (lsw msw : ρ) (prec : ℤ) (isLsw : Bool)
  | float (lsw msw : ρ) (prec : ℤ) (isLsw : Bool)
  | double (regs : List ρ) (prec : ℤ) (isLsd : Bool)
  | decimal2 (integer fraction : ρ) (prec : ℤ) (isLsw : Bool)
  | decimal3 (reg1 reg2 reg3 : ρ) (prec : ℤ) (isLsw : Bool)

inductive SenderOp (ρ : Type) where
  | short (reg : ρ)
  | float (lsw msw : ρ) (prec : ℤ)
  | decimal2 (integer fraction : ρ) (prec : ℤ)

/-- A `modbus_register` of a unit, by its number, with the address under which it is entered. -/
structure RegisterObject where
  addr : ℕ
  number : ℕ
deriving DecidableEq

structure Registers where
  entries : ℕ → Option RegisterObject
  made : ℕ

namespace Registers

def make (addr : ℕ) (s : Registers) : RegisterObject × Registers :=
  (⟨addr, s.made⟩, ⟨Function.update s.entries addr (some ⟨addr, s.made⟩), s.made + 1⟩)

/-- The register under an address, which is made when there is none. -/
def find (addr : ℕ) (s : Registers) : RegisterObject × Registers :=
  match s.entries addr with
  | some reg => (reg, s)
  | none => s.make addr

end Registers

structure Tables where
  floatOrder : FloatOrder
  doubleOrder : DoubleOrder
  registers : Registers
  parcookOps : List (ParcookOp RegisterObject)
  senderOps : List (SenderOp RegisterObject)
  received : List Reg
  sent : List Reg

namespace Tables

def pushParcook (op : ParcookOp RegisterObject) (t : Tables) : Tables :=
  { t with parcookOps := t.parcookOps ++ [op] }

def pushSender (op : SenderOp RegisterObject) (t : Tables) : Tables :=
  { t with senderOps := t.senderOps ++ [op] }

def receive (rt : RegisterType) (addr : ℕ) (t : Tables) : Tables :=
  { t with received := t.received.insert (rt, addr) }

def send (rt : RegisterType) (addr : ℕ) (t : Tables) : Tables :=
  { t with sent := t.sent.insert (rt, addr) }

/-- The loop of `configure_double_register` and of `configure_decimal3_register`: a register is
received when it is made. -/
def findReceived (rt : RegisterType) : List ℕ → Tables → List RegisterObject × Tables
  | [], t => ([], t)
  | addr :: addrs, t =>
    let made := t.registers.entries addr = none
    let (reg, registers) := t.registers.find addr
    let t := { t with registers }
    let (regs, t) := findReceived rt addrs (if made then t.receive rt addr else t)
    (reg :: regs, t)

end Tables

/-! ## Orders -/

def getFloatOrder (default : FloatOrder) : Attr FloatOrder → Option FloatOrder
  | .missing => some default
  | .value order => some order
  | .invalid => none

/-- `get_double_order`: `double_order`, which is not set for `lsdmsd`, and `m_double_order`. -/
def getDoubleOrder (default member : DoubleOrder) :
    Attr DoubleOrder → Option (Option DoubleOrder × DoubleOrder)
  | .missing => some (some default, member)
  | .value .msdlsd => some (some .msdlsd, member)
  | .value .lsdmsd => some (none, .lsdmsd)
  | .invalid => none

/-- `is_lsw` and `is_lsd` -/
def isLeast : Attr Part → Option Bool
  | .missing | .value .least => some true
  | .value .most => some false
  | .invalid => none

/-- The registers from an address on; addresses are `unsigned short`. -/
def register (addr i : ℕ) : ℕ := (addr + i) % 65536

def getLswMswReg (order : FloatOrder) (e : Element) (addr : ℕ) : Option (ℕ × ℕ × Bool) := do
  let order ← getFloatOrder order e.floatOrder
  let isLsw ← isLeast e.valOp
  match order with
  | .mswlsw => some (register addr 1, addr, isLsw)
  | .lswmsw => some (addr, register addr 1, isLsw)

def getAddress : Attr ℤ → Option ℕ
  | .value l => if l < 0 ∨ 65535 < l then none else some l.toNat
  | _ => none

def getRegisterType : Attr RegisterType → Option RegisterType
  | .missing => some .holding
  | .value rt => some rt
  | .invalid => none

def getValType : Attr ValType → Option ValType
  | .value valType => some valType
  | _ => none

/-! ## Configuration -/

namespace Tables

def configureIntRegister (addr : ℕ) (isSend : Bool) (rt : RegisterType) (t : Tables) : Tables :=
  let (reg, registers) := t.registers.make addr
  let t := { t with registers }
  if isSend then (t.pushSender (.short reg)).send rt addr
  else (t.pushParcook (.short reg)).receive rt addr

def configureBcdRegister (addr : ℕ) (isSend : Bool) (rt : RegisterType) (t : Tables) :
    Option Tables :=
  let (reg, registers) := t.registers.make addr
  let t := { t with registers }
  if isSend then none
  else some ((t.pushParcook (.bcd reg)).receive rt addr)

/-- The addresses in `configure_double_register`; without an order they are what is on the stack. -/
def doubleAddrs (floatOrder : FloatOrder) (addr : ℕ) (stack : Fin 4 → ℕ) :
    Option DoubleOrder → List ℕ
  | some .msdlsd =>
    match floatOrder with
    | .mswlsw => [addr, register addr 1, register addr 2, register addr 3]
    | .lswmsw => [register addr 1, addr, register addr 3, register addr 2]
  | some .lsdmsd =>
    match floatOrder with
    | .mswlsw => [register addr 2, register addr 3, addr, register addr 1]
    | .lswmsw => [register addr 3, register addr 2, register addr 1, addr]
  | none => List.ofFn stack

def configureDoubleRegister (stack : Fin 4 → ℕ) (e : Element) (prec : ℤ) (addr : ℕ) (rt : RegisterType)
    (t : Tables) : Option Tables := do
  let floatOrder ← getFloatOrder t.floatOrder e.floatOrder
  let (doubleOrder, member) ← getDoubleOrder t.doubleOrder t.doubleOrder e.doubleOrder
  let isLsd ← isLeast e.valOp2
  let (regs, t) := { t with doubleOrder := member }.findReceived rt
    (doubleAddrs floatOrder addr stack doubleOrder)
  some (t.pushParcook (.double regs prec isLsd))

def configureLongFloatRegister (isFloat : Bool) (e : Element) (prec : ℤ) (addr : ℕ) (isSend : Bool)
    (rt : RegisterType) (t : Tables) : Option Tables := do
  let (lsw, msw, isLsw) ← getLswMswReg t.floatOrder e addr
  let (regLsw, registers) := t.registers.find lsw
  let (regMsw, registers) := registers.find msw
  let t := { t with registers }
  let t ← match isFloat, isSend with
    | true, false => some (t.pushParcook (.float regLsw regMsw prec isLsw))
    | true, true => some (t.pushSender (.float regLsw regMsw prec))
    | false, false => some (t.pushParcook (.long regLsw regMsw prec isLsw))
    | false, true => none
  some ((t.receive rt lsw).receive rt msw)

def configureDecimal2Register (e : Element) (prec : ℤ) (addr : ℕ) (isSend : Bool) (rt : RegisterType)
    (t : Tables) : Option Tables := do
  let (lsw, msw, isLsw) ← getLswMswReg t.floatOrder e addr
  let (integer, registers) := t.registers.find msw
  let (fraction, registers) := registers.find lsw
  let t := { t with registers }
  let t :=
    if isSend then t.pushSender (.decimal2 integer fraction prec)
    else t.pushParcook (.decimal2 integer fraction prec isLsw)
  some ((t.receive rt lsw).receive rt msw)

def configureDecimal3Register (e : Element) (prec : ℤ) (addr : ℕ) (isSend : Bool) (rt : RegisterType)
    (t : Tables) : Option Tables := do
  if isSend then none
  else
    let isLsw ← isLeast e.valOp
    match t.findReceived rt [addr, register addr 1, register addr 2] with
    | ([reg1, reg2, reg3], t) => some (t.pushParcook (.decimal3 reg1 reg2 reg3 prec isLsw))
    | _ => none

/-- What `configure_param` does for the type of an element. -/
def configureRegister (stack : Fin 4 → ℕ) (isSend : Bool) (e : Element) (valType : ValType)
    (prec : ℤ) (addr : ℕ) (rt : RegisterType) (t : Tables) : Option Tables :=
  match valType with
  | .integer => some (t.configureIntRegister addr isSend rt)
  | .bcd => t.configureBcdRegister addr isSend rt
  | .long => t.configureLongFloatRegister false e prec addr isSend rt
  | .float => t.configureLongFloatRegister true e prec addr isSend rt
  | .double => t.configureDoubleRegister stack e prec addr rt
  | .decimal2 => t.configureDecimal2Register e prec addr isSend rt
  | .decimal3 => t.configureDecimal3Register e prec addr isSend rt

def configureParam (stack : ℕ → Fin 4 → ℕ) (isSend : Bool) (t : Tables) (e : Element) :
    Option Tables := do
  let addr ← getAddress e.address
  let rt ← getRegisterType e.registerType
  let valType ← getValType e.valType
  let prec ← e.prec
  t.configureRegister (stack t.parcookOps.length) isSend e valType prec addr rt

end Tables

/-- `configure`. Send elements are told from params by `j != i`, which does not hold in a unit without
params; there is no param for the element then. -/
def ModbusUnit.configure (stack : ℕ → Fin 4 → ℕ) (u : ModbusUnit) : Option Tables := do
  let floatOrder ← getFloatOrder .mswlsw u.floatOrder
  let (doubleOrder, member) ← getDoubleOrder .msdlsd .msdlsd u.doubleOrder
  let t ← u.params.foldlM (Tables.configureParam stack false)
    { floatOrder
      -- here `double_order` is `m_double_order`
      doubleOrder := doubleOrder.getD member
      registers := ⟨fun _ => none, 0⟩
      parcookOps := []
      senderOps := []
      received := []
      sent := [] }
  if u.params = [] ∧ u.sends ≠ [] then none
  else u.sends.foldlM (Tables.configureParam stack true) t

end Boruta
end Szarp
