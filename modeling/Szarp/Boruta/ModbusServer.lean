import Szarp.Boruta.ModbusClient

/-!
# Modbus servers

`process_request` of `modbus_unit`: requests read and write the registers of a unit. What holds of the
answers and of the registers is proved in other modules.
-/

namespace Szarp
namespace Boruta

/-- What a `modbus_unit` answers requests with; addresses in `m_registers` are `unsigned short`. -/
structure ServerUnit where
  id : Byte
  registers : Short → Option Register
  currentTime : ℤ

/-- Two bytes of the data as a number; `none` when `at` throws. -/
def PDU.shortAt (pdu : PDU) (i : ℕ) : Option Short := do
  let high ← pdu.data[i]?
  let low ← pdu.data[i + 1]?
  some (high ++ low)

def createErrorResponse (error : Byte) (pdu : PDU) : PDU := ⟨pdu.funcCode ||| mbErrorCode, [error]⟩

namespace ServerUnit

inductive Ended where
  | done
  | illegalDataAddress
  | outOfRange
deriving DecidableEq

def find (u : ServerUnit) (addr : ℕ) : Option Register := u.registers (BitVec.ofNat 16 addr)

def setVal (addr : ℕ) (val : Short) (u : ServerUnit) : ServerUnit :=
  { u with
    registers := Function.update u.registers (BitVec.ofNat 16 addr) (some ⟨val, u.currentTime⟩) }

def writeRegisters (pdu : PDU) : ℕ → ℕ → ℕ → ServerUnit → ServerUnit × Ended
  | 0, _, _, u => (u, .done)
  | n + 1, addr, dataIndex, u =>
    match u.find addr with
    | none => (u, .illegalDataAddress)
    | some _ =>
      match pdu.shortAt dataIndex with
      | none => (u, .outOfRange)
      | some v => writeRegisters pdu n (addr + 1) (dataIndex + 2) (u.setVal addr v)

/-- `regs_count` and `data_index` of `perform_write_registers`. -/
def writeHeader (pdu : PDU) : Option (Short × ℕ) :=
  if pdu.funcCode = 0x10 then (pdu.shortAt 2).map fun regsCount => (regsCount, 5) else some (1, 2)

/-- `perform_write_registers`; there is no answer when an exception is thrown. -/
def performWriteRegisters (pdu : PDU) (u : ServerUnit) : ServerUnit × Option PDU :=
  match pdu.shortAt 0, writeHeader pdu with
  | some startAddr, some (regsCount, dataIndex) =>
    match writeRegisters pdu regsCount.toNat startAddr.toNat dataIndex u with
    | (u, .done) =>
      (u, some (if pdu.funcCode = 0x10 then { pdu with data := pdu.data.take 4 } else pdu))
    | (u, .illegalDataAddress) => (u, some (createErrorResponse 0x02 pdu))
    | (u, .outOfRange) => (u, none)
  | _, _ => (u, none)

/-- The loop of `perform_read_holding_regs`; `none` when there is no register under an address. -/
def readRegisters (u : ServerUnit) : ℕ → ℕ → List Byte → Option (List Byte)
  | 0, _, d => some d
  | n + 1, addr, d =>
    match u.find addr with
    | none => none
    | some reg =>
      readRegisters u n (addr + 1) (d ++ [reg.val.extractLsb' 8 8, reg.val.extractLsb' 0 8])

def performReadHoldingRegs (pdu : PDU) (u : ServerUnit) : Option PDU := do
  let startAddr ← pdu.shortAt 0
  let regsCount ← pdu.shortAt 2
  match u.readRegisters regsCount.toNat startAddr.toNat [BitVec.ofNat 8 (2 * regsCount.toNat)] with
  | some d => some { pdu with data := d }
  | none => some (createErrorResponse 0x02 pdu)

/-- `process_request`; there is no answer when it returns false. -/
def processRequest (unit : Byte) (pdu : PDU) (u : ServerUnit) : ServerUnit × Option PDU :=
  if u.id ≠ unit then (u, none)
  else if pdu.funcCode = 0x03 then (u, u.performReadHoldingRegs pdu)
  else if pdu.funcCode = 0x06 ∨ pdu.funcCode = 0x10 then u.performWriteRegisters pdu
  else (u, some (createErrorResponse 0x01 pdu))

end ServerUnit

/-! ## Answers -/

def PDU.IsException (pdu : PDU) : Prop := pdu.funcCode &&& mbErrorCode ≠ 0

theorem createErrorResponse_isException (error : Byte) (pdu : PDU) :
    (createErrorResponse error pdu).IsException := by
  intro h
  have hbit := congrArg (·.getLsbD 7) h
  simp [createErrorResponse, mbErrorCode] at hbit

end Boruta
end Szarp
