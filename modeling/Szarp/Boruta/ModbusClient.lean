import Szarp.Boruta.TcpParser
import Szarp.Lib.Run
import Mathlib.Logic.Function.Basic

/-!
# Modbus clients

`modbus_client` of `boruta_modbus.cc`, and what TCP and serial clients make of it: in a cycle a client
asks for the registers that are received and then writes those that are sent, a block of
consecutive registers at a time. Addresses are numbers below 65536.
-/

namespace Szarp
namespace Boruta

/-! ## Registers -/

inductive RegisterType where
  | holding
  | input
deriving DecidableEq

abbrev Reg := RegisterType × ℕ

def Before (r s : Reg) : Prop := r.1 = .holding ∧ s.1 = .input ∨ r.1 = s.1 ∧ r.2 < s.2

structure RSet where
  elements : List Reg
  sorted : elements.Pairwise Before
  range : ∀ r ∈ elements, r.2 < 65536

structure Register where
  val : Short
  modTime : ℤ
deriving DecidableEq

def mbErrorCode : Byte := 0x80

/-- What a client asks for in a request, with the request. -/
structure Query where
  write : Bool
  registerType : RegisterType
  startAddr : ℕ
  regsCount : ℕ
  transId : Byte
  unitId : Byte
  pdu : PDU

def Query.registers (q : Query) : List Reg :=
  (List.range q.regsCount).map fun i => (q.registerType, q.startAddr + i)

/-! ## The client -/

namespace ModbusClient

inductive State where
  | readQuerySent
  | writeQuerySent
  | idle
deriving DecidableEq

/-- What a client does with its connection. -/
inductive Action where
  | send (q : Query)
  | cycleFinished
  | terminateConnection

end ModbusClient

/-- `modbus_client`: the iterators are positions. Every register that is received or sent has an
object in `m_registers`. Only TCP clients have transaction ids. -/
structure ModbusClient where
  tcp : Bool
  id : Byte
  registers : ℕ → Register
  received : RSet
  sent : RSet
  receivedIterator : ℕ
  sentIterator : ℕ
  startAddr : ℕ
  regsCount : ℕ
  registerType : RegisterType
  state : ModbusClient.State
  latestRequestSent : ℤ
  requestTimeout : ℤ
  currentTime : ℤ
  transId : Byte

namespace ModbusClient

def configured (tcp : Bool) (id : Byte) (received sent : RSet) (requestTimeout : ℤ) :
    ModbusClient where
  tcp := tcp
  id := id
  -- `SZARP_NO_DATA`
  registers := fun _ => ⟨0x8000, -1⟩
  received := received
  sent := sent
  receivedIterator := 0
  sentIterator := 0
  startAddr := 0
  regsCount := 0
  registerType := .holding
  state := .idle
  latestRequestSent := 0
  requestTimeout := requestTimeout
  currentTime := 0
  transId := 0

def resetCycle (c : ModbusClient) : ModbusClient := { c with receivedIterator := 0, sentIterator := 0 }

/-- The loop of `find_continuous_reg_block`. -/
def blockLength (registerType : RegisterType) (current regsCount : ℕ) : List Reg → ℕ
  | [] => regsCount
  | r :: rest =>
    if regsCount < 125 ∧ registerType = r.1 ∧ (current + 1) % 65536 = r.2 then
      blockLength registerType r.2 (regsCount + 1) rest
    else regsCount

/-- `find_continuous_reg_block` for the registers from the iterator on: the first one, and the
number of registers of the block. -/
def findContinuousRegBlock : List Reg → Option (Reg × ℕ)
  | [] => none
  | r :: rest => some (r, blockLength r.1 r.2 1 rest)

def setBlock (c : ModbusClient) (r : Reg) (regsCount : ℕ) : ModbusClient :=
  { c with registerType := r.1, startAddr := r.2, regsCount }

def finishCycle (previousOk : Bool) (c : ModbusClient) : ModbusClient × List Action :=
  (resetCycle { c with state := .idle },
    [if previousOk then .cycleFinished else .terminateConnection])

def nextWriteQuery (previousOk : Bool) (c : ModbusClient) : ModbusClient × List Action :=
  match findContinuousRegBlock (c.sent.elements.drop c.sentIterator) with
  | some (r, n) => ({ c.setBlock r n with sentIterator := c.sentIterator + n }, [])
  | none => c.finishCycle previousOk

def nextReadQuery (previousOk : Bool) (c : ModbusClient) : ModbusClient × List Action :=
  match findContinuousRegBlock (c.received.elements.drop c.receivedIterator) with
  | some (r, n) => ({ c.setBlock r n with receivedIterator := c.receivedIterator + n }, [])
  | none => { c with state := .writeQuerySent }.nextWriteQuery previousOk

def nextQuery (previousOk : Bool) (c : ModbusClient) : ModbusClient × List Action :=
  match c.state with
  | .idle => { c with state := .readQuerySent }.nextReadQuery previousOk
  | .readQuerySent => c.nextReadQuery previousOk
  | .writeQuerySent => c.nextWriteQuery previousOk

def bytes (n : ℕ) : List Byte := [BitVec.ofNat 8 (n / 256), BitVec.ofNat 8 n]

def sendPdu (write : Bool) (pdu : PDU) (c : ModbusClient) : ModbusClient × List Action :=
  let transId := if c.tcp then c.transId + 1 else c.transId
  ({ c with transId },
    [.send ⟨write, c.registerType, c.startAddr, c.regsCount, transId, c.id, pdu⟩])

def sendReadQuery (c : ModbusClient) : ModbusClient × List Action :=
  c.sendPdu false
    { funcCode := match c.registerType with
        | .input => 0x04
        | .holding => 0x03
      data := bytes c.startAddr ++ bytes c.regsCount }

def sendWriteQuery (c : ModbusClient) : ModbusClient × List Action :=
  c.sendPdu true
    { funcCode := 0x10
      data := bytes c.startAddr ++ bytes c.regsCount ++ [BitVec.ofNat 8 (c.regsCount * 2)] ++
        (List.range c.regsCount).flatMap fun i =>
          bytes (c.registers ((c.startAddr + i) % 65536)).val.toNat }

def sendQuery (now : ℤ) (c : ModbusClient) : ModbusClient × List Action :=
  match c.state with
  | .idle => (c, [])
  | .readQuerySent =>
    let (c, actions) := c.sendReadQuery
    ({ c with latestRequestSent := now }, actions)
  | .writeQuerySent =>
    let (c, actions) := c.sendWriteQuery
    ({ c with latestRequestSent := now }, actions)

def sendNextQuery (now : ℤ) (previousOk : Bool) (c : ModbusClient) : ModbusClient × List Action :=
  let (c, actions) := c.nextQuery previousOk
  let (c, queries) := c.sendQuery now
  (c, actions ++ queries)

def setRegisters (data : List Byte) (addrs : List ℕ) (c : ModbusClient) : ModbusClient :=
  match addrs, data with
  | addr :: addrs, high :: low :: data =>
    let register : Register := ⟨high ++ low, c.currentTime⟩
    setRegisters data addrs
      { c with registers := Function.update c.registers (addr % 65536) register }
  | _, _ => c

/-- `consume_read_regs_response`; `none` when an exception is thrown. -/
def consumeReadRegsResponse (pdu : PDU) (c : ModbusClient) : Option ModbusClient :=
  if pdu.funcCode &&& mbErrorCode ≠ 0 then
    if pdu.data = [] then none else some c
  else if pdu.data.length ≠ c.regsCount * 2 + 1 then none
  else some (c.setRegisters pdu.data.tail (List.range' c.startAddr c.regsCount))

def consumeWriteRegsResponse (pdu : PDU) (c : ModbusClient) : Option ModbusClient :=
  if pdu.funcCode &&& mbErrorCode ≠ 0 ∧ pdu.data = [] then none else some c

def pduReceived (now : ℤ) (u : Byte) (pdu : PDU) (c : ModbusClient) : ModbusClient × List Action :=
  if u ≠ c.id then (c, [])
  else
    match c.state with
    | .readQuerySent =>
      match c.consumeReadRegsResponse pdu with
      | some c => c.sendNextQuery now true
      | none => c.sendNextQuery now false
    | .writeQuerySent =>
      match c.consumeWriteRegsResponse pdu with
      | some c => c.sendNextQuery now true
      | none => c.sendNextQuery now false
    | .idle => (c, [])

def frameParsed (now : ℤ) (adu : TCPADU) (c : ModbusClient) : ModbusClient × List Action :=
  if c.transId.toNat ≠ adu.transId.toNat then c.sendNextQuery now false
  else c.pduReceived now adu.unitId adu.pdu

def timeout (now : ℤ) (c : ModbusClient) : ModbusClient × List Action :=
  match c.state with
  | .readQuerySent | .writeQuerySent => c.sendNextQuery now false
  | .idle => (c, [])

/-- `starting_new_cycle`, with what the operations of the sender set. -/
def startingNewCycle (now : ℤ) (sender : List (ℕ × Short)) (c : ModbusClient) :
    ModbusClient × List Action :=
  let c := { c with
    currentTime := now
    registers := sender.foldl (fun registers (s : ℕ × Short) =>
      Function.update registers s.1 ⟨s.2, now⟩) c.registers }
  match c.state with
  | .idle => (c, [])
  | .readQuerySent | .writeQuerySent =>
    if c.latestRequestSent + c.requestTimeout < now then c.sendNextQuery now false else (c, [])

def scheduled (now : ℤ) (c : ModbusClient) : ModbusClient × List Action := c.sendNextQuery now true

def connectionError (c : ModbusClient) : ModbusClient := { c with state := .idle }

/-- `sduParsed` is `modbus_serial_client::frame_parsed`; other conditions of a serial line are
timeouts. -/
inductive Event where
  | scheduled (now : ℤ)
  | frameParsed (now : ℤ) (adu : TCPADU)
  | sduParsed (now : ℤ) (unitId : Byte) (pdu : PDU)
  | timeout (now : ℤ)
  | startingNewCycle (now : ℤ) (sender : List (ℕ × Short))
  | connectionError

def step (c : ModbusClient) : Event → ModbusClient × List Action
  | .scheduled now => c.scheduled now
  | .frameParsed now adu => c.frameParsed now adu
  | .sduParsed now unitId pdu => c.pduReceived now unitId pdu
  | .timeout now => c.timeout now
  | .startingNewCycle now sender => c.startingNewCycle now sender
  | .connectionError => (c.connectionError, [])

end ModbusClient
end Boruta
end Szarp
