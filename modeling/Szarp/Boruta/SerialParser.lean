import Szarp.Boruta.TcpParser

/-!
# Modbus frames on serial lines

`serial_parser` and `serial_rtu_parser` of `boruta_modbus.cc`: a frame is recognised by its checksum,
and written at once or a byte at a time.
-/

namespace Szarp
namespace Boruta

structure SDU where
  unitId : Byte
  pdu : PDU
deriving DecidableEq

inductive ErrorCondition where
  | timeout
  | frameError
  | crcError
deriving DecidableEq

/-- What a parser calls its `serial_connection_handler` for. -/
inductive HandlerCall where
  | frameParsed (sdu : SDU)
  | error (condition : ErrorCondition)
deriving DecidableEq

/-! ## Checksum -/

/-- The inner loop of `calculate_crc_table`. -/
def crcStep (x : Short × Short) : Short × Short :=
  (if (x.1 ^^^ x.2) &&& 1 ≠ 0 then x.1 >>> 1 ^^^ 0xa001 else x.1 >>> 1, x.2 >>> 1)

def crc16 (i : Byte) : Short := (crcStep^[8] (0, i.setWidth 16)).1

def updateCrc (crc : Short) (c : Byte) : Short :=
  crc >>> 8 ^^^ crc16 ((crc ^^^ c.setWidth 16).setWidth 8)

/-- The checksum of a unit, a function and data. -/
def frameCrc (unitId funcCode : Byte) (data : List Byte) : Short :=
  data.foldl updateCrc (updateCrc (updateCrc 0xffff unitId) funcCode)

namespace RtuParser

inductive State where
  | addr | funcCode | data
deriving DecidableEq

end RtuParser

/-- `serial_rtu_parser`: the data in `sdu` are the bytes that have been read, of a vector that is longer
while a frame is read. The timers are pending or not. -/
structure RtuParser where
  state : RtuParser.State
  sdu : SDU
  readTimer : Bool
  delayBetweenChars : ℕ
  outputBuffer : List Byte
  writeTimer : Bool

namespace RtuParser

def maxFrameSize : ℕ := 256

def configured (delayBetweenChars : ℕ) : RtuParser :=
  ⟨.addr, ⟨0, ⟨0, []⟩⟩, false, delayBetweenChars, [], false⟩

def reset (p : RtuParser) : RtuParser :=
  { p with state := .addr, writeTimer := false, readTimer := false, outputBuffer := [] }

/-! ## Reading -/

def checkCrc (sdu : SDU) : Bool :=
  let d := sdu.pdu.data
  if d.length ≤ 2 then false
  else
    let crc := frameCrc sdu.unitId sdu.pdu.funcCode (d.take (d.length - 2))
    decide (crc = d.getD (d.length - 1) 0 ++ d.getD (d.length - 2) 0)

/-- The case `DATA` of `read_data`, with a frame that has been parsed and what is left in the buffer. -/
def readBytes (p : RtuParser) (input : List Byte) : RtuParser × Option SDU × List Byte :=
  let space := maxFrameSize - 2 - p.sdu.pdu.data.length
  let data := p.sdu.pdu.data ++ input.take space
  let sdu : SDU := ⟨p.sdu.unitId, ⟨p.sdu.pdu.funcCode, data⟩⟩
  if checkCrc sdu then
    let sdu : SDU := ⟨p.sdu.unitId, ⟨p.sdu.pdu.funcCode, data.take (data.length - 2)⟩⟩
    ({ p with state := .addr, sdu }, some sdu, input.drop space)
  else ({ p with sdu, readTimer := true }, none, input.drop space)

def readFuncCode (p : RtuParser) : List Byte → RtuParser × Option SDU × List Byte
  | [] => ({ p with readTimer := true }, none, [])
  | c :: input => readBytes { p with state := .data, sdu := ⟨p.sdu.unitId, ⟨c, []⟩⟩ } input

def readAddr (p : RtuParser) : List Byte → RtuParser × Option SDU × List Byte
  | [] => (p, none, [])
  | c :: input => readFuncCode { p with state := .funcCode, sdu := ⟨c, p.sdu.pdu⟩ } input

def readData (p : RtuParser) (input : List Byte) : RtuParser × Option SDU × List Byte :=
  let p := { p with readTimer := false }
  match p.state with
  | .addr => p.readAddr input
  | .funcCode => p.readFuncCode input
  | .data => p.readBytes input

/-! ## Writing -/

def frame (unitId : Byte) (pdu : PDU) : List Byte :=
  let crc := frameCrc unitId pdu.funcCode pdu.data
  unitId :: pdu.funcCode :: (pdu.data ++ [crc.extractLsb' 0 8, crc.extractLsb' 8 8])

def sendSdu (unitId : Byte) (pdu : PDU) (p : RtuParser) : RtuParser × List Byte :=
  if p.delayBetweenChars ≠ 0 then
    ({ p with outputBuffer := (frame unitId pdu).tail }, [unitId])
  else (p, frame unitId pdu)

def writeTimerEvent (p : RtuParser) : RtuParser × List Byte :=
  match p.outputBuffer with
  | [] => ({ p with writeTimer := false }, [])
  | c :: rest =>
    if p.delayBetweenChars ≠ 0 then
      ({ p with outputBuffer := rest, writeTimer := decide (rest ≠ []) }, [c])
    else ({ p with writeTimer := false }, [])

end RtuParser
end Boruta
end Szarp
