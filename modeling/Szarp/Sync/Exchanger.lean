import Szarp.Sync.Packet

/-!
# The packet exchanger

`PacketExchanger` packs the packets of its output queue back to back into a buffer that it writes
to the connection, and cuts what it reads from the connection into packets again.
-/

namespace Szarp
namespace Sync

/-! ## Packets on the wire -/

namespace Packet

def wire (p : Packet) : List Byte := p.type :: (BigEndian.encode 2 p.data.length ++ p.data)

def wireLength (p : Packet) : ℕ := p.data.length + headerLength

/-- The first packet of a buffer, when all of it is there. -/
def parse : List Byte → Option Packet
  | type :: hi :: lo :: rest =>
    let length := BigEndian.decode [hi, lo]
    if length + headerLength ≤ rest.length + headerLength then some ⟨type, rest.take length⟩
    else none
  | _ => none

/-- How many bytes the header or, behind it, the body of the first packet lacks. -/
def missing : List Byte → ℕ
  | type :: hi :: lo :: rest =>
    BigEndian.decode [hi, lo] + headerLength - (type :: hi :: lo :: rest).length
  | buf => headerLength - buf.length

/-- Packets back to back. -/
def wires (ps : List Packet) : List Byte := ps.flatMap wire

@[simp] theorem wires_nil : wires [] = [] := rfl

@[simp] theorem wires_cons (p : Packet) (ps : List Packet) :
    wires (p :: ps) = p.wire ++ wires ps := rfl

@[simp] theorem wires_append (ps qs : List Packet) : wires (ps ++ qs) = wires ps ++ wires qs :=
  List.flatMap_append

@[simp] theorem length_wire (p : Packet) : p.wire.length = p.wireLength := by
  simp only [wire, wireLength, headerLength, List.length_cons, List.length_append,
    BigEndian.encode_length]
  omega

theorem wire_eq (p : Packet) : ∃ hi lo, p.wire = p.type :: hi :: lo :: p.data ∧
    BigEndian.encode 2 p.data.length = [hi, lo] := ⟨_, _, rfl, rfl⟩

theorem length_of_parse {bs : List Byte} {p : Packet} (h : parse bs = some p) :
    p.data.length < 2 ^ 16 := by
  match bs, h with
  | type :: hi :: lo :: rest, h =>
    simp only [parse] at h
    split at h
    · obtain rfl := Option.some.inj h
      have hlt := BigEndian.decode_lt [hi, lo]
      have hle := List.length_take_le (BigEndian.decode [hi, lo]) rest
      simp only [List.length_cons, List.length_nil] at hlt
      dsimp only
      omega
    · simp at h

theorem parse_wire (p : Packet) (x : List Byte) (h : p.data.length < 2 ^ 16) :
    parse (p.wire ++ x) = some p := by
  obtain ⟨hi, lo, hwire, hlength⟩ := wire_eq p
  have hdecode : BigEndian.decode [hi, lo] = p.data.length := by
    rw [← hlength]
    exact BigEndian.decode_encode h
  rw [hwire]
  simp only [List.cons_append, parse, hdecode, List.length_append]
  rw [if_pos (by omega), List.take_left]

theorem eq_wire_of_parse {bs : List Byte} {p : Packet} (h : parse bs = some p) :
    bs = p.wire ++ bs.drop p.wireLength := by
  match bs, h with
  | type :: hi :: lo :: rest, h =>
    simp only [parse] at h
    split at h
    next hle =>
      obtain rfl := Option.some.inj h
      have hlen : (rest.take (BigEndian.decode [hi, lo])).length = BigEndian.decode [hi, lo] :=
        List.length_take_of_le (by omega)
      have hheader := BigEndian.encode_decode [hi, lo]
      simp only [List.length_cons, List.length_nil, Nat.zero_add, Nat.reduceAdd] at hheader
      simp only [wire, wireLength, headerLength, hlen, hheader, List.drop_succ_cons,
        List.cons_append, List.nil_append, List.take_append_drop]
    next => simp at h

/-- Packets back to back are cut in one way only. -/
theorem wires_prefix {got mid : List Packet} {x : List Byte}
    (hgot : ∀ p ∈ got, p.data.length < 2 ^ 16) (hmid : ∀ p ∈ mid, p.data.length < 2 ^ 16)
    (h : wires mid = wires got ++ x) : ∃ rest, mid = got ++ rest ∧ x = wires rest := by
  induction got generalizing mid with
  | nil => exact ⟨mid, rfl, by simpa using h.symm⟩
  | cons g got ih =>
    rw [wires_cons, List.append_assoc] at h
    cases mid with
    | nil =>
      have hlen := congrArg List.length h
      rw [List.length_append, length_wire, wireLength, headerLength] at hlen
      simp only [wires_nil, List.length_nil] at hlen
      omega
    | cons m mid =>
      rw [wires_cons] at h
      have hparse := congrArg parse h
      rw [parse_wire m _ (hmid m (by simp)), parse_wire g _ (hgot g (by simp)),
        Option.some.injEq] at hparse
      subst hparse
      obtain ⟨rest, hrest, hx⟩ := ih (fun p hp => hgot p (List.mem_cons_of_mem _ hp))
        (fun p hp => hmid p (List.mem_cons_of_mem _ hp)) (List.append_cancel_left h)
      exact ⟨rest, by rw [hrest]; rfl, hx⟩

theorem missing_bounds {mid : List Packet} {bs x : List Byte} {m : ℕ} (hm : m < 256 ^ 2)
    (hmid : ∀ p ∈ mid, p.data.length ≤ m) (h : wires mid = bs ++ x) (hnone : parse bs = none) :
    0 < missing bs ∧ bs.length + missing bs ≤ headerLength + m := by
  match bs, h, hnone with
  | [], h, hnone => exact ⟨by decide, Nat.le_add_right 3 m⟩
  | [a], h, hnone => exact ⟨show 0 < 2 by decide, Nat.le_add_right 3 m⟩
  | [a, b], h, hnone => exact ⟨show 0 < 1 by decide, Nat.le_add_right 3 m⟩
  | type :: hi :: lo :: rest, h, hnone =>
    cases mid with
    | nil => simp at h
    | cons p mid =>
      obtain ⟨hi', lo', hwire, hlength⟩ := wire_eq p
      have hp := hmid p (by simp)
      rw [wires_cons, hwire] at h
      simp only [List.cons_append, List.cons.injEq] at h
      obtain ⟨-, rfl, rfl, -⟩ := h
      have hdecode : BigEndian.decode [hi', lo'] = p.data.length := by
        rw [← hlength]
        exact BigEndian.decode_encode (by omega)
      simp only [parse, ite_eq_right_iff, hdecode, reduceCtorEq, imp_false] at hnone
      simp only [missing, hdecode, List.length_cons, headerLength] at hnone ⊢
      omega

theorem drop_of_missing {bs x : List Byte} {p : Packet} (hx : x.length ≤ missing bs)
    (hnone : parse bs = none) (h : parse (bs ++ x) = some p) :
    (bs ++ x).drop p.wireLength = [] := by
  apply List.drop_eq_nil_of_le
  rw [List.length_append, wireLength]
  match bs, hx, hnone, h with
  | [], hx, hnone, h =>
    simp only [missing, headerLength, List.length_nil] at hx ⊢
    omega
  | [a], hx, hnone, h =>
    simp only [missing, headerLength, List.length_cons, List.length_nil] at hx ⊢
    omega
  | [a, b], hx, hnone, h =>
    simp only [missing, headerLength, List.length_cons, List.length_nil] at hx ⊢
    omega
  | type :: hi :: lo :: rest, hx, hnone, h =>
    simp only [parse, ite_eq_right_iff, reduceCtorEq, imp_false] at hnone
    simp only [List.cons_append, parse] at h
    split at h
    next hle =>
      obtain rfl := Option.some.inj h
      have hlen : ((rest ++ x).take (BigEndian.decode [hi, lo])).length =
          BigEndian.decode [hi, lo] := List.length_take_of_le (by omega)
      simp only [missing, List.length_cons, headerLength] at hx ⊢
      omega
    next => simp at h

end Packet

structure PacketQueue where
  packets : List Packet
  size : UInt32

namespace PacketQueue

def empty : PacketQueue := ⟨[], 0⟩

def popFront (q : PacketQueue) : Option (Packet × PacketQueue) :=
  match q.packets with
  | [] => none
  | p :: ps => some (p, ⟨ps, q.size - UInt32.ofNat p.wireLength⟩)

def pushBack (q : PacketQueue) (p : Packet) : PacketQueue :=
  ⟨q.packets ++ [p], q.size + UInt32.ofNat p.wireLength⟩

def pushFront (q : PacketQueue) (p : Packet) : PacketQueue :=
  ⟨p :: q.packets, q.size + UInt32.ofNat p.wireLength⟩

end PacketQueue

def bufferSize : ℕ := 2 ^ 16

structure IoBuffer where
  bytes : List Byte
  fits : bytes.length ≤ bufferSize

namespace IoBuffer

def empty : IoBuffer := ⟨[], Nat.zero_le _⟩

/-- `none`: the buffer is overrun. -/
def put (b : IoBuffer) (bs : List Byte) : Option IoBuffer :=
  if h : (b.bytes ++ bs).length ≤ bufferSize then some ⟨b.bytes ++ bs, h⟩ else none

/-- `memmove`: the first bytes leave the buffer. -/
def shift (b : IoBuffer) (n : ℕ) : IoBuffer :=
  ⟨b.bytes.drop n, by rw [List.length_drop]; exact (Nat.sub_le _ _).trans b.fits⟩

end IoBuffer

/-! ## The exchanger -/

structure Exchanger where
  readBuffer : IoBuffer
  writeBuffer : IoBuffer
  inputQueue : PacketQueue
  outputQueue : PacketQueue
  blockedOnRead : Bool
  writeBlockedOnRead : Bool
  blockedOnWrite : Bool
  readBlockedOnWrite : Bool
  readClosed : Bool
  queueSizeLimit : ℕ

/-- Why `SSL_read` or `SSL_write` transferred nothing. -/
inductive SslError where
  | wantRead
  | wantWrite
  | zeroReturn
  | syscall (errno : ℕ)
  | ssl
deriving DecidableEq

/-- Where an exchanger is in its code: it has returned from its last call, it is at the top of a
loop or in a call of the SSL library, or it has thrown an exception. -/
inductive Control where
  | returned (result : Bool)
  | writeLoop (bufferWasFull result : Bool)
  | sslWrite (bufferWasFull result : Bool)
  | readLoop (readOnePacket result : Bool)
  | sslRead (readOnePacket : Bool) (toRead : ℕ) (result : Bool)
  | thrown
deriving DecidableEq

namespace Exchanger

def startQueueSizeLimit : ℕ := 8 * (Packet.headerLength + Packet.maxLength)

def maxQueueSizeLimit : ℕ := 64 * (Packet.headerLength + Packet.maxLength)

def init : Exchanger :=
  ⟨.empty, .empty, .empty, .empty, false, false, false, false, false, startQueueSizeLimit⟩

variable (s : Exchanger)

def dequeInputPacket : Option (Packet × Exchanger) :=
  s.inputQueue.popFront.map fun (p, q) => (p, { s with inputQueue := q })

def enqueOutputPacket (p : Packet) : Exchanger :=
  { s with outputQueue := s.outputQueue.pushBack p }

def dequeOutputPacket : Option (Packet × Exchanger) :=
  s.outputQueue.popFront.map fun (p, q) => (p, { s with outputQueue := q })

def pushFrontOutputPacket (p : Packet) : Exchanger :=
  { s with outputQueue := s.outputQueue.pushFront p }

def readBackPacket (p : Packet) : Exchanger := { s with inputQueue := s.inputQueue.pushFront p }

def enqueInputPacket (p : Packet) : Exchanger :=
  { s with
    readClosed := if p.type = Packet.eof then true else s.readClosed
    inputQueue := s.inputQueue.pushBack p }

def mayRead : Prop := s.inputQueue.size.toNat < s.queueSizeLimit

instance : Decidable s.mayRead := inferInstanceAs (Decidable (_ < _))

def outputQueueAboveHighWaterMark : Prop := s.outputQueue.size.toNat > s.queueSizeLimit

instance : Decidable s.outputQueueAboveHighWaterMark := inferInstanceAs (Decidable (_ > _))

def outputQueueAboveLowWaterMark : Prop := s.outputQueue.size.toNat > s.queueSizeLimit / 2

instance : Decidable s.outputQueueAboveLowWaterMark := inferInstanceAs (Decidable (_ > _))

/-! ### Writing -/

def writePackets : Control :=
  if s.blockedOnWrite ∨ s.writeBlockedOnRead then .returned false
  else .writeLoop (decide s.outputQueueAboveHighWaterMark) false

/-- Packets are moved to the write buffer as long as they fit; the first argument bounds the
passes. -/
def fill : ℕ → Exchanger → Bool → Option (Exchanger × Bool)
  | 0, s, result => some (s, result)
  | n + 1, s, result =>
    match s.dequeOutputPacket with
    | none => some (s, result)
    | some (p, s) =>
      if bufferSize - s.writeBuffer.bytes.length < p.wireLength then
        some (s.pushFrontOutputPacket p, result)
      else
        match s.writeBuffer.put p.wire with
        | none => none
        | some b => fill n { s with writeBuffer := b } true

/-- A pass of the loop up to the call of `SSL_write`. -/
def writePass (bufferWasFull result : Bool) : Option (Exchanger × Control) :=
  if s.writeBuffer.bytes.length = 0 ∧ s.outputQueue.packets.length = 0 then
    if bufferWasFull = true ∧ s.queueSizeLimit < maxQueueSizeLimit then
      some ({ s with queueSizeLimit := s.queueSizeLimit * 2 }, .returned result)
    else some (s, .returned result)
  else
    (fill s.outputQueue.packets.length s result).map fun (s, result) =>
      (s, .sslWrite bufferWasFull result)

/-- What follows the call of `SSL_write`. -/
def written (bufferWasFull result : Bool) : Except SslError ℕ → Exchanger × Control
  | .ok sent => ({ s with writeBuffer := s.writeBuffer.shift sent },
      .writeLoop bufferWasFull result)
  | .error .wantWrite => ({ s with blockedOnWrite := true }, .returned result)
  | .error .wantRead => ({ s with writeBlockedOnRead := true }, .returned result)
  | .error _ => (s, .thrown)

/-! ### Reading -/

def readPackets (readOnePacket : Bool) : Control :=
  if s.readClosed then .returned false
  else if s.blockedOnRead ∨ s.readBlockedOnWrite then .returned false
  else .readLoop readOnePacket false

/-- The packets in the read buffer are moved to the input queue; the second argument bounds the
passes. -/
def cut (readOnePacket : Bool) : ℕ → Exchanger → Bool → Exchanger × Control
  | 0, s, result => (s, .readLoop readOnePacket result)
  | n + 1, s, result =>
    match Packet.parse s.readBuffer.bytes with
    | none => (s, .readLoop readOnePacket result)
    | some p =>
      let s := enqueInputPacket { s with readBuffer := s.readBuffer.shift p.wireLength } p
      if readOnePacket then (s, .returned true) else cut readOnePacket n s true

def cutAll (readOnePacket result : Bool) : Exchanger × Control :=
  cut readOnePacket s.readBuffer.bytes.length s result

/-- How many bytes a pass of the loop asks for. -/
def toRead (readOnePacket : Bool) : ℕ :=
  if readOnePacket then Packet.missing s.readBuffer.bytes
  else bufferSize - s.readBuffer.bytes.length

/-- A pass of the loop up to the call of `SSL_read`, or all of it where nothing is to be read.
`none`: the assertion fails, or the buffer has less room than the library may use. -/
def readPass (readOnePacket result : Bool) : Option (Exchanger × Control) :=
  if ¬s.mayRead then some (s, .returned result)
  else if s.toRead readOnePacket = 0 then
    if readOnePacket then some (s.cutAll readOnePacket result) else none
  else if bufferSize < s.readBuffer.bytes.length + s.toRead readOnePacket then none
  else some (s, .sslRead readOnePacket (s.toRead readOnePacket) result)

/-- What follows the call of `SSL_read`. -/
def received (readOnePacket result : Bool) :
    Except SslError (List Byte) → Option (Exchanger × Control)
  | .ok bs =>
    (s.readBuffer.put bs).map fun b => cutAll { s with readBuffer := b } readOnePacket result
  | .error .wantRead => some ({ s with blockedOnRead := true }, .returned result)
  | .error .wantWrite => some ({ s with readBlockedOnWrite := true }, .returned result)
  | .error .zeroReturn => some (s.enqueInputPacket ⟨Packet.eof, []⟩, .returned true)
  | .error (.syscall errno) =>
    if errno = 0 then some (s.enqueInputPacket ⟨Packet.eof, []⟩, .returned true)
    else some (s, .thrown)
  | .error .ssl => some (s, .thrown)

/-! ### Waiting, and packets from the writer -/

/-- What `Select` does when the socket can be read from or written to. -/
def select (checkRead checkWrite canRead canWrite : Bool) : Exchanger :=
  let s :=
    if checkRead ∧ canRead then
      if s.writeBlockedOnRead then { s with writeBlockedOnRead := false }
      else { s with blockedOnRead := false }
    else s
  if checkWrite ∧ canWrite then
    if s.readBlockedOnWrite then { s with readBlockedOnWrite := false }
    else { s with blockedOnWrite := false }
  else s

/-- The loop of `GetPacketsFromWriter` with the packets that the writer has to give, and those
that it was asked for. -/
def giveLoop : List Packet → Exchanger → Exchanger × List Packet
  | [], s => (s, [])
  | p :: ps, s =>
    if s.outputQueueAboveHighWaterMark then (s, [])
    else
      let (t, given) := giveLoop ps (s.enqueOutputPacket p)
      (t, p :: given)

def getPacketsFromWriter (ps : List Packet) : Exchanger × List Packet :=
  if s.outputQueueAboveLowWaterMark then (s, []) else giveLoop ps s

end Exchanger

end Sync
end Szarp
