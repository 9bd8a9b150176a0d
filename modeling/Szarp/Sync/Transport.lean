import Szarp.Lib.Run
import Szarp.Sync.Exchanger

/-!
# Two exchangers and a connection

The packets that one side puts in its output queue come out of the input queue of its peer, in
order and unchanged, however the connection cuts the bytes and however the two sides take turns.
-/

namespace Szarp
namespace Sync

open Packet

/-! ## Queues -/

/-- The bytes that the packets of a queue take on the wire. -/
def queueBytes (ps : List Packet) : ℕ := (ps.map fun p => p.data.length + 3).sum

@[simp] theorem queueBytes_nil : queueBytes [] = 0 := rfl

@[simp] theorem queueBytes_cons (p : Packet) (ps : List Packet) :
    queueBytes (p :: ps) = p.wireLength + queueBytes ps := rfl

@[simp] theorem queueBytes_append (ps qs : List Packet) :
    queueBytes (ps ++ qs) = queueBytes ps + queueBytes qs := by
  rw [queueBytes, List.map_append, List.sum_append]
  rfl

theorem length_wires (ps : List Packet) : (wires ps).length = queueBytes ps := by
  induction ps with
  | nil => rfl
  | cons p ps ih => rw [wires_cons, List.length_append, length_wire, ih, queueBytes_cons]

namespace PacketQueue

def Counted (q : PacketQueue) : Prop := q.size.toNat = queueBytes q.packets

variable {q : PacketQueue} {p : Packet}

theorem toNat_add_ofNat {c : UInt32} {k : ℕ} (h : c.toNat + k < 2 ^ 32) :
    (c + UInt32.ofNat k).toNat = c.toNat + k := by
  rw [UInt32.toNat_add, UInt32.toNat_ofNat']
  omega

theorem toNat_sub_ofNat {c : UInt32} {k : ℕ} (h : k ≤ c.toNat) :
    (c - UInt32.ofNat k).toNat = c.toNat - k := by
  have hc := c.toNat_lt
  rw [UInt32.toNat_sub, UInt32.toNat_ofNat']
  omega

theorem Counted.pushBack (h : q.Counted) (hlt : queueBytes q.packets + p.wireLength < 2 ^ 32) :
    (q.pushBack p).Counted := by
  unfold Counted at h
  change (q.size + UInt32.ofNat p.wireLength).toNat = queueBytes (q.packets ++ [p])
  rw [toNat_add_ofNat (by omega), h, queueBytes_append]
  rfl

theorem Counted.pushFront (h : q.Counted) (hlt : queueBytes q.packets + p.wireLength < 2 ^ 32) :
    (q.pushFront p).Counted := by
  unfold Counted at h
  change (q.size + UInt32.ofNat p.wireLength).toNat = queueBytes (p :: q.packets)
  rw [toNat_add_ofNat (by omega), h, queueBytes_cons, Nat.add_comm]

theorem Counted.pop {ps : List Packet} (h : q.Counted) (hps : q.packets = p :: ps) :
    Counted ⟨ps, q.size - UInt32.ofNat p.wireLength⟩ := by
  unfold Counted at h ⊢
  rw [hps, queueBytes_cons] at h
  rw [toNat_sub_ofNat (by omega), h]
  dsimp only
  omega

theorem Counted.pushAll {got : List Packet} (h : q.Counted)
    (hlt : queueBytes q.packets + queueBytes got < 2 ^ 32) :
    (got.foldl PacketQueue.pushBack q).Counted := by
  induction got generalizing q with
  | nil => exact h
  | cons p got ih =>
    rw [queueBytes_cons] at hlt
    apply ih (h.pushBack (by omega))
    change queueBytes (q.packets ++ [p]) + _ < _
    rw [queueBytes_append, queueBytes_cons, queueBytes_nil]
    omega

theorem packets_pushAll (got : List Packet) (q : PacketQueue) :
    (got.foldl PacketQueue.pushBack q).packets = q.packets ++ got := by
  induction got generalizing q with
  | nil => simp
  | cons p got ih =>
    rw [List.foldl_cons, ih]
    simp [PacketQueue.pushBack]

end PacketQueue

/-! ## What the loops do -/

namespace IoBuffer

theorem put_eq (b : IoBuffer) (bs : List Byte) (h : b.bytes.length + bs.length ≤ bufferSize) :
    ∃ c, b.put bs = some c ∧ c.bytes = b.bytes ++ bs := by
  rw [← List.length_append] at h
  exact ⟨⟨b.bytes ++ bs, h⟩, dif_pos h, rfl⟩

end IoBuffer

namespace Exchanger

/-- Filling the write buffer moves packets from the front of the output queue to it. -/
theorem fill_spec (n : ℕ) (s : Exchanger) (result : Bool) :
    ∃ b q moved result', fill n s result =
        some ({ s with writeBuffer := b, outputQueue := q }, result') ∧
      s.outputQueue.packets = moved ++ q.packets ∧
      b.bytes = s.writeBuffer.bytes ++ wires moved ∧ (s.outputQueue.Counted → q.Counted) := by
  induction n generalizing s result with
  | zero => exact ⟨_, _, [], result, rfl, rfl, by simp, id⟩
  | succ n ih =>
    cases hps : s.outputQueue.packets with
    | nil =>
      refine ⟨s.writeBuffer, s.outputQueue, [], result, ?_, ?_, by simp, id⟩
      · simp only [fill, dequeOutputPacket, PacketQueue.popFront, hps, Option.map_none]
      · rw [hps]
        rfl
    | cons p ps =>
      have hfits := s.writeBuffer.fits
      simp only [fill, dequeOutputPacket, PacketQueue.popFront, hps, Option.map_some]
      split
      next =>
        -- the packet goes back to where it was
        refine ⟨s.writeBuffer, _, [], result, rfl, rfl, by simp, fun hcount =>
          (hcount.pop hps).pushFront ?_⟩
        have hsize := s.outputQueue.size.toNat_lt
        rw [hcount, hps, queueBytes_cons] at hsize
        dsimp only
        omega
      next hroom =>
        obtain ⟨b, hput, hb⟩ := IoBuffer.put_eq s.writeBuffer p.wire (by
          rw [length_wire]
          omega)
        rw [hput]
        obtain ⟨b', q, moved, result', hfill, hmoved, hbytes, hq⟩ :=
          ih { s with writeBuffer := b, outputQueue := _ } true
        refine ⟨b', q, p :: moved, result', hfill, ?_, ?_, fun hcount => hq (hcount.pop hps)⟩
        · exact congrArg (List.cons p) hmoved
        · rw [hbytes, wires_cons, ← List.append_assoc]
          exact congrArg (· ++ wires moved) hb

/-- The writer is asked for packets until the queue is above its limit. -/
theorem giveLoop_spec (ps : List Packet) (s : Exchanger)
    (hps : ∀ p ∈ ps, p.data.length ≤ maxLength) (hcount : s.outputQueue.Counted) {m : ℕ}
    (hlimit : s.queueSizeLimit + (headerLength + maxLength) ≤ m)
    (hm : m < 2 ^ 32) (hle : queueBytes s.outputQueue.packets ≤ m) :
    ∃ q given, giveLoop ps s = ({ s with outputQueue := q }, given) ∧
      q.packets = s.outputQueue.packets ++ given ∧ q.Counted ∧ queueBytes q.packets ≤ m ∧
      ∀ p ∈ given, p.data.length ≤ maxLength := by
  induction ps generalizing s with
  | nil => exact ⟨s.outputQueue, [], rfl, by simp, hcount, hle, by simp⟩
  | cons p ps ih =>
    simp only [giveLoop]
    split
    next => exact ⟨s.outputQueue, [], rfl, by simp, hcount, hle, by simp⟩
    next hroom =>
      have hp := hps p (by simp)
      rw [outputQueueAboveHighWaterMark, hcount] at hroom
      have hbytes : queueBytes s.outputQueue.packets + p.wireLength ≤ m := by
        rw [wireLength]
        omega
      have hpush : queueBytes (s.outputQueue.packets ++ [p]) ≤ m := by
        rw [queueBytes_append]
        exact hbytes
      obtain ⟨q, given, hgive, hq, hcount', hle', hgiven⟩ :=
        ih (s.enqueOutputPacket p) (fun r hr => hps r (List.mem_cons_of_mem _ hr))
          (hcount.pushBack (by omega)) hlimit hpush
      refine ⟨q, p :: given, ?_, ?_, hcount', hle', ?_⟩
      · rw [hgive]
        rfl
      · rw [hq]
        change s.outputQueue.packets ++ [p] ++ given = _
        simp
      · intro r hr
        rcases List.mem_cons.mp hr with rfl | hr
        · exact hp
        · exact hgiven r hr

/-- Packets were moved from the front of the read buffer to the input queue, and what is left in
the buffer is no packet. -/
def Cuts (readOnePacket : Bool) (s : Exchanger) (r : Exchanger × Control) : Prop :=
  ∃ b got closed c,
    r = ({ s with
          readBuffer := b
          inputQueue := got.foldl PacketQueue.pushBack s.inputQueue
          readClosed := closed }, c) ∧
      s.readBuffer.bytes = wires got ++ b.bytes ∧ parse b.bytes = none ∧
      (∀ p ∈ got, p.data.length < 2 ^ 16) ∧
      (c = .returned true ∨ ∃ result, c = .readLoop readOnePacket result)

theorem cuts_none {s : Exchanger} (hparse : parse s.readBuffer.bytes = none)
    (readOnePacket result : Bool) : Cuts readOnePacket s (s, .readLoop readOnePacket result) :=
  ⟨s.readBuffer, [], s.readClosed, _, rfl, rfl, hparse, by simp, Or.inr ⟨result, rfl⟩⟩

theorem parse_of_length_zero {b : IoBuffer} (h : b.bytes.length ≤ 0) : parse b.bytes = none := by
  rw [List.eq_nil_of_length_eq_zero (Nat.le_zero.mp h)]
  rfl

theorem cut_spec (n : ℕ) (s : Exchanger) (result : Bool) (hn : s.readBuffer.bytes.length ≤ n) :
    Cuts false s (cut false n s result) := by
  induction n generalizing s result with
  | zero => exact cuts_none (parse_of_length_zero hn) false result
  | succ n ih =>
    cases hparse : parse s.readBuffer.bytes with
    | none =>
      simp only [cut, hparse]
      exact cuts_none hparse false result
    | some p =>
      have hwire := eq_wire_of_parse hparse
      have hlen : (s.readBuffer.bytes.drop p.wireLength).length ≤ n := by
        rw [List.length_drop, wireLength, headerLength]
        omega
      obtain ⟨b, got, closed, c, hcut, hbytes, hnone, hgot, hafter⟩ :=
        ih (enqueInputPacket { s with readBuffer := s.readBuffer.shift p.wireLength } p) true hlen
      refine ⟨b, p :: got, closed, c, ?_, ?_, hnone, ?_, hafter⟩
      · simp only [cut, hparse, Bool.false_eq_true, if_false, hcut]
        rfl
      · rw [wires_cons, List.append_assoc, ← hbytes]
        exact hwire
      · intro q hq
        rcases List.mem_cons.mp hq with rfl | hq
        · exact length_of_parse hparse
        · exact hgot q hq

/-- With the missing bytes of one packet there is at most that packet to cut. -/
theorem cut_one_spec (n : ℕ) (s : Exchanger) (result : Bool) (hn : s.readBuffer.bytes.length ≤ n)
    (hone : ∀ p, parse s.readBuffer.bytes = some p → s.readBuffer.bytes.drop p.wireLength = []) :
    Cuts true s (cut true n s result) := by
  cases n with
  | zero => exact cuts_none (parse_of_length_zero hn) true result
  | succ n =>
    cases hparse : parse s.readBuffer.bytes with
    | none =>
      simp only [cut, hparse]
      exact cuts_none hparse true result
    | some p =>
      refine ⟨s.readBuffer.shift p.wireLength, [p],
        if p.type = Packet.eof then true else s.readClosed, .returned true, ?_, ?_, ?_, ?_,
        Or.inl rfl⟩
      · simp only [cut, hparse, if_true]
        rfl
      · rw [wires_cons, wires_nil, List.append_nil]
        exact eq_wire_of_parse hparse
      · change parse (s.readBuffer.bytes.drop p.wireLength) = none
        rw [hone p hparse]
        rfl
      · simpa using length_of_parse hparse

end Exchanger

/-! ## One side -/

/-- What happens at one side.  `loop` is a pass of the loop that the side is in, and `ssl` the
return of its call of the SSL library with the number of bytes that were transferred.  The loops of
`PutPacketsToReader`, `FlushOutput`, `Disconnect` and `Drive` are sequences of these. -/
inductive PartyOp where
  | getPacketsFromWriter (ps : List Packet)
  | disconnect
  | writePackets
  | readPackets (readOnePacket : Bool)
  | select (checkRead checkWrite canRead canWrite : Bool)
  | dequeInputPacket
  | readBackPacket (p : Packet)
  | loop
  | ssl (r : Except SslError ℕ)

/-- An exchanger, where it is in its code, and the history of its queues: the packets put in the
output queue, those taken from the input queue, and the last of these unless it was put back. -/
structure Party where
  exchanger : Exchanger
  control : Control
  enqueued : List Packet
  taken : List Packet
  dequeued : Option Packet
  disconnecting : Bool

namespace Party

def init : Party := ⟨.init, .returned false, [], [], none, false⟩

/-- The packet that `Disconnect` sends. -/
def eofPacket : Packet := ⟨Packet.eof, []⟩

/-- The new state, the bytes written and the number of bytes read of those that came in.  `none`
is a failed assertion or an overrun buffer. -/
def step (p : Party) (incoming : List Byte) : PartyOp → Option (Party × List Byte × ℕ)
  | .getPacketsFromWriter ps =>
    let (s, given) := p.exchanger.getPacketsFromWriter ps
    some ({ p with exchanger := s, enqueued := p.enqueued ++ given }, [], 0)
  | .disconnect =>
    some ({ p with
      exchanger := p.exchanger.enqueOutputPacket eofPacket
      enqueued := p.enqueued ++ [eofPacket]
      disconnecting := true }, [], 0)
  | .writePackets => some ({ p with control := p.exchanger.writePackets }, [], 0)
  | .readPackets one => some ({ p with control := p.exchanger.readPackets one }, [], 0)
  | .select checkRead checkWrite canRead canWrite =>
    some ({ p with exchanger := p.exchanger.select checkRead checkWrite canRead canWrite }, [], 0)
  | .dequeInputPacket =>
    match p.exchanger.dequeInputPacket with
    | none => some (p, [], 0)
    | some (q, s) =>
      some ({ p with exchanger := s, taken := p.taken ++ [q], dequeued := some q }, [], 0)
  | .readBackPacket q =>
    some ({ p with
      exchanger := p.exchanger.readBackPacket q
      taken := p.taken.dropLast
      dequeued := none }, [], 0)
  | .loop =>
    match p.control with
    | .writeLoop full result =>
      (p.exchanger.writePass full result).map fun (s, c) =>
        ({ p with exchanger := s, control := c }, [], 0)
    | .readLoop one result =>
      (p.exchanger.readPass one result).map fun (s, c) =>
        ({ p with exchanger := s, control := c }, [], 0)
    | _ => none
  | .ssl r =>
    match p.control with
    | .sslWrite full result =>
      let (s, c) := p.exchanger.written full result r
      some ({ p with exchanger := s, control := c },
        p.exchanger.writeBuffer.bytes.take (r.toOption.getD 0), 0)
    | .sslRead one _ result =>
      (p.exchanger.received one result (r.map incoming.take)).map fun (s, c) =>
        ({ p with exchanger := s, control := c }, [], r.toOption.getD 0)
    | _ => none

/-- Calls are made when the last one has returned.  The writer gives packets that are not too
long, only the packet just dequeued is put back, and `Disconnect` is called once.  The connection
transfers some bytes or says what it waits for. -/
def Legal (p : Party) (incoming : List Byte) : PartyOp → Prop
  | .getPacketsFromWriter ps =>
    (∃ result, p.control = .returned result) ∧ ∀ q ∈ ps, q.data.length ≤ maxLength
  | .disconnect => (∃ result, p.control = .returned result) ∧ p.disconnecting = false
  | .readBackPacket q => (∃ result, p.control = .returned result) ∧ p.dequeued = some q
  | .loop => (∃ full result, p.control = .writeLoop full result) ∨
      ∃ one result, p.control = .readLoop one result
  | .ssl (.ok n) => 0 < n ∧
      ((∃ full result, p.control = .sslWrite full result ∧
          n ≤ p.exchanger.writeBuffer.bytes.length) ∨
        ∃ one toRead result, p.control = .sslRead one toRead result ∧ n ≤ toRead ∧
          n ≤ incoming.length)
  | .ssl (.error e) => (e = .wantRead ∨ e = .wantWrite) ∧
      ((∃ full result, p.control = .sslWrite full result) ∨
        ∃ one toRead result, p.control = .sslRead one toRead result)
  | _ => ∃ result, p.control = .returned result

/-! ### What a step does -/

/-- What a step means for the two streams of packets: `new` packets are put in the output queue,
`moved` ones are moved to the write buffer, and `got` are cut from what was read. -/
structure Moves (p : Party) (incoming : List Byte) (t : Party) (written : List Byte) (read : ℕ) :
    Prop where
  sent : ∃ new moved, t.enqueued = p.enqueued ++ new ∧
    p.exchanger.outputQueue.packets ++ new = moved ++ t.exchanger.outputQueue.packets ∧
    p.exchanger.writeBuffer.bytes ++ wires moved = written ++ t.exchanger.writeBuffer.bytes
  got : ∃ got, (∀ q ∈ got, q.data.length < 2 ^ 16) ∧
    p.exchanger.readBuffer.bytes ++ incoming.take read =
      wires got ++ t.exchanger.readBuffer.bytes ∧
    t.taken ++ t.exchanger.inputQueue.packets =
      p.taken ++ p.exchanger.inputQueue.packets ++ got

/-- The limit starts at eight packets and is doubled up to 64. -/
def LimitOk (n : ℕ) : Prop := n = 65496 ∨ n = 130992 ∨ n = 261984 ∨ n = 523968

/-- What holds where the code is: in `SSL_read` the buffer has room for what was asked for. -/
def ControlOk (s : Exchanger) : Control → Prop
  | .sslRead one toRead _ => s.mayRead ∧ s.readBuffer.bytes.length + toRead ≤ bufferSize ∧
      (one = true → toRead = missing s.readBuffer.bytes)
  | .thrown => False
  | _ => True

structure Inv (p : Party) : Prop where
  input : p.exchanger.inputQueue.Counted
  output : p.exchanger.outputQueue.Counted
  limit : LimitOk p.exchanger.queueSizeLimit
  input_le : queueBytes p.exchanger.inputQueue.packets + queueBytes p.dequeued.toList ≤ 600000
  output_le : queueBytes p.exchanger.outputQueue.packets ≤
    532155 + if p.disconnecting then 3 else 0
  dequeued : ∀ q, p.dequeued = some q → (∃ ps, p.taken = ps ++ [q]) ∧ q.data.length ≤ maxLength
  small : ∀ q ∈ p.enqueued, q.data.length ≤ maxLength
  incomplete : parse p.exchanger.readBuffer.bytes = none
  control : ControlOk p.exchanger p.control

theorem inv_init : Inv init :=
  ⟨rfl, rfl, Or.inl rfl, by decide, by decide, by simp [init], by simp [init], rfl, trivial⟩

variable {p : Party} {incoming : List Byte}

/-- What the SSL calls and `Select` say about waiting. -/
def setFlags (s : Exchanger) (e f g i : Bool) : Exchanger :=
  { s with blockedOnRead := e, writeBlockedOnRead := f, blockedOnWrite := g,
           readBlockedOnWrite := i }

theorem Inv.setFlags (h : p.Inv) (e f g i : Bool) {c : Control} (hc : ControlOk p.exchanger c) :
    Inv { p with exchanger := Party.setFlags p.exchanger e f g i, control := c } :=
  ⟨h.input, h.output, h.limit, h.input_le, h.output_le, h.dequeued, h.small, h.incomplete, by
    cases c <;> exact hc⟩

theorem moves_setFlags (e f g i : Bool) (c : Control) :
    p.Moves incoming { p with exchanger := setFlags p.exchanger e f g i, control := c } [] 0 :=
  ⟨⟨[], [], by simp, by simp [setFlags], by simp [setFlags]⟩,
    ⟨[], by simp, by simp [setFlags], by simp [setFlags]⟩⟩

theorem Inv.goto (h : p.Inv) {c : Control} (hc : ControlOk p.exchanger c) :
    Inv { p with control := c } :=
  h.setFlags _ _ _ _ hc

theorem moves_goto (c : Control) : p.Moves incoming { p with control := c } [] 0 :=
  moves_setFlags _ _ _ _ c

theorem controlOk_returned {s : Exchanger} {c : Control} (hc : ∃ result, c = .returned result) :
    ControlOk s c := by
  obtain ⟨result, rfl⟩ := hc
  trivial

theorem step_getPacketsFromWriter {ps : List Packet} (h : p.Inv)
    (hop : p.Legal incoming (.getPacketsFromWriter ps)) :
    ∃ t w r, p.step incoming (.getPacketsFromWriter ps) = some (t, w, r) ∧ t.Inv ∧
      p.Moves incoming t w r := by
  have hlimit := h.limit
  have hle := h.output_le
  have hgive : ∃ q given, p.exchanger.getPacketsFromWriter ps =
      ({ p.exchanger with outputQueue := q }, given) ∧
      q.packets = p.exchanger.outputQueue.packets ++ given ∧ q.Counted ∧
      queueBytes q.packets ≤ 532155 + (if p.disconnecting then 3 else 0) ∧
      ∀ r ∈ given, r.data.length ≤ maxLength := by
    unfold Exchanger.getPacketsFromWriter
    split
    next => exact ⟨p.exchanger.outputQueue, [], rfl, by simp, h.output, hle, by simp⟩
    next =>
      apply Exchanger.giveLoop_spec ps _ hop.2 h.output _ _ hle
      · simp only [LimitOk, headerLength, maxLength] at hlimit ⊢
        omega
      · split <;> norm_num
  obtain ⟨q, given, hq, hpackets, hcount, hbytes, hgiven⟩ := hgive
  refine ⟨{ p with exchanger := { p.exchanger with outputQueue := q },
                   enqueued := p.enqueued ++ given }, [], 0, ?_, ?_, ?_⟩
  · simp only [step, hq]
  · refine ⟨h.input, hcount, h.limit, h.input_le, hbytes, h.dequeued, ?_, h.incomplete,
      controlOk_returned hop.1⟩
    intro r hr
    rcases List.mem_append.mp hr with hr | hr
    · exact h.small r hr
    · exact hgiven r hr
  · exact ⟨⟨given, [], rfl, by simpa using hpackets.symm, by simp⟩,
      ⟨[], by simp, by simp, by simp⟩⟩

theorem step_disconnect (h : p.Inv) (hop : p.Legal incoming .disconnect) :
    ∃ t w r, p.step incoming .disconnect = some (t, w, r) ∧ t.Inv ∧ p.Moves incoming t w r := by
  have hle := h.output_le
  rw [hop.2] at hle
  have heof : eofPacket.wireLength = 3 := rfl
  refine ⟨_, _, _, rfl, ?_, ?_⟩
  · refine ⟨h.input, h.output.pushBack ?_, h.limit, h.input_le, ?_, h.dequeued, ?_, h.incomplete,
      controlOk_returned hop.1⟩
    · simp only [Bool.false_eq_true, if_false] at hle
      omega
    · change queueBytes (p.exchanger.outputQueue.packets ++ [eofPacket]) ≤ _
      simp only [queueBytes_append, queueBytes_cons, queueBytes_nil, Bool.false_eq_true, if_false,
        if_true] at hle ⊢
      omega
    · intro r hr
      rcases List.mem_append.mp hr with hr | hr
      · exact h.small r hr
      · rw [List.mem_singleton.mp hr]
        exact Nat.zero_le _
  · exact ⟨⟨[eofPacket], [], rfl, rfl, by simp [Exchanger.enqueOutputPacket]⟩,
      ⟨[], by simp, by simp [Exchanger.enqueOutputPacket],
        by simp [Exchanger.enqueOutputPacket]⟩⟩

theorem step_dequeInputPacket (h : p.Inv) (hop : p.Legal incoming .dequeInputPacket)
    (hsmall : ∀ q ∈ p.exchanger.inputQueue.packets, q.data.length ≤ maxLength) :
    ∃ t w r, p.step incoming .dequeInputPacket = some (t, w, r) ∧ t.Inv ∧
      p.Moves incoming t w r := by
  have hle := h.input_le
  cases hps : p.exchanger.inputQueue.packets with
  | nil =>
    refine ⟨p, [], 0, ?_, h, moves_goto p.control⟩
    simp only [step, Exchanger.dequeInputPacket, PacketQueue.popFront, hps, Option.map_none]
  | cons q ps =>
    refine ⟨{ p with
        exchanger := { p.exchanger with inputQueue := ⟨ps, _⟩ }
        taken := p.taken ++ [q]
        dequeued := some q }, [], 0, ?_, ⟨h.input.pop hps, h.output, h.limit, ?_, h.output_le, ?_,
      h.small, h.incomplete, controlOk_returned hop⟩, ⟨⟨[], [], by simp, by simp, by simp⟩,
      ⟨[], by simp, by simp, by simp [hps]⟩⟩⟩
    · simp only [step, Exchanger.dequeInputPacket, PacketQueue.popFront, hps, Option.map_some]
    · rw [hps, queueBytes_cons] at hle
      simp only [Option.toList_some, queueBytes_cons, queueBytes_nil]
      omega
    · rintro r ⟨⟩
      exact ⟨⟨p.taken, rfl⟩, hsmall q (by rw [hps]; exact List.mem_cons_self)⟩

theorem step_readBackPacket {q : Packet} (h : p.Inv)
    (hop : p.Legal incoming (.readBackPacket q)) :
    ∃ t w r, p.step incoming (.readBackPacket q) = some (t, w, r) ∧ t.Inv ∧
      p.Moves incoming t w r := by
  have hle := h.input_le
  obtain ⟨⟨ps, htaken⟩, hq⟩ := h.dequeued q hop.2
  rw [hop.2, Option.toList_some, queueBytes_cons, queueBytes_nil] at hle
  refine ⟨_, _, _, rfl, ⟨h.input.pushFront (by omega), h.output, h.limit, ?_, h.output_le, ?_,
    h.small, h.incomplete, controlOk_returned hop.1⟩, ⟨⟨[], [], by simp, ?_, ?_⟩,
    ⟨[], by simp, ?_, ?_⟩⟩⟩
  · change queueBytes (q :: p.exchanger.inputQueue.packets) + 0 ≤ 600000
    rw [queueBytes_cons]
    omega
  · rintro r ⟨⟩
  · simp [Exchanger.readBackPacket]
  · simp [Exchanger.readBackPacket]
  · simp [Exchanger.readBackPacket]
  · simp [Exchanger.readBackPacket, PacketQueue.pushFront, htaken]

theorem select_eq (s : Exchanger) (a b c d : Bool) :
    ∃ e f g i, s.select a b c d = setFlags s e f g i := by
  simp only [Exchanger.select]
  split_ifs <;> exact ⟨_, _, _, _, rfl⟩

theorem step_writeLoop {full result : Bool} (h : p.Inv) (hc : p.control = .writeLoop full result) :
    ∃ t w r, p.step incoming .loop = some (t, w, r) ∧ t.Inv ∧ p.Moves incoming t w r := by
  have hlimit := h.limit
  simp only [step, hc, Exchanger.writePass]
  split
  next =>
    split
    next hdouble =>
      refine ⟨_, _, _, rfl, ⟨h.input, h.output, ?_, h.input_le, h.output_le, h.dequeued, h.small,
        h.incomplete, trivial⟩, ⟨⟨[], [], by simp, by simp, by simp⟩,
        ⟨[], by simp, by simp, by simp⟩⟩⟩
      have hmax : Exchanger.maxQueueSizeLimit = 523968 := rfl
      simp only [LimitOk] at hlimit ⊢
      omega
    next => exact ⟨_, _, _, rfl, h.goto trivial, moves_goto _⟩
  next =>
    obtain ⟨b, q, moved, result', hfill, hmoved, hbytes, hcount⟩ :=
      Exchanger.fill_spec p.exchanger.outputQueue.packets.length p.exchanger result
    have hle := h.output_le
    rw [hmoved, queueBytes_append] at hle
    rw [hfill]
    refine ⟨_, _, _, rfl, ⟨h.input, hcount h.output, h.limit, h.input_le, ?_, h.dequeued, h.small,
      h.incomplete, trivial⟩, ⟨⟨[], moved, by simp, ?_, ?_⟩, ⟨[], by simp, by simp, by simp⟩⟩⟩
    · exact (Nat.le_add_left _ _).trans hle
    · rw [List.append_nil]
      exact hmoved
    · rw [List.nil_append]
      exact hbytes.symm

theorem step_readLoop {one result : Bool} (h : p.Inv) (hc : p.control = .readLoop one result)
    (hpos : 0 < missing p.exchanger.readBuffer.bytes)
    (hroom : p.exchanger.readBuffer.bytes.length + missing p.exchanger.readBuffer.bytes ≤
      headerLength + maxLength) :
    ∃ t w r, p.step incoming .loop = some (t, w, r) ∧ t.Inv ∧ p.Moves incoming t w r := by
  have hsize : headerLength + maxLength < bufferSize := by decide
  have htoRead : 0 < p.exchanger.toRead one ∧
      p.exchanger.readBuffer.bytes.length + p.exchanger.toRead one ≤ bufferSize ∧
      (one = true → p.exchanger.toRead one = missing p.exchanger.readBuffer.bytes) := by
    cases one with
    | true => exact ⟨hpos, by change _ + missing _ ≤ _; omega, fun _ => rfl⟩
    | false =>
      have htoRead : p.exchanger.toRead false =
        bufferSize - p.exchanger.readBuffer.bytes.length := rfl
      refine ⟨?_, ?_, fun hf => absurd hf (by decide)⟩ <;> omega
  simp only [step, hc, Exchanger.readPass]
  split
  next => exact ⟨_, _, _, rfl, h.goto trivial, moves_goto _⟩
  next hmay =>
    rw [if_neg (by omega), if_neg (by omega)]
    exact ⟨_, _, _, rfl, h.goto ⟨not_not.mp hmay, htoRead.2⟩, moves_goto _⟩

theorem step_select (a b c d : Bool) (h : p.Inv) :
    ∃ t w r, p.step incoming (.select a b c d) = some (t, w, r) ∧ t.Inv ∧
      p.Moves incoming t w r := by
  obtain ⟨e, f, g, i, hselect⟩ := select_eq p.exchanger a b c d
  refine ⟨_, _, _, rfl, ?_, ?_⟩
  · rw [hselect]
    exact h.setFlags e f g i h.control
  · rw [hselect]
    exact moves_setFlags e f g i p.control

theorem step_sslWrite {full result : Bool} {r : Except SslError ℕ} (h : p.Inv)
    (hop : p.Legal incoming (.ssl r)) (hc : p.control = .sslWrite full result) :
    ∃ t w k, p.step incoming (.ssl r) = some (t, w, k) ∧ t.Inv ∧ p.Moves incoming t w k := by
  simp only [step, hc]
  cases r with
  | ok n =>
    refine ⟨_, _, _, rfl, ⟨h.input, h.output, h.limit, h.input_le, h.output_le, h.dequeued,
      h.small, h.incomplete, trivial⟩, ⟨⟨[], [], by simp, List.append_nil _, ?_⟩,
      ⟨[], by simp, List.append_nil _, (List.append_nil _).symm⟩⟩⟩
    rw [wires_nil, List.append_nil]
    exact (List.take_append_drop n _).symm
  | error e =>
    rcases hop.1 with rfl | rfl
    · exact ⟨_, _, _, rfl, h.setFlags _ true _ _ trivial, moves_setFlags _ true _ _ _⟩
    · exact ⟨_, _, _, rfl, h.setFlags _ _ true _ trivial, moves_setFlags _ _ true _ _⟩

theorem step_read {one result : Bool} {toRead n : ℕ} (h : p.Inv)
    (hc : p.control = .sslRead one toRead result) (hn : n ≤ toRead) :
    ∃ t w k, p.step incoming (.ssl (.ok n)) = some (t, w, k) ∧ t.Inv ∧ p.Moves incoming t w k := by
  have hcontrol := h.control
  rw [hc] at hcontrol
  obtain ⟨hmay, hroom, hone⟩ := hcontrol
  have htake : (incoming.take n).length ≤ n := List.length_take_le n incoming
  obtain ⟨b, hput, hb⟩ := IoBuffer.put_eq p.exchanger.readBuffer (incoming.take n) (by omega)
  have hcuts : Exchanger.Cuts one { p.exchanger with readBuffer := b }
      (Exchanger.cutAll { p.exchanger with readBuffer := b } one result) := by
    cases one with
    | false => exact Exchanger.cut_spec _ _ _ le_rfl
    | true =>
      apply Exchanger.cut_one_spec _ _ _ le_rfl
      intro q hq
      have hmissing := hone rfl
      change parse b.bytes = some q at hq
      change b.bytes.drop q.wireLength = []
      rw [hb] at hq ⊢
      exact drop_of_missing (by omega) h.incomplete hq
  obtain ⟨b', got, closed, c, hcut, hbytes, hnone, hgot, hc'⟩ := hcuts
  -- what was cut was in the buffer, so the queue stays far below the range of its counter
  have hlength : queueBytes got + b'.bytes.length = b.bytes.length := by
    have hlen := congrArg List.length hbytes
    rw [List.length_append, length_wires] at hlen
    exact hlen.symm
  have hfits := b.fits
  have hlimit := h.limit
  have hpackets := PacketQueue.packets_pushAll got p.exchanger.inputQueue
  have hdequeued : queueBytes p.dequeued.toList ≤ headerLength + maxLength := by
    cases hd : p.dequeued with
    | none => exact Nat.zero_le _
    | some q =>
      have hq := (h.dequeued q hd).2
      rw [Option.toList_some, queueBytes_cons, queueBytes_nil, wireLength]
      omega
  rw [Exchanger.mayRead, h.input] at hmay
  simp only [LimitOk] at hlimit
  simp only [bufferSize, headerLength, maxLength] at hfits hdequeued
  have hstep : p.step incoming (.ssl (.ok n)) = some ({ p with
      exchanger := { p.exchanger with
        readBuffer := b'
        inputQueue := got.foldl PacketQueue.pushBack p.exchanger.inputQueue
        readClosed := closed }
      control := c }, [], n) := by
    simp only [step, hc, Exchanger.received, Except.map, hput, Option.map_some, hcut]
    rfl
  refine ⟨_, _, _, hstep, ⟨h.input.pushAll (by omega), h.output, h.limit, ?_, h.output_le,
    h.dequeued, h.small, hnone, ?_⟩, ⟨⟨[], [], by simp, by simp, by simp⟩,
    ⟨got, hgot, ?_, ?_⟩⟩⟩
  · change queueBytes (got.foldl PacketQueue.pushBack p.exchanger.inputQueue).packets +
      queueBytes p.dequeued.toList ≤ 600000
    rw [hpackets, queueBytes_append]
    omega
  · rcases hc' with rfl | ⟨result', rfl⟩ <;> trivial
  · rw [← hb]
    exact hbytes
  · change p.taken ++ (got.foldl PacketQueue.pushBack p.exchanger.inputQueue).packets = _
    rw [hpackets, List.append_assoc]

theorem step_sslRead {one result : Bool} {toRead : ℕ} {r : Except SslError ℕ} (h : p.Inv)
    (hop : p.Legal incoming (.ssl r)) (hc : p.control = .sslRead one toRead result) :
    ∃ t w k, p.step incoming (.ssl r) = some (t, w, k) ∧ t.Inv ∧ p.Moves incoming t w k := by
  cases r with
  | ok n =>
    apply step_read h hc
    obtain ⟨-, ⟨full, res, hc', -⟩ | ⟨one', toRead', res, hc', hn, -⟩⟩ := hop
    · rw [hc] at hc'
      simp at hc'
    · rw [hc, Control.sslRead.injEq] at hc'
      omega
  | error e =>
    simp only [step, hc]
    rcases hop.1 with rfl | rfl
    · exact ⟨_, _, _, rfl, h.setFlags true _ _ _ trivial, moves_setFlags true _ _ _ _⟩
    · exact ⟨_, _, _, rfl, h.setFlags _ _ _ true trivial, moves_setFlags _ _ _ true _⟩

/-- A legal step succeeds, keeps the invariant and moves packets as described. -/
theorem step_spec {op : PartyOp} (h : p.Inv) (hop : p.Legal incoming op)
    (hsmall : ∀ q ∈ p.exchanger.inputQueue.packets, q.data.length ≤ maxLength)
    (hpos : 0 < missing p.exchanger.readBuffer.bytes)
    (hroom : p.exchanger.readBuffer.bytes.length + missing p.exchanger.readBuffer.bytes ≤
      headerLength + maxLength) :
    ∃ t w k, p.step incoming op = some (t, w, k) ∧ t.Inv ∧ p.Moves incoming t w k := by
  cases op with
  | getPacketsFromWriter ps => exact step_getPacketsFromWriter h hop
  | disconnect => exact step_disconnect h hop
  | writePackets =>
    refine ⟨_, _, _, rfl, h.goto ?_, moves_goto _⟩
    unfold Exchanger.writePackets
    split <;> trivial
  | readPackets one =>
    refine ⟨_, _, _, rfl, h.goto ?_, moves_goto _⟩
    unfold Exchanger.readPackets
    split_ifs <;> trivial
  | select a b c d => exact step_select a b c d h
  | dequeInputPacket => exact step_dequeInputPacket h hop hsmall
  | readBackPacket q => exact step_readBackPacket h hop
  | loop =>
    rcases hop with ⟨full, result, hc⟩ | ⟨one, result, hc⟩
    · exact step_writeLoop h hc
    · exact step_readLoop h hc hpos hroom
  | ssl r =>
    have hcontrol : (∃ full result, p.control = .sslWrite full result) ∨
        ∃ one toRead result, p.control = .sslRead one toRead result := by
      cases r with
      | ok n =>
        obtain ⟨-, ⟨full, result, hc, -⟩ | ⟨one, toRead, result, hc, -⟩⟩ := hop
        · exact Or.inl ⟨full, result, hc⟩
        · exact Or.inr ⟨one, toRead, result, hc⟩
      | error e => exact hop.2
    rcases hcontrol with ⟨full, result, hc⟩ | ⟨one, toRead, result, hc⟩
    · exact step_sslWrite h hop hc
    · exact step_sslRead h hop hc

end Party

/-! ## Both sides -/

inductive Side where
  | client
  | server
deriving DecidableEq

def Side.peer : Side → Side
  | .client => .server
  | .server => .client

theorem Side.peer_ne (i : Side) : i.peer ≠ i := by cases i <;> decide

theorem Side.eq_peer {i j : Side} (h : j ≠ i) : j = i.peer := by
  cases i <;> cases j <;> first | rfl | exact absurd rfl h

/-- The two sides, and the bytes on their way from each of them. -/
structure Transport where
  party : Side → Party
  pipe : Side → List Byte

namespace Transport

def init : Transport := ⟨fun _ => .init, fun _ => []⟩

def step (y : Transport) (e : Side × PartyOp) : Option Transport :=
  ((y.party e.1).step (y.pipe e.1.peer) e.2).map fun (t, written, read) =>
    { party := Function.update y.party e.1 t
      pipe := fun i => if i = e.1 then y.pipe i ++ written else (y.pipe i).drop read }

def Legal (y : Transport) (e : Side × PartyOp) : Prop := (y.party e.1).Legal (y.pipe e.1.peer) e.2

/-- The packets that have appeared in the input queue of the peer are the first of those put in
the output queue, the counters of the queues are right and the buffers are not overrun. -/
structure Delivered (y : Transport) (i : Side) : Prop where
  delivered : (y.party i.peer).taken ++ (y.party i.peer).exchanger.inputQueue.packets <+:
    (y.party i).enqueued
  input_size : (y.party i).exchanger.inputQueue.size.toNat =
    queueBytes (y.party i).exchanger.inputQueue.packets
  output_size : (y.party i).exchanger.outputQueue.size.toNat =
    queueBytes (y.party i).exchanger.outputQueue.packets
  read_buffer : (y.party i).exchanger.readBuffer.bytes.length ≤ bufferSize
  write_buffer : (y.party i).exchanger.writeBuffer.bytes.length ≤ bufferSize

/-- The packets between two sides: `mid` are those whose bytes are in the buffers and on the way. -/
structure Link (sender receiver : Party) (pipe : List Byte) (mid : List Packet) : Prop where
  enqueued : sender.enqueued = receiver.taken ++ receiver.exchanger.inputQueue.packets ++ mid ++
    sender.exchanger.outputQueue.packets
  bytes : wires mid = receiver.exchanger.readBuffer.bytes ++ pipe ++
    sender.exchanger.writeBuffer.bytes

variable {sender receiver t : Party} {pipe incoming written : List Byte} {mid : List Packet}
  {read : ℕ}

theorem Link.send (h : Link sender receiver pipe mid)
    (hmoves : sender.Moves incoming t written read) :
    ∃ mid', Link t receiver (pipe ++ written) mid' := by
  obtain ⟨new, moved, hnew, hqueue, hbytes⟩ := hmoves.sent
  refine ⟨mid ++ moved, ?_, ?_⟩
  · calc t.enqueued
        = receiver.taken ++ receiver.exchanger.inputQueue.packets ++ mid ++
            (sender.exchanger.outputQueue.packets ++ new) := by
          rw [hnew, h.enqueued, List.append_assoc]
      _ = _ := by
          rw [hqueue]
          simp only [List.append_assoc]
  · calc wires (mid ++ moved)
        = receiver.exchanger.readBuffer.bytes ++ pipe ++
            (sender.exchanger.writeBuffer.bytes ++ wires moved) := by
          rw [wires_append, h.bytes, List.append_assoc]
      _ = _ := by
          rw [hbytes]
          simp only [List.append_assoc]

theorem Link.receive (h : Link sender receiver pipe mid)
    (hmid : ∀ q ∈ mid, q.data.length < 2 ^ 16)
    (hmoves : receiver.Moves pipe t written read) :
    ∃ mid', Link sender t (pipe.drop read) mid' := by
  obtain ⟨got, hgot, hbytes, hqueue⟩ := hmoves.got
  have hwires : wires mid = wires got ++ (t.exchanger.readBuffer.bytes ++ pipe.drop read ++
      sender.exchanger.writeBuffer.bytes) := by
    calc wires mid
        = receiver.exchanger.readBuffer.bytes ++ pipe.take read ++
            (pipe.drop read ++ sender.exchanger.writeBuffer.bytes) := by
          rw [h.bytes, List.append_assoc, List.append_assoc, ← List.append_assoc (pipe.take read),
            List.take_append_drop]
      _ = _ := by
          rw [hbytes]
          simp only [List.append_assoc]
  obtain ⟨rest, rfl, hrest⟩ := wires_prefix hgot hmid hwires
  refine ⟨rest, ?_, hrest.symm⟩
  rw [h.enqueued, hqueue]
  simp only [List.append_assoc]

structure Inv (y : Transport) : Prop where
  party : ∀ i, (y.party i).Inv
  link : ∀ i, ∃ mid, Link (y.party i) (y.party i.peer) (y.pipe i) mid

theorem inv_init : Inv init :=
  ⟨fun _ => Party.inv_init, fun _ => ⟨[], rfl, rfl⟩⟩

variable {y : Transport}

theorem Inv.mid_small (h : y.Inv) {i : Side} {mid : List Packet}
    (hlink : Link (y.party i) (y.party i.peer) (y.pipe i) mid) :
    ∀ q ∈ (y.party i.peer).exchanger.inputQueue.packets ++ mid, q.data.length ≤ maxLength := by
  intro q hq
  apply (h.party i).small
  rw [hlink.enqueued]
  simp only [List.mem_append] at hq ⊢
  tauto

theorem Inv.step (h : y.Inv) {e : Side × PartyOp} (hop : y.Legal e) :
    ∃ y', y.step e = some y' ∧ y'.Inv := by
  obtain ⟨i, op⟩ := e
  -- what comes in decides whether the step succeeds
  have hlink := h.link i.peer
  have hpeer : i.peer.peer = i := by cases i <;> rfl
  obtain ⟨mid, hmid⟩ := hlink
  have hsmall := h.mid_small hmid
  rw [hpeer] at hmid hsmall
  have hbytes := hmid.bytes
  rw [List.append_assoc] at hbytes
  obtain ⟨hpos, hroom⟩ := missing_bounds (by decide)
    (fun q hq => hsmall q (List.mem_append_right _ hq)) hbytes
    (h.party i).incomplete
  obtain ⟨t, w, k, hstep, hinv, hmoves⟩ := Party.step_spec (h.party i) hop
    (fun q hq => hsmall q (List.mem_append_left _ hq)) hpos hroom
  refine ⟨_, by rw [Transport.step, hstep]; rfl, ?_, ?_⟩
  · intro j
    by_cases hj : j = i
    · subst hj
      simpa using hinv
    · simpa [Function.update_of_ne hj] using h.party j
  · intro j
    by_cases hj : j = i
    · subst hj
      obtain ⟨m, hm⟩ := h.link j
      simpa [Function.update_of_ne j.peer_ne] using hm.send hmoves
    · obtain rfl := Side.eq_peer hj
      have hlt : ∀ q ∈ mid, q.data.length < 2 ^ 16 := by
        intro q hq
        have hle := hsmall q (List.mem_append_right _ hq)
        have hmax : maxLength < 2 ^ 16 := by decide
        omega
      simpa [hpeer, Function.update_of_ne i.peer_ne, i.peer_ne] using hmid.receive hlt hmoves

theorem Inv.delivered (h : y.Inv) (i : Side) : y.Delivered i := by
  obtain ⟨mid, hmid⟩ := h.link i
  refine ⟨⟨mid ++ (y.party i).exchanger.outputQueue.packets, ?_⟩, (h.party i).input,
    (h.party i).output, (y.party i).exchanger.readBuffer.fits,
    (y.party i).exchanger.writeBuffer.fits⟩
  rw [hmid.enqueued]
  simp only [List.append_assoc]

/-- In every run the connection delivers the packets of both sides, and no assertion fails. -/
theorem run_delivers (es : List (Side × PartyOp)) (hlegal : Run.LegalRun step Legal init es) :
    Run.SafeRun step (fun y => ∀ i, y.Delivered i) (fun _ _ _ => True) init es := by
  apply Run.safeRun_of_inv Inv _ _ inv_init hlegal
  · intro y e hinv hop
    obtain ⟨y', hstep, hinv'⟩ := hinv.step hop
    exact ⟨y', hstep, trivial, hinv'⟩
  · exact fun y hinv i => hinv.delivered i

/-- A packet of one byte is written in two pieces and read in one. -/
theorem run_delivers_in_pieces : Run.SafeRun step (fun y => ∀ i, y.Delivered i)
    (fun _ _ _ => True) init [(.client, .getPacketsFromWriter [⟨1, [65]⟩]),
      (.client, .writePackets), (.client, .loop), (.client, .ssl (.ok 3)), (.client, .loop),
      (.client, .ssl (.ok 1)), (.server, .readPackets false), (.server, .loop),
      (.server, .ssl (.ok 4))] := by
  apply run_delivers
  refine ⟨⟨⟨false, rfl⟩, by simp [Packet.maxLength]⟩, fun y₁ h₁ => ?_⟩
  obtain rfl := Option.some.inj h₁
  refine ⟨⟨false, rfl⟩, fun y₂ h₂ => ?_⟩
  obtain rfl := Option.some.inj h₂
  refine ⟨Or.inl ⟨false, false, rfl⟩, fun y₃ h₃ => ?_⟩
  obtain rfl := Option.some.inj h₃
  refine ⟨⟨by decide, Or.inl ⟨false, true, rfl, by decide⟩⟩, fun y₄ h₄ => ?_⟩
  obtain rfl := Option.some.inj h₄
  refine ⟨Or.inl ⟨false, true, rfl⟩, fun y₅ h₅ => ?_⟩
  obtain rfl := Option.some.inj h₅
  refine ⟨⟨by decide, Or.inl ⟨false, true, rfl, by decide⟩⟩, fun y₆ h₆ => ?_⟩
  obtain rfl := Option.some.inj h₆
  refine ⟨⟨false, rfl⟩, fun y₇ h₇ => ?_⟩
  obtain rfl := Option.some.inj h₇
  refine ⟨Or.inr ⟨false, false, rfl⟩, fun y₈ h₈ => ?_⟩
  obtain rfl := Option.some.inj h₈
  exact ⟨⟨by decide, Or.inr ⟨false, bufferSize, false, rfl, by decide, by decide⟩⟩,
    fun _ _ => trivial⟩

end Transport

end Sync
end Szarp
