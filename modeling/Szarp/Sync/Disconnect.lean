import Szarp.Sync.Transport

/-!
# Disconnecting

`PacketExchanger::Disconnect` sends a packet of end of file and goes on reading and writing until
the peer's has come and all output is written.  The packets that come meanwhile go to the input
queue, from which nobody takes them.
-/

namespace Szarp
namespace Sync

open Packet

namespace Exchanger

variable (s : Exchanger)

def wantWrite : Prop := s.writeBuffer.bytes.length ≠ 0 ∨ 0 < s.outputQueue.packets.length

instance : Decidable s.wantWrite := inferInstanceAs (Decidable (_ ∨ _))

/-- `ReadPackets(true)` returns before it calls `SSL_read` and has cut no packet. -/
def ReadsNothing : Prop :=
  s.readPackets true = .returned false ∨ ∃ t, s.readPass true false = some (t, .returned false)

end Exchanger

/-! ## The loop -/

/-- Where `Disconnect` is in a turn of its loop. -/
inductive Place where
  | top
  | reading (c : Control)
  | writing (c : Control)
  | ended

/-- `arrived` are the peer's bytes that can be read, `coming` those still on their way. -/
structure Farewell where
  exchanger : Exchanger
  place : Place
  arrived : List Byte
  coming : List Byte

/-- `turn` evaluates the condition of the loop and, where it holds, calls `Select`, which finds
what the socket is ready for; `go` runs the code up to the next call of the SSL library or the next
turn, and `ssl` is the return of such a call with the number of bytes transferred. -/
inductive DisconnectOp where
  | arrive (n : ℕ)
  | turn (canRead canWrite : Bool)
  | go
  | ssl (r : Except SslError ℕ)

namespace Farewell

/-- `Disconnect` up to its loop. -/
def start (s : Exchanger) (arrived coming : List Byte) : Farewell :=
  ⟨s.enqueOutputPacket Party.eofPacket, .top, arrived, coming⟩

def step (f : Farewell) : DisconnectOp → Option Farewell
  | .arrive n => some { f with arrived := f.arrived ++ f.coming.take n, coming := f.coming.drop n }
  | .turn canRead canWrite =>
    match f.place with
    | .top =>
      if f.exchanger.readClosed = false ∨ f.exchanger.wantWrite then
        let s := f.exchanger.select (!f.exchanger.readClosed) (decide f.exchanger.wantWrite)
          canRead canWrite
        some { f with exchanger := s, place := .reading (s.readPackets true) }
      else some { f with place := .ended }
    | _ => none
  | .go =>
    match f.place with
    | .reading (.readLoop one result) =>
      (f.exchanger.readPass one result).map fun (s, c) =>
        { f with exchanger := s, place := .reading c }
    | .reading (.returned _) => some { f with place := .writing f.exchanger.writePackets }
    | .writing (.writeLoop full result) =>
      (f.exchanger.writePass full result).map fun (s, c) =>
        { f with exchanger := s, place := .writing c }
    | .writing (.returned _) => some { f with place := .top }
    | _ => none
  | .ssl r =>
    match f.place with
    | .reading (.sslRead one _ result) =>
      (f.exchanger.received one result (r.map f.arrived.take)).map fun (s, c) =>
        { f with
          exchanger := s
          place := .reading c
          arrived := f.arrived.drop (r.toOption.getD 0) }
    | .writing (.sslWrite full result) =>
      let (s, c) := f.exchanger.written full result r
      some { f with exchanger := s, place := .writing c }
    | _ => none

/-- The code runs where it is not in a call of the SSL library. -/
def Running (f : Farewell) : Prop :=
  (∃ one result, f.place = .reading (.readLoop one result)) ∨
    (∃ result, f.place = .reading (.returned result)) ∨
    (∃ full result, f.place = .writing (.writeLoop full result)) ∨
    ∃ result, f.place = .writing (.returned result)

def InSslRead (f : Farewell) (toRead : ℕ) : Prop :=
  ∃ one result, f.place = .reading (.sslRead one toRead result)

def InSslWrite (f : Farewell) : Prop := ∃ full result, f.place = .writing (.sslWrite full result)

/-- The connection brings the peer's bytes in order, and the library transfers some bytes or says
what it waits for. -/
def Legal (f : Farewell) : DisconnectOp → Prop
  | .arrive n => 0 < n ∧ n ≤ f.coming.length
  | .turn _ _ => f.place = .top
  | .go => f.Running
  | .ssl (.ok n) => 0 < n ∧ ((∃ toRead, f.InSslRead toRead ∧ n ≤ toRead ∧ n ≤ f.arrived.length) ∨
      (f.InSslWrite ∧ n ≤ f.exchanger.writeBuffer.bytes.length))
  | .ssl (.error e) => (e = .wantRead ∨ e = .wantWrite) ∧
      ((∃ toRead, f.InSslRead toRead) ∨ f.InSslWrite)

/-- To read the library only waits to read, and to write only to write. -/
def Direct (f : Farewell) (e : DisconnectOp) : Prop :=
  (∀ toRead, f.InSslRead toRead → e ≠ .ssl (.error .wantWrite)) ∧
    (f.InSslWrite → e ≠ .ssl (.error .wantRead))

/-- The loop goes on, all output is written, there are bytes of the peer, and whenever `Select`
finds the socket readable `ReadPackets(true)` reads none of them. -/
def Stuck (f : Farewell) : Prop :=
  f.place = .top ∧ f.exchanger.readClosed = false ∧ ¬f.exchanger.wantWrite ∧ f.arrived ≠ [] ∧
    ∀ canWrite, (f.exchanger.select (!f.exchanger.readClosed) (decide f.exchanger.wantWrite)
      true canWrite).ReadsNothing

/-- Output is accepted, and what has arrived is given to the reader. -/
def Cooperative (f : Farewell) : DisconnectOp → Prop
  | .arrive _ => False
  | .turn canRead canWrite => f.place = .top ∧ (f.arrived ≠ [] → canRead = true) ∧ canWrite = true
  | .go => f.Running
  | .ssl (.ok n) => f.Legal (.ssl (.ok n))
  | .ssl (.error e) => e = .wantRead ∧ f.arrived = [] ∧ ∃ toRead, f.InSslRead toRead

/-- Whatever a connection that accepts all output does, the loop ends. -/
inductive Ends : Farewell → Prop
  | ended {f : Farewell} : f.place = .ended → Ends f
  | next {f : Farewell} : (∃ e, f.Cooperative e) → (∀ e, f.Cooperative e → f.step e ≠ none) →
      (∀ e t, f.Cooperative e → f.step e = some t → Ends t) → Ends f

/-- The loop is not stuck and, once all that the peer sends has arrived, it ends. -/
def Good (f : Farewell) : Prop := ¬f.Stuck ∧ (f.coming = [] → Ends f)

end Farewell

/-! ## The peer's packets -/

/-- The bytes of packets that fit in the buffer of the peer, the last of them, and no other, of
end of file. -/
structure Sends (ps : List Packet) (last : Packet) (bs : List Byte) : Prop where
  wires_eq : wires (ps ++ [last]) = bs
  closes : last.type = eof
  others : ∀ p ∈ ps, p.type ≠ eof
  fits : ∀ p ∈ ps ++ [last], p.wireLength ≤ bufferSize

variable {ps : List Packet} {last p : Packet} {bs x : List Byte}

theorem Sends.length_lt (h : Sends ps last bs) : ∀ p ∈ ps ++ [last], p.data.length < 2 ^ 16 := by
  intro p hp
  have hfits := h.fits p hp
  rw [wireLength, headerLength, bufferSize] at hfits
  omega

theorem Sends.ne_nil (h : Sends ps last (bs ++ x)) (hnone : parse bs = none) : x ≠ [] := by
  rintro rfl
  have hwires := h.wires_eq
  rw [List.append_nil] at hwires
  cases ps with
  | nil =>
    rw [← hwires, List.nil_append, wires_cons, parse_wire _ _ (h.length_lt last (by simp))] at hnone
    exact Option.some_ne_none _ hnone
  | cons p ps =>
    rw [← hwires, List.cons_append, wires_cons, parse_wire _ _ (h.length_lt p (by simp))] at hnone
    exact Option.some_ne_none _ hnone

theorem Sends.missing_bounds (h : Sends ps last (bs ++ x)) (hnone : parse bs = none) :
    0 < missing bs ∧ bs.length + missing bs ≤ bufferSize := by
  have hle : ∀ p ∈ ps ++ [last], p.data.length ≤ bufferSize - headerLength := by
    intro p hp
    have hfits := h.fits p hp
    rw [wireLength, headerLength] at hfits
    rw [headerLength]
    omega
  exact Packet.missing_bounds (by decide) hle h.wires_eq hnone

theorem Sends.cut (h : Sends ps last (p.wire ++ x)) (hp : p.data.length < 2 ^ 16) :
    p.type = eof ∨ p.type ≠ eof ∧ ∃ rest, ps = p :: rest ∧ Sends rest last x := by
  have hwires : wires (ps ++ [last]) = wires [p] ++ x := by
    rw [h.wires_eq, wires_cons, wires_nil, List.append_nil]
  obtain ⟨rest, hrest, hx⟩ := wires_prefix (by simpa using hp) h.length_lt hwires
  cases ps with
  | nil =>
    have hlast : last = p := (List.cons.inj hrest).1
    exact Or.inl (hlast ▸ h.closes)
  | cons q ps =>
    obtain ⟨rfl, rfl⟩ := List.cons.inj hrest
    refine Or.inr ⟨h.others q (by simp), ps, rfl, hx.symm, h.closes, ?_, ?_⟩
    · exact fun r hr => h.others r (List.mem_cons_of_mem _ hr)
    · exact fun r hr => h.fits r (List.mem_cons_of_mem _ hr)

/-! ## What the calls do -/

namespace Exchanger

variable {s : Exchanger} {unread : List Byte} {result : Bool}

/-- The peer's packets are still to be cut, and the input queue has room for them. -/
def Awaits (s : Exchanger) (unread : List Byte) : Prop :=
  parse s.readBuffer.bytes = none ∧ ∃ ps last, Sends ps last (s.readBuffer.bytes ++ unread) ∧
    s.inputQueue.size.toNat + queueBytes ps < s.queueSizeLimit

theorem Awaits.ne_nil (h : s.Awaits unread) : unread ≠ [] := by
  obtain ⟨hnone, ps, last, hsends, -⟩ := h
  exact hsends.ne_nil hnone

theorem Awaits.mayRead (h : s.Awaits unread) : s.mayRead := by
  obtain ⟨-, ps, last, -, hroom⟩ := h
  rw [Exchanger.mayRead]
  omega

theorem Awaits.readPass (h : s.Awaits unread) (result : Bool) : s.readPass true result =
    some (s, .sslRead true (missing s.readBuffer.bytes) result) := by
  have hmay := h.mayRead
  obtain ⟨hnone, ps, last, hsends, -⟩ := h
  obtain ⟨hpos, hroom⟩ := hsends.missing_bounds hnone
  have htoRead : s.toRead true = missing s.readBuffer.bytes := rfl
  rw [Exchanger.readPass, htoRead, if_neg (not_not.mpr hmay), if_neg (by omega),
    if_neg (by omega)]

theorem cut_true_none (n : ℕ) (h : parse s.readBuffer.bytes = none) :
    cut true n s result = (s, .readLoop true result) := by
  cases n with
  | zero => rfl
  | succ n => simp only [cut, h]

theorem cut_true_some {n : ℕ} (hn : s.readBuffer.bytes.length ≤ n)
    (h : parse s.readBuffer.bytes = some p) : cut true n s result =
      (enqueInputPacket { s with readBuffer := s.readBuffer.shift p.wireLength } p,
        .returned true) := by
  cases n with
  | zero =>
    rw [parse_of_length_zero hn] at h
    simp at h
  | succ n => simp only [cut, h, if_true]

theorem Awaits.received (h : s.Awaits (bs ++ x)) (result : Bool) (hclosed : s.readClosed = false)
    (hlimit : s.queueSizeLimit ≤ 2 * maxQueueSizeLimit)
    (hle : bs.length ≤ missing s.readBuffer.bytes) :
    ∃ b q closed c, s.received true result (.ok bs) =
        some ({ s with readBuffer := b, inputQueue := q, readClosed := closed }, c) ∧
      (closed = true ∨ closed = false ∧
        Awaits { s with readBuffer := b, inputQueue := q, readClosed := closed } x) ∧
      (c = .returned true ∨ c = .readLoop true result ∧ closed = false) := by
  obtain ⟨hnone, ps, last, hsends, hroom⟩ := h
  obtain ⟨-, hfits⟩ := hsends.missing_bounds hnone
  obtain ⟨b, hput, hb⟩ := IoBuffer.put_eq s.readBuffer bs (by omega)
  rw [← List.append_assoc, ← hb] at hsends
  simp only [Exchanger.received, hput, Option.map_some, cutAll]
  cases hparse : parse b.bytes with
  | none =>
    rw [cut_true_none (s := { s with readBuffer := b }) _ hparse]
    exact ⟨b, s.inputQueue, s.readClosed, _, rfl, Or.inr ⟨hclosed, hparse, ps, last, hsends,
      hroom⟩, Or.inr ⟨rfl, hclosed⟩⟩
  | some p =>
    rw [cut_true_some (s := { s with readBuffer := b }) le_rfl hparse]
    refine ⟨b.shift p.wireLength, _, _, _, rfl, ?_, Or.inl rfl⟩
    -- nothing is left behind the packet
    have hdrop : b.bytes.drop p.wireLength = [] := by
      rw [hb] at hparse ⊢
      exact drop_of_missing hle hnone hparse
    have hwire : b.bytes = p.wire := by
      have heq := eq_wire_of_parse hparse
      rwa [hdrop, List.append_nil] at heq
    rw [hwire] at hsends
    rcases hsends.cut (length_of_parse hparse) with heof | ⟨hne, rest, rfl, hrest⟩
    · exact Or.inl (if_pos heof)
    · refine Or.inr ⟨(if_neg hne).trans hclosed, ?_, rest, last, ?_, ?_⟩
      · change parse (b.bytes.drop p.wireLength) = none
        rw [hdrop]
        rfl
      · change Sends rest last (b.bytes.drop p.wireLength ++ x)
        rw [hdrop]
        exact hrest
      · change (s.inputQueue.size + UInt32.ofNat p.wireLength).toNat + queueBytes rest <
          s.queueSizeLimit
        have hmax : maxQueueSizeLimit = 523968 := rfl
        rw [queueBytes_cons] at hroom
        rw [PacketQueue.toNat_add_ofNat (by omega)]
        omega

theorem writePass_of_not_wantWrite (full result : Bool) (h : ¬s.wantWrite) :
    ∃ limit, s.writePass full result =
        some ({ s with queueSizeLimit := limit }, .returned result) ∧
      s.queueSizeLimit ≤ limit ∧ (limit = s.queueSizeLimit ∨ limit ≤ 2 * maxQueueSizeLimit) := by
  have hempty : s.writeBuffer.bytes.length = 0 ∧ s.outputQueue.packets.length = 0 := by
    rw [wantWrite] at h
    omega
  rw [writePass, if_pos hempty]
  split
  next hdouble => exact ⟨s.queueSizeLimit * 2, rfl, by omega, Or.inr (by omega)⟩
  next => exact ⟨s.queueSizeLimit, rfl, le_rfl, Or.inl rfl⟩

theorem fill_of_empty {ps : List Packet} (n : ℕ) (hempty : s.writeBuffer.bytes.length = 0)
    (hps : s.outputQueue.packets = p :: ps) (hfits : p.wireLength ≤ bufferSize) :
    ∃ b q, b.bytes = p.wire ∧ q.packets = ps ∧ ∀ result, fill (n + 1) s result =
      fill n { s with writeBuffer := b, outputQueue := q } true := by
  obtain ⟨b, hput, hb⟩ := IoBuffer.put_eq s.writeBuffer p.wire (by rw [length_wire]; omega)
  rw [List.eq_nil_of_length_eq_zero hempty, List.nil_append] at hb
  refine ⟨b, ⟨ps, s.outputQueue.size - UInt32.ofNat p.wireLength⟩, hb, rfl, fun result => ?_⟩
  simp only [fill, dequeOutputPacket, PacketQueue.popFront, hps, Option.map_some]
  rw [if_neg (by omega), hput]

/-- Before `SSL_write` is called there is something in the write buffer. -/
theorem writePass_of_wantWrite (full result : Bool) (h : s.wantWrite)
    (hfits : ∀ p ∈ s.outputQueue.packets, p.wireLength ≤ bufferSize) :
    ∃ b q result', s.writePass full result =
        some ({ s with writeBuffer := b, outputQueue := q }, .sslWrite full result') ∧
      b.bytes ≠ [] ∧ (∀ p ∈ q.packets, p ∈ s.outputQueue.packets) ∧
      queueBytes q.packets + b.bytes.length =
        queueBytes s.outputQueue.packets + s.writeBuffer.bytes.length := by
  have hsome : ¬(s.writeBuffer.bytes.length = 0 ∧ s.outputQueue.packets.length = 0) := by
    rw [wantWrite] at h
    omega
  rw [writePass, if_neg hsome]
  by_cases hempty : s.writeBuffer.bytes.length = 0
  · cases hps : s.outputQueue.packets with
    | nil => exact absurd ⟨hempty, by rw [hps]; rfl⟩ hsome
    | cons p ps =>
      obtain ⟨b₁, q₁, hb₁, hq₁, hfirst⟩ :=
        fill_of_empty ps.length hempty hps (hfits p (by rw [hps]; simp))
      obtain ⟨b, q, moved, result', hfill, hmoved, hbytes, -⟩ :=
        fill_spec ps.length { s with writeBuffer := b₁, outputQueue := q₁ } true
      dsimp only at hmoved hbytes
      rw [hb₁] at hbytes
      rw [hq₁] at hmoved
      refine ⟨b, q, result', ?_, ?_, ?_, ?_⟩
      · rw [List.length_cons, hfirst, hfill]
        rfl
      · rw [hbytes]
        exact List.append_ne_nil_of_left_ne_nil (List.cons_ne_nil _ _) _
      · intro r hr
        rw [hmoved]
        exact List.mem_cons_of_mem _ (List.mem_append_right _ hr)
      · rw [hbytes, hmoved, queueBytes_cons, queueBytes_append, List.length_append, length_wire,
          length_wires]
        omega
  · obtain ⟨b, q, moved, result', hfill, hmoved, hbytes, -⟩ :=
      fill_spec s.outputQueue.packets.length s result
    refine ⟨b, q, result', by rw [hfill]; rfl, ?_, ?_, ?_⟩
    · rw [hbytes]
      exact List.append_ne_nil_of_left_ne_nil (fun hnil => hempty (by rw [hnil]; rfl)) _
    · intro r hr
      rw [hmoved]
      exact List.mem_append_right _ hr
    · rw [hbytes, hmoved, queueBytes_append, List.length_append, length_wires]
      omega

/-- Where no call of the library waits for the other direction, `Select` only ends waiting. -/
theorem select_direct (hread : s.readBlockedOnWrite = false) (hwrite : s.writeBlockedOnRead = false)
    (a b c d : Bool) : s.select a b c d = { s with
      blockedOnRead := s.blockedOnRead && !(a && c)
      blockedOnWrite := s.blockedOnWrite && !(b && d) } := by
  obtain ⟨rb, wb, iq, oq, br, wbr, bw, rbw, closed, limit⟩ := s
  subst hread hwrite
  cases a <;> cases b <;> cases c <;> cases d <;> cases br <;> cases bw <;> rfl

end Exchanger

/-! ## The invariant -/

namespace Farewell

/-- What holds where the code is. -/
def PlaceOk (s : Exchanger) : Place → Prop
  | .reading (.readLoop one _) => one = true ∧ s.readClosed = false
  | .reading (.sslRead one toRead _) =>
    one = true ∧ s.readClosed = false ∧ toRead = missing s.readBuffer.bytes
  | .reading (.returned _) => True
  | .reading _ => False
  | .writing (.writeLoop _ _) => True
  | .writing (.sslWrite _ _) => s.writeBuffer.bytes ≠ []
  | .writing (.returned _) => True
  | .writing _ => False
  | _ => True

/-- Either the peer's packet of end of file has been read, or there is room for what comes before
it. -/
structure Inv (f : Farewell) : Prop where
  read_direct : f.exchanger.readBlockedOnWrite = false
  write_direct : f.exchanger.writeBlockedOnRead = false
  awaits : f.exchanger.readClosed = true ∨
    f.exchanger.readClosed = false ∧ f.exchanger.Awaits (f.arrived ++ f.coming)
  limit : f.exchanger.queueSizeLimit ≤ 2 * Exchanger.maxQueueSizeLimit
  outputs : ∀ p ∈ f.exchanger.outputQueue.packets, p.wireLength ≤ bufferSize
  place : PlaceOk f.exchanger f.place

def pending (f : Farewell) : ℕ :=
  f.arrived.length + (queueBytes f.exchanger.outputQueue.packets +
    f.exchanger.writeBuffer.bytes.length)

/-- How far the code is from its next transfer or, where it has already made one in this turn, from
the next turn. -/
def rank (f : Farewell) : ℕ :=
  match f.place with
  | .ended => 0
  | .writing (.sslWrite _ _) => 5
  | .writing (.writeLoop _ _) => if f.exchanger.wantWrite then 6 else 15
  | .reading (.returned _) =>
    if f.exchanger.wantWrite ∧ f.exchanger.blockedOnWrite = false then 7 else 16
  | .reading (.sslRead _ _ _) => 8
  | .reading (.readLoop _ _) => 9
  | .top => 10
  | .writing (.returned _) => 14
  | _ => 17

def measure (f : Farewell) : ℕ := 20 * f.pending + f.rank

variable {f t : Farewell} {e : DisconnectOp} {n : ℕ}

theorem rank_le (f : Farewell) : f.rank ≤ 17 := by
  unfold rank
  split
  all_goals first | omega | (split <;> omega)

theorem rank_ready (result : Bool) (hf : f.place = .reading (.returned result))
    (hwant : f.exchanger.wantWrite) (hblocked : f.exchanger.blockedOnWrite = false) :
    f.rank = 7 := by
  simp only [rank, hf]
  exact if_pos ⟨hwant, hblocked⟩

theorem measure_lt_of_pending (h : t.pending < f.pending) : t.measure < f.measure := by
  have hrank := t.rank_le
  rw [measure, measure]
  omega

theorem measure_lt_of_rank (hpending : t.pending = f.pending) (h : t.rank < f.rank) :
    t.measure < f.measure := by
  rw [measure, measure, hpending]
  omega

theorem Inv.goto (h : f.Inv) {place : Place} (hplace : PlaceOk f.exchanger place) :
    Inv { f with place := place } :=
  ⟨h.read_direct, h.write_direct, h.awaits, h.limit, h.outputs, hplace⟩

theorem Inv.awaits_of_open (h : f.Inv) (hclosed : f.exchanger.readClosed = false) :
    f.exchanger.Awaits (f.arrived ++ f.coming) := by
  rcases h.awaits with hread | hawaits
  · rw [hclosed] at hread
    simp at hread
  · exact hawaits.2

/-! ### Steps -/

/-- A step of the code itself brings it nearer to its next transfer or turn. -/
def Nearer (f t : Farewell) : Prop := t.Inv ∧ t.coming = f.coming ∧ t.measure < f.measure

theorem Inv.go_readLoop {one result : Bool} (h : f.Inv)
    (hf : f.place = .reading (.readLoop one result)) : ∃ t, f.step .go = some t ∧ f.Nearer t := by
  have hplace := h.place
  rw [hf] at hplace
  obtain ⟨rfl, hclosed⟩ := hplace
  have hpass := (h.awaits_of_open hclosed).readPass result
  refine ⟨{ f with place := .reading (.sslRead true (missing f.exchanger.readBuffer.bytes)
    result) }, ?_, h.goto ⟨rfl, hclosed, rfl⟩, rfl, measure_lt_of_rank rfl ?_⟩
  · simp only [step, hf, hpass, Option.map_some]
  · simp only [rank, hf]
    omega

theorem Inv.go_readReturned {result : Bool} (h : f.Inv)
    (hf : f.place = .reading (.returned result)) : ∃ t, f.step .go = some t ∧ f.Nearer t := by
  refine ⟨{ f with place := .writing f.exchanger.writePackets }, by simp only [step, hf],
    h.goto ?_, rfl, measure_lt_of_rank rfl ?_⟩
  · unfold Exchanger.writePackets
    split <;> trivial
  · by_cases hblocked : f.exchanger.blockedOnWrite = true
    · simp [rank, hf, Exchanger.writePackets, hblocked]
    · by_cases hwant : f.exchanger.wantWrite
      · simp [rank, hf, Exchanger.writePackets, hblocked, h.write_direct, hwant]
      · simp [rank, hf, Exchanger.writePackets, hblocked, h.write_direct, hwant]

theorem Inv.go_writeLoop {full result : Bool} (h : f.Inv)
    (hf : f.place = .writing (.writeLoop full result)) :
    ∃ t, f.step .go = some t ∧ f.Nearer t := by
  by_cases hwant : f.exchanger.wantWrite
  · obtain ⟨b, q, result', hpass, hb, hq, hbytes⟩ :=
      Exchanger.writePass_of_wantWrite full result hwant h.outputs
    refine ⟨{ f with
      exchanger := { f.exchanger with writeBuffer := b, outputQueue := q }
      place := .writing (.sslWrite full result') }, ?_, ⟨h.read_direct, h.write_direct, h.awaits,
      h.limit, fun p hp => h.outputs p (hq p hp), hb⟩, rfl, measure_lt_of_rank ?_ ?_⟩
    · simp only [step, hf, hpass, Option.map_some]
    · simp only [pending, hbytes]
    · simp only [rank, hf, hwant, if_true]
      omega
  · obtain ⟨limit, hpass, hle, hlimit⟩ := Exchanger.writePass_of_not_wantWrite full result hwant
    refine ⟨{ f with
      exchanger := { f.exchanger with queueSizeLimit := limit }
      place := .writing (.returned result) }, ?_, ⟨h.read_direct, h.write_direct, ?_, ?_,
      h.outputs, trivial⟩, rfl, measure_lt_of_rank rfl ?_⟩
    · simp only [step, hf, hpass, Option.map_some]
    · rcases h.awaits with hclosed | ⟨hclosed, hnone, ps, last, hsends, hroom⟩
      · exact Or.inl hclosed
      · exact Or.inr ⟨hclosed, hnone, ps, last, hsends, hroom.trans_le hle⟩
    · have hold := h.limit
      change limit ≤ _
      omega
    · simp only [rank, hf, hwant, if_false]
      omega

theorem Inv.step_go (h : f.Inv) (hrun : f.Running) : ∃ t, f.step .go = some t ∧ f.Nearer t := by
  rcases hrun with ⟨one, result, hf⟩ | ⟨result, hf⟩ | ⟨full, result, hf⟩ | ⟨result, hf⟩
  · exact h.go_readLoop hf
  · exact h.go_readReturned hf
  · exact h.go_writeLoop hf
  · refine ⟨{ f with place := .top }, by simp only [step, hf], h.goto trivial, rfl,
      measure_lt_of_rank rfl ?_⟩
    simp only [rank, hf]
    omega

/-- `Select` ends the waiting for what the loop still needs and the socket is ready for. -/
theorem Inv.select (h : f.Inv) (canRead canWrite : Bool) :
    ∃ r w, f.exchanger.select (!f.exchanger.readClosed) (decide f.exchanger.wantWrite)
        canRead canWrite = { f.exchanger with blockedOnRead := r, blockedOnWrite := w } ∧
      (f.exchanger.readClosed = false → canRead = true → r = false) ∧
      (f.exchanger.wantWrite → canWrite = true → w = false) := by
  refine ⟨_, _, Exchanger.select_direct h.read_direct h.write_direct _ _ _ _, ?_, ?_⟩
  · intro hclosed hread
    rw [hclosed, hread]
    exact Bool.and_false _
  · intro hwant hwrite
    rw [decide_eq_true hwant, hwrite]
    exact Bool.and_false _

/-- A turn of the loop leads to a transfer where the socket is ready for what is waited for. -/
theorem Inv.step_turn (h : f.Inv) (hf : f.place = .top) (canRead canWrite : Bool) :
    ∃ t, f.step (.turn canRead canWrite) = some t ∧ t.Inv ∧ t.coming = f.coming ∧
      ((f.exchanger.readClosed = false → canRead = true) → canWrite = true →
        t.measure < f.measure) := by
  by_cases hgo : f.exchanger.readClosed = false ∨ f.exchanger.wantWrite
  · obtain ⟨r, w, hselect, hr, hw⟩ := h.select canRead canWrite
    obtain ⟨s, hs⟩ : ∃ s, s = { f.exchanger with blockedOnRead := r, blockedOnWrite := w } :=
      ⟨_, rfl⟩
    refine ⟨{ f with exchanger := s, place := .reading (s.readPackets true) }, ?_, ?_, rfl, ?_⟩
    · simp only [step, hf, hselect, if_pos hgo, hs]
    · subst hs
      refine ⟨h.read_direct, h.write_direct, h.awaits, h.limit, h.outputs, ?_⟩
      dsimp only
      unfold Exchanger.readPackets
      split_ifs with hclosed hblocked
      · trivial
      · trivial
      · exact ⟨rfl, by simpa using hclosed⟩
    · intro hread hwrite
      subst hs
      apply measure_lt_of_rank
      · rfl
      · cases hclosed : f.exchanger.readClosed with
        | true =>
          have hwant : f.exchanger.wantWrite := by simpa [hclosed] using hgo
          refine lt_of_eq_of_lt (rank_ready false ?_ ?_ ?_) ?_
          · exact congrArg Place.reading (if_pos hclosed)
          · exact hwant
          · exact hw hwant hwrite
          · simp only [rank, hf]
            omega
        | false =>
          simp only [rank, hf, Exchanger.readPackets, hclosed, hr hclosed (hread hclosed),
            h.read_direct, Bool.false_eq_true, or_self, if_false]
          omega
  · refine ⟨{ f with place := .ended }, ?_, h.goto trivial, rfl, fun _ _ => ?_⟩
    · simp only [step, hf, if_neg hgo]
    · apply measure_lt_of_rank
      · rfl
      · simp only [rank, hf]
        omega

theorem Inv.step_read {toRead : ℕ} (h : f.Inv) (hf : f.InSslRead toRead) (hn : 0 < n)
    (hle : n ≤ toRead) (harrived : n ≤ f.arrived.length) :
    ∃ t, f.step (.ssl (.ok n)) = some t ∧ f.Nearer t := by
  obtain ⟨one, result, hf⟩ := hf
  have hplace := h.place
  rw [hf] at hplace
  obtain ⟨rfl, hclosed, rfl⟩ := hplace
  have hawaits := h.awaits_of_open hclosed
  rw [← List.take_append_drop n f.arrived, List.append_assoc] at hawaits
  obtain ⟨b, q, closed, c, hreceived, hnext, hc⟩ := hawaits.received result hclosed
    h.limit ((List.length_take_le n f.arrived).trans hle)
  refine ⟨{ f with
    exchanger := { f.exchanger with readBuffer := b, inputQueue := q, readClosed := closed }
    place := .reading c
    arrived := f.arrived.drop n }, ?_, ⟨h.read_direct, h.write_direct, hnext, h.limit, h.outputs,
    ?_⟩, rfl, measure_lt_of_pending ?_⟩
  · simp only [step, hf, Except.map, hreceived, Option.map_some]
    rfl
  · rcases hc with rfl | ⟨rfl, hopen⟩
    · trivial
    · exact ⟨rfl, hopen⟩
  · simp only [pending, List.length_drop]
    omega

theorem Inv.step_write (h : f.Inv) (hf : f.InSslWrite) (hn : 0 < n)
    (hle : n ≤ f.exchanger.writeBuffer.bytes.length) :
    ∃ t, f.step (.ssl (.ok n)) = some t ∧ f.Nearer t := by
  obtain ⟨full, result, hf⟩ := hf
  refine ⟨{ f with
    exchanger := { f.exchanger with writeBuffer := f.exchanger.writeBuffer.shift n }
    place := .writing (.writeLoop full result) }, ?_, ⟨h.read_direct, h.write_direct, h.awaits,
    h.limit, h.outputs, trivial⟩, rfl, measure_lt_of_pending ?_⟩
  · simp only [step, hf]
    rfl
  · simp only [pending, IoBuffer.shift, List.length_drop]
    omega

theorem Inv.step_wait {err : SslError} (h : f.Inv) (hlegal : f.Legal (.ssl (.error err)))
    (hdirect : f.Direct (.ssl (.error err))) :
    ∃ t, f.step (.ssl (.error err)) = some t ∧ t.Inv := by
  obtain ⟨herr, ⟨toRead, hread⟩ | hwrite⟩ := hlegal
  · have hwant : err = .wantRead := by
      rcases herr with rfl | rfl
      · rfl
      · exact absurd rfl (hdirect.1 toRead hread)
    obtain ⟨one, result, hf⟩ := hread
    refine ⟨{ f with
      exchanger := { f.exchanger with blockedOnRead := true }
      place := .reading (.returned result) }, ?_, ⟨h.read_direct, h.write_direct, h.awaits,
      h.limit, h.outputs, trivial⟩⟩
    simp only [step, hf, hwant]
    rfl
  · have hwant : err = .wantWrite := by
      rcases herr with rfl | rfl
      · exact absurd rfl (hdirect.2 hwrite)
      · rfl
    obtain ⟨full, result, hf⟩ := hwrite
    refine ⟨{ f with
      exchanger := { f.exchanger with blockedOnWrite := true }
      place := .writing (.returned result) }, ?_, ⟨h.read_direct, h.write_direct, h.awaits,
      h.limit, h.outputs, trivial⟩⟩
    simp only [step, hf, hwant]
    rfl

theorem Inv.step_ok (h : f.Inv) (hlegal : f.Legal (.ssl (.ok n))) :
    ∃ t, f.step (.ssl (.ok n)) = some t ∧ f.Nearer t := by
  obtain ⟨hn, ⟨toRead, hread, hle, harrived⟩ | ⟨hwrite, hle⟩⟩ := hlegal
  · exact h.step_read hread hn hle harrived
  · exact h.step_write hwrite hn hle

/-- A legal step succeeds and keeps the invariant. -/
theorem Inv.step (h : f.Inv) (hlegal : f.Legal e) (hdirect : f.Direct e) :
    ∃ t, f.step e = some t ∧ t.Inv := by
  cases e with
  | arrive n =>
    refine ⟨_, rfl, h.read_direct, h.write_direct, ?_, h.limit, h.outputs, h.place⟩
    rw [List.append_assoc, List.take_append_drop]
    exact h.awaits
  | turn canRead canWrite =>
    obtain ⟨t, ht, hinv, -⟩ := h.step_turn hlegal canRead canWrite
    exact ⟨t, ht, hinv⟩
  | go =>
    obtain ⟨t, ht, hinv, -⟩ := h.step_go hlegal
    exact ⟨t, ht, hinv⟩
  | ssl r =>
    cases r with
    | ok n =>
      obtain ⟨t, ht, hinv, -⟩ := h.step_ok hlegal
      exact ⟨t, ht, hinv⟩
    | error err => exact h.step_wait hlegal hdirect

/-! ### Good states -/

/-- What a cooperative connection does is legal, and every step brings the loop nearer to its
end. -/
theorem Inv.step_cooperative (h : f.Inv) (hcoming : f.coming = []) (he : f.Cooperative e) :
    ∃ t, f.step e = some t ∧ f.Nearer t := by
  cases e with
  | arrive n => exact he.elim
  | turn canRead canWrite =>
    obtain ⟨hf, hread, hwrite⟩ := he
    obtain ⟨t, ht, hinv, hsame, hlt⟩ := h.step_turn hf canRead canWrite
    refine ⟨t, ht, hinv, hsame, hlt (fun hclosed => hread ?_) hwrite⟩
    have hawaits := h.awaits_of_open hclosed
    rw [hcoming, List.append_nil] at hawaits
    exact hawaits.ne_nil
  | go => exact h.step_go he
  | ssl r =>
    cases r with
    | ok n => exact h.step_ok he
    | error err =>
      -- what is left to read has arrived
      obtain ⟨-, harrived, toRead, one, result, hf⟩ := he
      have hplace := h.place
      rw [hf] at hplace
      have hawaits := h.awaits_of_open hplace.2.1
      rw [hcoming, List.append_nil] at hawaits
      exact absurd harrived hawaits.ne_nil

theorem Inv.exists_cooperative (h : f.Inv) (hcoming : f.coming = []) (hf : f.place ≠ .ended) :
    ∃ e, f.Cooperative e := by
  have hplace := h.place
  cases hp : f.place with
  | top => exact ⟨.turn true true, hp, fun _ => rfl, rfl⟩
  | ended => exact absurd hp hf
  | reading c =>
    rw [hp] at hplace
    cases c with
    | readLoop one result => exact ⟨.go, Or.inl ⟨one, result, hp⟩⟩
    | returned result => exact ⟨.go, Or.inr (Or.inl ⟨result, hp⟩)⟩
    | sslRead one toRead result =>
      obtain ⟨rfl, hclosed, rfl⟩ := hplace
      have hawaits := h.awaits_of_open hclosed
      have hne := hawaits.ne_nil
      obtain ⟨hnone, ps, last, hsends, -⟩ := hawaits
      rw [hcoming, List.append_nil] at hne
      exact ⟨.ssl (.ok 1), Nat.one_pos, Or.inl ⟨_, ⟨true, result, hp⟩,
        (hsends.missing_bounds hnone).1, List.length_pos_iff.mpr hne⟩⟩
    | writeLoop full result => exact hplace.elim
    | sslWrite full result => exact hplace.elim
    | thrown => exact hplace.elim
  | writing c =>
    rw [hp] at hplace
    cases c with
    | writeLoop full result => exact ⟨.go, Or.inr (Or.inr (Or.inl ⟨full, result, hp⟩))⟩
    | returned result => exact ⟨.go, Or.inr (Or.inr (Or.inr ⟨result, hp⟩))⟩
    | sslWrite full result =>
      exact ⟨.ssl (.ok 1), Nat.one_pos, Or.inr ⟨⟨full, result, hp⟩,
        List.length_pos_iff.mpr hplace⟩⟩
    | readLoop one result => exact hplace.elim
    | sslRead one toRead result => exact hplace.elim
    | thrown => exact hplace.elim

/-- The loop ends: by induction on the measure. -/
theorem Inv.ends (h : f.Inv) (hcoming : f.coming = []) : Ends f := by
  induction hm : f.measure using Nat.strong_induction_on generalizing f with
  | _ m ih =>
    by_cases hf : f.place = .ended
    · exact .ended hf
    · refine .next (h.exists_cooperative hcoming hf) (fun e he => ?_) (fun e t he ht => ?_)
      · obtain ⟨t, ht, -⟩ := h.step_cooperative hcoming he
        rw [ht]
        exact Option.some_ne_none t
      · obtain ⟨t', ht', hinv, hsame, hlt⟩ := h.step_cooperative hcoming he
        obtain rfl := Option.some.inj (ht.symm.trans ht')
        exact ih t.measure (hm ▸ hlt) hinv (hsame.trans hcoming) rfl

theorem Inv.not_stuck (h : f.Inv) : ¬f.Stuck := by
  rintro ⟨-, hclosed, -, -, hnothing⟩
  obtain ⟨r, w, hselect, hr, -⟩ := h.select true true
  have hread := hnothing true
  have hawaits : Exchanger.Awaits
    { f.exchanger with blockedOnRead := r, blockedOnWrite := w } (f.arrived ++ f.coming) :=
    h.awaits_of_open hclosed
  rw [hselect, hr hclosed rfl] at hread
  rw [hr hclosed rfl] at hawaits
  rcases hread with hreturned | ⟨t, hpass⟩
  · simp [Exchanger.readPackets, hclosed, h.read_direct] at hreturned
  · rw [hawaits.readPass] at hpass
    simp at hpass

theorem Inv.good (h : f.Inv) : f.Good := ⟨h.not_stuck, h.ends⟩

/-! ## Disconnecting -/

/-- An exchanger on which `Disconnect` is called between calls of the other functions: its packets
fit in the write buffer, and the peer sends `ps` and then end of file. -/
structure Disconnects (s : Exchanger) (ps : List Packet) (last : Packet) (unread : List Byte) :
    Prop where
  limit : s.queueSizeLimit ≤ Exchanger.maxQueueSizeLimit
  outputs : ∀ p ∈ s.outputQueue.packets, p.wireLength ≤ bufferSize
  incomplete : parse s.readBuffer.bytes = none
  sends : s.readClosed = true ∨ Sends ps last (s.readBuffer.bytes ++ unread)

/-- The input queue has room for the peer's packets, and no call of the library waits for the other
direction. -/
structure Clear (s : Exchanger) (ps : List Packet) : Prop where
  room : s.readClosed = true ∨ s.inputQueue.size.toNat + queueBytes ps < s.queueSizeLimit
  read_direct : s.readBlockedOnWrite = false
  write_direct : s.writeBlockedOnRead = false

theorem inv_start {s : Exchanger} {arrived coming : List Byte}
    (h : Disconnects s ps last (arrived ++ coming)) (hclear : Clear s ps) :
    (start s arrived coming).Inv := by
  refine ⟨hclear.read_direct, hclear.write_direct, ?_, ?_, ?_, trivial⟩
  · cases hclosed : s.readClosed with
    | true => exact Or.inl hclosed
    | false =>
      have hsends := h.sends
      have hroom := hclear.room
      rw [hclosed] at hsends hroom
      exact Or.inr ⟨hclosed, h.incomplete, ps, last, hsends.resolve_left Bool.false_ne_true,
        hroom.resolve_left Bool.false_ne_true⟩
  · exact h.limit.trans (Nat.le_mul_of_pos_left _ Nat.two_pos)
  · intro p hp
    change p ∈ s.outputQueue.packets ++ [Party.eofPacket] at hp
    rcases List.mem_append.mp hp with hp | hp
    · exact h.outputs p hp
    · obtain rfl := List.mem_singleton.mp hp
      decide

/-- Where the input queue has room for all that the peer sends before its end of file, `Disconnect`
is not stuck in any run, and ends once the end of file has arrived. -/
theorem disconnect_ends (s : Exchanger) (ps : List Packet) (last : Packet)
    (arrived coming : List Byte) (h : Disconnects s ps last (arrived ++ coming))
    (hclear : Clear s ps) (es : List DisconnectOp)
    (hlegal : Run.LegalRun step Legal (start s arrived coming) es)
    (hdirect : Run.LegalRun step Direct (start s arrived coming) es) :
    Run.SafeRun step Good (fun _ _ _ => True) (start s arrived coming) es := by
  apply Run.safeRun_of_inv Inv _ (fun f hf => hf.good) (inv_start h hclear)
    (hlegal.and hdirect)
  rintro f e hinv ⟨hlegal, hdirect⟩
  obtain ⟨t, ht, hinv⟩ := hinv.step hlegal hdirect
  exact ⟨t, ht, trivial, hinv⟩

/-- A new exchanger whose peer sends a packet of one byte and closes. -/
theorem disconnect_ends_one : Run.SafeRun step Good (fun _ _ _ => True)
    (start .init [] [1, 0, 1, 65, 4, 0, 0])
    [.arrive 4, .turn true false, .go, .ssl (.ok 3), .go, .ssl (.ok 1)] := by
  apply disconnect_ends .init [⟨1, [65]⟩] Party.eofPacket
  · exact ⟨by decide, by simp [Exchanger.init, PacketQueue.empty], rfl,
      Or.inr ⟨rfl, rfl, by simp [eof], by decide⟩⟩
  · exact ⟨Or.inr (by decide), rfl, rfl⟩
  · refine ⟨⟨by decide, by decide⟩, fun f₁ h₁ => ?_⟩
    obtain rfl := Option.some.inj h₁
    refine ⟨rfl, fun f₂ h₂ => ?_⟩
    obtain rfl := Option.some.inj h₂
    refine ⟨Or.inl ⟨true, false, rfl⟩, fun f₃ h₃ => ?_⟩
    obtain rfl := Option.some.inj h₃
    refine ⟨⟨by decide, Or.inl ⟨3, ⟨true, false, rfl⟩, by decide, by decide⟩⟩, fun f₄ h₄ => ?_⟩
    obtain rfl := Option.some.inj h₄
    refine ⟨Or.inl ⟨true, false, rfl⟩, fun f₅ h₅ => ?_⟩
    obtain rfl := Option.some.inj h₅
    exact ⟨⟨by decide, Or.inl ⟨1, ⟨true, false, rfl⟩, by decide, by decide⟩⟩, fun _ _ => trivial⟩
  · exact ⟨by simp [Direct], fun _ _ => ⟨by simp [Direct], fun _ _ => ⟨by simp [Direct],
      fun _ _ => ⟨by simp [Direct], fun _ _ => ⟨by simp [Direct], fun _ _ => ⟨by simp [Direct],
        fun _ _ => trivial⟩⟩⟩⟩⟩⟩

/-- The input queue is full when `Disconnect` is called. -/
def full : Exchanger :=
  { Exchanger.init with
    inputQueue := ⟨List.replicate 8 ⟨ok, List.replicate maxLength 0⟩, 65496⟩ }

/-- All output is written, and the peer's packet of end of file has arrived. -/
def fullStuck : Farewell := ⟨full, .top, [4, 0, 0], []⟩

theorem stuck_fullStuck : fullStuck.Stuck := by
  refine ⟨rfl, rfl, by decide, List.cons_ne_nil _ _, fun canWrite => Or.inr ⟨full, ?_⟩⟩
  rfl

/-- With a full input queue the packet of end of file is never read. -/
theorem not_disconnect_ends : ¬∀ (s : Exchanger) (ps : List Packet) (last : Packet)
    (arrived coming : List Byte), Disconnects s ps last (arrived ++ coming) →
    s.readBlockedOnWrite = false → s.writeBlockedOnRead = false → ∀ es,
    Run.LegalRun step Legal (start s arrived coming) es →
    Run.LegalRun step Direct (start s arrived coming) es →
    Run.SafeRun step Good (fun _ _ _ => True) (start s arrived coming) es := by
  intro hclaim
  have hdisconnects : Disconnects full [] Party.eofPacket ([4, 0, 0] ++ []) :=
    ⟨by decide, by simp [full, Exchanger.init, PacketQueue.empty], rfl,
      Or.inr ⟨rfl, rfl, by simp, by decide⟩⟩
  have hsafe := hclaim full [] Party.eofPacket [4, 0, 0] [] hdisconnects rfl rfl
    [.turn true true, .go, .go, .go, .ssl (.ok 3), .go, .go] ?_ ?_
  · exact (hsafe.good (t := fullStuck) rfl).1 stuck_fullStuck
  · refine ⟨rfl, fun f₁ h₁ => ?_⟩
    obtain rfl := Option.some.inj h₁
    refine ⟨Or.inl ⟨true, false, rfl⟩, fun f₂ h₂ => ?_⟩
    obtain rfl := Option.some.inj h₂
    refine ⟨Or.inr (Or.inl ⟨false, rfl⟩), fun f₃ h₃ => ?_⟩
    obtain rfl := Option.some.inj h₃
    refine ⟨Or.inr (Or.inr (Or.inl ⟨false, false, rfl⟩)), fun f₄ h₄ => ?_⟩
    obtain rfl := Option.some.inj h₄
    refine ⟨⟨by decide, Or.inr ⟨⟨false, true, rfl⟩, by decide⟩⟩, fun f₅ h₅ => ?_⟩
    obtain rfl := Option.some.inj h₅
    refine ⟨Or.inr (Or.inr (Or.inl ⟨false, true, rfl⟩)), fun f₆ h₆ => ?_⟩
    obtain rfl := Option.some.inj h₆
    exact ⟨Or.inr (Or.inr (Or.inr ⟨true, rfl⟩)), fun _ _ => trivial⟩
  · exact ⟨by simp [Direct], fun _ _ => ⟨by simp [Direct], fun _ _ => ⟨by simp [Direct],
      fun _ _ => ⟨by simp [Direct], fun _ _ => ⟨by simp [Direct], fun _ _ => ⟨by simp [Direct],
        fun _ _ => ⟨by simp [Direct], fun _ _ => trivial⟩⟩⟩⟩⟩⟩⟩

end Farewell

end Sync
end Szarp
