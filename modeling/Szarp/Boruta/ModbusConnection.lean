import Szarp.Boruta.RegisterBlocks

/-!
# Modbus clients on one connection

The requests of several units go over one connection, and the bytes of the responses come to the unit
that is using the connection then, which reads them with a parser of its own. Which unit that is, is
left open here, as are the order of the responses and the division of the stream into read events.
-/

namespace Szarp
namespace Boruta

open ModbusClient (Event Action State block)

/-! ## Responses -/

/-- A request: the `number`-th of its unit. -/
structure Request (ι : Type*) where
  unit : ι
  number : ℕ
  query : Query

def shortData (contents : List Short) : List Byte :=
  contents.flatMap fun x => [x.extractLsb' 8 8, x.extractLsb' 0 8]

/-- What a server answers, with the contents of the registers. -/
def Query.response (q : Query) (contents : List Short) : PDU :=
  if q.write then ⟨0x10, ModbusClient.bytes q.startAddr ++ ModbusClient.bytes q.regsCount⟩
  else
    { funcCode := match q.registerType with
        | .input => 0x04
        | .holding => 0x03
      data := BitVec.ofNat 8 (2 * contents.length) :: shortData contents }

structure Answer (ι : Type*) where
  request : Request ι
  contents : List Short

namespace Answer

variable {ι : Type*}

def pdu (a : Answer ι) : PDU := a.request.query.response a.contents

def bytes (a : Answer ι) : List Byte :=
  TcpParser.sendAdu (a.request.query.transId.setWidth 16) a.request.query.unitId a.pdu

def adu (a : Answer ι) : TCPADU :=
  ⟨a.request.query.transId.setWidth 16, 0, BitVec.ofNat 16 (2 + a.pdu.data.length),
    a.request.query.unitId, a.pdu⟩

end Answer

def shorts : List Byte → List Short
  | high :: low :: data => (high ++ low) :: shorts data
  | _ => []

namespace ModbusClient

def stores (c : ModbusClient) (adu : TCPADU) : List (Reg × Short) :=
  if c.transId.toNat = adu.transId.toNat ∧ adu.unitId = c.id ∧ c.state = .readQuerySent ∧
      adu.pdu.funcCode &&& mbErrorCode = 0 ∧ adu.pdu.data.length = c.regsCount * 2 + 1 then
    (block (c.registerType, c.startAddr) c.regsCount).zip (shorts adu.pdu.data.tail)
  else []

end ModbusClient

/-! ## The connection -/

/-- Each unit has its own parser. The stream is what the server has sent and no unit has read to its
end: `taken` bytes of the first response are read. -/
structure Connection (ι : Type*) where
  clients : ι → ModbusClient
  parsers : ι → TcpParser
  /-- the requests without a response -/
  requests : List (Request ι)
  /-- how many queries a unit has sent -/
  queries : ι → ℕ
  /-- the responses that have been sent -/
  answers : List (Answer ι)
  stream : List (Answer ι)
  taken : ℕ

namespace Connection

variable {ι : Type*} [DecidableEq ι]

/-- `answer k contents`: the server answers the request `k`. `read now i n`: the unit `i` reads `n`
bytes in a read event. With a new connection neither old responses nor the rest of the stream
come. -/
inductive Step (ι : Type*) where
  | client (i : ι) (e : Event)
  | answer (k : ℕ) (contents : List Short)
  | read (now : ℤ) (i : ι) (n : ℕ)
  | reconnect

def act (i : ι) (s : Connection ι) : Action → Connection ι
  | .send q =>
    { s with
      requests := s.requests ++ [⟨i, s.queries i + 1, q⟩]
      queries := Function.update s.queries i (s.queries i + 1) }
  | .cycleFinished | .terminateConnection => s

def clientStep (i : ι) (e : Event) (s : Connection ι) : Connection ι :=
  ((s.clients i).step e).2.foldl (act i)
    { s with clients := Function.update s.clients i ((s.clients i).step e).1 }

def setParser (i : ι) (p : TcpParser) (s : Connection ι) : Connection ι :=
  { s with parsers := Function.update s.parsers i p }

/-- A connection error also resets the parser. -/
def clientEvent (i : ι) (e : Event) (s : Connection ι) : Connection ι :=
  match e with
  | .connectionError => (s.setParser i (s.parsers i).reset).clientStep i e
  | _ => s.clientStep i e

def nextByte (s : Connection ι) : Option Byte := s.stream.head?.bind fun a => a.bytes[s.taken]?

def advance (s : Connection ι) : Connection ι :=
  match s.stream with
  | [] => s
  | a :: later =>
    if s.taken + 1 < a.bytes.length then { s with taken := s.taken + 1 }
    else { s with stream := later, taken := 0 }

/-- The frame that a unit gets with the next byte. -/
def reported (s : Connection ι) (i : ι) : Option TCPADU :=
  s.nextByte.bind fun c => ((s.parsers i).readByte c).frames[(s.parsers i).frames.length]?

def readByte (now : ℤ) (i : ι) (s : Connection ι) : Connection ι :=
  match s.nextByte with
  | none => s
  | some c =>
    let s' := s.advance.setParser i ((s.parsers i).readByte c)
    match s.reported i with
    | none => s'
    | some adu => s'.clientStep i (.frameParsed now adu)

def step (s : Connection ι) : Step ι → Connection ι
  | .client i e => s.clientEvent i e
  | .answer k contents =>
    match s.requests[k]? with
    | none => s
    | some r =>
      { s with
        requests := s.requests.eraseIdx k
        answers := s.answers ++ [⟨r, contents⟩]
        stream := s.stream ++ [⟨r, contents⟩] }
  | .read now i n => (readByte now i)^[n] s
  | .reconnect => { s with requests := [], stream := [], taken := 0 }

/-- The server answers with as many registers as it is asked for; frames come from the stream. -/
def Domain (s : Connection ι) : Step ι → Prop
  | .client _ (.frameParsed ..) | .client _ (.sduParsed ..) => False
  | .answer k contents =>
    ∃ r, s.requests[k]? = some r ∧ contents.length = r.query.regsCount
  | _ => True

def Stores (s : Connection ι) (i : ι) (store : Reg × Short) : Prop :=
  ∃ adu, s.reported i = some adu ∧ store ∈ (s.clients i).stores adu

/-- A value is the content of the register in the response to a query that the unit has sent for
it. -/
def Attributed (s : Connection ι) (i : ι) (store : Reg × Short) : Prop :=
  ∃ a ∈ s.answers, a.request.unit = i ∧ a.request.query.write = false ∧
    ∃ j : ℕ, a.request.query.registers[j]? = some store.1 ∧ a.contents[j]? = some store.2

def StoresAttributed (s : Connection ι) : Step ι → Prop
  | .read now i n => ∀ k < n, ∀ store, ((readByte now i)^[k] s).Stores i store →
      ((readByte now i)^[k] s).Attributed i store
  | _ => True

/-- The unit has itself read what has come of the response, beginning between two frames. -/
def InStep (s : Connection ι) (i : ι) : Prop :=
  ∀ a ∈ s.stream.head?,
    ∃ p : TcpParser, p.state = .tr ∧ s.parsers i = p.readData (a.bytes.take s.taken)

/-- The response is one to the unit itself or has another unit id, and the unit that asked has sent
fewer than 256 queries since. -/
def InTime (s : Connection ι) (i : ι) : Prop :=
  ∀ a ∈ s.stream.head?,
    (a.request.unit = i ∨ a.request.query.unitId ≠ (s.clients i).id) ∧
      s.queries a.request.unit < a.request.number + 256

instance (s : Connection ι) (i : ι) : Decidable (s.InTime i) :=
  inferInstanceAs (Decidable (∀ a ∈ s.stream.head?, _))

/-- No response is divided between units, and none comes to another unit with its id or 256 queries
too late. -/
def Timely (s : Connection ι) : Step ι → Prop
  | .read now i n => s.InStep i ∧ ∀ k < n, ((readByte now i)^[k] s).InTime i
  | _ => True

/-! ## Stores -/

theorem length_shortData (contents : List Short) :
    (shortData contents).length = 2 * contents.length := by
  induction contents with
  | nil => rfl
  | cons x contents ih =>
    have hcons : shortData (x :: contents) =
        x.extractLsb' 8 8 :: x.extractLsb' 0 8 :: shortData contents := rfl
    rw [hcons, List.length_cons, List.length_cons, ih, List.length_cons]
    omega

theorem shorts_shortData (contents : List Short) : shorts (shortData contents) = contents := by
  induction contents with
  | nil => rfl
  | cons x contents ih =>
    have hcons : shortData (x :: contents) =
        x.extractLsb' 8 8 :: x.extractLsb' 0 8 :: shortData contents := rfl
    have hbytes : x.extractLsb' 8 8 ++ x.extractLsb' 0 8 = x := by
      apply BitVec.eq_of_getLsbD_eq
      intro i hi
      rw [BitVec.getLsbD_append, BitVec.getLsbD_extractLsb', BitVec.getLsbD_extractLsb']
      by_cases h : i < 8
      · simp [h]
      · have hsum : 8 + (i - 8) = i := by omega
        have hlt : i - 8 < 8 := by omega
        simp [h, hsum, hlt]
    rw [hcons, shorts, ih, hbytes]

theorem length_response (q : Query) (contents : List Short) :
    (q.response contents).data.length = if q.write then 4 else 2 * contents.length + 1 := by
  rw [Query.response]
  split
  · rfl
  · rw [List.length_cons, length_shortData]

omit [DecidableEq ι] in
/-- What the response to a request stores: only one to a read query of as many registers. -/
theorem stores_adu {c : ModbusClient} {a : Answer ι}
    (hlength : a.contents.length = a.request.query.regsCount) {store : Reg × Short}
    (h : store ∈ c.stores a.adu) :
    c.state = .readQuerySent ∧ a.request.query.write = false ∧
      c.transId = a.request.query.transId ∧ c.id = a.request.query.unitId ∧
      store ∈ (block (c.registerType, c.startAddr) a.request.query.regsCount).zip a.contents := by
  rw [ModbusClient.stores] at h
  split at h
  · rename_i hmatch
    obtain ⟨htrans, hid, hstate, -, hcount⟩ := hmatch
    have htransId : c.transId = a.request.query.transId := by
      apply BitVec.eq_of_toNat_eq
      rw [htrans]
      change (a.request.query.transId.setWidth 16).toNat = _
      rw [BitVec.toNat_setWidth]
      exact Nat.mod_eq_of_lt (by have := a.request.query.transId.isLt; omega)
    have hdata : a.adu.pdu.data.length =
        if a.request.query.write then 4 else 2 * a.contents.length + 1 := length_response _ _
    rw [hdata] at hcount
    cases hwrite : a.request.query.write with
    | true =>
      rw [hwrite, if_pos rfl] at hcount
      omega
    | false =>
      rw [hwrite, if_neg Bool.false_ne_true] at hcount
      have hcount' : c.regsCount = a.request.query.regsCount := by omega
      have htail : shorts a.adu.pdu.data.tail = a.contents := by
        change shorts (a.request.query.response a.contents).data.tail = _
        rw [Query.response, hwrite, if_neg Bool.false_ne_true]
        exact shorts_shortData a.contents
      rw [htail, hcount'] at h
      exact ⟨hstate, rfl, htransId, hid.symm, h⟩
  · exact absurd h List.not_mem_nil

theorem setRegisters_registers (registerType : RegisterType) (start count : ℕ) (data : List Byte)
    (c : ModbusClient) :
    (c.setRegisters data (List.range' start count)).registers =
      ((block (registerType, start) count).zip (shorts data)).foldl
        (fun registers (store : Reg × Short) =>
          Function.update registers (store.1.2 % 65536) ⟨store.2, c.currentTime⟩) c.registers := by
  induction count generalizing start data c with
  | zero =>
    rw [ModbusClient.setRegisters.eq_def]
    rfl
  | succ count ih =>
    rw [List.range'_succ, ModbusClient.block_succ]
    cases data with
    | nil =>
      rw [ModbusClient.setRegisters.eq_def]
      rfl
    | cons high data =>
      cases data with
      | nil =>
        rw [ModbusClient.setRegisters.eq_def]
        rfl
      | cons low data =>
        rw [ModbusClient.setRegisters, ih]
        rfl

theorem sendNextQuery_registers (now : ℤ) (ok : Bool) (c : ModbusClient) :
    (c.sendNextQuery now ok).1.registers = c.registers := by
  rcases c.sendNextQuery_cases now ok with ⟨r, n, -, pdu, heq⟩ | ⟨r, n, -, -, pdu, heq⟩ |
    ⟨-, -, heq⟩
  · rw [heq]
    rfl
  · rw [heq]
    rfl
  · rw [heq]

/-- A frame sets the registers to what it stores, and no others. -/
theorem frameParsed_registers (now : ℤ) (adu : TCPADU) (c : ModbusClient) :
    (c.frameParsed now adu).1.registers =
      (c.stores adu).foldl (fun registers (store : Reg × Short) =>
        Function.update registers (store.1.2 % 65536) ⟨store.2, c.currentTime⟩) c.registers := by
  rw [ModbusClient.frameParsed]
  by_cases htrans : c.transId.toNat = adu.transId.toNat
  · rw [if_neg (not_not.mpr htrans), ModbusClient.pduReceived]
    by_cases hunit : adu.unitId = c.id
    · rw [if_neg (not_not.mpr hunit)]
      cases hstate : c.state with
      | readQuerySent =>
        dsimp only
        rw [ModbusClient.consumeReadRegsResponse]
        by_cases herror : adu.pdu.funcCode &&& mbErrorCode = 0
        · rw [if_neg (not_not.mpr herror)]
          by_cases hlength : adu.pdu.data.length = c.regsCount * 2 + 1
          · rw [if_neg (not_not.mpr hlength), ModbusClient.stores,
              if_pos ⟨htrans, hunit, hstate, herror, hlength⟩]
            dsimp only
            rw [sendNextQuery_registers, setRegisters_registers]
          · -- a response of another size is an error and stores nothing
            have hstores : c.stores adu = [] := if_neg fun h => hlength h.2.2.2.2
            rw [if_pos hlength, hstores]
            exact sendNextQuery_registers now false c
        · have hstores : c.stores adu = [] := if_neg fun h => herror h.2.2.2.1
          rw [if_pos herror, hstores]
          by_cases hdata : adu.pdu.data = []
          · rw [if_pos hdata]
            exact sendNextQuery_registers now false c
          · rw [if_neg hdata]
            exact sendNextQuery_registers now true c
      | writeQuerySent =>
        have hstores : c.stores adu = [] :=
          if_neg fun h => State.noConfusion (hstate.symm.trans h.2.2.1)
        rw [hstores]
        dsimp only
        rw [ModbusClient.consumeWriteRegsResponse]
        split
        · rename_i c' hconsume
          split at hconsume
          · contradiction
          · obtain rfl := Option.some.inj hconsume
            exact sendNextQuery_registers now true c
        · exact sendNextQuery_registers now false c
      | idle =>
        have hstores : c.stores adu = [] :=
          if_neg fun h => State.noConfusion (hstate.symm.trans h.2.2.1)
        rw [hstores]
        rfl
    · have hstores : c.stores adu = [] := if_neg fun h => hunit h.2.1
      rw [if_pos hunit, hstores]
      rfl
  · -- a frame with another transaction id makes the client send its next query
    have hstores : c.stores adu = [] := if_neg fun h => htrans h.1
    rw [if_pos htrans, sendNextQuery_registers, hstores]
    rfl

/-! ## Steps -/

/-- A client that sends nothing awaits what it has awaited, or nothing. -/
structure Quiet (c d : ModbusClient) : Prop where
  tcp : d.tcp = c.tcp
  id : d.id = c.id
  transId : d.transId = c.transId
  awaits : d.state = .readQuerySent → c.state = .readQuerySent ∧
    d.registerType = c.registerType ∧ d.startAddr = c.startAddr

/-- A client that sends a query awaits the answer to it. -/
structure Asks (c d : ModbusClient) (q : Query) : Prop where
  tcp : d.tcp = c.tcp
  id : d.id = c.id
  transId : d.transId = if c.tcp then c.transId + 1 else c.transId
  query : q.transId = d.transId ∧ q.unitId = d.id
  awaits : d.state = .readQuerySent → d.registerType = q.registerType ∧ d.startAddr = q.startAddr
  regsCount : q.regsCount ≤ 125

theorem asks_sendNextQuery (now : ℤ) (ok : Bool) (c : ModbusClient) :
    (∃ q, (c.sendNextQuery now ok).2 = [.send q] ∧ Asks c (c.sendNextQuery now ok).1 q) ∨
      (∀ q, .send q ∉ (c.sendNextQuery now ok).2) ∧ Quiet c (c.sendNextQuery now ok).1 := by
  rcases c.sendNextQuery_cases now ok with ⟨r, n, hread, pdu, heq⟩ |
    ⟨r, n, -, hwrite, pdu, heq⟩ | ⟨-, -, heq⟩
  · have hle := ModbusClient.findContinuousRegBlock_le hread
    rw [heq]
    exact Or.inl ⟨_, rfl, rfl, rfl, rfl, ⟨rfl, rfl⟩, fun _ => ⟨rfl, rfl⟩, hle⟩
  · have hle := ModbusClient.findContinuousRegBlock_le hwrite
    rw [heq]
    exact Or.inl ⟨_, rfl, rfl, rfl, rfl, ⟨rfl, rfl⟩, fun h => State.noConfusion h, hle⟩
  · rw [heq]
    refine Or.inr ⟨fun q hq => ?_, rfl, rfl, rfl, fun h => State.noConfusion h⟩
    have hsend := List.mem_singleton.mp hq
    cases ok <;> contradiction

theorem asks_step (c : ModbusClient) (e : Event) :
    (∃ q, (c.step e).2 = [.send q] ∧ Asks c (c.step e).1 q) ∨
      (∀ q, .send q ∉ (c.step e).2) ∧ Quiet c (c.step e).1 := by
  by_cases he : e = .connectionError
  · subst he
    exact Or.inr ⟨fun _ => List.not_mem_nil, rfl, rfl, rfl, fun h => State.noConfusion h⟩
  · obtain ⟨registers, currentTime, ⟨-, heq⟩ | ⟨-, now, ok, heq⟩⟩ :=
      ModbusClient.Tracked.step_cases c he
    · rw [heq]
      exact Or.inr ⟨fun _ => List.not_mem_nil, rfl, rfl, rfl, fun h => ⟨h, rfl, rfl⟩⟩
    · rw [heq]
      rcases asks_sendNextQuery now ok { c with registers, currentTime } with
        ⟨q, hactions, hasks⟩ | ⟨hactions, hquiet⟩
      · exact Or.inl ⟨q, hactions, hasks.tcp, hasks.id, hasks.transId, hasks.query, hasks.awaits,
          hasks.regsCount⟩
      · exact Or.inr ⟨hactions, hquiet.tcp, hquiet.id, hquiet.transId, hquiet.awaits⟩

theorem foldl_act (i : ι) {actions : List Action} (h : ∀ q, .send q ∉ actions)
    (s : Connection ι) : actions.foldl (act i) s = s := by
  induction actions with
  | nil => rfl
  | cons action actions ih =>
    rw [List.foldl_cons]
    cases action with
    | send q => exact absurd List.mem_cons_self (h q)
    | cycleFinished => exact ih fun q hq => h q (List.mem_cons_of_mem _ hq)
    | terminateConnection => exact ih fun q hq => h q (List.mem_cons_of_mem _ hq)

def sent (i : ι) (d : ModbusClient) (q : Query) (s : Connection ι) : Connection ι :=
  { s with
    clients := Function.update s.clients i d
    requests := s.requests ++ [⟨i, s.queries i + 1, q⟩]
    queries := Function.update s.queries i (s.queries i + 1) }

/-- Only the unit itself changes, and it may send a query. -/
theorem clientStep_cases (i : ι) (e : Event) (s : Connection ι) :
    ∃ d, (∃ q, Asks (s.clients i) d q ∧ s.clientStep i e = s.sent i d q) ∨
      Quiet (s.clients i) d ∧
        s.clientStep i e = { s with clients := Function.update s.clients i d } := by
  refine ⟨((s.clients i).step e).1, ?_⟩
  rw [clientStep]
  rcases asks_step (s.clients i) e with ⟨q, hactions, hasks⟩ | ⟨hactions, hquiet⟩
  · rw [hactions]
    exact Or.inl ⟨q, hasks, rfl⟩
  · rw [foldl_act i hactions]
    exact Or.inr ⟨hquiet, rfl⟩

theorem clientStep_stream (i : ι) (e : Event) (s : Connection ι) :
    (s.clientStep i e).parsers = s.parsers ∧ (s.clientStep i e).stream = s.stream ∧
      (s.clientStep i e).taken = s.taken := by
  obtain ⟨d, ⟨q, -, heq⟩ | ⟨-, heq⟩⟩ := s.clientStep_cases i e <;> rw [heq] <;>
    exact ⟨rfl, rfl, rfl⟩

/-! ## Numbers of queries -/

/-- A request records what its unit has asked for; the last one of a unit is the one that it awaits
the answer to. -/
structure Recorded (ids : ι → Byte) (s : Connection ι) (r : Request ι) : Prop where
  unitId : r.query.unitId = ids r.unit
  transId : r.query.transId = BitVec.ofNat 8 r.number
  number : r.number ≤ s.queries r.unit
  regsCount : r.query.regsCount ≤ 125
  latest : r.number = s.queries r.unit → (s.clients r.unit).state = .readQuerySent →
    (s.clients r.unit).registerType = r.query.registerType ∧
      (s.clients r.unit).startAddr = r.query.startAddr

/-- Transaction ids count the queries. -/
structure Numbered (ids : ι → Byte) (s : Connection ι) : Prop where
  client : ∀ i, (s.clients i).tcp = true ∧ (s.clients i).id = ids i ∧
    (s.clients i).transId = BitVec.ofNat 8 (s.queries i)
  requests : ∀ r ∈ s.requests, s.Recorded ids r
  stream : ∀ a ∈ s.stream, s.Recorded ids a.request ∧
    a.contents.length = a.request.query.regsCount ∧ a ∈ s.answers

variable {ids : ι → Byte} {s : Connection ι} {i : ι}

theorem Recorded.sent {r : Request ι} (h : s.Recorded ids r) (d : ModbusClient) (q : Query) :
    (s.sent i d q).Recorded ids r := by
  have hnumber := h.number
  by_cases hi : r.unit = i
  · refine ⟨h.unitId, h.transId, ?_, h.regsCount, fun hlatest => ?_⟩
    · simp only [Connection.sent, hi, Function.update_self] at hnumber ⊢
      omega
    · -- it was sent before the query
      simp only [Connection.sent, hi, Function.update_self] at hnumber hlatest
      omega
  · refine ⟨h.unitId, h.transId, ?_, h.regsCount, ?_⟩
    · simp only [Connection.sent, Function.update_of_ne hi]
      exact hnumber
    · simp only [Connection.sent, Function.update_of_ne hi]
      exact h.latest

theorem Recorded.quiet {r : Request ι} (h : s.Recorded ids r) {d : ModbusClient}
    (hquiet : Quiet (s.clients i) d) :
    ({ s with clients := Function.update s.clients i d } : Connection ι).Recorded ids r := by
  refine ⟨h.unitId, h.transId, h.number, h.regsCount, fun hlatest hstate => ?_⟩
  by_cases hi : r.unit = i
  · subst hi
    simp only [Function.update_self] at hstate ⊢
    obtain ⟨hawaits, htype, hstart⟩ := hquiet.awaits hstate
    rw [htype, hstart]
    exact h.latest hlatest hawaits
  · simp only [Function.update_of_ne hi] at hstate ⊢
    exact h.latest hlatest hstate

omit [DecidableEq ι] in
/-- A state with no more requests and no more of the stream. -/
theorem Numbered.of_subset {t : Connection ι} (h : s.Numbered ids) (hclients : t.clients = s.clients)
    (hqueries : t.queries = s.queries) (hrequests : t.requests ⊆ s.requests)
    (hstream : t.stream ⊆ s.stream) (hanswers : t.answers = s.answers) : t.Numbered ids := by
  have hrecorded : ∀ r, s.Recorded ids r → t.Recorded ids r := by
    intro r hr
    refine ⟨hr.unitId, hr.transId, ?_, hr.regsCount, ?_⟩
    · rw [hqueries]
      exact hr.number
    · rw [hqueries, hclients]
      exact hr.latest
  refine ⟨?_, fun r hr => hrecorded r (h.requests r (hrequests hr)), fun a ha => ?_⟩
  · rw [hclients, hqueries]
    exact h.client
  · obtain ⟨hr, hlength, hmem⟩ := h.stream a (hstream ha)
    rw [hanswers]
    exact ⟨hrecorded _ hr, hlength, hmem⟩

theorem Numbered.sent (h : s.Numbered ids) {d : ModbusClient} {q : Query}
    (hasks : Asks (s.clients i) d q) : (s.sent i d q).Numbered ids := by
  obtain ⟨htcp, hid, htransId⟩ := h.client i
  have hnext : d.transId = BitVec.ofNat 8 (s.queries i + 1) := by
    rw [hasks.transId, if_pos htcp, htransId, BitVec.ofNat_add]
    rfl
  refine ⟨fun j => ?_, fun r hr => ?_, fun a ha => ?_⟩
  · by_cases hj : j = i
    · subst hj
      simp only [Connection.sent, Function.update_self]
      exact ⟨hasks.tcp.trans htcp, hasks.id.trans hid, hnext⟩
    · simp only [Connection.sent, Function.update_of_ne hj]
      exact h.client j
  · rcases List.mem_append.mp hr with hold | hnew
    · exact (h.requests r hold).sent d q
    · obtain rfl := List.mem_singleton.mp hnew
      refine ⟨hasks.query.2.trans (hasks.id.trans hid), hasks.query.1.trans hnext, ?_,
        hasks.regsCount, ?_⟩
      · simp only [Connection.sent, Function.update_self]
        exact le_rfl
      · simp only [Connection.sent, Function.update_self]
        exact fun _ => hasks.awaits
  · obtain ⟨hr, hlength, hmem⟩ := h.stream a ha
    exact ⟨hr.sent d q, hlength, hmem⟩

theorem Numbered.quiet (h : s.Numbered ids) {d : ModbusClient} (hquiet : Quiet (s.clients i) d) :
    ({ s with clients := Function.update s.clients i d } : Connection ι).Numbered ids := by
  obtain ⟨htcp, hid, htransId⟩ := h.client i
  refine ⟨fun j => ?_, fun r hr => (h.requests r hr).quiet hquiet, fun a ha => ?_⟩
  · by_cases hj : j = i
    · subst hj
      simp only [Function.update_self]
      exact ⟨hquiet.tcp.trans htcp, hquiet.id.trans hid, hquiet.transId.trans htransId⟩
    · simp only [Function.update_of_ne hj]
      exact h.client j
  · obtain ⟨hr, hlength, hmem⟩ := h.stream a ha
    exact ⟨hr.quiet hquiet, hlength, hmem⟩

theorem Numbered.clientStep (h : s.Numbered ids) (i : ι) (e : Event) :
    (s.clientStep i e).Numbered ids := by
  obtain ⟨d, ⟨q, hasks, heq⟩ | ⟨hquiet, heq⟩⟩ := s.clientStep_cases i e
  · rw [heq]
    exact h.sent hasks
  · rw [heq]
    exact h.quiet hquiet

theorem Numbered.readByte (h : s.Numbered ids) (now : ℤ) (i : ι) :
    (s.readByte now i).Numbered ids := by
  rw [Connection.readByte]
  split
  · exact h
  · rename_i c _
    have hread : (s.advance.setParser i ((s.parsers i).readByte c)).Numbered ids := by
      have hadvance : s.advance.clients = s.clients ∧ s.advance.queries = s.queries ∧
          s.advance.requests = s.requests ∧ s.advance.stream ⊆ s.stream ∧
          s.advance.answers = s.answers := by
        rw [advance]
        split
        · exact ⟨rfl, rfl, rfl, List.Subset.refl _, rfl⟩
        · rename_i a later hstream
          split
          · exact ⟨rfl, rfl, rfl, List.Subset.refl _, rfl⟩
          · exact ⟨rfl, rfl, rfl, by rw [hstream]; exact List.subset_cons_self a later, rfl⟩
      obtain ⟨hclients, hqueries, hrequests, hstream, hanswers⟩ := hadvance
      exact h.of_subset hclients hqueries (fun r hr => hrequests ▸ hr) hstream hanswers
    dsimp only
    split
    · exact hread
    · exact hread.clientStep i _

theorem Numbered.iterate (h : s.Numbered ids) (now : ℤ) (i : ι) (n : ℕ) :
    ((Connection.readByte now i)^[n] s).Numbered ids := by
  induction n with
  | zero => exact h
  | succ n ih =>
    rw [Function.iterate_succ_apply']
    exact ih.readByte now i

theorem Numbered.step (h : s.Numbered ids) {e : Step ι} (hdomain : s.Domain e) :
    (s.step e).Numbered ids := by
  cases e with
  | client i e =>
    rw [Connection.step, clientEvent.eq_def]
    split
    · have hreset : (s.setParser i (s.parsers i).reset).Numbered ids :=
        h.of_subset rfl rfl (List.Subset.refl _) (List.Subset.refl _) rfl
      exact hreset.clientStep i _
    · exact h.clientStep i e
  | answer k contents =>
    obtain ⟨r, hr, hlength⟩ := hdomain
    rw [Connection.step, hr]
    have hrecorded := h.requests r (List.mem_of_getElem? hr)
    refine ⟨h.client, fun r' hr' => ?_, fun a ha => ?_⟩
    · obtain ⟨hunitId, htransId, hnumber, hcount, hlatest⟩ :=
        h.requests r' (List.mem_of_mem_eraseIdx hr')
      exact ⟨hunitId, htransId, hnumber, hcount, hlatest⟩
    · rcases List.mem_append.mp ha with hold | hnew
      · obtain ⟨⟨hunitId, htransId, hnumber, hcount, hlatest⟩, hlength', hmem⟩ := h.stream a hold
        exact ⟨⟨hunitId, htransId, hnumber, hcount, hlatest⟩, hlength',
          List.mem_append_left _ hmem⟩
      · obtain rfl := List.mem_singleton.mp hnew
        obtain ⟨hunitId, htransId, hnumber, hcount, hlatest⟩ := hrecorded
        exact ⟨⟨hunitId, htransId, hnumber, hcount, hlatest⟩, hlength,
          List.mem_append_right _ hnew⟩
  | read now i n => exact h.iterate now i n
  | reconnect => exact h.of_subset rfl rfl (List.nil_subset _) (List.nil_subset _) rfl

/-! ## Reading a response -/

omit [DecidableEq ι] in
/-- A parser between two frames reports a response with its last byte. -/
theorem readData_answer (h : s.Numbered ids) {a : Answer ι} (ha : a ∈ s.stream) {p : TcpParser}
    (hp : p.state = .tr) :
    (∀ t < a.bytes.length, (p.readData (a.bytes.take t)).frames = p.frames) ∧
      (p.readData a.bytes).state = .tr ∧ (p.readData a.bytes).frames = p.frames ++ [a.adu] := by
  obtain ⟨hrecorded, hlength, -⟩ := h.stream a ha
  have hcount := hrecorded.regsCount
  have hdata : a.pdu.data.length =
      if a.request.query.write then 4 else 2 * a.contents.length + 1 := length_response _ _
  have hsize : 0 < a.pdu.data.length ∧ a.pdu.data.length ≤ 65533 := by
    rw [hdata]
    split <;> omega
  exact TcpParser.readData_sendAdu hp _ _ hsize.1 hsize.2

theorem readByte_eq {p : TcpParser} {bs : List Byte} {t : ℕ} {c : Byte} (hc : bs[t]? = some c) :
    (p.readData (bs.take t)).readByte c = p.readData (bs.take (t + 1)) := by
  rw [List.take_add_one, hc, Option.toList_some, TcpParser.readData, TcpParser.readData,
    List.foldl_append]
  rfl

omit [DecidableEq ι] in
theorem nextByte_eq_some {c : Byte} (h : s.nextByte = some c) :
    ∃ a later, s.stream = a :: later ∧ a.bytes[s.taken]? = some c := by
  obtain ⟨a, ha, hc⟩ := Option.bind_eq_some_iff.mp h
  obtain ⟨later, hlater⟩ := List.head?_eq_some_iff.mp ha
  exact ⟨a, later, hlater, hc⟩

omit [DecidableEq ι] in
/-- A unit that is in step gets the response itself. -/
theorem reported_eq (h : s.Numbered ids) (hstep : s.InStep i) {adu : TCPADU}
    (hreported : s.reported i = some adu) :
    ∃ a, s.stream.head? = some a ∧ adu = a.adu := by
  obtain ⟨c, hc, hframe⟩ := Option.bind_eq_some_iff.mp hreported
  obtain ⟨a, later, hstream, hbyte⟩ := nextByte_eq_some hc
  have hhead : s.stream.head? = some a := by rw [hstream]; rfl
  obtain ⟨p, hp, hparser⟩ := hstep a hhead
  obtain ⟨hinside, -, hlast⟩ := readData_answer h (List.mem_of_mem_head? hhead) hp
  obtain ⟨hlt, -⟩ := List.getElem?_eq_some_iff.mp hbyte
  rw [hparser, readByte_eq hbyte, hinside _ hlt] at hframe
  refine ⟨a, hhead, ?_⟩
  by_cases hend : s.taken + 1 < a.bytes.length
  · rw [hinside _ hend, List.getElem?_eq_none le_rfl] at hframe
    contradiction
  · rw [List.take_of_length_le (by omega), hlast, List.getElem?_concat_length] at hframe
    exact (Option.some.inj hframe).symm

theorem InStep.readByte (h : s.Numbered ids) (hstep : s.InStep i) (now : ℤ) :
    (s.readByte now i).InStep i := by
  rw [Connection.readByte]
  cases hc : s.nextByte with
  | none => exact hstep
  | some c =>
    obtain ⟨a, later, hstream, hbyte⟩ := nextByte_eq_some hc
    have hhead : s.stream.head? = some a := by rw [hstream]; rfl
    obtain ⟨p, hp, hparser⟩ := hstep a hhead
    obtain ⟨-, hstate, -⟩ := readData_answer h (List.mem_of_mem_head? hhead) hp
    have hread : (s.advance.setParser i ((s.parsers i).readByte c)).InStep i := by
      intro b hb
      rw [hparser, readByte_eq hbyte, setParser] at hb ⊢
      dsimp only at hb ⊢
      rw [Function.update_self]
      rw [advance.eq_def, hstream] at hb ⊢
      dsimp only at hb ⊢
      by_cases hend : s.taken + 1 < a.bytes.length
      · rw [if_pos hend] at hb ⊢
        obtain rfl := Option.some.inj hb
        exact ⟨p, hp, rfl⟩
      · rw [if_neg hend] at hb ⊢
        rw [List.take_of_length_le (by omega)]
        exact ⟨_, hstate, rfl⟩
    dsimp only
    split
    · exact hread
    · rename_i adu _
      obtain ⟨hparsers, hstream', htaken⟩ := clientStep_stream i (.frameParsed now adu)
        (s.advance.setParser i ((s.parsers i).readByte c))
      unfold InStep
      rw [hparsers, hstream', htaken]
      exact hread

theorem InStep.iterate (h : s.Numbered ids) (hstep : s.InStep i) (now : ℤ) (n : ℕ) :
    ((Connection.readByte now i)^[n] s).InStep i := by
  induction n with
  | zero => exact hstep
  | succ n ih =>
    rw [Function.iterate_succ_apply']
    exact ih.readByte (h.iterate now i n) now

/-! ## Attribution -/

omit [DecidableEq ι] in
/-- What is stored with a response that comes in time belongs to the registers asked for. -/
theorem attributed_of_inTime (h : s.Numbered ids) (hstep : s.InStep i) (htime : s.InTime i)
    {store : Reg × Short} (hstores : s.Stores i store) : s.Attributed i store := by
  obtain ⟨adu, hreported, hstore⟩ := hstores
  obtain ⟨a, hhead, rfl⟩ := reported_eq h hstep hreported
  obtain ⟨hrecorded, hlength, hmem⟩ := h.stream a (List.mem_of_mem_head? hhead)
  obtain ⟨hunit, hfew⟩ := htime a hhead
  obtain ⟨hstate, hwrite, htransId, hid, hzip⟩ := stores_adu hlength hstore
  have hi : a.request.unit = i := hunit.resolve_right (not_not.mpr hid.symm)
  subst hi
  have hnumber : a.request.number = s.queries a.request.unit := by
    have hmod : a.request.number % 256 = s.queries a.request.unit % 256 := by
      rw [(h.client a.request.unit).2.2, hrecorded.transId] at htransId
      exact (congrArg BitVec.toNat htransId).symm
    have hle := hrecorded.number
    omega
  obtain ⟨htype, hstart⟩ := hrecorded.latest hnumber hstate
  obtain ⟨j, hj⟩ := List.mem_iff_getElem?.mp hzip
  obtain ⟨hreg, hval⟩ := List.getElem?_zip_eq_some.mp hj
  rw [htype, hstart] at hreg
  exact ⟨a, hmem, rfl, hwrite, j, hreg, hval⟩

def opened (ids : ι → Byte) (received sent : ι → RSet) (requestTimeout : ι → ℤ) :
    Connection ι where
  clients := fun i => .configured true (ids i) (received i) (sent i) (requestTimeout i)
  parsers := fun _ => .new
  requests := []
  queries := fun _ => 0
  answers := []
  stream := []
  taken := 0

/-- The values of a run are attributed to the right registers when no response is divided between
units or comes to another unit with the same id, or 256 queries late. -/
theorem attributed_of_timely (ids : ι → Byte) (received sent : ι → RSet)
    (requestTimeout : ι → ℤ) (es : List (Step ι))
    (hes : Run.Along step Domain (opened ids received sent requestTimeout) es)
    (htimely : Run.Along step Timely (opened ids received sent requestTimeout) es) :
    Run.Along step StoresAttributed (opened ids received sent requestTimeout) es := by
  have hnumbered : (opened ids received sent requestTimeout).Numbered ids :=
    ⟨fun _ => ⟨rfl, rfl, rfl⟩, fun _ hr => absurd hr List.not_mem_nil,
      fun _ ha => absurd ha List.not_mem_nil⟩
  refine Run.along_of_inv (fun s e (hs : s.Numbered ids) hdomain _ => hs.step hdomain)
    (fun s e hs _ ht => ?_) hnumbered hes htimely
  cases e with
  | read now i n =>
    intro k hk store hstores
    exact attributed_of_inTime (hs.iterate now i k) (ht.1.iterate hs now k) (ht.2 k hk) hstores
  | client i e => exact trivial
  | answer k contents => exact trivial
  | reconnect => exact trivial

/-! ## Late responses -/

def noRegisters : RSet := ⟨[], .nil, by decide⟩

def oneRegister : RSet := ⟨[(.holding, 5)], List.pairwise_singleton _ _, by decide⟩

def twoUnits (ids : Fin 2 → Byte) : Connection (Fin 2) :=
  opened ids (fun i => if i = 0 then ModbusClient.Tracked.twoBlocks else oneRegister)
    (fun _ => noRegisters) fun _ => 10

/-- The answer to the first query of a unit comes, in two read events, when the other unit awaits
the answer to its own first query. -/
def lateRun : List (Step (Fin 2)) :=
  [.client 0 (.scheduled 0), .client 0 (.startingNewCycle 20 []), .answer 1 [7], .read 21 0 11,
    .client 1 (.scheduled 21), .answer 0 [8], .read 22 1 4, .read 22 1 7]

/-- Two units with ids of their own: the late answer is left alone. -/
theorem lateRun_ownIds :
    Run.Along step StoresAttributed (twoUnits fun i => if i = 0 then 1 else 2) lateRun := by
  apply attributed_of_timely
  · refine ⟨trivial, trivial, ⟨_, rfl, ?_⟩, trivial, trivial, ⟨_, rfl, ?_⟩, trivial, trivial,
      trivial⟩
    · rfl
    · rfl
  · refine ⟨trivial, trivial, trivial, ⟨?_, ?_⟩, trivial, trivial, ⟨?_, ?_⟩, ⟨?_, ?_⟩, trivial⟩
    · rintro a ⟨⟩
      exact ⟨.new, rfl, rfl⟩
    · decide
    · rintro a ⟨⟩
      exact ⟨.new, rfl, rfl⟩
    · decide
    · rintro a ⟨⟩
      exact ⟨.new, rfl, rfl⟩
    · decide

/-- Two units with one id: the second unit stores the content of a register of the first one. -/
theorem lateRun_not_attributed :
    ¬ ∀ (ids : Fin 2 → Byte) (received sent : Fin 2 → RSet) (requestTimeout : Fin 2 → ℤ)
      (es : List (Step (Fin 2))),
      Run.Along step Domain (opened ids received sent requestTimeout) es →
        Run.Along step StoresAttributed (opened ids received sent requestTimeout) es := by
  intro h
  have hdomain : Run.Along step Domain (twoUnits fun _ => 1) lateRun := by
    refine ⟨trivial, trivial, ⟨_, rfl, ?_⟩, trivial, trivial, ⟨_, rfl, ?_⟩, trivial, trivial,
      trivial⟩
    · rfl
    · rfl
  obtain ⟨-, -, -, -, -, -, -, hstored, -⟩ := h _ _ _ _ _ hdomain
  obtain ⟨a, ha, hunit, -⟩ := hstored 6 (by decide) ((.holding, 5), 8) ⟨_, rfl, by decide⟩
  rcases List.mem_cons.mp ha with rfl | ha
  · exact absurd hunit (by decide)
  · obtain rfl := List.mem_singleton.mp ha
    exact absurd hunit (by decide)

end Connection
end Boruta
end Szarp
