import Mathlib.Data.List.TakeWhile
import Szarp.Sync.Packet

/-!
# Messages

`MessageSender` packs typed values back to back into packets of `MAX_LENGTH` bytes and sends a
packet when the next byte does not fit; `MessageReceiver` reads the values again.
-/

namespace Szarp
namespace Sync

abbrev CString := { s : List Byte // 0 ∉ s }

/-- The C string at the start of a zero-terminated buffer. -/
def toCString (bs : List Byte) : CString :=
  ⟨bs.takeWhile (· ≠ 0), fun h => by simpa using List.mem_takeWhile_imp h⟩

theorem toCString_of_zero_free {bs : List Byte} (h : 0 ∉ bs) : toCString bs = ⟨bs, h⟩ := by
  refine Subtype.ext (List.takeWhile_eq_self_iff.mpr fun b hb => ?_)
  simp only [ne_eq, decide_not, Bool.not_eq_true', decide_eq_false_iff_not]
  rintro rfl
  exact h hb

/-- What a message is made of. -/
inductive Value where
  | byte (v : Byte)
  | uint16 (v : UInt16)
  | uint32 (v : UInt32)
  | string (s : CString)
deriving DecidableEq

inductive Kind where
  | byte
  | uint16
  | uint32
  | string
deriving DecidableEq, Repr

def Value.kind : Value → Kind
  | byte _ => .byte
  | uint16 _ => .uint16
  | uint32 _ => .uint32
  | string _ => .string

/-! ## The sender -/

structure MessageSender where
  packet : Option Packet
  sent : List Packet

namespace MessageSender

def init : MessageSender := ⟨none, []⟩

def newPacket : Packet := ⟨Packet.ok, []⟩

/-- `none`: the assertion that there is a packet fails. -/
def sendPacket (m : MessageSender) : Option MessageSender :=
  m.packet.map fun p => ⟨none, m.sent ++ [p]⟩

/-- The loop of `PutBytes`; the first argument bounds its passes. -/
def putLoop : ℕ → MessageSender → List Byte → Option MessageSender
  | _, m, [] => some m
  | 0, _, _ :: _ => none
  | n + 1, m, c :: cs =>
    let p := m.packet.getD newPacket
    if p.data.length = Packet.maxLength then
      (sendPacket { m with packet := some p }).bind fun m => putLoop n m (c :: cs)
    else
      let toAdd := min (c :: cs).length (Packet.maxLength - p.data.length)
      putLoop n { m with packet := some { p with data := p.data ++ (c :: cs).take toAdd } }
        ((c :: cs).drop toAdd)

def putBytes (m : MessageSender) (bytes : List Byte) : Option MessageSender :=
  putLoop (2 * bytes.length) m bytes

def putByte (m : MessageSender) (v : Byte) : Option MessageSender := m.putBytes [v]

def putUInt16 (m : MessageSender) (v : UInt16) : Option MessageSender :=
  m.putBytes (BigEndian.encode 2 v.toNat)

def putUInt32 (m : MessageSender) (v : UInt32) : Option MessageSender :=
  m.putBytes (BigEndian.encode 4 v.toNat)

/-- The length of the string is kept in a `uint16_t`, and so are the number of bytes sent and the
number the assertion looks at. -/
def putString (m : MessageSender) (s : CString) : Option MessageSender :=
  let size := s.val.length % 2 ^ 16
  if size < 128 * 128 then do
    let m ← if size / 128 ≠ 0 then m.putByte (UInt8.ofNat (size / 128) ||| 128) else some m
    let m ← m.putByte (UInt8.ofNat (size % 128))
    m.putBytes (s.val.take size)
  else none

def put (m : MessageSender) : Value → Option MessageSender
  | .byte v => m.putByte v
  | .uint16 v => m.putUInt16 v
  | .uint32 v => m.putUInt32 v
  | .string s => m.putString s

def finishMessage (m : MessageSender) : Option MessageSender :=
  match m.packet with
  | some p => sendPacket { m with packet := some { p with type := Packet.last } }
  | none => none

end MessageSender

/-- A whole message: the values are put one after the other and the message is finished.
`none` is a failed assertion. -/
def sendMessage (vs : List Value) : Option (List Packet) := do
  let m ← vs.foldlM MessageSender.put MessageSender.init
  let m ← m.finishMessage
  some m.sent

/-! ## The receiver -/

inductive ReadError where
  /-- There is no more data in the message. -/
  | noMoreData
  /-- The peer has closed the connection. -/
  | connectionShutdown
  /-- The exchanger waits for a packet. -/
  | blocked
deriving DecidableEq, Repr

/-- `size` is the `m_size` of the current packet, counted down as the packet is read, `pos` the
read position in it, and `input` are the packets that the exchanger has still to deliver. -/
structure MessageReceiver where
  packet : Option Packet
  pos : ℕ
  size : ℕ
  input : List Packet

namespace MessageReceiver

def init (input : List Packet) : MessageReceiver := ⟨none, 0, 0, input⟩

/-- The exchanger hands over a packet. -/
def nextPacket (r : MessageReceiver) : Except ReadError MessageReceiver :=
  match r.input with
  | [] => .error .blocked
  | p :: rest => .ok ⟨some p, 0, p.data.length, rest⟩

def getPacket (r : MessageReceiver) : Except ReadError MessageReceiver :=
  match r.packet with
  | some p =>
    if p.type = Packet.last ∨ p.type = Packet.error then .error .noMoreData else r.nextPacket
  | none => r.nextPacket

/-- A pass of `GetBytes` takes a packet when there is nothing left in the one at hand. -/
def fetch (r : MessageReceiver) : Except ReadError MessageReceiver :=
  if r.packet = none ∨ r.size = 0 then r.getPacket else .ok r

/-- The loop of `GetBytes`; the first argument bounds its passes. -/
def getLoop : ℕ → MessageReceiver → ℕ → Except ReadError (List Byte × MessageReceiver)
  | _, r, 0 => .ok ([], r)
  | 0, _, _ + 1 => .error .blocked
  | n + 1, r, size + 1 => do
    let r ← r.fetch
    match r.packet with
    | none => .error .blocked
    | some p =>
      if p.type = Packet.eof then .error .connectionShutdown
      else
        let toRead := min (size + 1) r.size
        let (rest, r') ← getLoop n { r with pos := r.pos + toRead, size := r.size - toRead }
          (size + 1 - toRead)
        .ok ((p.data.drop r.pos).take toRead ++ rest, r')

/-- Each pass reads a byte or takes a packet. -/
def getBytes (r : MessageReceiver) (size : ℕ) : Except ReadError (List Byte × MessageReceiver) :=
  getLoop (size + r.input.length + 1) r size

def getByte (r : MessageReceiver) : Except ReadError (Byte × MessageReceiver) := do
  let (bs, r) ← r.getBytes 1
  .ok (bs.headD 0, r)

def getUInt16 (r : MessageReceiver) : Except ReadError (UInt16 × MessageReceiver) := do
  let (bs, r) ← r.getBytes 2
  .ok (UInt16.ofNat (BigEndian.decode bs), r)

def getUInt32 (r : MessageReceiver) : Except ReadError (UInt32 × MessageReceiver) := do
  let (bs, r) ← r.getBytes 4
  .ok (UInt32.ofNat (BigEndian.decode bs), r)

/-- The length in front of a string. -/
def getStringSize (r : MessageReceiver) : Except ReadError (ℕ × MessageReceiver) := do
  let (t, r) ← r.getByte
  if t &&& 128 ≠ 0 then
    let (u, r) ← r.getByte
    .ok (((t &&& ~~~128).toNat * 128 + u.toNat) % 2 ^ 16, r)
  else .ok (t.toNat, r)

def getString (r : MessageReceiver) : Except ReadError (CString × MessageReceiver) := do
  let (size, r) ← r.getStringSize
  let (bs, r) ← r.getBytes size
  .ok (toCString bs, r)

def get (r : MessageReceiver) : Kind → Except ReadError (Value × MessageReceiver)
  | .byte => do
    let (v, r) ← r.getByte
    .ok (.byte v, r)
  | .uint16 => do
    let (v, r) ← r.getUInt16
    .ok (.uint16 v, r)
  | .uint32 => do
    let (v, r) ← r.getUInt32
    .ok (.uint32 v, r)
  | .string => do
    let (v, r) ← r.getString
    .ok (.string v, r)

/-- Values of the given kinds, read one after the other. -/
def getAll (r : MessageReceiver) : List Kind → Except ReadError (List Value × MessageReceiver)
  | [] => .ok ([], r)
  | k :: ks => do
    let (v, r) ← r.get k
    let (vs, r) ← r.getAll ks
    .ok (v :: vs, r)

end MessageReceiver

/-! ## What the sender holds -/

namespace MessageSender

def bytes (m : MessageSender) : List Byte :=
  m.sent.flatMap Packet.data ++ (m.packet.map Packet.data).getD []

structure Inv (m : MessageSender) : Prop where
  sent : ∀ p ∈ m.sent, p.type = Packet.ok ∧ p.data.length = Packet.maxLength
  packet : ∀ p, m.packet = some p →
    p.type = Packet.ok ∧ p.data ≠ [] ∧ p.data.length ≤ Packet.maxLength

theorem Inv.init : Inv init := ⟨by simp [MessageSender.init], by simp [MessageSender.init]⟩

theorem maxLength_pos : 0 < Packet.maxLength := by decide

/-- A pass that sends is followed by one that adds bytes, so two passes for each byte are
enough. -/
theorem putLoop_spec (n : ℕ) (m : MessageSender) (bs : List Byte) (hm : m.Inv)
    (hn : 2 * bs.length ≤
      n + if (m.packet.getD newPacket).data.length = Packet.maxLength then 0 else 1) :
    ∃ m', putLoop n m bs = some m' ∧ m'.Inv ∧ m'.bytes = m.bytes ++ bs ∧
      (bs ≠ [] ∨ m.packet ≠ none → m'.packet ≠ none) := by
  induction n generalizing m bs with
  | zero =>
    cases bs with
    | nil => exact ⟨m, rfl, hm, by simp, by simp⟩
    | cons c cs =>
      simp only [List.length_cons] at hn
      split_ifs at hn <;> omega
  | succ n ih =>
    cases bs with
    | nil => exact ⟨m, rfl, hm, by simp, by simp⟩
    | cons c cs =>
      by_cases hfull : (m.packet.getD newPacket).data.length = Packet.maxLength
      · -- a full packet is sent
        have hp : ∃ p, m.packet = some p := by
          cases h : m.packet with
          | none =>
            rw [h] at hfull
            exact absurd hfull (by decide)
          | some p => exact ⟨p, rfl⟩
        obtain ⟨p, hp⟩ := hp
        obtain ⟨hty, -, -⟩ := hm.packet p hp
        rw [hp, Option.getD_some] at hfull
        have hinv : Inv ⟨none, m.sent ++ [p]⟩ := by
          refine ⟨fun q hq => ?_, by simp⟩
          rcases List.mem_append.mp hq with hq | hq
          · exact hm.sent q hq
          · rw [List.mem_singleton.mp hq]
            exact ⟨hty, hfull⟩
        obtain ⟨m', h1, h2, h3, h4⟩ := ih ⟨none, m.sent ++ [p]⟩ (c :: cs) hinv (by
          rw [hp, Option.getD_some, if_pos hfull] at hn
          have hz : ¬ ((none : Option Packet).getD newPacket).data.length = Packet.maxLength := by
            decide
          rw [if_neg hz]
          omega)
        refine ⟨m', ?_, h2, ?_, fun _ => h4 (Or.inl (by simp))⟩
        · rw [putLoop]
          simp only [hp, Option.getD_some, hfull, if_true, sendPacket, Option.map_some,
            Option.bind_some]
          exact h1
        · rw [h3]
          simp [bytes, hp]
      · -- the packet at hand takes as many bytes as fit
        have hlen : (m.packet.getD newPacket).data.length < Packet.maxLength := by
          cases h : m.packet with
          | none => exact maxLength_pos
          | some p =>
            have := (hm.packet p h).2.2
            rw [h, Option.getD_some] at hfull
            rw [Option.getD_some]
            omega
        have hty : (m.packet.getD newPacket).type = Packet.ok := by
          cases h : m.packet with
          | none => rfl
          | some p => exact (hm.packet p h).1
        have hby : m.bytes = m.sent.flatMap Packet.data ++ (m.packet.getD newPacket).data := by
          cases h : m.packet <;> simp [bytes, h, newPacket]
        generalize hpk : m.packet.getD newPacket = p at hfull hlen hty hby hn
        generalize hk : min (c :: cs).length (Packet.maxLength - p.data.length) = k
        have hk0 : 0 < k := by
          rw [← hk]
          simp only [List.length_cons]
          omega
        have hinv : Inv { m with packet := some { p with data := p.data ++ (c :: cs).take k } } := by
          refine ⟨hm.sent, fun q hq => ?_⟩
          rw [← Option.some.inj hq]
          refine ⟨hty, ?_, ?_⟩
          · obtain ⟨j, rfl⟩ : ∃ j, k = j + 1 := ⟨k - 1, by omega⟩
            simp
          · simp only [List.length_append, List.length_take]
            omega
        obtain ⟨m', h1, h2, h3, h4⟩ := ih _ ((c :: cs).drop k) hinv (by
          rw [if_neg hfull] at hn
          rw [List.length_drop]
          simp only [List.length_cons] at hn ⊢
          split_ifs <;> omega)
        refine ⟨m', ?_, h2, ?_, fun _ => h4 (Or.inr (by simp))⟩
        · rw [putLoop]
          simp only [hpk, if_neg hfull, hk]
          exact h1
        · rw [h3, hby]
          simp [bytes, List.append_assoc]

theorem putBytes_spec {m : MessageSender} (hm : m.Inv) (bs : List Byte) :
    ∃ m', m.putBytes bs = some m' ∧ m'.Inv ∧ m'.bytes = m.bytes ++ bs ∧
      (bs ≠ [] ∨ m.packet ≠ none → m'.packet ≠ none) :=
  putLoop_spec _ m bs hm (by omega)

/-- The bytes of a string as `PutString` sends it: a length of one or two digits in base 128,
then the text. -/
def encodeString (s : List Byte) : List Byte :=
  let size := s.length % 2 ^ 16
  (if size / 128 ≠ 0 then [UInt8.ofNat (size / 128) ||| 128] else []) ++
    (UInt8.ofNat (size % 128) :: s.take size)

def encode : Value → List Byte
  | .byte v => [v]
  | .uint16 v => BigEndian.encode 2 v.toNat
  | .uint32 v => BigEndian.encode 4 v.toNat
  | .string s => encodeString s.val

/-- The assertion of `PutString` holds. -/
def Puttable : Value → Prop
  | .string s => s.val.length % 2 ^ 16 < 128 * 128
  | _ => True

theorem encode_ne_nil (v : Value) : encode v ≠ [] := by
  cases v <;> simp [encode, encodeString, BigEndian.encode]

theorem putString_eq {m : MessageSender} (hm : m.Inv) {s : CString}
    (hs : s.val.length % 2 ^ 16 < 128 * 128) :
    ∃ m', m.putString s = some m' ∧ m'.Inv ∧ m'.bytes = m.bytes ++ encodeString s.val ∧
      m'.packet ≠ none := by
  rw [putString]
  simp only [if_pos hs, encodeString]
  generalize s.val.length % 2 ^ 16 = size
  by_cases hhi : size / 128 = 0
  · obtain ⟨m₁, e₁, i₁, b₁, p₁⟩ := putBytes_spec hm [UInt8.ofNat (size % 128)]
    obtain ⟨m₂, e₂, i₂, b₂, p₂⟩ := putBytes_spec i₁ (s.val.take size)
    refine ⟨m₂, ?_, i₂, ?_, p₂ (Or.inr (p₁ (Or.inl (by simp))))⟩
    · simp only [hhi, ne_eq, not_true_eq_false, if_false, putByte, Option.bind_eq_bind,
        Option.bind_some, e₁, e₂]
    · simp [hhi, b₂, b₁]
  · obtain ⟨m₀, e₀, i₀, b₀, -⟩ := putBytes_spec hm [UInt8.ofNat (size / 128) ||| 128]
    obtain ⟨m₁, e₁, i₁, b₁, p₁⟩ := putBytes_spec i₀ [UInt8.ofNat (size % 128)]
    obtain ⟨m₂, e₂, i₂, b₂, p₂⟩ := putBytes_spec i₁ (s.val.take size)
    refine ⟨m₂, ?_, i₂, ?_, p₂ (Or.inr (p₁ (Or.inl (by simp))))⟩
    · simp only [hhi, ne_eq, not_false_eq_true, if_true, putByte, Option.bind_eq_bind,
        Option.bind_some, e₀, e₁, e₂]
    · rw [b₂, b₁, b₀, if_pos hhi]
      simp only [List.append_assoc, List.cons_append, List.nil_append]

theorem put_spec {m : MessageSender} (hm : m.Inv) {v : Value} (hv : Puttable v) :
    ∃ m', m.put v = some m' ∧ m'.Inv ∧ m'.bytes = m.bytes ++ encode v ∧ m'.packet ≠ none := by
  have hbytes : m.put v = m.putBytes (encode v) →
      ∃ m', m.put v = some m' ∧ m'.Inv ∧ m'.bytes = m.bytes ++ encode v ∧ m'.packet ≠ none := by
    intro h
    obtain ⟨m', h1, h2, h3, h4⟩ := putBytes_spec hm (encode v)
    exact ⟨m', h.trans h1, h2, h3, h4 (Or.inl (encode_ne_nil v))⟩
  cases v with
  | byte b => exact hbytes rfl
  | uint16 n => exact hbytes rfl
  | uint32 n => exact hbytes rfl
  | string s => exact putString_eq hm hv

/-- A run of puts appends the encodings. -/
theorem foldlM_put_spec {m : MessageSender} (hm : m.Inv) (vs : List Value)
    (hvs : ∀ v ∈ vs, Puttable v) :
    ∃ m', vs.foldlM put m = some m' ∧ m'.Inv ∧ m'.bytes = m.bytes ++ vs.flatMap encode ∧
      (vs ≠ [] ∨ m.packet ≠ none → m'.packet ≠ none) := by
  induction vs generalizing m with
  | nil => exact ⟨m, rfl, hm, by simp, by simp⟩
  | cons v vs ih =>
    obtain ⟨m₁, e₁, i₁, b₁, p₁⟩ := put_spec hm (hvs v (by simp))
    obtain ⟨m₂, e₂, i₂, b₂, p₂⟩ := ih i₁ fun w hw => hvs w (by simp [hw])
    refine ⟨m₂, ?_, i₂, ?_, fun _ => p₂ (Or.inr p₁)⟩
    · rw [List.foldlM_cons, e₁]
      exact e₂
    · rw [b₂, b₁]
      simp

theorem puttable_of_foldlM {m m' : MessageSender} {vs : List Value}
    (h : vs.foldlM put m = some m') : ∀ v ∈ vs, Puttable v := by
  induction vs generalizing m with
  | nil => simp
  | cons v vs ih =>
    rw [List.foldlM_cons, Option.bind_eq_bind, Option.bind_eq_some_iff] at h
    obtain ⟨m₁, hput, hrest⟩ := h
    have hv : Puttable v := by
      cases v with
      | string s =>
        by_contra hn
        rw [put, putString] at hput
        simp only [if_neg (show ¬ s.val.length % 2 ^ 16 < 128 * 128 from hn)] at hput
        exact absurd hput (by simp)
      | byte b => trivial
      | uint16 n => trivial
      | uint32 n => trivial
    intro w hw
    rcases List.mem_cons.mp hw with rfl | hw
    · exact hv
    · exact ih hrest w hw

end MessageSender

/-- The packets of one message: full ones, and then the one that ends it. -/
def IsMessage (ps : List Packet) : Prop :=
  ∃ full p, ps = full ++ [p] ∧
    (∀ q ∈ full, q.type = Packet.ok ∧ q.data.length = Packet.maxLength) ∧
    p.type = Packet.last ∧ p.data ≠ [] ∧ p.data.length ≤ Packet.maxLength

theorem sendMessage_spec {vs : List Value} (hne : vs ≠ [])
    (hvs : ∀ v ∈ vs, MessageSender.Puttable v) :
    ∃ ps, sendMessage vs = some ps ∧ IsMessage ps ∧
      ps.flatMap Packet.data = vs.flatMap MessageSender.encode := by
  obtain ⟨m, e, i, b, p⟩ := MessageSender.foldlM_put_spec MessageSender.Inv.init vs hvs
  obtain ⟨q, hq⟩ := Option.ne_none_iff_exists'.mp (p (Or.inl hne))
  obtain ⟨-, hnil, hlen⟩ := i.packet q hq
  refine ⟨m.sent ++ [{ q with type := Packet.last }], ?_, ?_, ?_⟩
  · simp [sendMessage, e, MessageSender.finishMessage, hq, MessageSender.sendPacket]
  · exact ⟨_, _, rfl, i.sent, rfl, hnil, hlen⟩
  · simpa [MessageSender.bytes, hq, MessageSender.init] using b

theorem puttable_of_sendMessage {vs : List Value} {ps : List Packet}
    (h : sendMessage vs = some ps) : ∀ v ∈ vs, MessageSender.Puttable v := by
  rw [sendMessage, Option.bind_eq_bind, Option.bind_eq_some_iff] at h
  obtain ⟨m, hm, -⟩ := h
  exact MessageSender.puttable_of_foldlM hm

theorem IsMessage.cases {ps : List Packet} (h : IsMessage ps) :
    ∃ p rest, ps = p :: rest ∧ p.data ≠ [] ∧
      (p.type = Packet.last ∧ rest = [] ∨ p.type = Packet.ok ∧ IsMessage rest) := by
  obtain ⟨full, p, rfl, hfull, hp, hnil, hlen⟩ := h
  cases full with
  | nil => exact ⟨p, [], rfl, hnil, Or.inl ⟨hp, rfl⟩⟩
  | cons q full =>
    obtain ⟨hq, hqlen⟩ := hfull q (by simp)
    refine ⟨q, full ++ [p], rfl, ?_, Or.inr ⟨hq, full, p, rfl, ?_, hp, hnil, hlen⟩⟩
    · intro h0
      rw [h0] at hqlen
      exact absurd hqlen (by decide)
    · exact fun r hr => hfull r (by simp [hr])

/-! ## What the receiver has still to read -/

namespace MessageReceiver

/-- The rest `bs` of a message is before the receiver, and the packets `more` come after it. -/
def Before (r : MessageReceiver) (bs : List Byte) (more : List Packet) : Prop :=
  match r.packet with
  | none => ∃ ps, IsMessage ps ∧ r.input = ps ++ more ∧ bs = ps.flatMap Packet.data
  | some p => r.pos + r.size = p.data.length ∧
      (p.type = Packet.last ∧ r.input = more ∧ bs = p.data.drop r.pos ∨
        p.type = Packet.ok ∧ ∃ ps, IsMessage ps ∧ r.input = ps ++ more ∧
          bs = p.data.drop r.pos ++ ps.flatMap Packet.data)

theorem before_init {ps : List Packet} (h : IsMessage ps) (more : List Packet) :
    (init (ps ++ more)).Before (ps.flatMap Packet.data) more := ⟨ps, h, rfl, rfl⟩

/-- Taking a packet changes nothing about what is still to be read. -/
theorem nextPacket_spec {r : MessageReceiver} {ps more : List Packet} (h : IsMessage ps)
    (hin : r.input = ps ++ more) :
    ∃ p r', r.nextPacket = .ok r' ∧ r'.Before (ps.flatMap Packet.data) more ∧
      r'.packet = some p ∧ 0 < r'.size := by
  obtain ⟨p, rest, rfl, hnil, hp⟩ := h.cases
  refine ⟨p, ⟨some p, 0, p.data.length, rest ++ more⟩, ?_, ?_, rfl,
    List.length_pos_iff.mpr hnil⟩
  · rw [nextPacket, hin]
    rfl
  · refine ⟨by simp, ?_⟩
    rcases hp with ⟨hty, rfl⟩ | ⟨hty, hrest⟩
    · exact Or.inl ⟨hty, by simp⟩
    · exact Or.inr ⟨hty, rest, hrest, by simp⟩

/-- After the first step of a pass there is something to read in the packet at hand. -/
theorem fetch_spec {r : MessageReceiver} {bs : List Byte} {more : List Packet}
    (h : r.Before bs more) (hbs : bs ≠ []) :
    ∃ p r', r.fetch = .ok r' ∧ r'.Before bs more ∧ r'.packet = some p ∧ 0 < r'.size := by
  rw [fetch]
  cases hp : r.packet with
  | none =>
    rw [Before, hp] at h
    obtain ⟨ps, hps, hin, rfl⟩ := h
    rw [if_pos (Or.inl rfl), getPacket, hp]
    exact nextPacket_spec hps hin
  | some p =>
    by_cases hsize : r.size = 0
    · rw [Before, hp] at h
      obtain ⟨hlen, ⟨-, -, rfl⟩ | ⟨hty, ps, hps, hin, rfl⟩⟩ := h
      · exact absurd (List.drop_eq_nil_of_le (by omega)) hbs
      · have hnot : ¬ (p.type = Packet.last ∨ p.type = Packet.error) := by
          rw [hty]
          decide
        rw [if_pos (Or.inr hsize), getPacket, hp]
        simp only [if_neg hnot]
        rw [List.drop_eq_nil_of_le (by omega), List.nil_append]
        exact nextPacket_spec hps hin
    · exact ⟨p, r, by simp [hsize], h, hp, by omega⟩

/-- The second step: bytes of the packet at hand are read. -/
theorem Before.advance {r : MessageReceiver} {w bs : List Byte} {more : List Packet} {p : Packet}
    (h : r.Before (w ++ bs) more) (hp : r.packet = some p) {k : ℕ} (hk : k ≤ r.size)
    (hkw : k ≤ w.length) :
    (p.data.drop r.pos).take k = w.take k ∧
      Before { r with pos := r.pos + k, size := r.size - k } (w.drop k ++ bs) more := by
  rw [Before, hp] at h
  obtain ⟨hlen, h⟩ := h
  -- the bytes left in the packet and those after it
  obtain ⟨tl, htl⟩ : ∃ tl, w ++ bs = p.data.drop r.pos ++ tl := by
    rcases h with ⟨-, -, h⟩ | ⟨-, ps, -, -, h⟩
    · exact ⟨[], by simpa using h⟩
    · exact ⟨_, h⟩
  have hd : k ≤ (p.data.drop r.pos).length := by
    rw [List.length_drop]
    omega
  have htake : (p.data.drop r.pos).take k = w.take k := by
    rw [← List.take_append_of_le_length hd, ← htl, List.take_append_of_le_length hkw]
  have hdrop : ∀ tl, w ++ bs = p.data.drop r.pos ++ tl →
      w.drop k ++ bs = p.data.drop (r.pos + k) ++ tl := by
    intro tl htl
    rw [← List.drop_append_of_le_length hkw, htl, List.drop_append_of_le_length hd,
      List.drop_drop]
  refine ⟨htake, ?_⟩
  simp only [Before, hp]
  refine ⟨by omega, ?_⟩
  rcases h with ⟨hty, hin, h⟩ | ⟨hty, ps, hps, hin, h⟩
  · refine Or.inl ⟨hty, hin, ?_⟩
    simpa using hdrop [] (by simpa using h)
  · exact Or.inr ⟨hty, ps, hps, hin, hdrop _ h⟩

theorem Before.type_ne_eof {r : MessageReceiver} {bs : List Byte} {more : List Packet} {p : Packet}
    (h : r.Before bs more) (hp : r.packet = some p) : p.type ≠ Packet.eof := by
  rw [Before, hp] at h
  obtain ⟨-, ⟨hty, -⟩ | ⟨hty, -⟩⟩ := h <;>
  · rw [hty]
    decide

theorem getLoop_spec (n : ℕ) {r : MessageReceiver} {w bs : List Byte} {more : List Packet}
    (h : r.Before (w ++ bs) more) (hn : w.length ≤ n) :
    ∃ r', getLoop n r w.length = .ok (w, r') ∧ r'.Before bs more := by
  induction n generalizing r w with
  | zero =>
    obtain rfl := List.eq_nil_of_length_eq_zero (by omega : w.length = 0)
    exact ⟨r, rfl, h⟩
  | succ n ih =>
    cases w with
    | nil => exact ⟨r, rfl, h⟩
    | cons c w =>
      obtain ⟨p, r₁, hfetch, h₁, hp, hpos⟩ := fetch_spec h (by simp)
      generalize hk : min (w.length + 1) r₁.size = k
      have hkw : k ≤ (c :: w).length := by
        rw [List.length_cons]
        omega
      obtain ⟨htake, hbefore⟩ := h₁.advance hp (k := k) (by omega) hkw
      obtain ⟨r', hrest, h'⟩ := ih hbefore (by
        rw [List.length_drop, List.length_cons] at *
        omega)
      refine ⟨r', ?_, h'⟩
      rw [List.length_drop, List.length_cons, hp] at hrest
      rw [List.length_cons, getLoop, hfetch]
      simp only [bind, Except.bind, hp, if_neg (h₁.type_ne_eof hp), hk, hrest, htake,
        List.take_append_drop]

/-- `get` reads `v` from the bytes `bs`, whatever comes after them. -/
def Parses {α : Type} (get : MessageReceiver → Except ReadError (α × MessageReceiver)) (v : α)
    (bs : List Byte) : Prop :=
  ∀ r rest more, r.Before (bs ++ rest) more → ∃ r', get r = .ok (v, r') ∧ r'.Before rest more

theorem Parses.bind {α β : Type} {get : MessageReceiver → Except ReadError (α × MessageReceiver)}
    {g : α → MessageReceiver → Except ReadError (β × MessageReceiver)} {v : α} {w : β}
    {bs cs : List Byte} (hget : Parses get v bs) (hnext : Parses (g v) w cs) :
    Parses (fun r => get r >>= fun x => g x.1 x.2) w (bs ++ cs) := by
  intro r rest more h
  rw [List.append_assoc] at h
  obtain ⟨r₁, h₁, hb₁⟩ := hget r _ more h
  obtain ⟨r₂, h₂, hb₂⟩ := hnext r₁ rest more hb₁
  refine ⟨r₂, ?_, hb₂⟩
  simp only [h₁]
  exact h₂

theorem Parses.map {α β : Type} {get : MessageReceiver → Except ReadError (α × MessageReceiver)}
    {v : α} {bs : List Byte} (hget : Parses get v bs) (f : α → β) :
    Parses (fun r => get r >>= fun x => .ok (f x.1, x.2)) (f v) bs := by
  intro r rest more h
  obtain ⟨r', h', hb⟩ := hget r rest more h
  refine ⟨r', ?_, hb⟩
  simp only [h']
  rfl

theorem getBytes_parses (w : List Byte) : Parses (fun r => r.getBytes w.length) w w := by
  intro r rest more h
  exact getLoop_spec _ h (by omega)

theorem getByte_parses (b : Byte) : Parses getByte b [b] :=
  (getBytes_parses [b]).map fun bs => bs.headD 0

theorem getUInt16_parses (n : UInt16) : Parses getUInt16 n (BigEndian.encode 2 n.toNat) := by
  have h := (getBytes_parses (BigEndian.encode 2 n.toNat)).map
    fun bs => UInt16.ofNat (BigEndian.decode bs)
  rw [BigEndian.decode_encode n.toNat_lt, UInt16.ofNat_toNat] at h
  simp only [BigEndian.encode_length] at h
  exact h

theorem getUInt32_parses (n : UInt32) : Parses getUInt32 n (BigEndian.encode 4 n.toNat) := by
  have h := (getBytes_parses (BigEndian.encode 4 n.toNat)).map
    fun bs => UInt32.ofNat (BigEndian.decode bs)
  rw [BigEndian.decode_encode n.toNat_lt, UInt32.ofNat_toNat] at h
  simp only [BigEndian.encode_length] at h
  exact h

theorem take_zero_free {s : List Byte} (h : 0 ∉ s) (k : ℕ) : 0 ∉ s.take k :=
  fun h0 => h (List.mem_of_mem_take h0)

theorem highDigit_marked : ∀ hi < 128, (UInt8.ofNat hi ||| 128) &&& 128 ≠ 0 ∧
    ((UInt8.ofNat hi ||| 128) &&& ~~~128).toNat = hi := by decide

theorem lowDigit_unmarked : ∀ lo < 128, UInt8.ofNat lo &&& 128 = 0 := by decide

theorem getStringSize_parses {size : ℕ} (hs : size < 128 * 128) :
    Parses getStringSize size
      ((if size / 128 ≠ 0 then [UInt8.ofNat (size / 128) ||| 128] else []) ++
        [UInt8.ofNat (size % 128)]) := by
  have hlo : (UInt8.ofNat (size % 128)).toNat = size % 128 := by
    rw [UInt8.toNat_ofNat']
    omega
  intro r rest more h
  by_cases hhi : size / 128 = 0
  · -- one digit
    rw [if_neg (not_not.mpr hhi), List.nil_append] at h
    obtain ⟨r', hget, h'⟩ := getByte_parses _ r rest more h
    refine ⟨r', ?_, h'⟩
    have hunmarked := lowDigit_unmarked (size % 128) (by omega)
    simp only [getStringSize, hget, bind, Except.bind, hunmarked, hlo, ne_eq, not_true_eq_false,
      if_false]
    rw [show size % 128 = size by omega]
  · -- two digits
    rw [if_pos hhi, List.append_assoc] at h
    obtain ⟨r₁, hget, h₁⟩ := getByte_parses _ r _ more h
    obtain ⟨r₂, hget', h₂⟩ := getByte_parses _ r₁ rest more h₁
    refine ⟨r₂, ?_, h₂⟩
    obtain ⟨hmarked, hdigit⟩ := highDigit_marked (size / 128) (by omega)
    simp only [getStringSize, hget, hget', bind, Except.bind, if_pos hmarked, hdigit, hlo]
    rw [show (size / 128 * 128 + size % 128) % 2 ^ 16 = size by omega]

theorem getString_parses {s : List Byte} (h0 : 0 ∉ s) (hs : s.length % 2 ^ 16 < 128 * 128) :
    Parses getString ⟨s.take (s.length % 2 ^ 16), take_zero_free h0 _⟩
      (MessageSender.encodeString s) := by
  have hlen : (s.take (s.length % 2 ^ 16)).length = s.length % 2 ^ 16 := by
    rw [List.length_take]
    exact min_eq_left (Nat.mod_le _ _)
  have htext := (getBytes_parses (s.take (s.length % 2 ^ 16))).map toCString
  rw [toCString_of_zero_free (take_zero_free h0 _), hlen] at htext
  have h := (getStringSize_parses hs).bind
    (g := fun size r => r.getBytes size >>= fun x => .ok (toCString x.1, x.2)) htext
  rw [List.append_assoc] at h
  exact h

def received : Value → Value
  | .string s => .string ⟨s.val.take (s.val.length % 2 ^ 16), take_zero_free s.property _⟩
  | v => v

theorem get_parses {v : Value} (hv : MessageSender.Puttable v) :
    Parses (fun r => r.get v.kind) (received v) (MessageSender.encode v) := by
  cases v with
  | byte b => exact (getByte_parses b).map Value.byte
  | uint16 n => exact (getUInt16_parses n).map Value.uint16
  | uint32 n => exact (getUInt32_parses n).map Value.uint32
  | string s => exact (getString_parses s.property hv).map Value.string

theorem getAll_parses (vs : List Value) (hvs : ∀ v ∈ vs, MessageSender.Puttable v) :
    Parses (fun r => r.getAll (vs.map Value.kind)) (vs.map received)
      (vs.flatMap MessageSender.encode) := by
  induction vs with
  | nil => exact fun r rest more h => ⟨r, rfl, h⟩
  | cons v vs ih =>
    have hrest := (ih fun w hw => hvs w (by simp [hw])).map (received v :: ·)
    exact (get_parses (hvs v (by simp))).bind
      (g := fun v r => r.getAll (vs.map Value.kind) >>= fun x => .ok (v :: x.1, x.2)) hrest

/-- With nothing left of the message the receiver stops at its last packet. -/
theorem Before.getPacket_nil {r : MessageReceiver} {more : List Packet} (h : r.Before [] more) :
    r.size = 0 ∧ r.getPacket = .error .noMoreData ∧ r.input = more := by
  have hmessage : ∀ {ps : List Packet}, IsMessage ps → ps.flatMap Packet.data ≠ [] := by
    intro ps hps
    obtain ⟨p, rest, rfl, hnil, -⟩ := hps.cases
    simp [hnil]
  rw [Before] at h
  cases hp : r.packet with
  | none =>
    rw [hp] at h
    obtain ⟨ps, hps, -, hbs⟩ := h
    exact absurd hbs.symm (hmessage hps)
  | some p =>
    rw [hp] at h
    obtain ⟨hlen, ⟨hty, hin, hbs⟩ | ⟨-, ps, hps, -, hbs⟩⟩ := h
    · have hle := List.drop_eq_nil_iff.mp hbs.symm
      refine ⟨by omega, ?_, hin⟩
      rw [getPacket, hp]
      simp only [hty, true_or, if_true]
    · exact absurd (List.append_eq_nil_iff.mp hbs.symm).2 (hmessage hps)

theorem getBytes_noMoreData {r : MessageReceiver} {more : List Packet} (h : r.Before [] more)
    (n : ℕ) : r.getBytes (n + 1) = .error .noMoreData := by
  obtain ⟨hsize, hpacket, -⟩ := h.getPacket_nil
  rw [getBytes, getLoop, fetch, if_pos (Or.inr hsize), hpacket]
  rfl

theorem get_noMoreData {r : MessageReceiver} {more : List Packet} (h : r.Before [] more)
    (k : Kind) : r.get k = .error .noMoreData := by
  cases k <;>
  simp only [get, getByte, getUInt16, getUInt32, getString, getStringSize,
    getBytes_noMoreData h] <;> rfl

theorem received_eq_self_iff (v : Value) :
    received v = v ↔ ∀ s, v = .string s → s.val.length < 2 ^ 16 := by
  cases v with
  | byte b => simp [received]
  | uint16 n => simp [received]
  | uint32 n => simp [received]
  | string s =>
    simp only [received, Value.string.injEq, forall_eq']
    rw [Subtype.ext_iff, List.take_eq_self_iff]
    have := Nat.mod_lt s.val.length (show 2 ^ 16 > 0 by decide)
    constructor
    · intro h
      omega
    · intro h
      rw [Nat.mod_eq_of_lt h]

end MessageReceiver

/-! ## The round trip -/

/-- The packets have the shape of one message, and the receiver stops at its end. Of a string
longer than a `uint16_t` can count only the start is sent. -/
theorem message_round_trip (vs : List Value) (hne : vs ≠ [])
    (hput : ∀ v ∈ vs, MessageSender.Puttable v) (more : List Packet) :
    ∃ ps got r, sendMessage vs = some ps ∧ IsMessage ps ∧
      (MessageReceiver.init (ps ++ more)).getAll (vs.map Value.kind) = .ok (got, r) ∧
      (∀ k, r.get k = .error .noMoreData) ∧ r.input = more ∧
      (got = vs ↔ ∀ s, Value.string s ∈ vs → s.val.length < 2 ^ 16) := by
  obtain ⟨ps, hsend, hps, hbytes⟩ := sendMessage_spec hne hput
  have hbefore := MessageReceiver.before_init hps more
  rw [hbytes, ← List.append_nil (vs.flatMap _)] at hbefore
  obtain ⟨r, hget, hr⟩ := MessageReceiver.getAll_parses vs hput _ [] more hbefore
  refine ⟨ps, vs.map MessageReceiver.received, r, hsend, hps, hget,
    MessageReceiver.get_noMoreData hr, hr.getPacket_nil.2.2, ?_⟩
  have hself := List.map_inj_left (l := vs) (f := MessageReceiver.received) (g := id)
  rw [List.map_id] at hself
  rw [hself]
  constructor
  · intro h s hs
    exact (MessageReceiver.received_eq_self_iff _).mp (h _ hs) s rfl
  · intro h v hv
    refine (MessageReceiver.received_eq_self_iff v).mpr fun s hs => h s ?_
    rw [← hs]
    exact hv

theorem message_round_trip_ab :
    ∃ ps got r, sendMessage [.uint16 7, .string ⟨[97, 98], by decide⟩] = some ps ∧ IsMessage ps ∧
      (MessageReceiver.init (ps ++ [])).getAll [.uint16, .string] = .ok (got, r) ∧
      (∀ k, r.get k = .error .noMoreData) ∧ r.input = [] ∧
      got = [.uint16 7, .string ⟨[97, 98], by decide⟩] := by
  obtain ⟨ps, got, r, h1, h2, h3, h4, h5, h6⟩ :=
    message_round_trip [.uint16 7, .string ⟨[97, 98], by decide⟩] (by simp)
      (by simp [MessageSender.Puttable]) []
  exact ⟨ps, got, r, h1, h2, h3, h4, h5, h6.mpr (by simp)⟩

def longString : CString :=
  ⟨List.replicate (2 ^ 16) 97, fun h => absurd (List.eq_of_mem_replicate h) (by decide)⟩

theorem longString_length : longString.val.length = 2 ^ 16 := List.length_replicate

/-- `longString` passes the assertion of `PutString`, and another string comes back. -/
theorem message_round_trip_fails :
    ¬ ∀ vs : List Value, vs ≠ [] → (∀ v ∈ vs, MessageSender.Puttable v) →
      ∃ ps, sendMessage vs = some ps ∧
        ∃ r, (MessageReceiver.init ps).getAll (vs.map Value.kind) = .ok (vs, r) := by
  intro h
  have hput : ∀ v ∈ [Value.string longString], MessageSender.Puttable v := by
    intro v hv
    rw [List.mem_singleton.mp hv, MessageSender.Puttable, longString_length]
    decide
  obtain ⟨ps, hsend, r, hget⟩ := h [.string longString] (List.cons_ne_nil _ _) hput
  obtain ⟨ps', hsend', hps, hbytes⟩ := sendMessage_spec (List.cons_ne_nil _ _) hput
  obtain rfl := Option.some.inj (hsend.symm.trans hsend')
  have hbefore := MessageReceiver.before_init hps []
  rw [hbytes, ← List.append_nil (List.flatMap _ _)] at hbefore
  obtain ⟨r', hget', -⟩ := MessageReceiver.getAll_parses _ hput _ [] [] hbefore
  rw [List.append_nil] at hget'
  have heq := hget.symm.trans hget'
  rw [Except.ok.injEq, Prod.mk.injEq] at heq
  have hself := (List.cons.inj heq.1).1.symm
  have hlt := (MessageReceiver.received_eq_self_iff _).mp hself _ rfl
  rw [longString_length] at hlt
  exact absurd hlt (by decide)

end Sync
end Szarp
