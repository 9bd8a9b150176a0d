import Mathlib.Data.List.Basic
import Mathlib.Data.List.Flatten
import Mathlib.Data.List.Induction
import Mathlib.Tactic.IntervalCases
import Mathlib.Tactic.Ring

/-!
# Modbus TCP frames

`tcp_parser` of `boruta_modbus.cc`: frames are written to a stream of bytes, and recognised byte by
byte on the other side. Numbers in memory are little-endian.
-/

namespace Szarp
namespace Boruta

abbrev Byte := BitVec 8
abbrev Short := BitVec 16

structure PDU where
  funcCode : Byte
  data : List Byte
deriving DecidableEq

structure TCPADU where
  transId : Short
  protoId : Short
  length : Short
  unitId : Byte
  pdu : PDU
deriving DecidableEq

/-- The two bytes of a number are exchanged; the same for `htons`. -/
def ntohs (x : Short) : Short := x.extractLsb' 0 8 ++ x.extractLsb' 8 8

def shortBytes (x : Short) : List Byte := [x.extractLsb' 0 8, x.extractLsb' 8 8]

namespace TcpParser

inductive State where
  | tr | tr2 | pr | pr2 | l | l2 | uId | func | data
deriving DecidableEq

end TcpParser

/-- `tcp_parser`, with the calls of `frame_parsed` so far. -/
structure TcpParser where
  state : TcpParser.State
  payloadSize : BitVec 64
  adu : TCPADU
  frames : List TCPADU

namespace TcpParser

def new : TcpParser := ⟨.tr, 0, ⟨0, 0, 0, 0, ⟨0, []⟩⟩, []⟩

def reset (p : TcpParser) : TcpParser :=
  { p with state := .tr, adu := { p.adu with pdu := { p.adu.pdu with data := [] } } }

def readByte (p : TcpParser) (c : Byte) : TcpParser :=
  match p.state with
  | .tr =>
    { p with
      adu := { p.adu with pdu := { p.adu.pdu with data := [] }, transId := c.setWidth 16 }
      state := .tr2 }
  | .tr2 =>
    { p with
      adu := { p.adu with transId := ntohs (p.adu.transId ||| c.setWidth 16 <<< 8) }
      state := .pr }
  | .pr => { p with adu := { p.adu with protoId := c.setWidth 16 }, state := .pr2 }
  | .pr2 =>
    { p with
      adu := { p.adu with protoId := ntohs (p.adu.protoId ||| c.setWidth 16 <<< 8) }
      state := .l }
  | .l => { p with adu := { p.adu with length := c.setWidth 16 }, state := .l2 }
  | .l2 =>
    let length := ntohs (p.adu.length ||| c.setWidth 16 <<< 8)
    { p with
      adu := { p.adu with length := length }
      -- an `int` that is stored in a `size_t`
      payloadSize := BitVec.ofInt 64 (length.toNat - 2)
      state := .uId }
  | .uId => { p with adu := { p.adu with unitId := c }, state := .func }
  | .func =>
    { p with adu := { p.adu with pdu := { p.adu.pdu with funcCode := c } }, state := .data }
  | .data =>
    let adu := { p.adu with pdu := { p.adu.pdu with data := p.adu.pdu.data ++ [c] } }
    let payloadSize := p.payloadSize - 1
    if payloadSize = 0 then
      { p with adu, payloadSize, frames := p.frames ++ [adu], state := .tr }
    else { p with adu, payloadSize }

def readData (p : TcpParser) (event : List Byte) : TcpParser := event.foldl readByte p

def sendAdu (transId : Short) (unitId : Byte) (pdu : PDU) : List Byte :=
  let protoId : Short := 0
  let length := ntohs (BitVec.ofNat 16 (2 + pdu.data.length))
  shortBytes (ntohs transId) ++ shortBytes protoId ++ shortBytes length ++ [unitId] ++
    [pdu.funcCode] ++ pdu.data

/-! ## Streams -/

/-- A frame of a stream: with a unit, a function and data, no more than a vector can hold, or with
a length below 2 and as many bytes. -/
inductive Frame where
  | adu (transId protoId : Short) (unitId : Byte) (pdu : PDU) (size : pdu.data.length < 2 ^ 63)
  | short (transId protoId : Short) (body : List Byte) (size : body.length < 2)

def header (transId protoId length : Short) : List Byte :=
  shortBytes (ntohs transId) ++ shortBytes (ntohs protoId) ++ shortBytes (ntohs length)

namespace Frame

/-- The length counts the unit, the function and the data. -/
def bytes : Frame → List Byte
  | adu transId protoId unitId pdu _ =>
    header transId protoId (BitVec.ofNat 16 (2 + pdu.data.length)) ++
      unitId :: pdu.funcCode :: pdu.data
  | short transId protoId body _ =>
    header transId protoId (BitVec.ofNat 16 body.length) ++ body

def parsed : Frame → Option TCPADU
  | adu transId protoId unitId pdu _ =>
    some ⟨transId, protoId, BitVec.ofNat 16 (2 + pdu.data.length), unitId, pdu⟩
  | short .. => none

/-- Data that a frame can carry. -/
def Carried : Frame → Prop
  | adu _ _ _ pdu _ => 0 < pdu.data.length ∧ pdu.data.length ≤ 65533
  | short .. => False

end Frame

/-- After each frame of the stream, however it is divided into events, the parser has reported the
frames so far and is at a frame boundary. -/
def Parses (frames : List Frame) : Prop :=
  ∀ sent, sent <+: frames → ∀ events : List (List Byte),
    events.flatten = sent.flatMap Frame.bytes →
      (events.foldl readData new).state = .tr ∧
        (events.foldl readData new).frames = sent.filterMap Frame.parsed

theorem sendAdu_eq (transId : Short) (unitId : Byte) (pdu : PDU)
    (size : pdu.data.length < 2 ^ 63) :
    sendAdu transId unitId pdu = (Frame.adu transId 0 unitId pdu size).bytes := by
  simp only [sendAdu, Frame.bytes, header, List.append_assoc, List.cons_append, List.nil_append]
  rfl

/-! ## Reading a frame -/

theorem ntohs_read (x : Short) :
    ntohs (((ntohs x).extractLsb' 0 8).setWidth 16 |||
      ((ntohs x).extractLsb' 8 8).setWidth 16 <<< 8) = x := by
  apply BitVec.eq_of_getLsbD_eq
  intro i hi
  simp only [ntohs, BitVec.getLsbD_append, BitVec.getLsbD_extractLsb', BitVec.getLsbD_or,
    BitVec.getLsbD_setWidth, BitVec.getLsbD_shiftLeft]
  interval_cases i <;> simp

theorem readHeader (p : TcpParser) (hp : p.state = .tr) (transId protoId length : Short) :
    (header transId protoId length).foldl readByte p =
      { p with
        state := .uId
        payloadSize := BitVec.ofInt 64 (length.toNat - 2)
        adu := ⟨transId, protoId, length, p.adu.unitId, ⟨p.adu.pdu.funcCode, []⟩⟩ } := by
  simp [header, shortBytes, readByte, hp, ntohs_read]

theorem frames_kept (p : TcpParser) (bs : List Byte) :
    p.frames <+: (bs.foldl readByte p).frames := by
  induction bs generalizing p with
  | nil => exact List.prefix_refl _
  | cons c bs ih =>
    apply List.IsPrefix.trans ?_ (ih (p.readByte c))
    rw [readByte]
    split
    case h_9 =>
      dsimp only
      split_ifs
      · exact List.prefix_append _ _
      · exact List.prefix_refl _
    all_goals exact List.prefix_refl _

/-- The number of data bytes up to the end of the frame; from 0 the counter wraps. -/
def rest (p : TcpParser) : ℕ := (p.payloadSize - 1).toNat + 1

theorem readByte_inside {p : TcpParser} (hp : p.state = .data) (h : 1 < p.rest) (c : Byte) :
    p.readByte c = { p with
      payloadSize := p.payloadSize - 1
      adu := { p.adu with pdu := { p.adu.pdu with data := p.adu.pdu.data ++ [c] } } } := by
  have hne : p.payloadSize - 1 ≠ 0 := by
    intro hzero
    rw [rest, hzero] at h
    exact absurd h (by decide)
  rw [readByte, hp]
  exact if_neg hne

theorem readByte_last {p : TcpParser} (hp : p.state = .data) (h : p.rest = 1) (c : Byte) :
    (p.readByte c).state = .tr ∧ (p.readByte c).frames = p.frames ++
      [{ p.adu with pdu := { p.adu.pdu with data := p.adu.pdu.data ++ [c] } }] := by
  have hzero : p.payloadSize - 1 = 0 := by
    apply BitVec.eq_of_toNat_eq
    rw [rest] at h
    simpa using h
  rw [readByte, hp]
  dsimp only
  rw [if_pos hzero]
  exact ⟨rfl, rfl⟩

theorem read_inside {p : TcpParser} (hp : p.state = .data) {bs : List Byte}
    (h : bs.length < p.rest) :
    (bs.foldl readByte p).state = .data ∧ (bs.foldl readByte p).frames = p.frames ∧
      (bs.foldl readByte p).rest = p.rest - bs.length ∧
      (bs.foldl readByte p).adu =
        { p.adu with pdu := { p.adu.pdu with data := p.adu.pdu.data ++ bs } } := by
  induction bs generalizing p with
  | nil => exact ⟨hp, rfl, rfl, by simp⟩
  | cons c bs ih =>
    rw [List.length_cons] at h
    have hrest : (p.readByte c).rest = p.rest - 1 := by
      rw [readByte_inside hp (by omega)]
      rw [rest] at h
      simp only [rest]
      bv_omega
    have hbyte := readByte_inside hp (by omega) c
    obtain ⟨hstate, hframes, hrest', hadu⟩ := ih (p := p.readByte c) (by rw [hbyte]; exact hp)
      (by omega)
    rw [List.foldl_cons]
    refine ⟨hstate, ?_, ?_, ?_⟩
    · rw [hframes, hbyte]
    · rw [hrest', hrest, List.length_cons]
      omega
    · rw [hadu, hbyte]
      simp

/-- The last byte of the data ends the frame. -/
theorem read_frame {p : TcpParser} (hp : p.state = .data) {bs : List Byte}
    (h : bs.length = p.rest) :
    (bs.foldl readByte p).state = .tr ∧ (bs.foldl readByte p).frames = p.frames ++
      [{ p.adu with pdu := { p.adu.pdu with data := p.adu.pdu.data ++ bs } }] := by
  obtain ⟨cs, c, rfl⟩ : ∃ cs c, bs = cs ++ [c] := by
    apply List.eq_nil_or_concat' bs |>.resolve_left
    rintro rfl
    exact absurd h (Nat.succ_ne_zero _).symm
  rw [List.length_append, List.length_singleton] at h
  obtain ⟨hstate, hframes, hrest, hadu⟩ := read_inside hp (show cs.length < p.rest by omega)
  obtain ⟨hstate', hframes'⟩ := readByte_last hstate (by omega) c
  rw [List.foldl_append]
  refine ⟨hstate', ?_⟩
  rw [List.foldl_cons, List.foldl_nil, hframes', hframes, hadu]
  simp

/-! ## Reading a stream -/

def atData (p : TcpParser) (transId protoId length : Short) (unitId funcCode : Byte) : TcpParser :=
  { p with
    state := .data
    payloadSize := BitVec.ofInt 64 (length.toNat - 2)
    adu := ⟨transId, protoId, length, unitId, ⟨funcCode, []⟩⟩ }

theorem read_adu {p : TcpParser} (hp : p.state = .tr) (transId protoId : Short) (unitId : Byte)
    (pdu : PDU) (size : pdu.data.length < 2 ^ 63) :
    (Frame.adu transId protoId unitId pdu size).bytes.foldl readByte p =
      pdu.data.foldl readByte (p.atData transId protoId (BitVec.ofNat 16 (2 + pdu.data.length))
        unitId pdu.funcCode) := by
  rw [Frame.bytes, List.foldl_append, readHeader p hp]
  rfl

theorem atData_rest (p : TcpParser) (transId protoId : Short) (unitId funcCode : Byte) (n : ℕ) :
    (p.atData transId protoId (BitVec.ofNat 16 (2 + n)) unitId funcCode).rest =
      if n % 65536 = 0 ∨ 65534 ≤ n % 65536 then 2 ^ 64 - (65536 - n % 65536) % 65536
      else n % 65536 := by
  simp only [rest, atData]
  split_ifs with h <;> bv_omega

theorem read_carried {p : TcpParser} (hp : p.state = .tr) {f : Frame} (hf : f.Carried) :
    (f.bytes.foldl readByte p).state = .tr ∧
      (f.bytes.foldl readByte p).frames = p.frames ++ f.parsed.toList := by
  cases f with
  | adu transId protoId unitId pdu size =>
    obtain ⟨hpos, hle⟩ := hf
    rw [read_adu hp]
    have hrest := atData_rest p transId protoId unitId pdu.funcCode pdu.data.length
    rw [Nat.mod_eq_of_lt (by omega), if_neg (by omega)] at hrest
    obtain ⟨hstate, hframes⟩ := read_frame (p := p.atData transId protoId
      (BitVec.ofNat 16 (2 + pdu.data.length)) unitId pdu.funcCode) rfl hrest.symm
    exact ⟨hstate, hframes⟩
  | short transId protoId body size => exact hf.elim

theorem frames_take {p : TcpParser} (hp : p.state = .tr) {f : Frame} (hf : f.Carried) {t : ℕ}
    (ht : t < f.bytes.length) : ((f.bytes.take t).foldl readByte p).frames = p.frames := by
  cases f with
  | adu transId protoId unitId pdu size =>
    obtain ⟨hpos, hle⟩ := hf
    -- the first eight bytes are the header, the unit and the function
    set front := header transId protoId (BitVec.ofNat 16 (2 + pdu.data.length)) ++
      [unitId, pdu.funcCode] with hfront
    have hbytes : (Frame.adu transId protoId unitId pdu size).bytes = front ++ pdu.data := by
      rw [hfront, List.append_assoc]
      rfl
    have hlength : front.length = 8 := rfl
    have hread : front.foldl readByte p = p.atData transId protoId
        (BitVec.ofNat 16 (2 + pdu.data.length)) unitId pdu.funcCode := by
      rw [hfront, List.foldl_append, readHeader p hp]
      rfl
    rw [hbytes] at ht ⊢
    rw [List.length_append, hlength] at ht
    have hinside : ((front ++ pdu.data.take (t - 8)).foldl readByte p).frames = p.frames := by
      have hrest := atData_rest p transId protoId unitId pdu.funcCode pdu.data.length
      rw [Nat.mod_eq_of_lt (by omega), if_neg (by omega)] at hrest
      rw [List.foldl_append, hread]
      refine (read_inside rfl ?_).2.1
      rw [hrest, List.length_take]
      omega
    have hprefixed : (front ++ pdu.data).take t <+: front ++ pdu.data.take (t - 8) := by
      rcases le_total 8 t with h | h
      · have hwhole : (front ++ pdu.data).take t = front ++ pdu.data.take (t - 8) := by
          rw [List.take_append, hlength, List.take_of_length_le (hlength.trans_le h)]
        exact ⟨[], by rw [List.append_nil, hwhole]⟩
      · rw [Nat.sub_eq_zero_of_le h, List.take_zero, List.append_nil,
          List.take_append_of_le_length (h.trans_eq hlength.symm)]
        exact List.take_prefix t front
    obtain ⟨later, hlater⟩ := hprefixed
    have hkept := frames_kept (((front ++ pdu.data).take t).foldl readByte p) later
    rw [← List.foldl_append, hlater, hinside] at hkept
    exact hkept.eq_of_length_le (frames_kept p _).length_le
  | short transId protoId body size => exact hf.elim

/-- Any other frame is not reported as it is, or the parser is inside a frame after it. -/
theorem read_not_carried {p : TcpParser} (hp : p.state = .tr) {f : Frame}
    (hstate : (f.bytes.foldl readByte p).state = .tr)
    (hframes : (f.bytes.foldl readByte p).frames = p.frames ++ f.parsed.toList) : f.Carried := by
  cases f with
  | adu transId protoId unitId pdu size =>
    rw [read_adu hp] at hstate hframes
    have hrest := atData_rest p transId protoId unitId pdu.funcCode pdu.data.length
    by_contra hnot
    have hlong : pdu.data.length = 0 ∨ 65534 ≤ pdu.data.length := by
      rw [Frame.Carried] at hnot
      omega
    split_ifs at hrest with hwrap
    · -- the counter has wrapped: more data is waited for
      have hinside := read_inside (p := p.atData transId protoId
        (BitVec.ofNat 16 (2 + pdu.data.length)) unitId pdu.funcCode) rfl
        (show pdu.data.length < _ by omega)
      rw [hinside.1] at hstate
      exact absurd hstate (by decide)
    · -- the length is cut: a shorter frame is reported
      have htake : (pdu.data.take (pdu.data.length % 65536)).length =
          (p.atData transId protoId (BitVec.ofNat 16 (2 + pdu.data.length)) unitId
            pdu.funcCode).rest := by
        rw [hrest, List.length_take]
        omega
      have hcut := (read_frame rfl htake).2
      have hprefixed := frames_kept ((pdu.data.take (pdu.data.length % 65536)).foldl readByte
        (p.atData transId protoId (BitVec.ofNat 16 (2 + pdu.data.length)) unitId pdu.funcCode))
        (pdu.data.drop (pdu.data.length % 65536))
      rw [← List.foldl_append, List.take_append_drop, hframes, hcut] at hprefixed
      have heq := (List.prefix_append_right_inj _).mp hprefixed
      rw [Frame.parsed, Option.toList_some] at heq
      have hdata := congrArg (fun a : TCPADU => a.pdu.data.length)
        (List.cons_prefix_cons.mp heq).1
      simp only [atData, List.nil_append, List.length_take] at hdata
      omega
  | short transId protoId body size =>
    rw [Frame.bytes, List.foldl_append, readHeader p hp] at hstate
    match body, size with
    | [], _ => exact absurd hstate (by simp)
    | [b], _ => exact absurd hstate (by simp [readByte])

/-- What `send_adu` writes is reported as it is with its last byte, and not before. -/
theorem readData_sendAdu {p : TcpParser} (hp : p.state = .tr) (transId : Short) (unitId : Byte)
    {pdu : PDU} (hpos : 0 < pdu.data.length) (hle : pdu.data.length ≤ 65533) :
    (∀ t < (sendAdu transId unitId pdu).length,
      (p.readData ((sendAdu transId unitId pdu).take t)).frames = p.frames) ∧
    (p.readData (sendAdu transId unitId pdu)).state = .tr ∧
    (p.readData (sendAdu transId unitId pdu)).frames =
      p.frames ++ [⟨transId, 0, BitVec.ofNat 16 (2 + pdu.data.length), unitId, pdu⟩] := by
  have hcarried : (Frame.adu transId 0 unitId pdu (by omega)).Carried := ⟨hpos, hle⟩
  rw [sendAdu_eq transId unitId pdu (by omega)]
  exact ⟨fun t ht => frames_take hp hcarried ht, read_carried hp hcarried⟩

theorem read_stream {frames : List Frame} (h : ∀ f ∈ frames, f.Carried) {p : TcpParser}
    (hp : p.state = .tr) :
    ((frames.flatMap Frame.bytes).foldl readByte p).state = .tr ∧
      ((frames.flatMap Frame.bytes).foldl readByte p).frames =
        p.frames ++ frames.filterMap Frame.parsed := by
  induction frames generalizing p with
  | nil => exact ⟨hp, by simp⟩
  | cons f frames ih =>
    rw [List.forall_mem_cons] at h
    obtain ⟨hstate, hframes⟩ := read_carried hp h.1
    obtain ⟨hstate', hframes'⟩ := ih h.2 hstate
    rw [List.flatMap_cons, List.foldl_append]
    refine ⟨hstate', ?_⟩
    rw [hframes', hframes, List.append_assoc]
    cases hparsed : f.parsed with
    | none => simp [hparsed]
    | some a => simp [hparsed]

/-- The division of the stream into events does not matter. -/
theorem foldl_readData (p : TcpParser) (events : List (List Byte)) :
    events.foldl readData p = events.flatten.foldl readByte p := by
  rw [List.foldl_flatten]
  rfl

/-- Every frame is reported as it was written and leaves the parser at a frame boundary, for every
division of the stream, if and only if all frames have data, and no more than the length field can
count. -/
theorem parses_iff (frames : List Frame) : Parses frames ↔ ∀ f ∈ frames, f.Carried := by
  constructor
  · intro hparses
    suffices hsent : ∀ sent, sent <+: frames → ∀ f ∈ sent, f.Carried by
      exact hsent frames (List.prefix_refl _)
    intro sent
    induction sent using List.reverseRecOn with
    | nil => simp
    | append_singleton sent f ih =>
      intro hprefixed
      have hcarried := ih ((List.prefix_append sent [f]).trans hprefixed)
      obtain ⟨hstate, hframes⟩ := read_stream hcarried (p := new) rfl
      obtain ⟨hstate', hframes'⟩ := hparses _ hprefixed [(sent ++ [f]).flatMap Frame.bytes] (by simp)
      rw [foldl_readData, List.flatten_singleton, List.flatMap_append, List.foldl_append,
        List.flatMap_singleton] at hstate' hframes'
      have hlast : f.Carried := by
        apply read_not_carried hstate hstate'
        rw [hframes', hframes, List.filterMap_append]
        cases hparsed : f.parsed with
        | none => simp [new, hparsed]
        | some a => simp [new, hparsed]
      intro g hg
      rcases List.mem_append.mp hg with hg | hg
      · exact hcarried g hg
      · rwa [List.mem_singleton.mp hg]
  · intro hcarried sent hprefixed events hevents
    rw [foldl_readData, hevents]
    have h := read_stream (p := new) (fun f hf => hcarried f (hprefixed.subset hf)) rfl
    exact ⟨h.1, h.2.trans (List.nil_append _)⟩

/-- The bytes of a frame without data make the parser wait for the data of the next frames. -/
theorem emptyData_lost : ¬ ∀ frames : List Frame, Parses frames := by
  intro h
  have hstate := (h [.adu 1 0 1 ⟨1, []⟩ (by decide)] _ (List.prefix_refl _)
    [(Frame.adu 1 0 1 ⟨1, []⟩ (by decide)).bytes] (by simp)).1
  revert hstate
  decide

end TcpParser
end Boruta
end Szarp
