import Szarp.Boruta.SerialParser
import Szarp.Lib.Pieces

/-!
# Modbus ASCII frames

`serial_ascii_parser` of `boruta_modbus.cc`, with the hexadecimal digits of `borutadmn.cc`. The timer
that ends a wait for more characters is left out.
-/

namespace Szarp
namespace Boruta

/-! ## Hexadecimal digits -/

/-- `char2value`: the new value of `o`, and whether there is a digit. -/
def char2value (c o : Byte) : Byte × Bool :=
  if 0x30 ≤ c ∧ c ≤ 0x39 then (o ||| (c - 0x30), true)
  else if 0x41 ≤ c ∧ c ≤ 0x46 then (o ||| (c - 0x41 + 10), true)
  else (o, false)

def fromAscii (c1 c2 : Byte) : Byte × Bool :=
  match char2value c1 0 with
  | (c, true) => char2value c2 (c <<< 4)
  | (c, false) => (c, false)

def value2char (c : Byte) : Byte := if c ≤ 9 then 0x30 + c else 0x41 + c - 10

def toAscii (c : Byte) : List Byte := [value2char (c >>> 4), value2char (c &&& 0xf)]

namespace AsciiParser

inductive State where
  | colon | addr1 | addr2 | funcCode1 | funcCode2 | data1 | data2 | lf
deriving DecidableEq

end AsciiParser

structure AsciiParser where
  state : AsciiParser.State
  previousChar : Byte
  sdu : SDU
deriving DecidableEq

namespace AsciiParser

def finishCrc (bytes : List Byte) : Byte := 0 - bytes.foldl (· + ·) 0

/-- `check_crc`, which takes the checksum off the data. -/
def checkCrc (sdu : SDU) : SDU × Bool :=
  match sdu.pdu.data.getLast? with
  | none => (sdu, false)
  | some frameCrc =>
    let data := sdu.pdu.data.dropLast
    (⟨sdu.unitId, ⟨sdu.pdu.funcCode, data⟩⟩,
      decide (finishCrc (sdu.unitId :: sdu.pdu.funcCode :: data) = frameCrc))

def frameError (p : AsciiParser) : AsciiParser × Option HandlerCall :=
  ({ p with state := .colon }, some (.error .frameError))

/-- The loop of `read_data` for one character. -/
def readChar (p : AsciiParser) (c : Byte) : AsciiParser × Option HandlerCall :=
  match p.state with
  | .colon => if c ≠ 0x3a then p.frameError else ({ p with state := .addr1 }, none)
  | .addr1 => ({ p with previousChar := c, state := .addr2 }, none)
  | .addr2 =>
    match fromAscii p.previousChar c with
    | (unitId, true) => ({ p with sdu := ⟨unitId, p.sdu.pdu⟩, state := .funcCode1 }, none)
    | (unitId, false) => { p with sdu := ⟨unitId, p.sdu.pdu⟩ }.frameError
  | .funcCode1 => ({ p with previousChar := c, state := .funcCode2 }, none)
  | .funcCode2 =>
    match fromAscii p.previousChar c with
    | (funcCode, true) => ({ p with sdu := ⟨p.sdu.unitId, ⟨funcCode, []⟩⟩, state := .data1 }, none)
    | (funcCode, false) =>
      { p with sdu := ⟨p.sdu.unitId, ⟨funcCode, p.sdu.pdu.data⟩⟩ }.frameError
  | .data1 =>
    if c = 0x0d then ({ p with state := .lf }, none)
    else ({ p with previousChar := c, state := .data2 }, none)
  | .data2 =>
    match fromAscii p.previousChar c with
    | (c, true) =>
      ({ p with
        sdu := ⟨p.sdu.unitId, ⟨p.sdu.pdu.funcCode, p.sdu.pdu.data ++ [c]⟩⟩, state := .data1 }, none)
    | (_, false) => p.frameError
  | .lf =>
    if c ≠ 0x0a then p.frameError
    else
      match checkCrc p.sdu with
      | (sdu, true) => ({ p with sdu, state := .colon }, some (.frameParsed sdu))
      | (sdu, false) => ({ p with sdu, state := .colon }, some (.error .crcError))

def line (bytes : List Byte) : List Byte := 0x3a :: (bytes.flatMap toAscii ++ [0x0d, 0x0a])

def sendSdu (unitId : Byte) (pdu : PDU) : List Byte :=
  line (unitId :: pdu.funcCode :: pdu.data ++ [finishCrc (unitId :: pdu.funcCode :: pdu.data)])

/-- The parser with characters in its buffer that have not been read, and the calls of the handler. -/
def reading (p : AsciiParser) : Pieces.Reader AsciiParser Byte HandlerCall := ⟨p, [], []⟩

def readEvents (p : AsciiParser) (events : List (List Byte)) :
    Pieces.Reader AsciiParser Byte HandlerCall :=
  events.foldl (Pieces.feed readChar) p.reading

/-! ## Digits -/

def IsDigit (c : Byte) : Prop := 0x30 ≤ c ∧ c ≤ 0x39 ∨ 0x41 ≤ c ∧ c ≤ 0x46

instance (c : Byte) : Decidable (IsDigit c) := inferInstanceAs (Decidable (_ ∨ _))

def bytesOf : List Byte → List Byte
  | c1 :: c2 :: digits => (fromAscii c1 c2).1 :: bytesOf digits
  | _ => []

/-- Every byte comes back from its digits, which do not start like the end of a frame. -/
theorem byte_spec (c : Byte) :
    fromAscii (value2char (c >>> 4)) (value2char (c &&& 0xf)) = (c, true) ∧
      value2char (c >>> 4) ≠ 0x0d ∧ (IsDigit c → ∃ v : BitVec 4, c = value2char (v.setWidth 8)) := by
  revert c
  decide +kernel

theorem fromAscii_toAscii (c : Byte) :
    fromAscii (value2char (c >>> 4)) (value2char (c &&& 0xf)) = (c, true) := (byte_spec c).1

theorem value2char_ne_cr (c : Byte) : value2char (c >>> 4) ≠ 0x0d := (byte_spec c).2.1

theorem isDigit_value2char {c : Byte} (h : IsDigit c) :
    ∃ v : BitVec 4, c = value2char (v.setWidth 8) := (byte_spec c).2.2 h

theorem toAscii_fromAscii {c1 c2 : Byte} (h1 : IsDigit c1) (h2 : IsDigit c2) :
    toAscii (fromAscii c1 c2).1 = [c1, c2] := by
  obtain ⟨v1, rfl⟩ := isDigit_value2char h1
  obtain ⟨v2, rfl⟩ := isDigit_value2char h2
  clear h1 h2
  revert v1 v2
  decide +kernel

theorem flatMap_toAscii_bytesOf (digits : List Byte) (h : ∀ c ∈ digits, IsDigit c)
    (heven : digits.length % 2 = 0) : (bytesOf digits).flatMap toAscii = digits := by
  induction digits using bytesOf.induct with
  | case1 c1 c2 digits ih =>
    have hc1 : IsDigit c1 := h c1 List.mem_cons_self
    have hc2 : IsDigit c2 := h c2 (List.mem_cons_of_mem _ List.mem_cons_self)
    have hrest : ∀ c ∈ digits, IsDigit c :=
      fun c hc => h c (List.mem_cons_of_mem _ (List.mem_cons_of_mem _ hc))
    rw [List.length_cons, List.length_cons] at heven
    rw [bytesOf, List.flatMap_cons, toAscii_fromAscii hc1 hc2, ih hrest (by omega)]
    rfl
  | case2 digits hdigits =>
    cases digits with
    | nil => rfl
    | cons c digits =>
      cases digits with
      | nil =>
        rw [List.length_singleton] at heven
        omega
      | cons c' digits => exact absurd rfl (hdigits c c' digits)

/-! ## Reading a line -/

theorem quiet_unitId (c prev : Byte) (sdu : SDU) :
    Pieces.quiet readChar ⟨.addr1, prev, sdu⟩ (toAscii c) =
      some ⟨.funcCode1, value2char (c >>> 4), ⟨c, sdu.pdu⟩⟩ := by
  have hfirst : readChar ⟨.addr1, prev, sdu⟩ (value2char (c >>> 4)) =
      (⟨.addr2, value2char (c >>> 4), sdu⟩, none) := rfl
  have hsecond : readChar ⟨.addr2, value2char (c >>> 4), sdu⟩ (value2char (c &&& 0xf)) =
      (⟨.funcCode1, value2char (c >>> 4), ⟨c, sdu.pdu⟩⟩, none) := by
    rw [readChar, fromAscii_toAscii]
  rw [toAscii, Pieces.quiet_cons hfirst, Pieces.quiet_cons hsecond]
  rfl

theorem quiet_funcCode (c prev : Byte) (sdu : SDU) :
    Pieces.quiet readChar ⟨.funcCode1, prev, sdu⟩ (toAscii c) =
      some ⟨.data1, value2char (c >>> 4), ⟨sdu.unitId, ⟨c, []⟩⟩⟩ := by
  have hfirst : readChar ⟨.funcCode1, prev, sdu⟩ (value2char (c >>> 4)) =
      (⟨.funcCode2, value2char (c >>> 4), sdu⟩, none) := rfl
  have hsecond : readChar ⟨.funcCode2, value2char (c >>> 4), sdu⟩ (value2char (c &&& 0xf)) =
      (⟨.data1, value2char (c >>> 4), ⟨sdu.unitId, ⟨c, []⟩⟩⟩, none) := by
    rw [readChar, fromAscii_toAscii]
  rw [toAscii, Pieces.quiet_cons hfirst, Pieces.quiet_cons hsecond]
  rfl

theorem quiet_byte (c prev unitId funcCode : Byte) (data : List Byte) :
    Pieces.quiet readChar ⟨.data1, prev, ⟨unitId, ⟨funcCode, data⟩⟩⟩ (toAscii c) =
      some ⟨.data1, value2char (c >>> 4), ⟨unitId, ⟨funcCode, data ++ [c]⟩⟩⟩ := by
  have hfirst : readChar ⟨.data1, prev, ⟨unitId, ⟨funcCode, data⟩⟩⟩ (value2char (c >>> 4)) =
      (⟨.data2, value2char (c >>> 4), ⟨unitId, ⟨funcCode, data⟩⟩⟩, none) :=
    if_neg (value2char_ne_cr c)
  have hsecond : readChar ⟨.data2, value2char (c >>> 4), ⟨unitId, ⟨funcCode, data⟩⟩⟩
      (value2char (c &&& 0xf)) =
      (⟨.data1, value2char (c >>> 4), ⟨unitId, ⟨funcCode, data ++ [c]⟩⟩⟩, none) := by
    rw [readChar, fromAscii_toAscii]
  rw [toAscii, Pieces.quiet_cons hfirst, Pieces.quiet_cons hsecond]
  rfl

theorem quiet_bytes (bytes : List Byte) (prev unitId funcCode : Byte) (data : List Byte) :
    ∃ prev', Pieces.quiet readChar ⟨.data1, prev, ⟨unitId, ⟨funcCode, data⟩⟩⟩
      (bytes.flatMap toAscii) =
        some ⟨.data1, prev', ⟨unitId, ⟨funcCode, data ++ bytes⟩⟩⟩ := by
  induction bytes generalizing prev data with
  | nil => exact ⟨prev, by rw [List.append_nil]; rfl⟩
  | cons c bytes ih =>
    obtain ⟨prev', h⟩ := ih (value2char (c >>> 4)) (data ++ [c])
    refine ⟨prev', ?_⟩
    rw [List.flatMap_cons, Pieces.quiet_append, quiet_byte, Option.bind_some, h,
      List.append_assoc, List.singleton_append]

/-- What the parser has found before the last character of a line, and what it does with a line
feed there. -/
theorem quiet_line {p : AsciiParser} (hp : p.state = .colon) (unitId funcCode : Byte)
    (data : List Byte) :
    ∃ prev, Pieces.quiet readChar p
      (0x3a :: ((unitId :: funcCode :: data).flatMap toAscii ++ [0x0d])) =
        some ⟨.lf, prev, ⟨unitId, ⟨funcCode, data⟩⟩⟩ := by
  obtain ⟨state, prev, sdu⟩ := p
  obtain rfl : state = .colon := hp
  have hcolon : readChar ⟨.colon, prev, sdu⟩ 0x3a = (⟨.addr1, prev, sdu⟩, none) := rfl
  obtain ⟨prev', h⟩ := quiet_bytes data (value2char (funcCode >>> 4)) unitId funcCode []
  refine ⟨prev', ?_⟩
  rw [Pieces.quiet_cons hcolon, List.flatMap_cons, List.flatMap_cons, List.append_assoc,
    Pieces.quiet_append, quiet_unitId, Option.bind_some, List.append_assoc, Pieces.quiet_append,
    quiet_funcCode, Option.bind_some, Pieces.quiet_append, h, Option.bind_some]
  rfl

theorem line_eq (bytes : List Byte) :
    line bytes = 0x3a :: (bytes.flatMap toAscii ++ [0x0d]) ++ [0x0a] := by
  rw [line, List.cons_append, List.append_assoc]
  rfl

/-- A line of a unit, a function and more bytes is answered after its last character. -/
theorem readEvents_line {p : AsciiParser} (hp : p.state = .colon) (unitId funcCode : Byte)
    (data : List Byte) {events : List (List Byte)}
    (hevents : events.flatten = line (unitId :: funcCode :: data)) :
    ∃ q, q.state = .colon ∧ readEvents p events =
      ⟨q, [], [if (checkCrc ⟨unitId, ⟨funcCode, data⟩⟩).2 then
        .frameParsed (checkCrc ⟨unitId, ⟨funcCode, data⟩⟩).1 else .error .crcError]⟩ := by
  obtain ⟨prev, h⟩ := quiet_line hp unitId funcCode data
  rw [line_eq] at hevents
  refine ⟨⟨.colon, prev, (checkCrc ⟨unitId, ⟨funcCode, data⟩⟩).1⟩, rfl, ?_⟩
  refine Pieces.foldl_feed [] h ?_ hevents
  rw [readChar]
  simp only
  rw [if_neg (not_not.mpr rfl)]
  generalize checkCrc ⟨unitId, ⟨funcCode, data⟩⟩ = result
  obtain ⟨sdu, ok⟩ := result
  cases ok with
  | false => rfl
  | true => rfl

/-- A shorter line is not well formed. -/
theorem readEvents_short {p : AsciiParser} (hp : p.state = .colon) {bytes : List Byte}
    (hshort : bytes.length < 2) {events : List (List Byte)} (hevents : events.flatten = line bytes) :
    ∃ q, q.state = .colon ∧ readEvents p events = ⟨q, [], [.error .frameError]⟩ := by
  obtain ⟨state, prev, sdu⟩ := p
  obtain rfl : state = .colon := hp
  have hcolon : readChar ⟨.colon, prev, sdu⟩ 0x3a = (⟨.addr1, prev, sdu⟩, none) := rfl
  rw [line_eq] at hevents
  cases bytes with
  | nil => exact ⟨_, rfl, Pieces.foldl_feed [] (t := ⟨.addr2, 0x0d, sdu⟩) rfl rfl hevents⟩
  | cons unitId bytes =>
    obtain rfl : bytes = [] := by
      rw [List.length_cons] at hshort
      exact List.length_eq_zero_iff.mp (by omega)
    have hquiet : Pieces.quiet readChar ⟨.colon, prev, sdu⟩
        (0x3a :: ([unitId].flatMap toAscii ++ [0x0d])) =
        some ⟨.funcCode2, 0x0d, ⟨unitId, sdu.pdu⟩⟩ := by
      rw [Pieces.quiet_cons hcolon, List.flatMap_singleton, Pieces.quiet_append, quiet_unitId]
      rfl
    exact ⟨_, rfl, Pieces.foldl_feed [] hquiet rfl hevents⟩

/-! ## Checksum -/

theorem toNat_foldl_add (bytes : List Byte) (s : Byte) :
    (bytes.foldl (· + ·) s).toNat = (s.toNat + (bytes.map BitVec.toNat).sum) % 256 := by
  induction bytes generalizing s with
  | nil =>
    have hlt := s.isLt
    rw [List.foldl_nil, List.map_nil, List.sum_nil]
    omega
  | cons c bytes ih =>
    rw [List.foldl_cons, ih, List.map_cons, List.sum_cons, BitVec.toNat_add]
    omega

theorem finishCrc_eq_iff (bytes : List Byte) (c : Byte) :
    finishCrc bytes = c ↔ ((bytes ++ [c]).map BitVec.toNat).sum % 256 = 0 := by
  have hc := c.isLt
  have hzero : (0 : Byte).toNat = 0 := rfl
  rw [finishCrc, ← BitVec.toNat_inj, BitVec.toNat_sub, toNat_foldl_add, List.map_append,
    List.sum_append, List.map_singleton, List.sum_singleton, hzero]
  omega

theorem checkCrc_concat (unitId funcCode : Byte) (data : List Byte) (c : Byte) :
    checkCrc ⟨unitId, ⟨funcCode, data ++ [c]⟩⟩ =
      (⟨unitId, ⟨funcCode, data⟩⟩,
        decide (((unitId :: funcCode :: (data ++ [c])).map BitVec.toNat).sum % 256 = 0)) := by
  have hiff := finishCrc_eq_iff (unitId :: funcCode :: data) c
  rw [checkCrc]
  simp only [List.getLast?_concat, List.dropLast_concat]
  rw [decide_eq_decide.mpr hiff]
  rfl

/-! ## Frames -/

/-- A frame is received as it was sent, no matter how its characters are divided. Of other lines of
hexadecimal digits a wrong checksum is reported when they have two bytes, or more that do not sum
to zero. -/
theorem readEvents_spec (p : AsciiParser) (hp : p.state = .colon) :
    (∀ unitId pdu (events : List (List Byte)), events.flatten = sendSdu unitId pdu →
      (readEvents p events).answers = [.frameParsed ⟨unitId, pdu⟩] ∧
        (readEvents p events).state.state = .colon ∧ (readEvents p events).rest = []) ∧
    ∀ digits (events : List (List Byte)), (∀ c ∈ digits, IsDigit c) → digits.length % 2 = 0 →
      events.flatten = 0x3a :: (digits ++ [0x0d, 0x0a]) →
      (.error .crcError ∈ (readEvents p events).answers ↔
        2 ≤ (bytesOf digits).length ∧ ((bytesOf digits).length = 2 ∨
          ((bytesOf digits).map BitVec.toNat).sum % 256 ≠ 0)) := by
  constructor
  · intro unitId pdu events hevents
    obtain ⟨q, hq, hread⟩ := readEvents_line hp unitId pdu.funcCode
      (pdu.data ++ [finishCrc (unitId :: pdu.funcCode :: pdu.data)]) hevents
    have hsum := (finishCrc_eq_iff (unitId :: pdu.funcCode :: pdu.data) _).mp rfl
    rw [List.cons_append, List.cons_append] at hsum
    rw [hread, checkCrc_concat, decide_eq_true hsum]
    exact ⟨rfl, hq, rfl⟩
  · intro digits events hdigits heven hevents
    have hline : events.flatten = line (bytesOf digits) := by
      rw [hevents, line, flatMap_toAscii_bytesOf digits hdigits heven]
    by_cases hshort : (bytesOf digits).length < 2
    · obtain ⟨q, -, hread⟩ := readEvents_short hp hshort hline
      rw [hread, List.mem_singleton]
      constructor
      · intro h
        contradiction
      · intro h
        omega
    · obtain ⟨unitId, funcCode, data, hbytes⟩ :
          ∃ unitId funcCode data, bytesOf digits = unitId :: funcCode :: data := by
        cases hbytes : bytesOf digits with
        | nil =>
          rw [hbytes, List.length_nil] at hshort
          omega
        | cons unitId bytes =>
          cases bytes with
          | nil =>
            rw [hbytes, List.length_singleton] at hshort
            omega
          | cons funcCode data => exact ⟨unitId, funcCode, data, rfl⟩
      rw [hbytes] at hline ⊢
      obtain ⟨q, -, hread⟩ := readEvents_line hp unitId funcCode data hline
      rw [hread, List.mem_singleton, List.length_cons, List.length_cons]
      obtain rfl | ⟨data, c, rfl⟩ := List.eq_nil_or_concat data
      · exact ⟨fun _ => ⟨by decide, Or.inl rfl⟩, fun _ => rfl⟩
      · rw [List.concat_eq_append, checkCrc_concat, List.length_append, List.length_singleton]
        simp

def waiting : AsciiParser := ⟨.colon, 0, ⟨0, ⟨0, []⟩⟩⟩

theorem waiting_spec :
    (readEvents waiting [sendSdu 1 ⟨3, [0, 1]⟩]).answers = [.frameParsed ⟨1, ⟨3, [0, 1]⟩⟩] ∧
      (.error .crcError ∈ (readEvents waiting
          [[0x3a, 0x30, 0x31, 0x30], [0x33, 0x30, 0x30, 0x0d, 0x0a]]).answers ↔
        2 ≤ (bytesOf [0x30, 0x31, 0x30, 0x33, 0x30, 0x30]).length ∧
          ((bytesOf [0x30, 0x31, 0x30, 0x33, 0x30, 0x30]).length = 2 ∨
            ((bytesOf [0x30, 0x31, 0x30, 0x33, 0x30, 0x30]).map BitVec.toNat).sum % 256 ≠ 0)) :=
  ⟨((readEvents_spec waiting rfl).1 1 ⟨3, [0, 1]⟩ [sendSdu 1 ⟨3, [0, 1]⟩] (List.append_nil _)).1,
    (readEvents_spec waiting rfl).2 [0x30, 0x31, 0x30, 0x33, 0x30, 0x30]
      [[0x3a, 0x30, 0x31, 0x30], [0x33, 0x30, 0x30, 0x0d, 0x0a]] (by decide) rfl rfl⟩

/-- The bytes 01 and FF sum to zero, but there is no room for a checksum. -/
theorem waiting_crcError :
    ¬∀ (p : AsciiParser), p.state = .colon → ∀ digits (events : List (List Byte)),
      (∀ c ∈ digits, IsDigit c) → digits.length % 2 = 0 →
      events.flatten = 0x3a :: (digits ++ [0x0d, 0x0a]) →
      (.error .crcError ∈ (readEvents p events).answers ↔
        ((bytesOf digits).map BitVec.toNat).sum % 256 ≠ 0) := by
  intro h
  have hiff := h waiting rfl [0x30, 0x31, 0x46, 0x46]
    [0x3a :: ([0x30, 0x31, 0x46, 0x46] ++ [0x0d, 0x0a])]
    (by decide) rfl rfl
  revert hiff
  decide

end AsciiParser
end Boruta
end Szarp
