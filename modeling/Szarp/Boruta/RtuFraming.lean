import Szarp.Boruta.SerialParser
import Szarp.Lib.Pieces
import Mathlib.Data.List.GetD

/-!
# Recognition of Modbus RTU frames

The end of a frame is where the checksum of what has been read is right at the end of an event. This is
the end of the frame that was sent when no event ends earlier with a right checksum.
-/

namespace Szarp
namespace Boruta
namespace RtuParser

/-! ## Events -/

/-- `read_data` for an event, with the calls of `frame_parsed` as answers. -/
def receive (r : Pieces.Reader RtuParser Byte SDU) (event : List Byte) :
    Pieces.Reader RtuParser Byte SDU :=
  let result := r.state.readData (r.rest ++ event)
  ⟨result.1, result.2.2, r.answers ++ result.2.1.toList⟩

def receiveAll (p : RtuParser) (events : List (List Byte)) : Pieces.Reader RtuParser Byte SDU :=
  events.foldl receive ⟨p, [], []⟩

/-- The frame is reported once, as it was sent, and not before all of it has been read. -/
def Received (p : RtuParser) (unitId : Byte) (pdu : PDU) (events : List (List Byte)) : Prop :=
  (receiveAll p events).answers = [⟨unitId, pdu⟩] ∧
    ∀ i, (events.take i).flatten ≠ frame unitId pdu → (receiveAll p (events.take i)).answers = []

def passes : List Byte → Bool
  | unitId :: funcCode :: data => checkCrc ⟨unitId, ⟨funcCode, data⟩⟩
  | _ => false

def reported : List Byte → SDU
  | unitId :: funcCode :: data => ⟨unitId, ⟨funcCode, data.take (data.length - 2)⟩⟩
  | _ => ⟨0, ⟨0, []⟩⟩

/-- A parser that has read a part of a frame. -/
def Reading (p : RtuParser) : List Byte → Prop
  | [] => p.state = .addr
  | [unitId] => p.state = .funcCode ∧ p.sdu.unitId = unitId
  | unitId :: funcCode :: data => p.state = .data ∧ p.sdu = ⟨unitId, ⟨funcCode, data⟩⟩

/-! ## One event -/

theorem readBytes_spec (p : RtuParser) (input : List Byte)
    (hsize : p.sdu.pdu.data.length + input.length ≤ 254) :
    (passes (p.sdu.unitId :: p.sdu.pdu.funcCode :: (p.sdu.pdu.data ++ input)) = true →
      (p.readBytes input).1.state = .addr ∧ (p.readBytes input).2 =
        (some (reported (p.sdu.unitId :: p.sdu.pdu.funcCode :: (p.sdu.pdu.data ++ input))), [])) ∧
    (passes (p.sdu.unitId :: p.sdu.pdu.funcCode :: (p.sdu.pdu.data ++ input)) = false →
      (p.readBytes input).1.state = p.state ∧
        (p.readBytes input).1.sdu =
          ⟨p.sdu.unitId, ⟨p.sdu.pdu.funcCode, p.sdu.pdu.data ++ input⟩⟩ ∧
        (p.readBytes input).2 = (none, [])) := by
  have htake : input.take (254 - p.sdu.pdu.data.length) = input := List.take_of_length_le (by omega)
  have hdrop : input.drop (254 - p.sdu.pdu.data.length) = [] := List.drop_of_length_le (by omega)
  have hspace : maxFrameSize - 2 - p.sdu.pdu.data.length = 254 - p.sdu.pdu.data.length := rfl
  rw [readBytes, hspace, htake, hdrop, passes]
  simp only
  constructor
  · intro h
    rw [if_pos h]
    exact ⟨rfl, rfl⟩
  · intro h
    rw [h, if_neg Bool.false_ne_true]
    exact ⟨rfl, rfl, rfl⟩

theorem readFuncCode_spec (p : RtuParser) (c : Byte) (input : List Byte)
    (hsize : (p.sdu.unitId :: c :: input).length ≤ 256) :
    (passes (p.sdu.unitId :: c :: input) = true → (p.readFuncCode (c :: input)).1.state = .addr ∧
      (p.readFuncCode (c :: input)).2 = (some (reported (p.sdu.unitId :: c :: input)), [])) ∧
    (passes (p.sdu.unitId :: c :: input) = false →
      (p.readFuncCode (c :: input)).1.Reading (p.sdu.unitId :: c :: input) ∧
        (p.readFuncCode (c :: input)).2 = (none, [])) := by
  rw [List.length_cons, List.length_cons] at hsize
  obtain ⟨hpass, hfail⟩ := readBytes_spec
    { p with state := .data, sdu := ⟨p.sdu.unitId, ⟨c, []⟩⟩ } input (by
      rw [List.length_nil]
      omega)
  refine ⟨hpass, fun hfalse => ?_⟩
  obtain ⟨hstate, hsdu, hrest⟩ := hfail hfalse
  exact ⟨⟨hstate, hsdu⟩, hrest⟩

theorem readData_spec {p : RtuParser} {bytes : List Byte} (h : p.Reading bytes) (event : List Byte)
    (hsize : (bytes ++ event).length ≤ 256) :
    (passes (bytes ++ event) = true → (p.readData event).1.state = .addr ∧
      (p.readData event).2 = (some (reported (bytes ++ event)), [])) ∧
    (passes (bytes ++ event) = false → (p.readData event).1.Reading (bytes ++ event) ∧
      (p.readData event).2 = (none, [])) := by
  obtain ⟨state, sdu, readTimer, delay, output, writeTimer⟩ := p
  cases bytes with
  | nil =>
    obtain rfl : state = .addr := h
    cases event with
    | nil => exact ⟨fun hpass => by contradiction, fun _ => ⟨rfl, rfl⟩⟩
    | cons unitId event =>
      cases event with
      | nil => exact ⟨fun hpass => by contradiction, fun _ => ⟨⟨rfl, rfl⟩, rfl⟩⟩
      | cons c input =>
        exact readFuncCode_spec ⟨.funcCode, ⟨unitId, sdu.pdu⟩, false, delay, output, writeTimer⟩ c
          input hsize
  | cons unitId bytes =>
    cases bytes with
    | nil =>
      obtain ⟨hstate, rfl⟩ := h
      obtain rfl : state = .funcCode := hstate
      cases event with
      | nil => exact ⟨fun hpass => by contradiction, fun _ => ⟨⟨rfl, rfl⟩, rfl⟩⟩
      | cons c input =>
        exact readFuncCode_spec ⟨.funcCode, sdu, false, delay, output, writeTimer⟩ c input hsize
    | cons funcCode data =>
      obtain ⟨hstate, hsdu⟩ := h
      obtain rfl : state = .data := hstate
      obtain rfl : sdu = ⟨unitId, ⟨funcCode, data⟩⟩ := hsdu
      rw [List.length_append, List.length_cons, List.length_cons] at hsize
      obtain ⟨hpass, hfail⟩ := readBytes_spec
        ⟨.data, ⟨unitId, ⟨funcCode, data⟩⟩, false, delay, output, writeTimer⟩ event (by
          simp only
          omega)
      refine ⟨hpass, fun hfalse => ?_⟩
      obtain ⟨hstate, hsdu, hrest⟩ := hfail hfalse
      exact ⟨⟨hstate, hsdu⟩, hrest⟩

/-! ## All events -/

/-- As long as no event ends with a right checksum nothing is reported. -/
theorem receiveAll_reading {p : RtuParser} (hp : p.state = .addr) (events : List (List Byte))
    (hsize : events.flatten.length ≤ 256)
    (hfail : ∀ i ≤ events.length, passes (events.take i).flatten = false) :
    ∃ q, q.Reading events.flatten ∧ receiveAll p events = ⟨q, [], []⟩ := by
  induction events using List.reverseRecOn with
  | nil => exact ⟨p, hp, rfl⟩
  | append_singleton events event ih =>
    rw [List.flatten_append, List.flatten_singleton] at hsize ⊢
    obtain ⟨q, hq, hrun⟩ := ih (by
        rw [List.length_append] at hsize
        omega) (by
      intro i hi
      have hlen : i ≤ (events ++ [event]).length := by
        rw [List.length_append, List.length_singleton]
        omega
      have h := hfail i hlen
      rwa [List.take_append_of_le_length hi] at h)
    have hall := hfail (events ++ [event]).length le_rfl
    rw [List.take_length, List.flatten_append, List.flatten_singleton] at hall
    obtain ⟨hreading, hnone⟩ := (readData_spec hq event hsize).2 hall
    refine ⟨(q.readData event).1, hreading, ?_⟩
    rw [receiveAll, List.foldl_concat, ← receiveAll, hrun, receive, List.nil_append]
    simp only [hnone]
    rfl

/-- The first event that ends with a right checksum is answered. -/
theorem receiveAll_passes {p : RtuParser} (hp : p.state = .addr) (events : List (List Byte))
    (event : List Byte) (hsize : (events.flatten ++ event).length ≤ 256)
    (hfail : ∀ i ≤ events.length, passes (events.take i).flatten = false)
    (hpass : passes (events.flatten ++ event) = true) :
    ∃ q, q.state = .addr ∧
      receiveAll p (events ++ [event]) = ⟨q, [], [reported (events.flatten ++ event)]⟩ := by
  obtain ⟨q, hq, hrun⟩ := receiveAll_reading hp events (by
    rw [List.length_append] at hsize
    omega) hfail
  obtain ⟨hstate, hsome⟩ := (readData_spec hq event hsize).1 hpass
  refine ⟨(q.readData event).1, hstate, ?_⟩
  rw [receiveAll, List.foldl_concat, ← receiveAll, hrun, receive, List.nil_append]
  simp only [hsome]
  rfl

/-- Events without bytes change nothing then. -/
theorem receive_empty {q : RtuParser} (hq : q.state = .addr) (sdus : List SDU)
    {events : List (List Byte)} (h : events.flatten = []) :
    (events.foldl receive ⟨q, [], sdus⟩).answers = sdus := by
  induction events generalizing q with
  | nil => rfl
  | cons event events ih =>
    rw [List.flatten_cons, List.append_eq_nil_iff] at h
    obtain ⟨state, sdu, readTimer, delay, output, writeTimer⟩ := q
    obtain rfl : state = .addr := hq
    rw [List.foldl_cons, h.1]
    have hread : receive ⟨⟨.addr, sdu, readTimer, delay, output, writeTimer⟩, [], sdus⟩ [] =
        ⟨⟨.addr, sdu, false, delay, output, writeTimer⟩, [], sdus⟩ := by
      rw [receive]
      exact congrArg (Pieces.Reader.mk _ _) (List.append_nil sdus)
    rw [hread]
    exact ih rfl h.2

/-! ## Frames -/

theorem checksum_bytes (crc : Short) : crc.extractLsb' 8 8 ++ crc.extractLsb' 0 8 = crc := by
  rw [BitVec.extractLsb'_append_extractLsb'_eq_extractLsb' (by omega)]
  exact BitVec.extractLsb'_eq_self

theorem checkCrc_concat (unitId funcCode : Byte) (data : List Byte) (low high : Byte) :
    checkCrc ⟨unitId, ⟨funcCode, data ++ [low, high]⟩⟩ = true ↔
      data ≠ [] ∧ frameCrc unitId funcCode data = high ++ low := by
  have hlen : (data ++ [low, high]).length = data.length + 2 := List.length_append
  have hlow : (data ++ [low, high]).getD data.length 0 = low := by
    rw [List.getD_append_right _ _ _ _ le_rfl, Nat.sub_self]
    rfl
  have hhigh : (data ++ [low, high]).getD (data.length + 1) 0 = high := by
    rw [List.getD_append_right _ _ _ _ (by omega), Nat.add_sub_cancel_left]
    rfl
  rw [checkCrc]
  simp only
  rw [hlen]
  cases data with
  | nil => simp
  | cons c data =>
    have hlong : ¬(c :: data).length + 2 ≤ 2 := by
      rw [List.length_cons]
      omega
    have hlast : (c :: data).length + 2 - 1 = (c :: data).length + 1 := by omega
    rw [if_neg hlong, Nat.add_sub_cancel, List.take_left, hlast, hlow, hhigh, decide_eq_true_iff]
    exact (and_iff_right (List.cons_ne_nil c data)).symm

theorem passes_frame (unitId : Byte) (pdu : PDU) :
    passes (frame unitId pdu) = true ↔ pdu.data ≠ [] := by
  rw [frame, passes, checkCrc_concat, checksum_bytes]
  exact and_iff_left rfl

theorem reported_frame (unitId : Byte) (pdu : PDU) :
    reported (frame unitId pdu) = ⟨unitId, pdu⟩ := by
  rw [frame, reported, List.length_append]
  exact congrArg (fun data => (⟨unitId, ⟨pdu.funcCode, data⟩⟩ : SDU)) List.take_left

theorem length_frame (unitId : Byte) (pdu : PDU) :
    (frame unitId pdu).length = pdu.data.length + 4 := by
  rw [frame, List.length_cons, List.length_cons, List.length_append]
  rfl

/-! ## Divisions -/

theorem flatten_take_front (events : List (List Byte)) (i : ℕ) :
    (events.take i).flatten <+: events.flatten := by
  refine ⟨(events.drop i).flatten, ?_⟩
  rw [← List.flatten_append, List.take_append_drop]

/-- When the first events are not all of the bytes, fewer events are not either. -/
theorem flatten_take_ne {events : List (List Byte)} {i j : ℕ} (hj : j ≤ i)
    (h : (events.take i).flatten ≠ events.flatten) : (events.take j).flatten ≠ events.flatten := by
  intro heq
  apply h
  have hji := flatten_take_front (events.take i) j
  rw [List.take_take, Nat.min_eq_left hj, heq] at hji
  exact (flatten_take_front events i).eq_of_length_le hji.length_le

theorem exists_first_pass {events : List (List Byte)} {n : ℕ}
    (h : passes (events.take n).flatten = true) :
    ∃ k, k < n ∧ k < events.length ∧ passes (events.take (k + 1)).flatten = true ∧
      ∀ j ≤ k, passes (events.take j).flatten = false := by
  have hex : ∃ m, passes (events.take m).flatten = true := ⟨n, h⟩
  have hleast : ∀ j < Nat.find hex, passes (events.take j).flatten = false :=
    fun j hj => Bool.eq_false_iff.mpr (Nat.find_min hex hj)
  have hfind := Nat.find_spec hex
  have hpos : Nat.find hex ≠ 0 := by
    intro hzero
    rw [hzero] at hfind
    contradiction
  obtain ⟨k, hk⟩ := Nat.exists_eq_succ_of_ne_zero hpos
  have hle : Nat.find hex ≤ n := Nat.find_min' hex h
  rw [hk] at hfind hleast hle
  refine ⟨k, hle, ?_, hfind, fun j hj => hleast j (Nat.lt_succ_of_le hj)⟩
  by_contra hlen
  have hshort := hleast events.length (by omega)
  rw [List.take_of_length_le (by omega)] at hfind
  rw [List.take_length, hfind] at hshort
  contradiction

theorem receiveAll_first_pass {p : RtuParser} (hp : p.state = .addr) {events : List (List Byte)}
    (hsize : events.flatten.length ≤ 256) {k : ℕ} (hk : k < events.length)
    (hfail : ∀ j ≤ k, passes (events.take j).flatten = false)
    (hpass : passes (events.take (k + 1)).flatten = true) :
    ∃ q, q.state = .addr ∧ receiveAll p (events.take (k + 1)) =
      ⟨q, [], [reported (events.take (k + 1)).flatten]⟩ := by
  have htake : events.take (k + 1) = events.take k ++ [events[k]] := List.take_succ_eq_append_getElem hk
  have hflat : (events.take (k + 1)).flatten = (events.take k).flatten ++ events[k] := by
    rw [htake, List.flatten_append, List.flatten_singleton]
  have hle := (flatten_take_front events (k + 1)).length_le
  rw [hflat] at hle hpass ⊢
  rw [htake]
  apply receiveAll_passes hp _ _ (hle.trans hsize) _ hpass
  intro i hi
  rw [List.length_take] at hi
  rw [List.take_take, Nat.min_eq_left (by omega)]
  exact hfail i (by omega)

theorem receiveAll_no_pass {p : RtuParser} (hp : p.state = .addr) {events : List (List Byte)}
    (hsize : events.flatten.length ≤ 256) (i : ℕ)
    (hfail : ∀ j ≤ i, passes (events.take j).flatten = false) :
    (receiveAll p (events.take i)).answers = [] := by
  obtain ⟨q, -, hrun⟩ := receiveAll_reading hp (events.take i)
    ((flatten_take_front events i).length_le.trans hsize) (by
      intro j hj
      rw [List.length_take] at hj
      rw [List.take_take, Nat.min_eq_left (by omega)]
      exact hfail j (by omega))
  rw [hrun]

/-- A frame without delays between its characters is received as it was sent when it has data and no
event ends before its end with a right checksum. -/
theorem received_iff (sender p : RtuParser) (hdelay : sender.delayBetweenChars = 0)
    (hp : p.state = .addr) (unitId : Byte) (pdu : PDU) (hsize : pdu.data.length + 4 ≤ maxFrameSize)
    (events : List (List Byte)) (hevents : events.flatten = (sender.sendSdu unitId pdu).2) :
    p.Received unitId pdu events ↔
      pdu.data ≠ [] ∧ ∀ i, (events.take i).flatten ≠ events.flatten →
        passes (events.take i).flatten = false := by
  rw [sendSdu, if_neg (not_not.mpr hdelay)] at hevents
  simp only at hevents
  have hlength : events.flatten.length ≤ 256 := by
    rw [hevents, length_frame]
    exact hsize
  rw [Received, ← hevents]
  constructor
  · rintro ⟨hall, hbefore⟩
    have hfail : ∀ i, (events.take i).flatten ≠ events.flatten →
        passes (events.take i).flatten = false := by
      intro i hi
      by_contra hpass
      obtain ⟨k, hki, hk, hfirst, hleast⟩ :=
        exists_first_pass ((Bool.not_eq_false _).mp hpass)
      obtain ⟨q, -, hrun⟩ := receiveAll_first_pass hp hlength hk hleast hfirst
      have hnone := hbefore (k + 1) (flatten_take_ne hki hi)
      rw [hrun] at hnone
      exact List.cons_ne_nil _ _ hnone
    -- a frame without data does not pass even as a whole, so nothing would be reported
    refine ⟨fun hdata => ?_, hfail⟩
    have hnone := receiveAll_no_pass hp hlength events.length (by
      intro j hj
      by_cases hframe : (events.take j).flatten = events.flatten
      · rw [hframe, hevents]
        exact Bool.eq_false_iff.mpr fun hpass => (passes_frame unitId pdu).mp hpass hdata
      · exact hfail j hframe)
    rw [List.take_length, hall] at hnone
    exact List.cons_ne_nil _ _ hnone
  · rintro ⟨hdata, hfail⟩
    have hframe : passes (events.take events.length).flatten = true := by
      rw [List.take_length, hevents]
      exact (passes_frame unitId pdu).mpr hdata
    obtain ⟨k, -, hk, hfirst, hleast⟩ := exists_first_pass hframe
    have hflat : (events.take (k + 1)).flatten = events.flatten := by
      by_contra hne
      rw [hfail (k + 1) hne] at hfirst
      contradiction
    obtain ⟨q, hq, hrun⟩ := receiveAll_first_pass hp hlength hk hleast hfirst
    constructor
    -- behind the frame there are only events without bytes
    · have hrest : (events.drop (k + 1)).flatten = [] := by
        have happend : (events.take (k + 1)).flatten ++ (events.drop (k + 1)).flatten =
            events.flatten := by
          rw [← List.flatten_append, List.take_append_drop]
        rw [hflat] at happend
        exact List.append_right_eq_self.mp happend
      have hsplit : receiveAll p events =
          (events.drop (k + 1)).foldl receive (receiveAll p (events.take (k + 1))) := by
        rw [receiveAll, receiveAll, ← List.foldl_append, List.take_append_drop]
      rw [hsplit, hrun, receive_empty hq _ hrest, hflat, hevents, reported_frame]
    · intro i hi
      exact receiveAll_no_pass hp hlength i fun j hj => hfail j (flatten_take_ne hj hi)

theorem received_request :
    (configured 0).Received 1 ⟨3, [0, 0, 0, 1]⟩
      [(frame 1 ⟨3, [0, 0, 0, 1]⟩).take 5, (frame 1 ⟨3, [0, 0, 0, 1]⟩).drop 5] := by
  apply (received_iff (configured 0) (configured 0) rfl rfl 1 ⟨3, [0, 0, 0, 1]⟩ (by decide)
    [(frame 1 ⟨3, [0, 0, 0, 1]⟩).take 5, (frame 1 ⟨3, [0, 0, 0, 1]⟩).drop 5] (by decide)).mpr
  refine ⟨by decide, fun i hi => ?_⟩
  match i with
  | 0 => rfl
  | 1 => decide
  | i + 2 => exact absurd (by rw [List.take_succ_cons, List.take_succ_cons, List.take_nil]) hi

/-- The first five bytes end with their own checksum. -/
theorem not_received :
    ¬∀ (sender p : RtuParser), sender.delayBetweenChars = 0 → p.state = .addr →
      ∀ (unitId : Byte) (pdu : PDU), pdu.data.length + 4 ≤ maxFrameSize →
        ∀ events : List (List Byte), events.flatten = (sender.sendSdu unitId pdu).2 →
          p.Received unitId pdu events := by
  intro h
  have hreceived := h (configured 0) (configured 0) rfl rfl 1 ⟨3, [0, 0x20, 0xf0, 9]⟩ (by decide)
    [(frame 1 ⟨3, [0, 0x20, 0xf0, 9]⟩).take 5, (frame 1 ⟨3, [0, 0x20, 0xf0, 9]⟩).drop 5] (by decide)
  have hnone := hreceived.2 1 (by decide)
  revert hnone
  decide

end RtuParser
end Boruta
end Szarp
