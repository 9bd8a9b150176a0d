import Szarp.Boruta.SerialParser
import Szarp.Lib.Run

/-!
# Delayed output to serial lines

With a delay between characters `send_sdu` writes the first byte of a frame and leaves the others to
the write timer, which `write_finished` is there to start. The buffer events of serial connections have
no callback for the end of a write, so that it is never called.
-/

namespace Szarp
namespace Boruta

/-- A frame that was passed to `send_sdu`, with the bytes that the buffer event has been handed. -/
structure SentFrame where
  bytes : List Byte
  handed : List Byte
deriving DecidableEq

/-- A `serial_rtu_parser` on a line, with what is left to be read, and the frames, the last one
first. -/
structure SerialLine where
  parser : RtuParser
  input : List Byte
  sent : List SentFrame

namespace SerialLine

inductive Event where
  | scheduled (sdus : List SDU)
  | dataReady (bytes : List Byte) (answers : List SDU)
  | readTimer (answers : List SDU)
  | writeTimer
  | connectionError

def send (s : SerialLine) (sdu : SDU) : SerialLine :=
  let (parser, bytes) := s.parser.sendSdu sdu.unitId sdu.pdu
  { s with parser, sent := ⟨RtuParser.frame sdu.unitId sdu.pdu, bytes⟩ :: s.sent }

def hand (bytes : List Byte) : List SentFrame → List SentFrame
  | [] => []
  | f :: fs => { f with handed := f.handed ++ bytes } :: fs

def readData (s : SerialLine) (bytes : List Byte) : SerialLine :=
  let result := s.parser.readData (s.input ++ bytes)
  { s with parser := result.1, input := result.2.2 }

def sends (s : SerialLine) : Event → List SDU
  | .scheduled sdus => sdus
  | .dataReady bytes answers =>
    if (s.parser.readData (s.input ++ bytes)).2.1 = none then [] else answers
  | .readTimer answers => answers
  | .writeTimer | .connectionError => []

def step (s : SerialLine) (e : Event) : SerialLine :=
  match e with
  | .scheduled _ => (s.sends e).foldl send s
  | .dataReady bytes _ => (s.sends e).foldl send (s.readData bytes)
  | .readTimer _ =>
    -- the error is handled before the parser is reset
    let s := (s.sends e).foldl send { s with parser := { s.parser with readTimer := false } }
    { s with parser := s.parser.reset }
  | .writeTimer =>
    let (parser, bytes) := s.parser.writeTimerEvent
    { s with parser, sent := hand bytes s.sent }
  | .connectionError => { s with parser := s.parser.reset }

/-- A timer expires when it is pending. -/
def Domain (s : SerialLine) : Event → Prop
  | .readTimer _ => s.parser.readTimer = true
  | .writeTimer => s.parser.writeTimer = true
  | _ => True

def opened (delayBetweenChars : ℕ) : SerialLine := ⟨.configured delayBetweenChars, [], []⟩

/-- What has been handed over is the beginning of each frame, and all of the last one when no write timer
is pending. -/
structure WholeFrames (s : SerialLine) : Prop where
  inOrder : ∀ f ∈ s.sent, f.handed <+: f.bytes
  complete : s.parser.writeTimer = false → ∀ f ∈ s.sent.head?, f.handed = f.bytes

/-! ## Frames -/

/-- Only the first byte of every frame has been handed over, and no write timer is pending. -/
structure FirstBytes (s : SerialLine) : Prop where
  delayed : s.parser.delayBetweenChars ≠ 0
  untimed : s.parser.writeTimer = false
  sent : ∀ f ∈ s.sent, ∃ unitId pdu, f = ⟨RtuParser.frame unitId pdu, [unitId]⟩

theorem readBytes_timer (p : RtuParser) (input : List Byte) :
    (p.readBytes input).1.writeTimer = p.writeTimer ∧
      (p.readBytes input).1.delayBetweenChars = p.delayBetweenChars := by
  rw [RtuParser.readBytes]
  simp only
  split
  · exact ⟨rfl, rfl⟩
  · exact ⟨rfl, rfl⟩

theorem readFuncCode_timer (p : RtuParser) (input : List Byte) :
    (p.readFuncCode input).1.writeTimer = p.writeTimer ∧
      (p.readFuncCode input).1.delayBetweenChars = p.delayBetweenChars := by
  cases input with
  | nil => exact ⟨rfl, rfl⟩
  | cons c input => exact readBytes_timer _ input

theorem readData_timer (p : RtuParser) (input : List Byte) :
    (p.readData input).1.writeTimer = p.writeTimer ∧
      (p.readData input).1.delayBetweenChars = p.delayBetweenChars := by
  obtain ⟨state, sdu, readTimer, delay, output, writeTimer⟩ := p
  cases state with
  | addr =>
    cases input with
    | nil => exact ⟨rfl, rfl⟩
    | cons c input => exact readFuncCode_timer _ input
  | funcCode => exact readFuncCode_timer _ input
  | data => exact readBytes_timer _ input

theorem send_eq {s : SerialLine} (h : s.parser.delayBetweenChars ≠ 0) (sdu : SDU) :
    s.send sdu = { s with
      parser := { s.parser with outputBuffer := (RtuParser.frame sdu.unitId sdu.pdu).tail }
      sent := ⟨RtuParser.frame sdu.unitId sdu.pdu, [sdu.unitId]⟩ :: s.sent } := by
  rw [send, RtuParser.sendSdu, if_pos h]

theorem FirstBytes.send {s : SerialLine} (h : s.FirstBytes) (sdu : SDU) : (s.send sdu).FirstBytes := by
  rw [send_eq h.delayed]
  refine ⟨h.delayed, h.untimed, ?_⟩
  intro f hf
  obtain rfl | hf := List.mem_cons.mp hf
  · exact ⟨sdu.unitId, sdu.pdu, rfl⟩
  · exact h.sent f hf

theorem FirstBytes.sendAll {s : SerialLine} (h : s.FirstBytes) (sdus : List SDU) :
    (sdus.foldl SerialLine.send s).FirstBytes := by
  induction sdus generalizing s with
  | nil => exact h
  | cons sdu sdus ih => exact ih (h.send sdu)

theorem FirstBytes.readData {s : SerialLine} (h : s.FirstBytes) (bytes : List Byte) :
    (s.readData bytes).FirstBytes := by
  obtain ⟨htimer, hdelay⟩ := readData_timer s.parser (s.input ++ bytes)
  exact ⟨hdelay ▸ h.delayed, htimer.trans h.untimed, h.sent⟩

theorem FirstBytes.reset {s : SerialLine} (h : s.FirstBytes) :
    FirstBytes { s with parser := s.parser.reset } := ⟨h.delayed, rfl, h.sent⟩

theorem FirstBytes.step {s : SerialLine} (h : s.FirstBytes) {e : Event} (hdomain : s.Domain e) :
    (s.step e).FirstBytes := by
  cases e with
  | scheduled sdus => exact h.sendAll _
  | dataReady bytes answers => exact (h.readData bytes).sendAll _
  | readTimer answers =>
    have hexpired : FirstBytes { s with parser := { s.parser with readTimer := false } } :=
      ⟨h.delayed, h.untimed, h.sent⟩
    exact (hexpired.sendAll _).reset
  | writeTimer =>
    have htimer : s.parser.writeTimer = true := hdomain
    rw [h.untimed] at htimer
    contradiction
  | connectionError => exact h.reset

theorem opened_firstBytes {delayBetweenChars : ℕ} (h : 0 < delayBetweenChars) :
    (opened delayBetweenChars).FirstBytes :=
  ⟨Nat.ne_of_gt h, rfl, fun _ hf => absurd hf List.not_mem_nil⟩

/-- Of a frame that is sent with a delay nothing but the first byte is ever handed over. -/
theorem firstBytes_along {delayBetweenChars : ℕ} (h : 0 < delayBetweenChars) {es : List Event}
    (hes : Run.Along step Domain (opened delayBetweenChars) es) :
    Run.Along step (fun s e => (s.step e).FirstBytes) (opened delayBetweenChars) es := by
  refine @Run.along_of_inv _ _ step Domain _ (fun _ _ => True) FirstBytes
    (fun s e hs hdomain _ => hs.step hdomain) (fun s e hs hdomain _ => hs.step hdomain) _
    (opened_firstBytes h) _ hes ?_
  clear hes
  generalize opened delayBetweenChars = s
  induction es generalizing s with
  | nil => exact trivial
  | cons e es ih => exact ⟨trivial, ih _⟩

/-! ## Whole frames -/

theorem FirstBytes.whole_iff_unsent {s : SerialLine} (h : s.FirstBytes) :
    s.WholeFrames ↔ s.sent = [] := by
  constructor
  · intro hwhole
    cases hsent : s.sent with
    | nil => rfl
    | cons f fs =>
      obtain ⟨unitId, pdu, rfl⟩ := h.sent f (by
        rw [hsent]
        exact List.mem_cons_self)
      have hcomplete := hwhole.complete h.untimed _ (by
        rw [hsent]
        exact rfl)
      have hlength := congrArg List.length hcomplete
      rw [RtuParser.frame, List.length_cons, List.length_cons, List.length_cons] at hlength
      exact absurd hlength (by simp)
  · intro hsent
    constructor
    · rw [hsent]
      exact fun f hf => absurd hf List.not_mem_nil
    · rw [hsent]
      exact fun _ f hf => absurd hf (Option.not_mem_none f)

theorem sendAll_sent {s : SerialLine} (sdus : List SDU) :
    (sdus.foldl SerialLine.send s).sent = [] ↔ s.sent = [] ∧ sdus = [] := by
  induction sdus generalizing s with
  | nil => exact (and_iff_left rfl).symm
  | cons sdu sdus ih =>
    rw [List.foldl_cons, ih]
    constructor
    · intro h
      exact absurd h.1 (List.cons_ne_nil _ _)
    · intro h
      exact absurd h.2 (List.cons_ne_nil _ _)

theorem step_sent {s : SerialLine} (h : s.sent = []) (e : Event) :
    (s.step e).sent = [] ↔ s.sends e = [] := by
  cases e with
  | scheduled sdus =>
    rw [step, sendAll_sent]
    exact and_iff_right h
  | dataReady bytes answers =>
    rw [step, sendAll_sent]
    exact and_iff_right h
  | readTimer answers =>
    have hsends := sendAll_sent (s := { s with parser := { s.parser with readTimer := false } })
      (s.sends (.readTimer answers))
    exact hsends.trans (and_iff_right h)
  | writeTimer =>
    have hhand : (s.step .writeTimer).sent = [] := by
      rw [step]
      simp only [h]
      rfl
    exact ⟨fun _ => rfl, fun _ => hhand⟩
  | connectionError => exact ⟨fun _ => rfl, fun _ => h⟩

/-- With a delay between characters every state of a run has whole frames when the run sends none, and
only then. -/
theorem wholeFrames_iff (delayBetweenChars : ℕ) (h : 0 < delayBetweenChars) (es : List Event)
    (hes : Run.Along step Domain (opened delayBetweenChars) es) :
    Run.Along step (fun s e => (s.step e).WholeFrames) (opened delayBetweenChars) es ↔
      Run.Along step (fun s e => s.sends e = []) (opened delayBetweenChars) es := by
  refine @Run.along_iff _ _ step Domain _ _ (fun s => s.FirstBytes ∧ s.sent = []) ?_ ?_ _
    ⟨opened_firstBytes h, rfl⟩ _ hes
  · intro s e hs hdomain hsends
    exact ⟨hs.1.step hdomain, (step_sent hs.2 e).mpr hsends⟩
  · intro s e hs hdomain
    rw [(hs.1.step hdomain).whole_iff_unsent, step_sent hs.2]

/-- A query, and a wait for the answer that is too long. -/
def unanswered : List Event :=
  [.scheduled [⟨1, ⟨3, [0, 0, 0, 1]⟩⟩], .dataReady [1] [], .readTimer [⟨1, ⟨3, [0, 5, 0, 1]⟩⟩]]

theorem unanswered_domain : Run.Along step Domain (opened 5) unanswered :=
  ⟨trivial, trivial, rfl, trivial⟩

theorem unanswered_firstBytes :
    Run.Along step (fun s e => (s.step e).FirstBytes) (opened 5) unanswered :=
  firstBytes_along (by decide) unanswered_domain

theorem unanswered_iff :
    Run.Along step (fun s e => (s.step e).WholeFrames) (opened 5) unanswered ↔
      Run.Along step (fun s e => s.sends e = []) (opened 5) unanswered :=
  wholeFrames_iff 5 (by decide) unanswered unanswered_domain

/-- No write timer is pending, but one byte of a query has been handed over. -/
theorem unanswered_not_whole :
    ¬∀ (delayBetweenChars : ℕ), 0 < delayBetweenChars → ∀ es : List Event,
      Run.Along step Domain (opened delayBetweenChars) es →
        Run.Along step (fun s e => (s.step e).WholeFrames) (opened delayBetweenChars) es := by
  intro h
  have hwhole := (h 5 (by decide) unanswered unanswered_domain).1
  have hcomplete := hwhole.complete rfl _ rfl
  revert hcomplete
  decide

end SerialLine
end Boruta
end Szarp
