import Szarp.Lib.Numeral
import Szarp.Lib.Run
import Mathlib.Data.List.AList

/-!
# Commands of a protocol location

`ProtocolLocation` keeps the commands of one connection under their ids
(`iks/server/locations/protocol_location.cpp`, `command.h`).  A command that is not single-shot is an
object with an address; it is deleted by a line of the client at once, or by a callback that is posted
with its address when it sends its last response.
-/

namespace Szarp
namespace Iks

/-! ## Commands -/

inductive ResponseType where
  | response
  | ok
  | error
  | quietEnd
deriving DecidableEq, Repr

inductive ErrorCode where
  | illFormed
  | unknownCommand
  | invalidId
  | idUsed
  | protocolNotSet
deriving DecidableEq, Repr

def ErrorCode.value : ErrorCode → ℕ
  | illFormed => 2
  | unknownCommand => 4
  | invalidId => 6
  | idUsed => 8
  | protocolNotSet => 502

inductive Handler where
  | unset
  | own
  | default
deriving DecidableEq, Repr

/-- A `Command` that is not single-shot, at its address. -/
structure Command where
  id : ℕ
  nextHandler : Handler
deriving DecidableEq, Repr

structure NewCommand where
  type : String
  singleShot : Bool
  sendStr : Option String
  hasNext : Bool

structure Protocol where
  cmdFromTag : String → Option NewCommand
  tagFromCmd : NewCommand → String

/-- What a command does in its handler, or by itself at any time: it sends a response, sets its next
handler, or makes the protocol send a command.  A command is sent with the numbers that the generator
of ids draws. -/
inductive Act where
  | respond (cmd : ℕ) (type : ResponseType) (data : String)
  | setNext (cmd : ℕ)
  | send (c : NewCommand) (draws : List ℕ)

/-! ## The location -/

/-- `ProtocolLocation`, the commands that are alive, the callbacks that are posted, and what has been
deleted and written. -/
structure ProtocolLocation where
  protocol : Option Protocol
  commands : AList fun _ : ℕ => ℕ := ∅
  heap : ℕ → Option Command := fun _ => none
  nextAddress : ℕ := 0
  posted : List ℕ := []
  deleted : List ℕ := []
  written : List String := []

namespace ProtocolLocation

def writeLine (s : ProtocolLocation) (line : String) : ProtocolLocation :=
  { s with written := s.written ++ [line] }

/-- A line where there is one to send. -/
def writeSome (s : ProtocolLocation) : Option String → ProtocolLocation
  | none => s
  | some line => s.writeLine line

def sendFail (s : ProtocolLocation) (id : ℕ) (code : ErrorCode) : ProtocolLocation :=
  s.writeLine ("e " ++ toString id ++ " " ++ toString code.value)

def responseName : ResponseType → Option String
  | .ok => some "k"
  | .error => some "e"
  | .response => some "r"
  | .quietEnd => none

def sendResponse (s : ProtocolLocation) (type : ResponseType) (data : String) (cmd : ℕ) :
    ProtocolLocation :=
  match s.heap cmd with
  | none => s
  | some c =>
    let s := s.writeSome ((responseName type).map fun name =>
      name ++ " " ++ toString c.id ++ " " ++ data)
    if type = .response then s else { s with posted := s.posted ++ [cmd] }

/-- `ProtocolLocation::generate_id`, once it has drawn an id that is not used. -/
def generateId (s : ProtocolLocation) (draws : List ℕ) : Option ℕ :=
  let maxid := max 8096 (s.commands.entries.length * 4)
  (draws.map fun r => 1 + r % maxid).find? fun id => id ∉ s.commands

/-- A command that is made gets an address and stands under its id. -/
def addCommand (s : ProtocolLocation) (id : ℕ) (handler : Handler) : ProtocolLocation :=
  { s with
    commands := s.commands.insert id s.nextAddress
    heap := Function.update s.heap s.nextAddress (some ⟨id, handler⟩)
    nextAddress := s.nextAddress + 1 }

/-- `ProtocolLocation::new_cmd` up to the handler. -/
def register (s : ProtocolLocation) (c : NewCommand) (tag : String) (id : ℕ) : ProtocolLocation :=
  let s := s.writeSome (c.sendStr.map fun out => tag ++ " " ++ toString id ++ " " ++ out)
  if c.singleShot ∨ id ∈ s.commands then s
  else s.addCommand id (if c.hasNext then .own else .unset)

def sendCmd (s : ProtocolLocation) (c : NewCommand) (draws : List ℕ) : ProtocolLocation :=
  match s.protocol with
  | none => s
  | some prot =>
    let tag := prot.tagFromCmd c
    if tag = "" then s
    else if c.singleShot then s.register c tag 0
    else match s.generateId draws with
      | none => s
      | some id => s.register c tag id

def setHandler (s : ProtocolLocation) (cmd : ℕ) (handler : Handler) : ProtocolLocation :=
  let c := (s.heap cmd).map fun c => { c with nextHandler := handler }
  { s with heap := Function.update s.heap cmd c }

def act (s : ProtocolLocation) : Act → ProtocolLocation
  | .respond cmd type data => s.sendResponse type data cmd
  | .setNext cmd => s.setHandler cmd .own
  | .send c draws => s.sendCmd c draws

/-- `Command::new_line`; nothing is defined for a command that has been deleted. -/
def newLine (s : ProtocolLocation) (cmd : ℕ) (acts : List Act) : Option ProtocolLocation :=
  match s.heap cmd with
  | none => none
  | some c =>
    match c.nextHandler with
    | .unset => some s
    | .own => some (acts.foldl act (s.setHandler cmd .default))
    | .default => some (s.sendResponse .error (toString ErrorCode.unknownCommand.value) cmd)

/-- `ProtocolLocation::new_cmd` for a line of the client. -/
def newCmd (s : ProtocolLocation) (c : NewCommand) (tag : String) (id : ℕ) (acts : List Act) :
    Option ProtocolLocation :=
  if c.singleShot then
    some (if c.hasNext then acts.foldl act (s.register c tag id) else s.register c tag id)
  else if id ∈ s.commands then some (s.register c tag id)
  else (s.register c tag id).newLine s.nextAddress acts

def eraseCmd (s : ProtocolLocation) (id : ℕ) : Option ProtocolLocation :=
  match s.commands.lookup id with
  | none => some s
  | some cmd =>
    if s.heap cmd = none then none
    else some
      { s with
        heap := Function.update s.heap cmd none
        deleted := s.deleted ++ [cmd]
        commands := s.commands.erase id }

/-- The first posted callback, `ProtocolLocation::erase_cmd` by an address. -/
def runPosted (s : ProtocolLocation) : Option ProtocolLocation :=
  match s.posted with
  | [] => some s
  | cmd :: posted =>
    match s.heap cmd with
    | none => none
    | some c => { s with posted := posted }.eraseCmd c.id

/-! ## Lines -/

def isGap (c : Char) : Bool := c = ' ' ∨ c = '\t'

/-- What stands before the first gap of a line and behind it. -/
def splitToken (line : List Char) : List Char × List Char :=
  (line.takeWhile (fun c => !isGap c), (line.dropWhile fun c => !isGap c).dropWhile isGap)

/-- `boost::lexical_cast<unsigned int>`; it wraps negative numbers. -/
def lexicalCastId (s : List Char) : Option ℕ :=
  let number := Numeral.splitSign s
  let v := Nat.ofDigitChars 10 number.2 0
  if number.2 ≠ [] ∧ number.2.all Char.isDigit ∧ v < 2 ^ 32 then
    some (number.1 * v % 2 ^ 32).toNat
  else none

inductive Request where
  | fail (id : ℕ) (code : ErrorCode)
  | drop (id : ℕ)
  | answer (cmd id : ℕ) (last : Bool)
  | create (c : NewCommand) (tag : String) (id : ℕ)

def request (s : ProtocolLocation) (line : List Char) : Request :=
  match s.protocol with
  | none => .fail 0 .protocolNotSet
  | some prot =>
    let cmdName := (splitToken line).1
    let cmdIdStr := (splitToken (splitToken line).2).1
    if cmdName = [] ∨ cmdIdStr = [] then .fail 0 .illFormed
    else match lexicalCastId cmdIdStr with
      | none => .fail 0 .invalidId
      | some cmdId =>
        if cmdName = ['e'] then .drop cmdId
        else if cmdName = ['r'] ∨ cmdName = ['k'] then
          match s.commands.lookup cmdId with
          | none => .fail cmdId .invalidId
          | some cmd => .answer cmd cmdId (cmdName = ['k'])
        else if cmdId ∈ s.commands then .fail 0 .idUsed
        else match prot.cmdFromTag (String.ofList cmdName) with
          | none => .fail cmdId .unknownCommand
          | some c => .create c (String.ofList cmdName) cmdId

/-- `ProtocolLocation::parse_line`, with what the handler does with it. -/
def parseLine (s : ProtocolLocation) (line : List Char) (acts : List Act) :
    Option ProtocolLocation :=
  match s.request line with
  | .fail id code => some (s.sendFail id code)
  | .drop id => s.eraseCmd id
  | .answer cmd id last => do
    let s ← s.newLine cmd acts
    if last then s.eraseCmd id else return s
  | .create c tag id => s.newCmd c tag id acts

/-! ## Runs -/

inductive Event where
  | line (text : List Char) (acts : List Act)
  | act (a : Act)
  | erase
  | setProtocol (prot : Protocol)

def step (s : ProtocolLocation) : Event → Option ProtocolLocation
  | .line text acts => s.parseLine text acts
  | .act a => some (s.act a)
  | .erase => s.runPosted
  | .setProtocol prot => some { s with protocol := some prot }

/-! ## What should hold -/

/-- No command is deleted twice, and no two that are alive have the same id. -/
structure Sound (s : ProtocolLocation) : Prop where
  deleted_once : s.deleted.Nodup
  one_id : ∀ cmd cmd' c c', s.heap cmd = some c → s.heap cmd' = some c' → c.id = c'.id → cmd = cmd'

/-- A callback finds its command alive, and removes that command only. -/
def ErasesOwn (s : ProtocolLocation) (e : Event) (s' : ProtocolLocation) : Prop :=
  ∀ cmd posted, e = .erase → s.posted = cmd :: posted →
    s.heap cmd ≠ none ∧ s'.heap = Function.update s.heap cmd none ∧
      s'.deleted = s.deleted ++ [cmd]

/-- The command that sends its last response. -/
def ends : Act → List ℕ
  | .respond cmd type _ => if type = .response then [] else [cmd]
  | _ => []

/-- The commands that send their last response when a command gets a line. -/
def lineEnds (s : ProtocolLocation) (cmd : ℕ) (acts : List Act) : List ℕ :=
  match s.heap cmd with
  | none => []
  | some c =>
    match c.nextHandler with
    | .unset => []
    | .own => acts.flatMap ends
    | .default => [cmd]

/-- The commands that send their last response at an event. -/
def eventEnds (s : ProtocolLocation) : Event → List ℕ
  | .line text acts =>
    match s.request text with
    | .answer cmd _ _ => s.lineEnds cmd acts
    | .create c _ _ => if c.hasNext then acts.flatMap ends else []
    | _ => []
  | .act a => ends a
  | _ => []

/-- The command that a line of the client deletes. -/
def dropped (s : ProtocolLocation) : Event → Option ℕ
  | .line text _ =>
    match s.request text with
    | .drop id => s.commands.lookup id
    | .answer cmd _ last => if last then some cmd else none
    | _ => none
  | _ => none

/-- No command sends a last response while its callback is posted, and the client deletes none whose
callback is posted or gets posted with it. -/
structure Orderly (s : ProtocolLocation) (e : Event) : Prop where
  ends_once : (s.eventEnds e).Nodup
  ends_first : ∀ cmd ∈ s.eventEnds e, cmd ∉ s.posted
  dropped_free : ∀ cmd, s.dropped e = some cmd → cmd ∉ s.posted ∧ cmd ∉ s.eventEnds e

/-! ## The invariant -/

structure Inv (s : ProtocolLocation) : Prop where
  registered : ∀ id cmd, s.commands.lookup id = some cmd ↔ ∃ c, s.heap cmd = some c ∧ c.id = id
  posted_alive : ∀ cmd ∈ s.posted, s.heap cmd ≠ none
  posted_once : s.posted.Nodup
  old : ∀ cmd, s.heap cmd ≠ none → cmd < s.nextAddress
  deleted_gone : ∀ cmd ∈ s.deleted, s.heap cmd = none ∧ cmd < s.nextAddress
  deleted_once : s.deleted.Nodup

theorem Inv.sound {s : ProtocolLocation} (h : Inv s) : Sound s where
  deleted_once := h.deleted_once
  one_id := by
    intro cmd cmd' c c' hc hc' hid
    have hlookup := (h.registered c'.id cmd).mpr ⟨c, hc, hid⟩
    have hlookup' := (h.registered c'.id cmd').mpr ⟨c', hc', rfl⟩
    exact Option.some.inj (hlookup.symm.trans hlookup')

theorem inv_new (prot : Option Protocol) : Inv { protocol := prot } where
  registered := by
    intro id cmd
    simp
  posted_alive := nofun
  posted_once := List.nodup_nil
  old := fun cmd h => absurd rfl h
  deleted_gone := nofun
  deleted_once := List.nodup_nil

/-- What a command or the protocol does leaves the commands that are there, and posts callbacks of
`posts` only. -/
structure Kept (posts : List ℕ) (s s' : ProtocolLocation) : Prop where
  inv : Inv s'
  lookup : ∀ id cmd, s.commands.lookup id = some cmd → s'.commands.lookup id = some cmd
  posted : ∀ cmd ∈ s'.posted, cmd ∈ s.posted ∨ cmd ∈ posts

section Kept

variable {s s' : ProtocolLocation}

theorem Kept.refl (h : Inv s) : Kept [] s s := ⟨h, fun _ _ h => h, fun _ h => .inl h⟩

theorem Kept.trans {posts posts' : List ℕ} {s'' : ProtocolLocation} (h : Kept posts s s')
    (h' : Kept posts' s' s'') : Kept (posts ++ posts') s s'' where
  inv := h'.inv
  lookup := fun id cmd hid => h'.lookup id cmd (h.lookup id cmd hid)
  posted := by
    intro cmd hcmd
    obtain hcmd | hcmd := h'.posted cmd hcmd
    · obtain hcmd | hcmd := h.posted cmd hcmd
      · exact .inl hcmd
      · exact .inr (List.mem_append_left _ hcmd)
    · exact .inr (List.mem_append_right _ hcmd)

theorem kept_writeSome (h : Inv s) (line : Option String) : Kept [] s (s.writeSome line) := by
  cases line with
  | none => exact Kept.refl h
  | some line =>
    exact ⟨⟨h.registered, h.posted_alive, h.posted_once, h.old, h.deleted_gone, h.deleted_once⟩,
      fun _ _ h => h, fun _ h => .inl h⟩

@[simp] theorem writeSome_commands (line : Option String) :
    (s.writeSome line).commands = s.commands := by
  cases line <;> rfl

@[simp] theorem writeSome_heap (line : Option String) : (s.writeSome line).heap = s.heap := by
  cases line <;> rfl

@[simp] theorem writeSome_nextAddress (line : Option String) :
    (s.writeSome line).nextAddress = s.nextAddress := by
  cases line <;> rfl

@[simp] theorem writeSome_posted (line : Option String) :
    (s.writeSome line).posted = s.posted := by
  cases line <;> rfl

@[simp] theorem writeSome_deleted (line : Option String) :
    (s.writeSome line).deleted = s.deleted := by
  cases line <;> rfl

theorem Inv.post (h : Inv s) {cmd : ℕ} (halive : s.heap cmd ≠ none) (hnew : cmd ∉ s.posted) :
    Inv { s with posted := s.posted ++ [cmd] } where
  registered := h.registered
  posted_alive := by
    intro cmd' hcmd'
    obtain hcmd' | hcmd' := List.mem_append.mp hcmd'
    · exact h.posted_alive cmd' hcmd'
    · rwa [List.mem_singleton.mp hcmd']
  posted_once := by
    rw [List.nodup_append_comm, List.singleton_append, List.nodup_cons]
    exact ⟨hnew, h.posted_once⟩
  old := h.old
  deleted_gone := h.deleted_gone
  deleted_once := h.deleted_once

theorem kept_sendResponse (h : Inv s) (type : ResponseType) (data : String) (cmd : ℕ)
    (hnew : type ≠ .response → cmd ∉ s.posted) :
    Kept (if type = .response then [] else [cmd]) s (s.sendResponse type data cmd) := by
  unfold sendResponse
  cases hheap : s.heap cmd with
  | none => exact ⟨h, fun _ _ h => h, fun _ h => .inl h⟩
  | some c =>
    simp only
    generalize (responseName type).map _ = line
    have hkept := kept_writeSome h line
    split
    · exact hkept
    · rename_i htype
      have hpost := @Inv.post _ hkept.inv cmd (by simp [hheap]) (by simpa using hnew htype)
      refine ⟨hpost, hkept.lookup, fun cmd' hcmd' => ?_⟩
      simpa using hcmd'

/-- A new command gets an address that none has had. -/
theorem Inv.add (h : Inv s) {id : ℕ} (hid : id ∉ s.commands) (handler : Handler) :
    Inv (s.addCommand id handler) := by
  have hnone : s.heap s.nextAddress = none := by
    by_contra hne
    exact absurd (h.old _ hne) (lt_irrefl _)
  refine ⟨fun id' cmd => ?_, fun cmd hcmd => ?_, h.posted_once, fun cmd hcmd => ?_,
    fun cmd hcmd => ?_, h.deleted_once⟩ <;> simp only [addCommand] at *
  · by_cases hcmd : cmd = s.nextAddress
    · subst hcmd
      simp only [Function.update_self, Option.some.injEq, exists_eq_left']
      by_cases hid' : id' = id
      · subst hid'
        simp
      · rw [AList.lookup_insert_ne hid', h.registered]
        simp [hnone, Ne.symm hid']
    · simp only [Function.update_of_ne hcmd]
      rw [← h.registered]
      by_cases hid' : id' = id
      · subst hid'
        have hlookup : s.commands.lookup id' = none := AList.lookup_eq_none.mpr hid
        simp [hlookup, Ne.symm hcmd]
      · rw [AList.lookup_insert_ne hid']
  · have hne : cmd ≠ s.nextAddress := by
      rintro rfl
      exact h.posted_alive _ hcmd hnone
    simpa only [Function.update_of_ne hne] using h.posted_alive cmd hcmd
  · by_cases hne : cmd = s.nextAddress
    · exact hne ▸ Nat.lt_succ_self _
    · simp only [Function.update_of_ne hne] at hcmd
      exact (h.old cmd hcmd).trans (Nat.lt_succ_self _)
  · obtain ⟨hgone, hlt⟩ := h.deleted_gone cmd hcmd
    simp only [Function.update_of_ne hlt.ne]
    exact ⟨hgone, hlt.trans (Nat.lt_succ_self _)⟩

theorem kept_register (h : Inv s) (c : NewCommand) (tag : String) (id : ℕ) :
    Kept [] s (s.register c tag id) := by
  unfold register
  generalize c.sendStr.map _ = line
  have hkept := kept_writeSome h line
  by_cases hdone : c.singleShot ∨ id ∈ (s.writeSome line).commands
  · rwa [if_pos hdone]
  · rw [if_neg hdone]
    have hnot := not_or.mp hdone
    refine ⟨hkept.inv.add hnot.2 _, fun id' cmd hid' => ?_, hkept.posted⟩
    have hne : id' ≠ id := by
      rintro rfl
      apply hnot.2
      rw [← AList.lookup_isSome, writeSome_commands, hid']
      rfl
    rw [addCommand, AList.lookup_insert_ne hne]
    exact hkept.lookup id' cmd hid'

theorem kept_sendCmd (h : Inv s) (c : NewCommand) (draws : List ℕ) :
    Kept [] s (s.sendCmd c draws) := by
  unfold sendCmd
  split
  · exact Kept.refl h
  · simp only
    split
    · exact Kept.refl h
    · split
      · exact kept_register h c _ 0
      · split
        · exact Kept.refl h
        · exact kept_register h c _ _

/-- A handler is set in a command that is there. -/
theorem kept_handler (h : Inv s) (cmd : ℕ) (handler : Handler) :
    Kept [] s (s.setHandler cmd handler) := by
  have halive : ∀ cmd', (s.setHandler cmd handler).heap cmd' = none ↔ s.heap cmd' = none := by
    intro cmd'
    by_cases hne : cmd' = cmd
    · simp [setHandler, hne]
    · simp [setHandler, Function.update_of_ne hne]
  refine ⟨⟨fun id cmd' => ?_, fun cmd' hcmd' => ?_, h.posted_once, fun cmd' hcmd' => ?_,
    fun cmd' hcmd' => ?_, h.deleted_once⟩, fun _ _ h => h, fun _ h => .inl h⟩
  · rw [setHandler, h.registered]
    by_cases hne : cmd' = cmd
    · subst hne
      cases s.heap cmd' <;> simp
    · simp only [Function.update_of_ne hne]
  · simp only [ne_eq, halive]
    exact h.posted_alive cmd' hcmd'
  · simp only [ne_eq, halive] at hcmd'
    exact h.old cmd' hcmd'
  · simp only [halive]
    exact h.deleted_gone cmd' hcmd'

theorem kept_act (h : Inv s) (a : Act) (hnew : ∀ cmd ∈ ends a, cmd ∉ s.posted) :
    Kept (ends a) s (s.act a) := by
  cases a with
  | respond cmd type data =>
    apply kept_sendResponse h
    intro htype
    exact hnew cmd (by simp [ends, htype])
  | setNext cmd => exact kept_handler h cmd .own
  | send c draws => exact kept_sendCmd h c draws

theorem kept_acts (h : Inv s) (acts : List Act) (honce : (acts.flatMap ends).Nodup)
    (hnew : ∀ cmd ∈ acts.flatMap ends, cmd ∉ s.posted) :
    Kept (acts.flatMap ends) s (acts.foldl act s) := by
  induction acts generalizing s with
  | nil => exact Kept.refl h
  | cons a acts ih =>
    rw [List.flatMap_cons] at honce hnew ⊢
    rw [List.nodup_append] at honce
    have ha := kept_act h a fun cmd hcmd => hnew cmd (List.mem_append_left _ hcmd)
    refine ha.trans (ih ha.inv honce.2.1 fun cmd hcmd hposted => ?_)
    obtain hposted | hends := ha.posted cmd hposted
    · exact hnew cmd (List.mem_append_right _ hcmd) hposted
    · exact honce.2.2 cmd hends cmd hcmd rfl

theorem kept_newLine (h : Inv s) {cmd : ℕ} (halive : s.heap cmd ≠ none) (acts : List Act)
    (honce : (s.lineEnds cmd acts).Nodup) (hnew : ∀ cmd' ∈ s.lineEnds cmd acts, cmd' ∉ s.posted) :
    ∃ s', s.newLine cmd acts = some s' ∧ Kept (s.lineEnds cmd acts) s s' := by
  obtain ⟨c, hc⟩ := Option.ne_none_iff_exists'.mp halive
  simp only [newLine, lineEnds, hc] at honce hnew ⊢
  cases hhandler : c.nextHandler with
  | unset => exact ⟨s, rfl, Kept.refl h⟩
  | own =>
    rw [hhandler] at honce hnew
    have hset := kept_handler h cmd .default
    exact ⟨_, rfl, hset.trans (kept_acts hset.inv acts honce hnew)⟩
  | default =>
    rw [hhandler] at hnew
    exact ⟨_, rfl, kept_sendResponse h .error _ cmd fun _ => hnew cmd (List.mem_singleton_self cmd)⟩

theorem Inv.erase (h : Inv s) {cmd : ℕ} {c : Command} (hc : s.heap cmd = some c)
    (hfree : cmd ∉ s.posted) :
    Inv { s with
      heap := Function.update s.heap cmd none
      deleted := s.deleted ++ [cmd]
      commands := s.commands.erase c.id } := by
  have hlookup : s.commands.lookup c.id = some cmd := (h.registered c.id cmd).mpr ⟨c, hc, rfl⟩
  have hnew : cmd ∉ s.deleted := fun hmem => by simp [(h.deleted_gone cmd hmem).1] at hc
  refine ⟨fun id cmd' => ?_, fun cmd' hcmd' => ?_, h.posted_once, fun cmd' hcmd' => ?_,
    fun cmd' hcmd' => ?_, ?_⟩ <;> simp only at *
  -- the id of the erased command is free, and all others stand for what they stood for
  · by_cases hid : id = c.id
    · subst hid
      rw [AList.lookup_erase]
      simp only [reduceCtorEq, false_iff, not_exists, not_and]
      intro c' hc' hid'
      by_cases hne : cmd' = cmd
      · simp [hne] at hc'
      · rw [Function.update_of_ne hne] at hc'
        have hother := (h.registered c.id cmd').mpr ⟨c', hc', hid'⟩
        exact hne (Option.some.inj (hother.symm.trans hlookup))
    · rw [AList.lookup_erase_ne hid, h.registered]
      by_cases hne : cmd' = cmd
      · subst hne
        simp [hc, Ne.symm hid]
      · simp only [Function.update_of_ne hne]
  · have hne : cmd' ≠ cmd := by
      rintro rfl
      exact hfree hcmd'
    rw [Function.update_of_ne hne]
    exact h.posted_alive cmd' hcmd'
  · have hne : cmd' ≠ cmd := by
      rintro rfl
      simp at hcmd'
    rw [Function.update_of_ne hne] at hcmd'
    exact h.old cmd' hcmd'
  -- what was deleted before is another command, since this one was there
  · obtain hmem | hmem := List.mem_append.mp hcmd'
    · have hne : cmd' ≠ cmd := by
        rintro rfl
        exact hnew hmem
      rw [Function.update_of_ne hne]
      exact h.deleted_gone cmd' hmem
    · obtain rfl := List.mem_singleton.mp hmem
      exact ⟨Function.update_self .., h.old cmd' (by simp [hc])⟩
  · rw [List.nodup_append_comm, List.singleton_append, List.nodup_cons]
    exact ⟨hnew, h.deleted_once⟩

theorem eraseCmd_eq (h : Inv s) {cmd : ℕ} {c : Command} (hc : s.heap cmd = some c) :
    s.eraseCmd c.id = some
      { s with
        heap := Function.update s.heap cmd none
        deleted := s.deleted ++ [cmd]
        commands := s.commands.erase c.id } := by
  have hlookup : s.commands.lookup c.id = some cmd := (h.registered c.id cmd).mpr ⟨c, hc, rfl⟩
  simp [eraseCmd, hlookup, hc]

theorem eraseCmd_inv (h : Inv s) {id : ℕ}
    (hfree : ∀ cmd, s.commands.lookup id = some cmd → cmd ∉ s.posted) :
    ∃ s', s.eraseCmd id = some s' ∧ Inv s' := by
  cases hlookup : s.commands.lookup id with
  | none => exact ⟨s, by rw [eraseCmd, hlookup], h⟩
  | some cmd =>
    obtain ⟨c, hc, rfl⟩ := (h.registered id cmd).mp hlookup
    exact ⟨_, eraseCmd_eq h hc, h.erase hc (hfree cmd hlookup)⟩

theorem runPosted_inv (h : Inv s) :
    ∃ s', s.runPosted = some s' ∧ ErasesOwn s .erase s' ∧ Inv s' := by
  unfold runPosted
  cases hposted : s.posted with
  | nil => exact ⟨s, rfl, by simp [ErasesOwn, hposted], h⟩
  | cons cmd posted =>
    obtain ⟨c, hc⟩ := Option.ne_none_iff_exists'.mp (h.posted_alive cmd (by simp [hposted]))
    have honce := h.posted_once
    rw [hposted, List.nodup_cons] at honce
    have hrest : Inv { s with posted := posted } :=
      ⟨h.registered, fun cmd' hcmd' => h.posted_alive cmd' (by simp [hposted, hcmd']), honce.2,
        h.old, h.deleted_gone, h.deleted_once⟩
    simp only [hc]
    refine ⟨_, eraseCmd_eq hrest hc, ?_, hrest.erase hc honce.1⟩
    intro cmd' posted' _ heq
    obtain ⟨rfl, rfl⟩ := List.cons.inj (hposted.symm.trans heq)
    simp [hc]

theorem newCmd_inv (h : Inv s) (c : NewCommand) (tag : String) (id : ℕ) (acts : List Act)
    (honce : (if c.hasNext then acts.flatMap ends else []).Nodup)
    (hnew : ∀ cmd ∈ if c.hasNext then acts.flatMap ends else [], cmd ∉ s.posted) :
    ∃ s', s.newCmd c tag id acts = some s' ∧ Inv s' := by
  have hregister := kept_register h c tag id
  have hposted : ∀ cmd ∈ if c.hasNext then acts.flatMap ends else [],
      cmd ∉ (s.register c tag id).posted := by
    intro cmd hcmd hmem
    obtain hmem | hmem := hregister.posted cmd hmem
    · exact hnew cmd hcmd hmem
    · exact nomatch hmem
  unfold newCmd
  split
  · cases hnext : c.hasNext with
    | false => exact ⟨_, rfl, hregister.inv⟩
    | true =>
      rw [hnext, if_pos rfl] at honce hposted
      exact ⟨_, rfl, (kept_acts hregister.inv acts honce hposted).inv⟩
  · rename_i hsingle
    split
    · exact ⟨_, rfl, hregister.inv⟩
    · rename_i hid
      have hheap : (s.register c tag id).heap s.nextAddress =
          some ⟨id, if c.hasNext then .own else .unset⟩ := by
        simp [register, hsingle, hid, addCommand]
      have hends : (s.register c tag id).lineEnds s.nextAddress acts =
          if c.hasNext then acts.flatMap ends else [] := by
        rw [lineEnds, hheap]
        cases c.hasNext <;> rfl
      have halive : (s.register c tag id).heap s.nextAddress ≠ none := by simp [hheap]
      obtain ⟨s', hs', hkept⟩ := kept_newLine hregister.inv halive acts (by rwa [hends])
        (by rwa [hends])
      exact ⟨s', hs', hkept.inv⟩

/-- A line that answers a command names one that is registered. -/
theorem lookup_of_answer {text : List Char} {cmd id : ℕ} {last : Bool}
    (h : s.request text = .answer cmd id last) : s.commands.lookup id = some cmd := by
  unfold request at h
  split at h
  · exact nomatch h
  · dsimp only at h
    split at h
    · exact nomatch h
    · split at h
      · exact nomatch h
      · split at h
        · exact nomatch h
        · split at h
          · split at h
            · exact nomatch h
            · rename_i cmd' hlookup
              obtain ⟨rfl, rfl, -⟩ := Request.answer.inj h
              exact hlookup
          · split at h
            · exact nomatch h
            · split at h <;> exact nomatch h

theorem parseLine_inv (h : Inv s) (text : List Char) (acts : List Act)
    (horderly : Orderly s (.line text acts)) :
    ∃ s', s.parseLine text acts = some s' ∧ Inv s' := by
  obtain ⟨honce, hfirst, hdropped⟩ := horderly
  unfold parseLine
  cases hrequest : s.request text with
  | fail id code => exact ⟨_, rfl, (kept_writeSome h (some _)).inv⟩
  | drop id =>
    simp only [dropped, hrequest] at hdropped
    exact eraseCmd_inv h fun cmd hcmd => (hdropped cmd hcmd).1
  | answer cmd id last =>
    have hlookup := lookup_of_answer hrequest
    simp only [eventEnds, dropped, hrequest] at honce hfirst hdropped
    obtain ⟨c, hc, -⟩ := (h.registered id cmd).mp hlookup
    obtain ⟨s', hs', hkept⟩ := kept_newLine h (by simp [hc]) acts honce hfirst
    simp only [hs', Option.bind_eq_bind, Option.bind_some]
    cases last with
    | false => exact ⟨s', rfl, hkept.inv⟩
    | true =>
      rw [if_pos rfl]
      apply eraseCmd_inv hkept.inv
      intro cmd' hcmd' hmem
      obtain rfl := Option.some.inj ((hkept.lookup id cmd hlookup).symm.trans hcmd')
      obtain ⟨hposted, hends⟩ := hdropped cmd rfl
      obtain hmem | hmem := hkept.posted cmd hmem
      · exact hposted hmem
      · exact hends hmem
  | create c tag id =>
    simp only [eventEnds, hrequest] at honce hfirst
    exact newCmd_inv h c tag id acts honce hfirst

theorem step_inv (h : Inv s) (e : Event) (horderly : Orderly s e) :
    ∃ s', s.step e = some s' ∧ ErasesOwn s e s' ∧ Inv s' := by
  cases e with
  | line text acts =>
    obtain ⟨s', hs', hinv⟩ := parseLine_inv h text acts horderly
    exact ⟨s', hs', nofun, hinv⟩
  | act a => exact ⟨_, rfl, nofun, (kept_act h a horderly.ends_first).inv⟩
  | erase => exact runPosted_inv h
  | setProtocol prot =>
    exact ⟨_, rfl, nofun, h.registered, h.posted_alive, h.posted_once, h.old, h.deleted_gone,
      h.deleted_once⟩

end Kept

/-- In every run where no command ends twice and the client deletes none that ends, no callback
touches a deleted command or removes another one, no command is deleted twice and no two that are
alive have the same id. -/
theorem lifecycle (prot : Option Protocol) (events : List Event)
    (h : Run.LegalRun step Orderly { protocol := prot } events) :
    Run.SafeRun step Sound ErasesOwn { protocol := prot } events :=
  Run.safeRun_of_inv Inv (fun _ e hinv horderly => step_inv hinv e horderly)
    (fun _ hinv => hinv.sound) (inv_new prot) h

/-! ### A command that ends with the line that deletes it -/

/-- A protocol with one command of the client, and one of its own. -/
def listing : Protocol where
  cmdFromTag tag := if tag = "list_sets" then some ⟨"ListSetsRcv", false, none, true⟩ else none
  tagFromCmd c := if c.type = "CmdListRemotesSnd" then "list_remotes" else ""

/-- A command of the client that is answered at once. -/
def listSets : List Event :=
  [.line "list_sets 5".toList [.respond 0 .ok "\x7b\x7d"], .erase]

/-- A command to a peer that answers and then ends it. -/
def listRemotes : List Event :=
  [.act (.send ⟨"CmdListRemotesSnd", false, some "", true⟩ [6]), .line "r 7 \x7b\x7d".toList [],
    .line "k 7".toList [], .erase]

theorem listSets_safe :
    Run.SafeRun step Sound ErasesOwn { protocol := some listing } listSets := by
  apply lifecycle
  have hline : Orderly { protocol := some listing }
      (.line "list_sets 5".toList [.respond 0 .ok "\x7b\x7d"]) := by
    refine ⟨by decide +kernel, by decide +kernel, ?_⟩
    have hnone : dropped { protocol := some listing }
      (.line "list_sets 5".toList [.respond 0 .ok "\x7b\x7d"]) = none := by decide +kernel
    intro cmd hcmd
    exact nomatch hnone.symm.trans hcmd
  refine ⟨hline, fun t _ => ⟨⟨List.nodup_nil, nofun, nofun⟩, fun _ _ => trivial⟩⟩

theorem listRemotes_unsafe :
    ¬ Run.SafeRun step Sound ErasesOwn { protocol := some listing } listRemotes := by
  intro h
  apply h.foldlM_ne_none
  have hrun : (listRemotes.foldlM step { protocol := some listing }).isNone := by decide +kernel
  exact Option.isNone_iff_eq_none.mp hrun

end ProtocolLocation
end Iks
end Szarp
