import Szarp.Boruta.ModbusClient
import Mathlib.Data.List.Nodup

/-!
# Cycles of Modbus clients

From being scheduled to the end of its cycle a client covers every register once, when it starts
at the beginning. A connection error leaves it where it was.
-/

namespace Szarp
namespace Boruta
namespace ModbusClient

/-! ## Blocks -/

/-- The block of `n` registers from `r` on. -/
def block (r : Reg) (n : ℕ) : List Reg := (List.range n).map fun i => (r.1, r.2 + i)

theorem block_succ (r : Reg) (n : ℕ) : block r (n + 1) = r :: block (r.1, r.2 + 1) n := by
  rw [block, List.range_succ_eq_map, List.map_cons, List.map_map, block]
  congr 1
  apply List.map_congr_left
  intro i _
  simp only [Function.comp_apply, Nat.succ_eq_add_one]
  rw [Nat.add_right_comm, Nat.add_assoc]

theorem next_of_before {r s : Reg} (h : Before r s) (htype : r.1 = s.1)
    (hnext : (r.2 + 1) % 65536 = s.2) : s = (r.1, r.2 + 1) := by
  obtain ⟨hr, hs⟩ | ⟨-, hlt⟩ := h
  · rw [hr, hs] at htype
    contradiction
  · rw [Nat.mod_eq_of_lt (by omega)] at hnext
    exact Prod.ext htype.symm hnext.symm

theorem take_blockLength (registerType : RegisterType) (current regsCount : ℕ) (rest : List Reg)
    (hsorted : ((registerType, current) :: rest).Pairwise Before) :
    ∃ m, blockLength registerType current regsCount rest = regsCount + m ∧
      rest.take m = block (registerType, current + 1) m := by
  induction rest generalizing current regsCount with
  | nil => exact ⟨0, rfl, rfl⟩
  | cons r rest ih =>
    rw [blockLength]
    split
    · rename_i hnext
      obtain ⟨-, htype, haddr⟩ := hnext
      obtain ⟨hbefore, htail⟩ := List.pairwise_cons.mp hsorted
      have hr := next_of_before (hbefore r List.mem_cons_self) htype haddr
      obtain ⟨m, hm, htake⟩ := ih r.2 (regsCount + 1) (by rwa [htype])
      refine ⟨m + 1, by rw [hm]; omega, ?_⟩
      rw [List.take_succ_cons, htake, block_succ, hr]
    · exact ⟨0, rfl, rfl⟩

theorem findContinuousRegBlock_eq {regs : List Reg} {r : Reg} {n : ℕ}
    (hsorted : regs.Pairwise Before) (h : findContinuousRegBlock regs = some (r, n)) :
    regs.take n = block r n ∧ 0 < n := by
  cases regs with
  | nil => contradiction
  | cons s rest =>
    obtain ⟨rfl, rfl⟩ := Prod.mk.inj (Option.some.inj h)
    obtain ⟨m, hm, htake⟩ := take_blockLength s.1 s.2 1 rest hsorted
    rw [hm, Nat.add_comm 1 m, List.take_succ_cons, htake, block_succ]
    exact ⟨rfl, Nat.succ_pos m⟩

theorem take_add_block (s : RSet) (i : ℕ) {r : Reg} {n : ℕ}
    (h : findContinuousRegBlock (s.elements.drop i) = some (r, n)) :
    s.elements.take (i + n) = s.elements.take i ++ block r n := by
  obtain ⟨htake, -⟩ := findContinuousRegBlock_eq s.sorted.drop h
  rw [List.take_add, htake]

/-! ## Queries -/

/-- The registers that are still to be read. -/
def reading (c : ModbusClient) : List Reg :=
  if c.state = .writeQuerySent then [] else c.received.elements.drop c.receivedIterator

def asking (now : ℤ) (r : Reg) (n : ℕ) (c : ModbusClient) : ModbusClient :=
  { c with
    registerType := r.1
    startAddr := r.2
    regsCount := n
    transId := if c.tcp then c.transId + 1 else c.transId
    latestRequestSent := now }

theorem sendNextQuery_eq (now : ℤ) (ok : Bool) (c : ModbusClient) :
    c.sendNextQuery now ok = (((c.nextQuery ok).1.sendQuery now).1,
      (c.nextQuery ok).2 ++ ((c.nextQuery ok).1.sendQuery now).2) := rfl

theorem findContinuousRegBlock_none {regs : List Reg} (h : findContinuousRegBlock regs = none) :
    regs = [] := by
  cases regs with
  | nil => rfl
  | cons r rest => contradiction

theorem reading_of_ne {c : ModbusClient} (h : c.state ≠ .writeQuerySent) :
    c.reading = c.received.elements.drop c.receivedIterator := if_neg h

theorem nextReadQuery_some {c : ModbusClient} {r : Reg} {n : ℕ}
    (h : findContinuousRegBlock (c.received.elements.drop c.receivedIterator) = some (r, n))
    (ok : Bool) :
    c.nextReadQuery ok =
      ({ c.setBlock r n with receivedIterator := c.receivedIterator + n }, []) := by
  rw [nextReadQuery, h]

theorem nextReadQuery_none {c : ModbusClient}
    (h : c.received.elements.drop c.receivedIterator = []) (ok : Bool) :
    c.nextReadQuery ok = { c with state := .writeQuerySent }.nextWriteQuery ok := by
  rw [nextReadQuery, h]
  rfl

theorem nextQuery_read {c : ModbusClient} {r : Reg} {n : ℕ}
    (h : findContinuousRegBlock c.reading = some (r, n)) (ok : Bool) :
    c.nextQuery ok = ({ c.setBlock r n with
      state := .readQuerySent
      receivedIterator := c.receivedIterator + n }, []) := by
  cases hstate : c.state with
  | writeQuerySent =>
    rw [reading, if_pos hstate] at h
    contradiction
  | readQuerySent =>
    rw [reading_of_ne (by rw [hstate]; decide)] at h
    rw [nextQuery, hstate]
    change c.nextReadQuery ok = _
    rw [nextReadQuery_some h, setBlock, hstate]
  | idle =>
    rw [reading_of_ne (by rw [hstate]; decide)] at h
    rw [nextQuery, hstate]
    exact nextReadQuery_some (c := { c with state := .readQuerySent }) h ok

theorem nextQuery_write {c : ModbusClient} (h : c.reading = []) (ok : Bool) :
    c.nextQuery ok = { c with state := .writeQuerySent }.nextWriteQuery ok := by
  cases hstate : c.state with
  | writeQuerySent =>
    rw [nextQuery, hstate]
    change c.nextWriteQuery ok = _
    rw [← hstate]
  | readQuerySent =>
    rw [reading_of_ne (by rw [hstate]; decide)] at h
    rw [nextQuery, hstate]
    exact nextReadQuery_none h ok
  | idle =>
    rw [reading_of_ne (by rw [hstate]; decide)] at h
    rw [nextQuery, hstate]
    exact nextReadQuery_none (c := { c with state := .readQuerySent }) h ok

/-- The next query is sent, or the cycle is over. -/
theorem sendNextQuery_cases (now : ℤ) (ok : Bool) (c : ModbusClient) :
    (∃ r n, findContinuousRegBlock c.reading = some (r, n) ∧ ∃ pdu, c.sendNextQuery now ok =
      ({ c.asking now r n with
          state := .readQuerySent
          receivedIterator := c.receivedIterator + n },
        [.send ⟨false, r.1, r.2, n, (c.asking now r n).transId, c.id, pdu⟩])) ∨
    (∃ r n, c.reading = [] ∧
      findContinuousRegBlock (c.sent.elements.drop c.sentIterator) = some (r, n) ∧
      ∃ pdu, c.sendNextQuery now ok =
        ({ c.asking now r n with
            state := .writeQuerySent
            sentIterator := c.sentIterator + n },
          [.send ⟨true, r.1, r.2, n, (c.asking now r n).transId, c.id, pdu⟩])) ∨
    c.reading = [] ∧ c.sent.elements.drop c.sentIterator = [] ∧
      c.sendNextQuery now ok =
        ({ c with state := .idle, receivedIterator := 0, sentIterator := 0 },
          [if ok then .cycleFinished else .terminateConnection]) := by
  rw [sendNextQuery_eq]
  cases hread : findContinuousRegBlock c.reading with
  | some found =>
    left
    refine ⟨found.1, found.2, rfl, ?_⟩
    rw [nextQuery_read hread]
    exact ⟨_, rfl⟩
  | none =>
    right
    have hreading := findContinuousRegBlock_none hread
    rw [nextQuery_write hreading, nextWriteQuery]
    cases hwrite : findContinuousRegBlock (c.sent.elements.drop c.sentIterator) with
    | some found =>
      left
      refine ⟨found.1, found.2, hreading, rfl, ?_⟩
      exact ⟨_, rfl⟩
    | none =>
      right
      exact ⟨hreading, findContinuousRegBlock_none hwrite, rfl⟩

/-! ## Cycles -/

/-- A client with the queries of its cycle, from being scheduled on, and the cycles that have
ended. -/
structure Tracked where
  client : ModbusClient
  cycle : Option (List Query)
  finished : List (List Query)

namespace Tracked

def act (s : Tracked) : Action → Tracked
  | .send q => { s with cycle := s.cycle.map (· ++ [q]) }
  | .cycleFinished | .terminateConnection =>
    { s with cycle := none, finished := s.finished ++ s.cycle.toList }

/-- A cycle begins when the client is scheduled, and is cut short by a connection error. -/
def cycleFrom (s : Tracked) : Event → Option (List Query)
  | .scheduled _ => some []
  | .connectionError => none
  | _ => s.cycle

def step (s : Tracked) (e : Event) : Tracked :=
  (s.client.step e).2.foldl act
    { s with client := (s.client.step e).1, cycle := s.cycleFrom e }

/-- A client is scheduled when it is not in a cycle; the frames are those of its medium. -/
def Domain (s : Tracked) : Event → Prop
  | .scheduled _ => s.cycle = none
  | .frameParsed .. => s.client.tcp = true
  | .sduParsed .. => s.client.tcp = false
  | _ => True

/-- Every register is covered by exactly one query of the cycle. -/
def Complete (c : ModbusClient) (cycle : List Query) : Prop :=
  (∀ r ∈ c.received.elements, cycle.countP (fun q => !q.write && r ∈ q.registers) = 1) ∧
    ∀ r ∈ c.sent.elements, cycle.countP (fun q => q.write && r ∈ q.registers) = 1

def CyclesComplete (s : Tracked) (e : Event) : Prop :=
  ∀ cycle ∈ (s.step e).finished, Complete (s.step e).client cycle

/-- There is no connection error while the answer to a query is awaited, and no frame with another
transaction id while none is. -/
def Undisturbed (s : Tracked) : Event → Prop
  | .connectionError => s.client.state = .idle
  | .frameParsed _ adu =>
    s.client.state = .idle → s.client.transId.toNat = adu.transId.toNat
  | _ => True

/-! ## Coverage -/

theorem nodup_block (r : Reg) (n : ℕ) : (block r n).Nodup := by
  apply List.Nodup.map _ List.nodup_range
  intro i j h
  exact Nat.add_left_cancel (Prod.mk.inj h).2

/-- How many queries cover a register. -/
theorem countP_registers (queries : List Query) (r : Reg) :
    queries.countP (fun q => decide (r ∈ q.registers)) =
      (queries.flatMap Query.registers).count r := by
  induction queries with
  | nil => rfl
  | cons q queries ih =>
    have hnodup : q.registers.Nodup := nodup_block (q.registerType, q.startAddr) q.regsCount
    rw [List.countP_cons, ih, List.flatMap_cons, List.count_append, Nat.add_comm]
    congr 1
    by_cases h : r ∈ q.registers
    · rw [List.count_eq_one_of_mem hnodup h, if_pos (decide_eq_true h)]
    · rw [List.count_eq_zero_of_not_mem h, if_neg (by simpa using h)]

theorem nodup_elements (s : RSet) : s.elements.Nodup := by
  apply s.sorted.imp
  intro r t hbefore heq
  rw [heq] at hbefore
  obtain ⟨hholding, hinput⟩ | ⟨-, hlt⟩ := hbefore
  · rw [hholding] at hinput
    contradiction
  · exact lt_irrefl _ hlt

theorem countP_eq_one {queries : List Query} {p : Query → Bool} {s : RSet}
    (h : (queries.filter p).flatMap Query.registers = s.elements) {r : Reg}
    (hr : r ∈ s.elements) : queries.countP (fun q => p q && r ∈ q.registers) = 1 := by
  have hfilter : queries.countP (fun q => p q && r ∈ q.registers) =
      (queries.filter p).countP fun q => decide (r ∈ q.registers) := by
    rw [List.countP_filter]
    congr 1
    funext q
    rw [Bool.and_comm]
  rw [hfilter, countP_registers, h]
  exact List.count_eq_one_of_mem (nodup_elements s) hr

/-- The queries of a cycle cover the registers before the iterators. -/
structure Running (c : ModbusClient) (cycle : List Query) : Prop where
  reads : (cycle.filter fun q => !q.write).flatMap Query.registers =
    c.received.elements.take c.receivedIterator
  writes : (cycle.filter fun q => q.write).flatMap Query.registers =
    c.sent.elements.take c.sentIterator
  written : c.state = .writeQuerySent → c.received.elements.drop c.receivedIterator = []

theorem Running.withRegisters {c : ModbusClient} {cycle : List Query} (h : Running c cycle)
    (registers : ℕ → Register) (currentTime : ℤ) :
    Running { c with registers, currentTime } cycle := ⟨h.reads, h.writes, h.written⟩

theorem take_of_drop {s : RSet} {i : ℕ} (h : s.elements.drop i = []) :
    s.elements.take i = s.elements :=
  List.take_of_length_le (List.drop_eq_nil_iff.mp h)

theorem Running.complete {c : ModbusClient} {cycle : List Query} (h : Running c cycle)
    (hreceived : c.received.elements.drop c.receivedIterator = [])
    (hsent : c.sent.elements.drop c.sentIterator = []) : Complete c cycle :=
  ⟨fun _ hr => countP_eq_one (h.reads.trans (take_of_drop hreceived)) hr,
    fun _ hr => countP_eq_one (h.writes.trans (take_of_drop hsent)) hr⟩

structure Invariant (s : Tracked) : Prop where
  idle_iff : s.client.state = .idle ↔ s.cycle = none
  begins : s.client.state = .idle → s.client.receivedIterator = 0 ∧ s.client.sentIterator = 0
  running : ∀ cycle, s.cycle = some cycle → Running s.client cycle
  finished : ∀ cycle ∈ s.finished, Complete s.client cycle

theorem Running.sendNextQuery {c : ModbusClient} {cycle : List Query} (h : Running c cycle)
    {finished : List (List Query)} (hfinished : ∀ cycle ∈ finished, Complete c cycle) (now : ℤ)
    (ok : Bool) :
    ((c.sendNextQuery now ok).2.foldl act
      ⟨(c.sendNextQuery now ok).1, some cycle, finished⟩).Invariant := by
  have hdrop : c.reading = [] → c.received.elements.drop c.receivedIterator = [] := by
    intro hreading
    by_cases hstate : c.state = .writeQuerySent
    · exact h.written hstate
    · rwa [reading_of_ne hstate] at hreading
  rcases c.sendNextQuery_cases now ok with ⟨r, n, hread, pdu, heq⟩ |
    ⟨r, n, hreading, hwrite, pdu, heq⟩ | ⟨hreading, hsent, heq⟩
  -- a block of registers to be received: the iterator moves behind it
  · have hne : c.state ≠ .writeQuerySent := by
      intro hstate
      rw [reading, if_pos hstate] at hread
      contradiction
    rw [reading_of_ne hne] at hread
    rw [heq]
    refine ⟨⟨fun hidle => State.noConfusion hidle, fun hnone => absurd hnone (Option.some_ne_none _)⟩,
      fun hidle => State.noConfusion hidle, ?_, hfinished⟩
    intro cycle' hcycle'
    obtain rfl : cycle ++ [_] = cycle' := Option.some.inj hcycle'
    refine ⟨?_, ?_, fun hstate => State.noConfusion hstate⟩
    · rw [List.filter_append, List.flatMap_append, h.reads]
      change _ ++ (block r n ++ []) = c.received.elements.take (c.receivedIterator + n)
      rw [take_add_block c.received _ hread, List.append_nil]
    · rw [List.filter_append, List.flatMap_append, h.writes]
      exact List.append_nil _
  -- everything is received, and a block is sent
  · rw [heq]
    refine ⟨⟨fun hidle => State.noConfusion hidle, fun hnone => absurd hnone (Option.some_ne_none _)⟩,
      fun hidle => State.noConfusion hidle, ?_, hfinished⟩
    intro cycle' hcycle'
    obtain rfl : cycle ++ [_] = cycle' := Option.some.inj hcycle'
    refine ⟨?_, ?_, fun _ => hdrop hreading⟩
    · rw [List.filter_append, List.flatMap_append, h.reads]
      exact List.append_nil _
    · rw [List.filter_append, List.flatMap_append, h.writes]
      change _ ++ (block r n ++ []) = c.sent.elements.take (c.sentIterator + n)
      rw [take_add_block c.sent _ hwrite, List.append_nil]
  -- the cycle ends with all of both sets covered
  · rw [heq]
    have hcomplete := h.complete (hdrop hreading) hsent
    have hlast : ∀ cycle' ∈ finished ++ [cycle], Complete c cycle' := by
      intro cycle' hcycle'
      rcases List.mem_append.mp hcycle' with hold | hnew
      · exact hfinished cycle' hold
      · rwa [List.mem_singleton.mp hnew]
    cases ok <;>
      exact ⟨⟨fun _ => rfl, fun _ => rfl⟩, fun _ => ⟨rfl, rfl⟩,
        fun _ hcycle => absurd hcycle.symm (Option.some_ne_none _), hlast⟩

/-! ## Steps -/

theorem setRegisters_eq (data : List Byte) (addrs : List ℕ) (c : ModbusClient) :
    ∃ registers, c.setRegisters data addrs = { c with registers } := by
  induction addrs generalizing data c with
  | nil => exact ⟨c.registers, by rw [setRegisters.eq_def]⟩
  | cons addr addrs ih =>
    match data with
    | [] => exact ⟨c.registers, by rw [setRegisters.eq_def]⟩
    | [_] => exact ⟨c.registers, by rw [setRegisters.eq_def]⟩
    | high :: low :: data =>
      obtain ⟨registers, heq⟩ := ih data
        { c with registers := Function.update c.registers (addr % 65536) ⟨high ++ low, c.currentTime⟩ }
      exact ⟨registers, by rw [setRegisters, heq]⟩

theorem consumeReadRegsResponse_eq {pdu : PDU} {c c' : ModbusClient}
    (h : c.consumeReadRegsResponse pdu = some c') : ∃ registers, c' = { c with registers } := by
  rw [consumeReadRegsResponse] at h
  split_ifs at h
  · exact ⟨c.registers, (Option.some.inj h).symm⟩
  · obtain ⟨registers, heq⟩ := setRegisters_eq pdu.data.tail
      (List.range' c.startAddr c.regsCount) c
    exact ⟨registers, by rw [← Option.some.inj h, heq]⟩

theorem pduReceived_cases (now : ℤ) (u : Byte) (pdu : PDU) (c : ModbusClient) :
    c.pduReceived now u pdu = (c, []) ∨
      c.state ≠ .idle ∧ ∃ registers ok,
        c.pduReceived now u pdu = { c with registers }.sendNextQuery now ok := by
  rw [pduReceived]
  split
  · exact Or.inl rfl
  · cases hstate : c.state with
    | idle => exact Or.inl rfl
    | readQuerySent =>
      right
      refine ⟨State.noConfusion, ?_⟩
      dsimp only
      split
      · rename_i c' hconsume
        obtain ⟨registers, rfl⟩ := consumeReadRegsResponse_eq hconsume
        exact ⟨registers, true, by rw [← hstate]⟩
      · exact ⟨c.registers, false, by rw [← hstate]⟩
    | writeQuerySent =>
      right
      refine ⟨State.noConfusion, ?_⟩
      dsimp only
      split
      · rename_i c' hconsume
        rw [consumeWriteRegsResponse] at hconsume
        split at hconsume
        · contradiction
        · obtain rfl := Option.some.inj hconsume
          exact ⟨c.registers, true, by rw [← hstate]⟩
      · exact ⟨c.registers, false, by rw [← hstate]⟩

theorem timeout_eq (now : ℤ) (c : ModbusClient) :
    c.timeout now = if c.state = .idle then (c, []) else c.sendNextQuery now false := by
  rw [timeout]
  cases c.state <;> rfl

/-- Nothing is sent, or the next query is. -/
theorem step_cases (c : ModbusClient) {e : Event} (he : e ≠ .connectionError) :
    ∃ registers currentTime,
      (∀ now, e ≠ .scheduled now) ∧ c.step e = ({ c with registers, currentTime }, []) ∨
        ((∃ now, e = .scheduled now) ∨ c.state ≠ .idle ∨
            ∃ now adu, e = .frameParsed now adu ∧ c.transId.toNat ≠ adu.transId.toNat) ∧
          ∃ now ok, c.step e = { c with registers, currentTime }.sendNextQuery now ok := by
  cases e with
  | connectionError => contradiction
  | scheduled now =>
    exact ⟨c.registers, c.currentTime, Or.inr ⟨Or.inl ⟨now, rfl⟩, now, true, rfl⟩⟩
  | frameParsed now adu =>
    by_cases hid : c.transId.toNat ≠ adu.transId.toNat
    -- a frame with another transaction id does what a timeout does
    · refine ⟨c.registers, c.currentTime,
        Or.inr ⟨Or.inr (Or.inr ⟨now, adu, rfl, hid⟩), now, false, ?_⟩⟩
      exact if_pos hid
    · have hstep : c.step (.frameParsed now adu) = c.pduReceived now adu.unitId adu.pdu :=
        if_neg hid
      rw [hstep]
      rcases pduReceived_cases now adu.unitId adu.pdu c with heq | ⟨hstate, registers, ok, heq⟩
      · exact ⟨c.registers, c.currentTime, Or.inl ⟨fun _ => Event.noConfusion, heq⟩⟩
      · exact ⟨registers, c.currentTime, Or.inr ⟨Or.inr (Or.inl hstate), now, ok, heq⟩⟩
  | sduParsed now u pdu =>
    rcases pduReceived_cases now u pdu c with heq | ⟨hstate, registers, ok, heq⟩
    · exact ⟨c.registers, c.currentTime, Or.inl ⟨fun _ => Event.noConfusion, heq⟩⟩
    · exact ⟨registers, c.currentTime, Or.inr ⟨Or.inr (Or.inl hstate), now, ok, heq⟩⟩
  | timeout now =>
    refine ⟨c.registers, c.currentTime, ?_⟩
    have hstep : c.step (.timeout now) = c.timeout now := rfl
    rw [hstep, timeout_eq]
    by_cases hstate : c.state = .idle
    · exact Or.inl ⟨fun _ => Event.noConfusion, if_pos hstate⟩
    · exact Or.inr ⟨Or.inr (Or.inl hstate), now, false, if_neg hstate⟩
  | startingNewCycle now sender =>
    refine ⟨sender.foldl (fun registers (s : ℕ × Short) =>
      Function.update registers s.1 ⟨s.2, now⟩) c.registers, now, ?_⟩
    rw [ModbusClient.step, startingNewCycle]
    dsimp only
    cases hstate : c.state with
    | idle => exact Or.inl ⟨fun _ => Event.noConfusion, rfl⟩
    | readQuerySent =>
      dsimp only
      split
      · exact Or.inr ⟨Or.inr (Or.inl State.noConfusion), now, false, rfl⟩
      · exact Or.inl ⟨fun _ => Event.noConfusion, rfl⟩
    | writeQuerySent =>
      dsimp only
      split
      · exact Or.inr ⟨Or.inr (Or.inl State.noConfusion), now, false, rfl⟩
      · exact Or.inl ⟨fun _ => Event.noConfusion, rfl⟩

theorem cycleFrom_eq (s : Tracked) {e : Event} (hscheduled : ∀ now, e ≠ .scheduled now)
    (herror : e ≠ .connectionError) : s.cycleFrom e = s.cycle := by
  cases e with
  | scheduled now => exact absurd rfl (hscheduled now)
  | connectionError => contradiction
  | frameParsed now adu => rfl
  | sduParsed now u pdu => rfl
  | timeout now => rfl
  | startingNewCycle now sender => rfl

/-- Before a query is sent, the cycle covers what lies before the iterators. -/
theorem Invariant.running_of_send {s : Tracked} (h : s.Invariant) {e : Event}
    (he : e ≠ .connectionError) (hdomain : s.Domain e) (hundisturbed : s.Undisturbed e)
    (hwhy : (∃ now, e = .scheduled now) ∨ s.client.state ≠ .idle ∨
      ∃ now adu, e = .frameParsed now adu ∧ s.client.transId.toNat ≠ adu.transId.toNat) :
    ∃ cycle, s.cycleFrom e = some cycle ∧ Running s.client cycle := by
  by_cases hscheduled : ∃ now, e = .scheduled now
  · obtain ⟨now, rfl⟩ := hscheduled
    have hidle := h.idle_iff.mpr hdomain
    obtain ⟨hreceived, hsent⟩ := h.begins hidle
    refine ⟨[], rfl, ?_, ?_, fun hstate => ?_⟩
    · rw [hreceived]
      rfl
    · rw [hsent]
      rfl
    · rw [hidle] at hstate
      contradiction
  · rw [not_exists] at hscheduled
    have hbusy : s.client.state ≠ .idle := by
      rcases hwhy with ⟨now, heq⟩ | hbusy | ⟨now, adu, rfl, hid⟩
      · exact absurd heq (hscheduled now)
      · exact hbusy
      · exact fun hidle => hid (hundisturbed hidle)
    have hcycle : s.cycle ≠ none := fun hnone => hbusy (h.idle_iff.mpr hnone)
    obtain ⟨cycle, hcycle⟩ := Option.ne_none_iff_exists'.mp hcycle
    exact ⟨cycle, (cycleFrom_eq s hscheduled he).trans hcycle, h.running cycle hcycle⟩

theorem Invariant.step {s : Tracked} (h : s.Invariant) {e : Event} (hdomain : s.Domain e)
    (hundisturbed : s.Undisturbed e) : (s.step e).Invariant := by
  by_cases he : e = .connectionError
  · subst he
    have hidle : s.client.state = .idle := hundisturbed
    refine ⟨⟨fun _ => rfl, fun _ => rfl⟩, fun _ => h.begins hidle, ?_, h.finished⟩
    exact fun _ hcycle => absurd hcycle.symm (Option.some_ne_none _)
  · obtain ⟨registers, currentTime, ⟨hscheduled, heq⟩ | ⟨hwhy, now, ok, heq⟩⟩ :=
      step_cases s.client he
    · have hcycle := cycleFrom_eq s hscheduled he
      rw [Tracked.step, heq, hcycle]
      exact ⟨h.idle_iff, h.begins,
        fun cycle hcycle => (h.running cycle hcycle).withRegisters registers currentTime,
        h.finished⟩
    · obtain ⟨cycle, hcycle, hrunning⟩ := h.running_of_send he hdomain hundisturbed hwhy
      rw [Tracked.step, heq, hcycle]
      exact (hrunning.withRegisters registers currentTime).sendNextQuery h.finished now ok

/-- In a run that is not disturbed every cycle of a client is complete. -/
theorem cycles_complete (tcp : Bool) (id : Byte) (received sent : RSet) (requestTimeout : ℤ)
    (es : List Event)
    (hes : Run.Along step Domain ⟨configured tcp id received sent requestTimeout, none, []⟩ es)
    (hundisturbed :
      Run.Along step Undisturbed ⟨configured tcp id received sent requestTimeout, none, []⟩ es) :
    Run.Along step CyclesComplete ⟨configured tcp id received sent requestTimeout, none, []⟩
      es := by
  have hinv : (⟨configured tcp id received sent requestTimeout, none, []⟩ : Tracked).Invariant := by
    refine ⟨⟨fun _ => rfl, fun _ => rfl⟩, fun _ => ⟨rfl, rfl⟩, ?_, ?_⟩
    · exact fun _ hcycle => absurd hcycle.symm (Option.some_ne_none _)
    · exact fun _ hcycle => absurd hcycle List.not_mem_nil
  exact Run.along_of_inv (fun _ _ hs hlegal hq => hs.step hlegal hq)
    (fun _ _ hs hlegal hq => (hs.step hlegal hq).finished) hinv hes hundisturbed

def twoBlocks : RSet where
  elements := [(.holding, 0), (.holding, 2)]
  sorted := List.pairwise_pair.mpr (Or.inr ⟨rfl, Nat.zero_lt_two⟩)
  range := by decide

/-- No answer comes for the first block. -/
theorem timeout_complete :
    Run.Along step CyclesComplete ⟨configured true 1 twoBlocks ⟨[], .nil, by decide⟩ 10, none, []⟩
      [.scheduled 0, .timeout 10, .timeout 20] :=
  cycles_complete true 1 twoBlocks ⟨[], .nil, by decide⟩ 10 _
    ⟨rfl, trivial, trivial, trivial⟩ ⟨trivial, trivial, trivial, trivial⟩

/-- After a connection error the next cycle leaves out the first block. -/
theorem connectionError_incomplete :
    Run.Along step Domain ⟨configured true 1 twoBlocks ⟨[], .nil, by decide⟩ 10, none, []⟩
        [.scheduled 0, .connectionError, .scheduled 10, .timeout 20] ∧
      ¬Run.Along step CyclesComplete
        ⟨configured true 1 twoBlocks ⟨[], .nil, by decide⟩ 10, none, []⟩
        [.scheduled 0, .connectionError, .scheduled 10, .timeout 20] := by
  refine ⟨⟨rfl, trivial, rfl, trivial, trivial⟩, ?_⟩
  rintro ⟨-, -, -, hcomplete, -⟩
  have hcount := (hcomplete _ List.mem_cons_self).1 (.holding, 0) List.mem_cons_self
  revert hcount
  decide

end Tracked
end ModbusClient
end Boruta
end Szarp
