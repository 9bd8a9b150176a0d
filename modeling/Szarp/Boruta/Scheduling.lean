import Szarp.Boruta.ClientManager
import Mathlib.Data.List.Basic

/-!
# Whose turn it is

At most one driver of a connection runs, the current one. A connection that is open with nobody running
is left by a serial port that cannot be reopened between two drivers and by drivers that call the
manager when they are told of a connection error.
-/

namespace Szarp
namespace Boruta
namespace ClientConnection

/-! ## Turns -/

/-- At most the current driver runs, and on an open connection it has been scheduled. -/
structure InTurn (c : ClientConnection) : Prop where
  current_le : c.current ≤ c.clients
  running : c.running = [] ∨ c.running = [c.current]
  scheduled : c.medium.state = .connected → c.current < c.clients → c.current ∈ c.scheduled

/-- There are drivers, and they run on an open connection. -/
structure Held (c : ClientConnection) : Prop where
  pos : 0 < c.clients
  running : c.running ≠ [] → c.medium.state = .connected ∧ c.current < c.clients

/-- The calls are those of drivers that run. -/
def CallsOfRunning (c : ClientConnection) (calls : List Call) : Prop :=
  Run.LegalRun call (fun c call => call.driver ∈ c.running) c calls

def Domain (c : ClientConnection) : Event → Prop
  | .call call => call.driver ∈ c.running
  | .read => c.medium.state = .connected
  | .error calls _ =>
    (c.medium.state = .connected ∨ c.medium = .tcp .connecting) ∧ c.CallsOfRunning calls
  | .connected => c.medium = .tcp .connecting
  | .timer calls =>
    (c.medium = .tcp .idling ∨ c.medium = .tcp .connecting) ∧ c.CallsOfRunning calls
  | .addressResolved .. => c.medium = .tcp .resolvingAddr

/-- A driver other than the last one has had the connection terminated and it is not open again. -/
def Released (clients : ℕ) (tcp : Bool) : Call → Prop
  | .finishedJob _ => False
  | .terminate driver opens => driver + 1 < clients ∧ (tcp = true ∨ opens = false)

/-- Drivers that are told of a connection error do not call the manager, or leave the connection
closed. -/
def Steady (c : ClientConnection) : Event → Prop
  | .error calls _ => ∀ call, calls.getLast? = some call → Released c.clients c.medium.isTcp call
  | _ => True

/-- A serial port is not opened at the start of a cycle while a driver has its turn. -/
def SteadyCycle (c : ClientConnection) (opens : Bool) : Prop :=
  c.medium = .serial false → opens = true → c.current = c.clients

/-! ## Connections -/

theorem terminate_eq (c : ClientConnection) :
    ∃ medium, c.terminate = { c with medium } ∧ medium.isTcp = c.medium.isTcp ∧
      medium.state ≠ .connected := by
  obtain ⟨medium, clients, current, running, scheduled⟩ := c
  cases medium with
  | serial isOpen => exact ⟨.serial false, rfl, rfl, ConnectionState.noConfusion⟩
  | tcp state =>
    cases state with
    | connected => exact ⟨.tcp .idling, rfl, rfl, ConnectionState.noConfusion⟩
    | connecting => exact ⟨.tcp .idling, rfl, rfl, ConnectionState.noConfusion⟩
    | notConnected => exact ⟨.tcp .notConnected, rfl, rfl, ConnectionState.noConfusion⟩
    | idling => exact ⟨.tcp .idling, rfl, rfl, ConnectionState.noConfusion⟩
    | resolvingAddr => exact ⟨.tcp .resolvingAddr, rfl, rfl, ConnectionState.noConfusion⟩

/-- A closed connection is opened at once when it is a serial one. -/
theorem establish_cases {c : ClientConnection} (h : c.medium.state ≠ .connected) (opens : Bool) :
    c.medium = .serial false ∧ opens = true ∧
        c.establish opens = { c with medium := .serial true, scheduled := [] } ∨
      (c.medium.isTcp = true ∨ opens = false) ∧ ∃ medium, medium.isTcp = c.medium.isTcp ∧
        medium.state ≠ .connected ∧ c.establish opens = { c with medium } := by
  obtain ⟨medium, clients, current, running, scheduled⟩ := c
  cases medium with
  | serial isOpen =>
    cases isOpen with
    | true => exact absurd rfl h
    | false =>
      cases opens with
      | true => exact Or.inl ⟨rfl, rfl, rfl⟩
      | false => exact Or.inr ⟨Or.inr rfl, .serial false, rfl, h, rfl⟩
  | tcp state =>
    refine Or.inr ⟨Or.inl rfl, ?_⟩
    cases state with
    | notConnected => exact ⟨.tcp .resolvingAddr, rfl, ConnectionState.noConfusion, rfl⟩
    | connected => exact absurd rfl h
    | connecting => exact ⟨.tcp .connecting, rfl, h, rfl⟩
    | idling => exact ⟨.tcp .idling, rfl, h, rfl⟩
    | resolvingAddr => exact ⟨.tcp .resolvingAddr, rfl, h, rfl⟩

theorem establish_connected {c : ClientConnection} (h : c.medium.state = .connected)
    (opens : Bool) : c.establish opens = c := by
  obtain ⟨medium, clients, current, running, scheduled⟩ := c
  cases medium with
  | serial isOpen =>
    cases isOpen with
    | true => rfl
    | false => contradiction
  | tcp state =>
    obtain rfl : state = .connected := h
    rfl

/-! ## Scheduling -/

/-- It is the turn of a driver that runs, or of one that waits for the connection. -/
structure Turn (c : ClientConnection) : Prop where
  inTurn : c.InTurn
  held : c.Held

theorem Turn.running_of_mem {c : ClientConnection} (h : c.Turn) {driver : ℕ}
    (hdriver : driver ∈ c.running) :
    driver = c.current ∧ c.running = [c.current] ∧ c.medium.state = .connected ∧
      c.current < c.clients := by
  have hne : c.running ≠ [] := List.ne_nil_of_mem hdriver
  have hrunning : c.running = [c.current] := h.inTurn.running.resolve_left hne
  rw [hrunning, List.mem_singleton] at hdriver
  exact ⟨hdriver, hrunning, h.held.running hne⟩

theorem turn_of_closed {c : ClientConnection} (hrunning : c.running = [])
    (hclosed : c.medium.state ≠ .connected) (hpos : 0 < c.clients)
    (hle : c.current ≤ c.clients) : c.Turn :=
  ⟨⟨hle, Or.inl hrunning, fun h => absurd h hclosed⟩, hpos, fun h => absurd hrunning h⟩

theorem turn_of_done {c : ClientConnection} (hrunning : c.running = []) (hpos : 0 < c.clients)
    (hcurrent : c.current = c.clients) : c.Turn :=
  ⟨⟨Nat.le_of_eq hcurrent, Or.inl hrunning, fun _ hlt => absurd hcurrent (Nat.ne_of_lt hlt)⟩, hpos,
    fun h => absurd hrunning h⟩

theorem schedule_turn {c : ClientConnection} (hrunning : c.running = [])
    (hopen : c.medium.state = .connected) (hlt : c.current < c.clients) :
    ∃ d, c.schedule c.current = some d ∧ d.Turn ∧ d.current = c.current ∧ d.clients = c.clients ∧
      d.medium = c.medium ∧ d.running = [c.current] := by
  refine ⟨_, if_pos hlt, ⟨⟨Nat.le_of_lt hlt, Or.inr ?_, fun _ _ => ?_⟩, Nat.zero_lt_of_lt hlt,
    fun _ => ⟨hopen, hlt⟩⟩, rfl, rfl, rfl, ?_⟩
  · rw [hrunning]
    rfl
  · exact List.mem_append_right _ List.mem_cons_self
  · rw [hrunning]
    rfl

/-- When a connection is closed, the next driver is scheduled at once or waits. -/
theorem nextConnected_turn {c : ClientConnection} (hrunning : c.running = [])
    (hclosed : c.medium.state ≠ .connected) (hlt : c.current < c.clients) (opens : Bool) :
    ∃ d, c.nextConnected opens = some d ∧ d.Turn ∧ d.current = c.current ∧
      d.clients = c.clients ∧ d.medium.isTcp = c.medium.isTcp ∧
      (d.running = [] ↔ c.medium.isTcp = true ∨ opens = false) := by
  rw [nextConnected]
  rcases establish_cases hclosed opens with ⟨hserial, hopens, heq⟩ |
    ⟨hstays, medium, htcp, hstate, heq⟩
  · rw [heq]
    obtain ⟨d, hd, hturn, hcurrent, hclients, hmedium, hdriver⟩ := schedule_turn
      (c := { c with medium := .serial true, scheduled := [] }) hrunning rfl hlt
    refine ⟨d, hd, hturn, hcurrent, hclients, ?_, ?_⟩
    · rw [hmedium, hserial]
      rfl
    · rw [hdriver, hserial, hopens]
      simp [Medium.isTcp]
  · rw [heq]
    have hturn : ({ c with medium } : ClientConnection).Turn :=
      turn_of_closed hrunning hstate (Nat.zero_lt_of_lt hlt) (Nat.le_of_lt hlt)
    exact ⟨_, if_neg hstate, hturn, rfl, rfl, htcp, fun _ => hstays, fun _ => hrunning⟩

/-! ## Calls -/

theorem finish_current {c : ClientConnection} (h : c.running = [c.current]) :
    (c.finish c.current).running = [] := by
  change c.running.erase c.current = []
  rw [h]
  exact List.erase_cons_head c.current []

/-- A driver that runs gives the turn to the next one, which waits only when the connection has been
terminated and is not open again. -/
theorem call_turn {c : ClientConnection} (h : c.Turn) {call : Call}
    (hdriver : call.driver ∈ c.running) :
    ∃ d, c.call call = some d ∧ d.Turn ∧ d.current = c.current + 1 ∧ d.clients = c.clients ∧
      d.medium.isTcp = c.medium.isTcp ∧
      (d.running = [] ∧ d.current < d.clients ↔ Released c.clients c.medium.isTcp call) := by
  obtain ⟨hcurrent, hrunning, hopen, hlt⟩ := h.running_of_mem hdriver
  have hdone := finish_current hrunning
  cases call with
  | finishedJob driver =>
    obtain rfl : driver = c.current := hcurrent
    rw [ClientConnection.call, driverFinishedJob]
    by_cases hnext : c.current + 1 < c.clients
    · obtain ⟨d, hd, hturn, hcur, hclients, hmedium, hrun⟩ := schedule_turn
        (c := { c.finish c.current with current := c.current + 1 }) hdone hopen hnext
      refine ⟨d, ?_, hturn, hcur, hclients, congrArg Medium.isTcp hmedium, ?_⟩
      · exact (if_neg (not_not.mpr rfl)).trans ((if_pos hnext).trans hd)
      · rw [hrun]
        exact ⟨fun hnil => absurd hnil.1 (List.cons_ne_nil _ _), False.elim⟩
    · have hlast : c.current + 1 = c.clients := by omega
      refine ⟨_, (if_neg (not_not.mpr rfl)).trans (if_neg hnext), ?_, rfl, rfl, rfl, ?_⟩
      · exact turn_of_done hdone h.held.pos hlast
      · exact ⟨fun hwaits => absurd hwaits.2 hnext, False.elim⟩
  | terminate driver opens =>
    obtain rfl : driver = c.current := hcurrent
    rw [ClientConnection.call, terminateConnection]
    obtain ⟨medium, heq, htcp, hclosed⟩ := (c.finish c.current).terminate_eq
    rw [heq]
    by_cases hnext : c.current + 1 < c.clients
    · obtain ⟨d, hd, hturn, hcur, hclients, hmedium, hrun⟩ := nextConnected_turn
        (c := { c.finish c.current with medium, current := c.current + 1 }) hdone hclosed hnext
        opens
      refine ⟨d, ?_, hturn, hcur, hclients, hmedium.trans htcp, ?_⟩
      · exact (if_pos hlt).trans ((if_neg (not_not.mpr rfl)).trans ((if_pos hnext).trans hd))
      · rw [hrun, hcur, hclients]
        change (medium.isTcp = true ∨ opens = false) ∧ c.current + 1 < c.clients ↔
          c.current + 1 < c.clients ∧ (c.medium.isTcp = true ∨ opens = false)
        rw [htcp]
        exact and_comm
    · have hlast : c.current + 1 = c.clients := by omega
      refine ⟨_, (if_pos hlt).trans ((if_neg (not_not.mpr rfl)).trans (if_neg hnext)), ?_, rfl, rfl,
        htcp, ?_⟩
      · exact turn_of_done hdone h.held.pos hlast
      · exact ⟨fun hwaits => absurd hwaits.2 hnext, fun hreleased => absurd hreleased.1 hnext⟩

theorem calls_turn {c : ClientConnection} (h : c.Turn) {calls : List Call}
    (hcalls : c.CallsOfRunning calls) :
    ∃ d, calls.foldlM call c = some d ∧ d.Turn ∧ d.current = c.current + calls.length ∧
      d.clients = c.clients ∧ d.medium.isTcp = c.medium.isTcp ∧
      ∀ call, calls.getLast? = some call →
        (d.running = [] ∧ d.current < d.clients ↔ Released c.clients c.medium.isTcp call) := by
  induction calls generalizing c with
  | nil =>
    exact ⟨c, rfl, h, rfl, rfl, rfl, fun _ hlast => absurd hlast.symm (Option.some_ne_none _)⟩
  | cons first calls ih =>
    obtain ⟨hdriver, hrest⟩ := hcalls
    obtain ⟨c', hc', hturn', hcurrent', hclients', htcp', hwaits'⟩ := call_turn h hdriver
    obtain ⟨d, hd, hturn, hcurrent, hclients, htcp, hwaits⟩ := ih hturn' (hrest c' hc')
    refine ⟨d, ?_, hturn, ?_, hclients.trans hclients', htcp.trans htcp', fun last hlast => ?_⟩
    · rw [List.foldlM_cons, hc']
      exact hd
    · rw [hcurrent, hcurrent', List.length_cons]
      omega
    · cases calls with
      | nil =>
        obtain rfl := Option.some.inj hd
        obtain rfl := Option.some.inj hlast
        exact hwaits'
      | cons second calls =>
        rw [List.getLast?_cons_cons] at hlast
        rw [← hclients', ← htcp']
        exact hwaits last hlast

/-! ## Connection errors -/

/-- The next driver gets its turn when nobody runs. -/
theorem passOn_turn {c : ClientConnection} (hrunning : c.running = []) (hlt : c.current < c.clients)
    (opens : Bool) : ∃ d, c.passOn opens = some d ∧ d.Turn := by
  obtain ⟨medium, heq, -, hclosed⟩ := c.terminate_eq
  rw [passOn, heq]
  by_cases hlast : c.current + 1 = c.clients
  · exact ⟨_, if_pos hlast, turn_of_done hrunning (Nat.zero_lt_of_lt hlt) hlast⟩
  · obtain ⟨d, hd, hturn, -⟩ := nextConnected_turn
      (c := { c with medium, current := c.current + 1 }) hrunning hclosed
      (show c.current + 1 < c.clients by omega) opens
    exact ⟨d, (if_neg hlast).trans hd, hturn⟩

/-- When a driver runs or all have finished, the turn is passed on once too often. -/
theorem passOn_not_inTurn {c d : ClientConnection}
    (h : c.running = [c.current] ∨ c.running = [] ∧ c.current = c.clients) {opens : Bool}
    (hd : c.passOn opens = some d) : ¬d.InTurn := by
  have hwaits : ∀ medium,
      ¬({ c with medium, current := c.current + 1 } : ClientConnection).InTurn := by
    intro medium hturn
    rcases h with hrunning | ⟨-, hcurrent⟩
    · rcases hturn.running with hnil | hnext
      · exact absurd (hrunning.symm.trans hnil) (List.cons_ne_nil _ _)
      · have hsame := (List.cons.inj (hrunning.symm.trans hnext)).1
        exact absurd hsame (Nat.ne_of_lt (Nat.lt_succ_self _))
    · have hle : c.current + 1 ≤ c.clients := hturn.current_le
      omega
  obtain ⟨medium, heq, -, hclosed⟩ := c.terminate_eq
  rw [passOn, heq] at hd
  by_cases hlast : c.current + 1 = c.clients
  · obtain rfl := Option.some.inj ((if_pos hlast).symm.trans hd)
    exact hwaits medium
  · replace hd := (if_neg hlast).symm.trans hd
    rw [nextConnected] at hd
    rcases establish_cases (c := { c with medium, current := c.current + 1 }) hclosed opens with
      ⟨-, -, hestablish⟩ | ⟨-, medium', -, hclosed', hestablish⟩
    · rw [hestablish] at hd
      replace hd := (if_pos rfl).symm.trans hd
      rw [schedule] at hd
      split at hd
      · obtain rfl := Option.some.inj hd
        rename_i hlt
        have hlt : c.current + 1 < c.clients := hlt
        rcases h with hrunning | ⟨-, hcurrent⟩
        · intro hturn
          rcases hturn.running with hnil | hnext
          · exact absurd hnil (List.append_ne_nil_of_right_ne_nil _ (List.cons_ne_nil _ _))
          · have htwo : c.running ++ [c.current + 1] = [c.current + 1] := hnext
            rw [hrunning] at htwo
            exact absurd (List.cons.inj htwo).2 (List.cons_ne_nil _ _)
        · omega
      · contradiction
    · rw [hestablish] at hd
      obtain rfl := Option.some.inj ((if_neg hclosed').symm.trans hd)
      exact hwaits medium'

/-- A driver may have the connection terminated when it is told of an error, but not go on. -/
theorem connectionErrorCb_cases {c : ClientConnection} (h : c.Turn) {calls : List Call}
    (hcalls : c.CallsOfRunning calls) (opens : Bool) :
    (∀ call, calls.getLast? = some call → Released c.clients c.medium.isTcp call) ∧
        (∃ d, c.connectionErrorCb calls opens = some d ∧ d.Turn) ∨
      ¬(∀ call, calls.getLast? = some call → Released c.clients c.medium.isTcp call) ∧
        ∀ d, c.connectionErrorCb calls opens = some d → ¬d.InTurn := by
  rw [connectionErrorCb]
  by_cases hdone : c.clients ≤ c.current
  · left
    have hcurrent : c.current = c.clients := Nat.le_antisymm h.inTurn.current_le hdone
    have hidle : c.running = [] := by
      by_contra hne
      have hlt := (h.held.running hne).2
      omega
    obtain ⟨medium, heq, -, hclosed⟩ := c.terminate_eq
    rw [if_pos hdone, heq]
    refine ⟨fun call hlast => ?_, _, rfl, turn_of_done hidle h.held.pos hcurrent⟩
    cases calls with
    | nil => contradiction
    | cons first calls =>
      have hfirst : first.driver ∈ c.running := hcalls.1
      rw [hidle] at hfirst
      exact absurd hfirst List.not_mem_nil
  · obtain ⟨d, hd, hturn, hcurrent, hclients, htcp, hwaits⟩ := calls_turn h hcalls
    rw [if_neg hdone, hd]
    change _ ∧ (∃ e, (d.finish c.current).passOn opens = some e ∧ e.Turn) ∨ _ ∧
      ∀ e, (d.finish c.current).passOn opens = some e → ¬e.InTurn
    cases hlast : calls.getLast? with
    | none =>
      left
      have hnil : calls = [] := List.getLast?_eq_none_iff.mp hlast
      subst hnil
      obtain rfl := Option.some.inj hd
      have hidle : (c.finish c.current).running = [] := by
        rcases h.inTurn.running with hrunning | hrunning
        · change c.running.erase c.current = []
          rw [hrunning]
          rfl
        · exact finish_current hrunning
      refine ⟨fun call hcall => absurd hcall.symm (Option.some_ne_none _), ?_⟩
      exact passOn_turn hidle (Nat.lt_of_not_le hdone) opens
    | some last =>
      have hlater : c.current < d.current := by
        have hne : calls ≠ [] := by
          rintro rfl
          contradiction
        have hpos := List.length_pos_iff.mpr hne
        omega
      -- the driver has been replaced, so that being told does not finish anyone
      have hfinish : d.finish c.current = d := by
        rw [finish, List.erase_of_not_mem]
        intro hmem
        have hsame := (hturn.running_of_mem hmem).1
        omega
      rw [hfinish]
      have hiff := hwaits last hlast
      by_cases hreleased : Released c.clients c.medium.isTcp last
      · left
        obtain ⟨hidle, hlt⟩ := hiff.mpr hreleased
        refine ⟨fun call hcall => ?_, passOn_turn hidle hlt opens⟩
        rwa [← Option.some.inj hcall]
      · right
        refine ⟨fun hall => hreleased (hall last rfl), fun e he => passOn_not_inTurn ?_ he⟩
        rcases hturn.inTurn.running with hidle | hrunning
        · have hle := hturn.inTurn.current_le
          have hnot : ¬d.current < d.clients := fun hlt => hreleased (hiff.mp ⟨hidle, hlt⟩)
          exact Or.inr ⟨hidle, by omega⟩
        · exact Or.inl hrunning

/-! ## Steps -/

theorem startingNewCycle_turn {c : ClientConnection} (h : c.Turn) (opens : Bool) :
    ∃ d, c.startingNewCycle opens = some d ∧ (c.SteadyCycle opens → d.Turn) ∧
      (d.InTurn → c.SteadyCycle opens) := by
  have hidle : c.current = c.clients → c.running = [] := by
    intro hcurrent
    by_contra hne
    have hlt := (h.held.running hne).2
    omega
  have hfirst : ∀ medium scheduled, medium.state = .connected → c.current = c.clients →
      ∃ d, ({ c with medium, scheduled, current := 0 } : ClientConnection).schedule 0 = some d ∧
        d.Turn := by
    intro medium scheduled hopen hcurrent
    obtain ⟨d, hd, hturn, -⟩ := schedule_turn (c := { c with medium, scheduled, current := 0 })
      (hidle hcurrent) hopen h.held.pos
    exact ⟨d, hd, hturn⟩
  rw [startingNewCycle]
  by_cases hopen : c.medium.state = .connected
  · have hsteady : c.SteadyCycle opens := by
      intro hserial
      rw [hserial] at hopen
      contradiction
    rw [establish_connected hopen]
    by_cases hcurrent : c.current = c.clients
    · obtain ⟨d, hd, hturn⟩ := hfirst c.medium c.scheduled hopen hcurrent
      exact ⟨d, (if_pos ⟨hopen, hcurrent⟩).trans hd, fun _ => hturn, fun _ => hsteady⟩
    · exact ⟨c, if_neg fun hboth => hcurrent hboth.2, fun _ => h, fun _ => hsteady⟩
  · have hnobody : c.running = [] := by
      by_contra hne
      exact hopen (h.held.running hne).1
    rcases establish_cases hopen opens with ⟨hserial, hopens, heq⟩ |
      ⟨hstays, medium, -, hclosed, heq⟩
    · rw [heq]
      by_cases hcurrent : c.current = c.clients
      · obtain ⟨d, hd, hturn⟩ := hfirst (.serial true) [] rfl hcurrent
        exact ⟨d, (if_pos ⟨rfl, hcurrent⟩).trans hd, fun _ => hturn, fun _ _ _ => hcurrent⟩
      · refine ⟨_, if_neg fun hboth => hcurrent hboth.2,
          fun hsteady => absurd (hsteady hserial hopens) hcurrent, fun hturn => ?_⟩
        -- the driver whose turn it is is not scheduled
        have hle := h.inTurn.current_le
        have hlt : c.current < c.clients := by omega
        have hmem : c.current ∈ [] := hturn.scheduled rfl hlt
        exact absurd hmem List.not_mem_nil
    · rw [heq]
      have hsteady : c.SteadyCycle opens := by
        intro hserial hopens
        rcases hstays with htcp | hfails
        · rw [hserial] at htcp
          contradiction
        · rw [hopens] at hfails
          contradiction
      refine ⟨_, if_neg fun hboth => hclosed hboth.1, fun _ => ?_, fun _ => hsteady⟩
      exact turn_of_closed hnobody hclosed h.held.pos h.inTurn.current_le

theorem calls_nil {c : ClientConnection} (h : c.Turn) (hclosed : c.medium.state ≠ .connected)
    {calls : List Call} (hcalls : c.CallsOfRunning calls) : calls = [] := by
  cases calls with
  | nil => rfl
  | cons first calls =>
    obtain ⟨-, -, hopen, -⟩ := h.running_of_mem hcalls.1
    exact absurd hopen hclosed

theorem step_cases {c : ClientConnection} (h : c.Turn) {e : Event} (hdomain : c.Domain e) :
    c.Steady e ∧ (∃ d, c.step e = some d ∧ d.Turn) ∨
      ¬c.Steady e ∧ ∀ d, c.step e = some d → ¬d.InTurn := by
  have hnobody : c.medium.state ≠ .connected → c.running = [] := by
    intro hclosed
    by_contra hne
    exact hclosed (h.held.running hne).1
  cases e with
  | call call =>
    obtain ⟨d, hd, hturn, -⟩ := call_turn h hdomain
    exact Or.inl ⟨trivial, d, hd, hturn⟩
  -- with all drivers done a read event has the connection terminated
  | read =>
    left
    refine ⟨trivial, ?_⟩
    rw [step, connectionReadCb]
    by_cases hlt : c.current < c.clients
    · exact ⟨c, if_pos hlt, h⟩
    · have hcurrent : c.current = c.clients := by
        have hle := h.inTurn.current_le
        omega
      have hidle : c.running = [] := by
        by_contra hne
        exact hlt (h.held.running hne).2
      obtain ⟨medium, heq, -, -⟩ := c.terminate_eq
      rw [if_neg hlt, if_pos h.held.pos, heq]
      exact ⟨_, rfl, turn_of_done hidle h.held.pos hcurrent⟩
  | error calls opens => exact connectionErrorCb_cases h hdomain.2 opens
  -- the connection is open: the drivers start from the first one if all were done
  | connected =>
    left
    refine ⟨trivial, ?_⟩
    have hconnecting : c.medium = .tcp .connecting := hdomain
    have hidle := hnobody (by rw [hconnecting]; exact ConnectionState.noConfusion)
    rw [step, connected, connectionEstablishedCb]
    by_cases hcurrent : c.current = c.clients
    · obtain ⟨d, hd, hturn, -⟩ := schedule_turn
        (c := { c with medium := .tcp .connected, scheduled := [], current := 0 }) hidle rfl
        h.held.pos
      refine ⟨d, ?_, hturn⟩
      dsimp only
      rw [if_pos hcurrent]
      exact hd
    · have hle := h.inTurn.current_le
      obtain ⟨d, hd, hturn, -⟩ := schedule_turn
        (c := { c with medium := .tcp .connected, scheduled := [] }) hidle rfl
        (show c.current < c.clients by omega)
      refine ⟨d, ?_, hturn⟩
      dsimp only
      rw [if_neg hcurrent]
      exact hd
  -- while a connection is being opened the timer counts as an error, of which nobody is told
  | timer calls =>
    left
    refine ⟨trivial, ?_⟩
    obtain ⟨hmedium, hcalls⟩ := hdomain
    rw [step, connectionTimerCb]
    rcases hmedium with hidling | hconnecting
    · have hidle := hnobody (by rw [hidling]; exact ConnectionState.noConfusion)
      rw [hidling]
      exact ⟨_, rfl, turn_of_closed hidle ConnectionState.noConfusion h.held.pos
        h.inTurn.current_le⟩
    · have hclosed : c.medium.state ≠ .connected := by
        rw [hconnecting]
        exact ConnectionState.noConfusion
      rw [hconnecting]
      obtain rfl := calls_nil h hclosed hcalls
      rcases connectionErrorCb_cases h hcalls false with ⟨-, hturn⟩ | ⟨hcalled, -⟩
      · exact hturn
      · exact absurd (fun _ hlast => absurd hlast.symm (Option.some_ne_none _)) hcalled
  | addressResolved resolved connects =>
    left
    refine ⟨trivial, _, rfl, ?_⟩
    have hresolving : c.medium = .tcp .resolvingAddr := hdomain
    have hidle := hnobody (by rw [hresolving]; exact ConnectionState.noConfusion)
    rw [addressResolvedCb]
    split
    · exact turn_of_closed hidle ConnectionState.noConfusion h.held.pos h.inTurn.current_le
    · exact turn_of_closed hidle ConnectionState.noConfusion h.held.pos h.inTurn.current_le

end ClientConnection

/-! ## Managers -/

namespace ClientManager

/-- On every connection at most the current driver runs. -/
def InTurn (s : ClientManager) : Prop := ∀ c ∈ s, c.InTurn

def Domain (s : ClientManager) : Event → Prop
  | .startingNewCycle _ => True
  | .connection k e => ∃ c, s[k]? = some c ∧ c.Domain e

/-- Between two drivers a serial port is opened at once, and drivers that are told of a connection
error do not go on. -/
def Steady (s : ClientManager) : Event → Prop
  | .startingNewCycle opens => ∀ k (c : ClientConnection), s[k]? = some c → c.SteadyCycle (opens k)
  | .connection k e => ∀ c, s[k]? = some c → c.Steady e

theorem onConnection_eq {k : ℕ} {f : ClientConnection → Option ClientConnection}
    {s : ClientManager} {c d : ClientConnection} (hc : s[k]? = some c) (hd : f c = some d) :
    onConnection k f s = some (s.set k d) := by
  rw [onConnection, hc]
  exact (congrArg (· >>= fun d => some (s.set k d)) hd)

theorem foldlM_onConnection {f : ℕ → ClientConnection → Option ClientConnection}
    {s : ClientManager} {ks : List ℕ} (hnodup : ks.Nodup)
    (h : ∀ k ∈ ks, ∃ c d, s[k]? = some c ∧ f k c = some d) :
    ∃ t, ks.foldlM (fun s k => onConnection k (f k) s) s = some t ∧ (∀ k ∉ ks, t[k]? = s[k]?) ∧
      ∀ k ∈ ks, ∃ c d, s[k]? = some c ∧ f k c = some d ∧ t[k]? = some d := by
  induction ks generalizing s with
  | nil => exact ⟨s, rfl, fun _ _ => rfl, fun _ hk => absurd hk List.not_mem_nil⟩
  | cons k ks ih =>
    obtain ⟨hk, hks⟩ := List.nodup_cons.mp hnodup
    obtain ⟨c, d, hc, hd⟩ := h k List.mem_cons_self
    have hlt : k < s.length := (List.getElem?_eq_some_iff.mp hc).1
    have hother : ∀ j ∈ ks, (s.set k d)[j]? = s[j]? := by
      intro j hj
      apply List.getElem?_set_ne
      rintro rfl
      exact hk hj
    obtain ⟨t, ht, hrest, hchanged⟩ := ih (s := s.set k d) hks fun j hj => by
      rw [hother j hj]
      exact h j (List.mem_cons_of_mem k hj)
    refine ⟨t, ?_, fun j hj => ?_, fun j hj => ?_⟩
    · rw [List.foldlM_cons, onConnection_eq hc hd]
      exact ht
    · rw [List.mem_cons, not_or] at hj
      rw [hrest j hj.2]
      exact List.getElem?_set_ne (Ne.symm hj.1)
    · rcases List.mem_cons.mp hj with rfl | hj
      · refine ⟨c, d, hc, hd, ?_⟩
        rw [hrest j hk]
        exact List.getElem?_set_self hlt
      · obtain ⟨c', d', hc', hd', htd⟩ := hchanged j hj
        rw [hother j hj] at hc'
        exact ⟨c', d', hc', hd', htd⟩

theorem startingNewCycle_connections {s : ClientManager} (h : ∀ c ∈ s, c.Turn)
    (opens : ℕ → Bool) :
    ∃ t, s.step (.startingNewCycle opens) = some t ∧ ∀ k : ℕ, t[k]? = none ∧ s[k]? = none ∨
      ∃ c d : ClientConnection, s[k]? = some c ∧ c.Turn ∧
        c.startingNewCycle (opens k) = some d ∧ t[k]? = some d := by
  have hall : ∀ k ∈ List.range s.length,
      ∃ c d, s[k]? = some c ∧ c.startingNewCycle (opens k) = some d := by
    intro k hk
    have hget := List.getElem?_eq_getElem (List.mem_range.mp hk)
    obtain ⟨d, hd, -⟩ := ClientConnection.startingNewCycle_turn
      (h _ (List.getElem_mem (List.mem_range.mp hk))) (opens k)
    exact ⟨_, d, hget, hd⟩
  obtain ⟨t, ht, hrest, hchanged⟩ := foldlM_onConnection
    (f := fun k c => c.startingNewCycle (opens k)) List.nodup_range hall
  refine ⟨t, ht, fun k => ?_⟩
  by_cases hk : k ∈ List.range s.length
  · obtain ⟨c, d, hc, hd, htd⟩ := hchanged k hk
    exact Or.inr ⟨c, d, hc, h c (List.mem_of_getElem? hc), hd, htd⟩
  · left
    have hnone : s[k]? = none := by
      rw [List.mem_range] at hk
      exact List.getElem?_eq_none (by omega)
    exact ⟨(hrest k hk).trans hnone, hnone⟩

theorem step_cases {s : ClientManager} (h : ∀ c ∈ s, c.Turn) {e : Event} (hdomain : s.Domain e) :
    s.Steady e ∧ (∃ t, s.step e = some t ∧ ∀ c ∈ t, c.Turn) ∨
      ¬s.Steady e ∧ ∀ t, s.step e = some t → ¬t.InTurn := by
  cases e with
  -- a new cycle is the one event that concerns several connections
  | startingNewCycle opens =>
    obtain ⟨t, ht, hconnections⟩ := startingNewCycle_connections h opens
    by_cases hsteady : s.Steady (.startingNewCycle opens)
    · left
      refine ⟨hsteady, t, ht, fun d hd => ?_⟩
      obtain ⟨k, hk⟩ := List.mem_iff_getElem?.mp hd
      rcases hconnections k with ⟨hnone, -⟩ | ⟨c, d', hc, hturn, hd', htd⟩
      · rw [hnone] at hk
        contradiction
      · obtain rfl := Option.some.inj (htd.symm.trans hk)
        obtain ⟨d'', hd'', hkeeps, -⟩ :=
          ClientConnection.startingNewCycle_turn hturn (opens k)
        obtain rfl := Option.some.inj (hd''.symm.trans hd')
        exact hkeeps (hsteady k c hc)
    · right
      refine ⟨hsteady, fun t' ht' hin => hsteady fun k c hc => ?_⟩
      obtain rfl := Option.some.inj (ht.symm.trans ht')
      rcases hconnections k with ⟨-, hnone⟩ | ⟨c', d, hc', hturn, hd, htd⟩
      · rw [hnone] at hc
        contradiction
      · obtain rfl := Option.some.inj (hc.symm.trans hc')
        obtain ⟨d', hd', -, honly⟩ := ClientConnection.startingNewCycle_turn hturn (opens k)
        obtain rfl := Option.some.inj (hd.symm.trans hd')
        exact honly (hin d (List.mem_of_getElem? htd))
  | connection k e =>
    obtain ⟨c, hc, hdomain⟩ := hdomain
    have hsteady : s.Steady (.connection k e) ↔ c.Steady e := by
      constructor
      · exact fun hs => hs c hc
      · intro hs c' hc'
        rwa [← Option.some.inj (hc.symm.trans hc')]
    have hlt : k < s.length := (List.getElem?_eq_some_iff.mp hc).1
    rw [hsteady]
    rcases ClientConnection.step_cases (h c (List.mem_of_getElem? hc)) hdomain with
      ⟨hs, d, hd, hturn⟩ | ⟨hs, hlost⟩
    · left
      refine ⟨hs, s.set k d, onConnection_eq hc hd, fun c' hc' => ?_⟩
      rcases List.mem_or_eq_of_mem_set hc' with hold | rfl
      · exact h c' hold
      · exact hturn
    · right
      refine ⟨hs, fun t ht hin => ?_⟩
      -- an access out of range leaves no state, so nothing is in turn behind it
      cases hd : c.step e with
      | none =>
        have hfails : onConnection k (·.step e) s = none := by
          rw [onConnection, hc]
          exact congrArg (· >>= fun d => some (s.set k d)) hd
        rw [step, hfails] at ht
        contradiction
      | some d =>
        obtain rfl := Option.some.inj ((onConnection_eq hc hd).symm.trans ht)
        exact hlost d hd (hin d (List.mem_set hlt d))

/-! ## Runs -/

theorem configure_pos {α : Type*} [DecidableEq α] (addrs : List α) {m : List (α × ℕ)}
    (h : ∀ c ∈ m, 0 < c.2) : ∀ c ∈ addrs.foldl configure m, 0 < c.2 := by
  induction addrs generalizing m with
  | nil => exact h
  | cons addr addrs ih =>
    rw [List.foldl_cons]
    apply ih
    intro c hc
    rw [configure] at hc
    split at hc
    · obtain ⟨c', hc', rfl⟩ := List.mem_map.mp hc
      have hpos := h c' hc'
      split
      · exact Nat.succ_pos _
      · exact hpos
    · rcases List.mem_append.mp hc with hold | hnew
      · exact h c hold
      · rw [List.mem_singleton.mp hnew]
        exact Nat.one_pos

theorem initialized_turn {α : Type*} [DecidableEq α] (tcp : Bool) (addrs : List α) :
    ∀ c ∈ initialized tcp addrs, c.Turn := by
  intro c hc
  obtain ⟨a, ha, rfl⟩ := List.mem_map.mp hc
  have hpos := configure_pos addrs (fun _ hmem => absurd hmem List.not_mem_nil) a ha
  exact ClientConnection.turn_of_done rfl hpos rfl

/-- No access of a run is out of range and every connection is in turn, as long as the run is
steady and no longer. -/
theorem inTurn_iff_steady {α : Type*} [DecidableEq α] (tcp : Bool) (addrs : List α)
    (es : List Event) (hes : Run.LegalRun step Domain (initialized tcp addrs) es) :
    Run.SafeRun step InTurn (fun _ _ _ => True) (initialized tcp addrs) es ↔
      Run.LegalRun step Steady (initialized tcp addrs) es := by
  have hturn := initialized_turn tcp addrs
  have hboth : ∀ s : ClientManager, (∀ c ∈ s, c.Held) → s.InTurn → ∀ c ∈ s, c.Turn :=
    fun s hheld hin c hc => ⟨hin c hc, hheld c hc⟩
  apply Run.safeRun_iff_of_step (fun s : ClientManager => ∀ c ∈ s, c.Held) _ _
    (fun c hc => (hturn c hc).held) (fun c hc => (hturn c hc).inTurn) hes
  · intro s e hheld hin hdomain
    rcases step_cases (hboth s hheld hin) hdomain with ⟨hsteady, t, ht, hnext⟩ | ⟨hlost, hnot⟩
    · exact ⟨fun _ => hsteady, fun _ => ⟨t, ht, trivial, fun c hc => (hnext c hc).inTurn⟩⟩
    · constructor
      · rintro ⟨t, ht, -, hgood⟩
        exact absurd hgood (hnot t ht)
      · exact fun hsteady => absurd hsteady hlost
  · intro s e t hheld hin hdomain ht hgood
    rcases step_cases (hboth s hheld hin) hdomain with ⟨-, t', ht', hnext⟩ | ⟨-, hnot⟩
    · obtain rfl := Option.some.inj (ht.symm.trans ht')
      exact fun c hc => (hnext c hc).held
    · exact absurd hgood (hnot t ht)

/-- Two drivers on a serial port: the first one has the port reopened, which succeeds only when the
next cycle starts. -/
def reopened : List Event :=
  [.startingNewCycle fun _ => true, .connection 0 (.call (.terminate 0 false)),
    .startingNewCycle fun _ => true]

theorem reopened_domain : Run.LegalRun step Domain (initialized false [(), ()]) reopened := by
  refine ⟨trivial, fun s hs => ?_⟩
  obtain rfl := Option.some.inj hs
  refine ⟨⟨_, rfl, List.mem_cons_self⟩, fun s hs => ?_⟩
  obtain rfl := Option.some.inj hs
  exact ⟨trivial, fun _ _ => trivial⟩

theorem reopened_iff :
    Run.SafeRun step InTurn (fun _ _ _ => True) (initialized false [(), ()]) reopened ↔
      Run.LegalRun step Steady (initialized false [(), ()]) reopened :=
  inTurn_iff_steady false [(), ()] reopened reopened_domain

/-- The port is open and the second driver is not scheduled. -/
theorem reopened_not_inTurn :
    Run.LegalRun step Domain (initialized false [(), ()]) reopened ∧
      ¬Run.SafeRun step InTurn (fun _ _ _ => True) (initialized false [(), ()]) reopened := by
  refine ⟨reopened_domain, ?_⟩
  rintro ⟨-, s, hs, -, -, t, ht, -, -, u, hu, -, hin⟩
  obtain rfl := Option.some.inj hs
  obtain rfl := Option.some.inj ht
  obtain rfl := Option.some.inj hu
  have hmem := (hin _ List.mem_cons_self).scheduled rfl (by decide)
  exact absurd hmem List.not_mem_nil

end ClientManager
end Boruta
end Szarp
