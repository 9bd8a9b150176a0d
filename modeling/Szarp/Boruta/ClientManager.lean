import Szarp.Lib.Run
import Mathlib.Data.Nat.Notation

/-!
# Scheduling of client drivers

The client managers of `borutadmn.cc`: the drivers of a connection use it in turn. A driver that calls
back from `scheduled` does so in an event of its own, since the manager does nothing after it has
scheduled a driver. It does when it has told a driver of a connection error, and the calls from there
are part of the event.
-/

namespace Szarp
namespace Boruta

inductive ConnectionState where
  | connected
  | notConnected
  | idling
  | connecting
  | resolvingAddr
deriving DecidableEq

/-- A `tcp_connection` with its state, or a `serial_connection` that has a descriptor or not. -/
inductive Medium where
  | tcp (state : ConnectionState)
  | serial (isOpen : Bool)
deriving DecidableEq

def Medium.state : Medium → ConnectionState
  | .tcp state => state
  | .serial isOpen => if isOpen then .connected else .notConnected

def Medium.isTcp : Medium → Bool
  | .tcp _ => true
  | .serial _ => false

/-- A connection with the number of its drivers and `m_current_client`. The drivers that have been
scheduled and have not finished, and those scheduled since the connection was opened, are
recorded. -/
structure ClientConnection where
  medium : Medium
  clients : ℕ
  current : ℕ
  running : List ℕ
  scheduled : List ℕ

namespace ClientConnection

/-! ## Connections -/

def terminate (c : ClientConnection) : ClientConnection :=
  match c.medium with
  | .tcp .connected | .tcp .connecting => { c with medium := .tcp .idling }
  | .tcp _ => c
  | .serial _ => { c with medium := .serial false }

/-- `do_establish_connection`; `opens` says whether a serial port can be opened. -/
def establish (opens : Bool) (c : ClientConnection) : ClientConnection :=
  match c.medium with
  | .tcp .notConnected => { c with medium := .tcp .resolvingAddr }
  | .tcp _ => c
  | .serial true => c
  | .serial false => if opens then { c with medium := .serial true, scheduled := [] } else c

/-- `do_schedule`; `none` when there is no such driver. -/
def schedule (client : ℕ) (c : ClientConnection) : Option ClientConnection :=
  if client < c.clients then
    some { c with running := c.running ++ [client], scheduled := c.scheduled ++ [client] }
  else none

def finish (driver : ℕ) (c : ClientConnection) : ClientConnection :=
  { c with running := c.running.erase driver }

/-! ## The manager -/

def startingNewCycle (opens : Bool) (c : ClientConnection) : Option ClientConnection :=
  let c := c.establish opens
  if c.medium.state = .connected ∧ c.current = c.clients then { c with current := 0 }.schedule 0
  else some c

/-- `driver_finished_job`; the current client is looked up for the log when it is not the driver. -/
def driverFinishedJob (driver : ℕ) (c : ClientConnection) : Option ClientConnection :=
  let c := c.finish driver
  if driver ≠ c.current then
    if c.current < c.clients then some c else none
  else
    let c := { c with current := c.current + 1 }
    if c.current < c.clients then c.schedule c.current else some c

def nextConnected (opens : Bool) (c : ClientConnection) : Option ClientConnection :=
  let c := c.establish opens
  if c.medium.state = .connected then c.schedule c.current else some c

/-- `terminate_connection`; the current client is looked up for the log. -/
def terminateConnection (driver : ℕ) (opens : Bool) (c : ClientConnection) :
    Option ClientConnection :=
  let c := c.finish driver
  if c.current < c.clients then
    if driver ≠ c.current then some c
    else
      let c : ClientConnection := { c.terminate with current := c.current + 1 }
      if c.current < c.clients then c.nextConnected opens else some c
  else none

inductive Call where
  | finishedJob (driver : ℕ)
  | terminate (driver : ℕ) (opens : Bool)

def Call.driver : Call → ℕ
  | .finishedJob driver => driver
  | .terminate driver _ => driver

def call (c : ClientConnection) : Call → Option ClientConnection
  | .finishedJob driver => c.driverFinishedJob driver
  | .terminate driver opens => c.terminateConnection driver opens

/-- `connection_read_cb`; the first client is looked up for the log when no driver is active. -/
def connectionReadCb (c : ClientConnection) : Option ClientConnection :=
  if c.current < c.clients then some c
  else if 0 < c.clients then some c.terminate
  else none

/-- What follows in `connection_error_cb` when the current driver has been told. -/
def passOn (opens : Bool) (c : ClientConnection) : Option ClientConnection :=
  let c : ClientConnection := { c.terminate with current := c.current + 1 }
  if c.current = c.clients then some c else c.nextConnected opens

/-- `connection_error_cb`, with the calls of the drivers while `connection_error` of the current one
runs. -/
def connectionErrorCb (calls : List Call) (opens : Bool) (c : ClientConnection) :
    Option ClientConnection :=
  if c.clients ≤ c.current then some c.terminate
  else do
    let d ← calls.foldlM call c
    (d.finish c.current).passOn opens

def connectionEstablishedCb (c : ClientConnection) : Option ClientConnection :=
  let c := if c.current = c.clients then { c with current := 0 } else c
  c.schedule c.current

/-! ## TCP connections -/

def connected (c : ClientConnection) : Option ClientConnection :=
  { c with medium := .tcp .connected, scheduled := [] }.connectionEstablishedCb

def connectionTimerCb (calls : List Call) (c : ClientConnection) : Option ClientConnection :=
  match c.medium with
  | .tcp .idling => some { c with medium := .tcp .resolvingAddr }
  | .tcp .connecting => c.connectionErrorCb calls false
  | _ => some c

/-- `address_resolved_cb`; `connects` says whether `open_connection` begins to connect. -/
def addressResolvedCb (resolved connects : Bool) (c : ClientConnection) : ClientConnection :=
  if resolved ∧ connects then { c with medium := .tcp .connecting }
  else { c with medium := .tcp .notConnected }

inductive Event where
  | call (call : Call)
  | read
  | error (calls : List Call) (opens : Bool)
  | connected
  | timer (calls : List Call)
  | addressResolved (resolved connects : Bool)

def step (c : ClientConnection) : Event → Option ClientConnection
  | .call call => c.call call
  | .read => c.connectionReadCb
  | .error calls opens => c.connectionErrorCb calls opens
  | .connected => c.connected
  | .timer calls => c.connectionTimerCb calls
  | .addressResolved resolved connects => some (c.addressResolvedCb resolved connects)

end ClientConnection

/-! ## Managers -/

abbrev ClientManager := List ClientConnection

namespace ClientManager

/-- `configure` adds a driver to the connection with its address or path. -/
def configure {α : Type*} [DecidableEq α] (m : List (α × ℕ)) (addr : α) : List (α × ℕ) :=
  if addr ∈ m.map Prod.fst then m.map fun c => if c.1 = addr then (c.1, c.2 + 1) else c
  else m ++ [(addr, 1)]

/-- What `initialize` sets, after the units with these addresses have been configured. -/
def initialized {α : Type*} [DecidableEq α] (tcp : Bool) (addrs : List α) : ClientManager :=
  (addrs.foldl configure []).map fun c =>
    { medium := if tcp then .tcp .notConnected else .serial false
      clients := c.2
      current := c.2
      running := []
      scheduled := [] }

def onConnection (k : ℕ) (f : ClientConnection → Option ClientConnection) (s : ClientManager) :
    Option ClientManager := do
  let c ← s[k]?
  let d ← f c
  some (s.set k d)

inductive Event where
  | startingNewCycle (opens : ℕ → Bool)
  | connection (k : ℕ) (e : ClientConnection.Event)

/-- A new cycle starts on the connections one after the other. -/
def step (s : ClientManager) : Event → Option ClientManager
  | .startingNewCycle opens =>
    (List.range s.length).foldlM (fun s k => onConnection k (·.startingNewCycle (opens k)) s) s
  | .connection k e => onConnection k (·.step e) s

end ClientManager
end Boruta
end Szarp
