import Mathlib.Data.List.ReduceOption
import Szarp.Boruta.ModbusTables
import Szarp.Boruta.ModbusValues
import Szarp.Lib.Run
import Szarp.Lib.Traverse

/-!
# Cycles of the daemon

`cycle_timer_callback` of `borutadmn.cc`: the managers pass the end of a cycle and the start of the next
one on to their units, which then take over the values of the sender. The values for parcook, the
connections and the queries that clients send are left out.
-/

namespace Szarp
namespace Boruta

inductive CycleEvent where
  | finishedCycle
  | startingNewCycle
deriving DecidableEq

/-- A `modbus_unit` of a driver, with the calls of the driver: the operations of its send elements,
`none` for an element of type `double`, which makes none, and the place of `m_send`. -/
structure CycleUnit where
  sends : List (Option (SenderOp RegisterObject))
  registers : RegisterObject → Register
  nodataValue : ℚ
  send : ℕ
  currentTime : ℤ
  events : List CycleEvent

namespace CycleUnit

variable (floatWords : ℚ → Short × Short) (values : ℕ → Short)

def senderOps (u : CycleUnit) : List (SenderOp RegisterObject) := u.sends.reduceOption

def putWords (time : ℤ) (ws : List (RegisterObject × Short))
    (registers : RegisterObject → Register) : RegisterObject → Register :=
  ws.foldl (fun registers w => Function.update registers w.1 ⟨w.2, time⟩) registers

def setVals (ws : List (RegisterObject × Short)) (u : CycleUnit) : CycleUnit :=
  { u with registers := putWords u.currentTime ws u.registers }

/-- What the rest of the loop of `from_sender` writes, from `m` on; it goes on past the end of the
operations when there are fewer of them than values. -/
def words (nodataValue : ℚ) (mSend : ℕ → Short) :
    ℕ → ℕ → List (SenderOp RegisterObject) → Option (List (RegisterObject × Short))
  | 0, _, _ => some []
  | _ + 1, _, [] => none
  | count + 1, m, op :: ops =>
    (words nodataValue mSend count (m + 1) ops).map
      (op.words floatWords nodataValue (mSend m) ++ ·)

/-- `from_sender`; `m_send_count` counts all send elements. -/
def fromSender (u : CycleUnit) : Option CycleUnit :=
  (words floatWords u.nodataValue (fun m => values (u.send + m)) u.sends.length 0 u.senderOps).map
    fun words => u.setVals words

def finishedCycle (u : CycleUnit) : CycleUnit :=
  { u with events := u.events ++ [.finishedCycle] }

def startingNewCycle (now : ℤ) (u : CycleUnit) : Option CycleUnit :=
  fromSender floatWords values
    { u with currentTime := now, events := u.events ++ [.startingNewCycle] }

end CycleUnit

/-- `boruta_daemon`: the units of the four managers, those of clients by connection. -/
structure Daemon where
  tcpClients : List (List CycleUnit)
  serialClients : List (List CycleUnit)
  tcpServers : List CycleUnit
  serialServers : List CycleUnit

namespace Daemon

variable (floatWords : ℚ → Short × Short) (values : ℕ → Short)

def mapUnits (f : CycleUnit → CycleUnit) (d : Daemon) : Daemon where
  tcpClients := d.tcpClients.map (·.map f)
  serialClients := d.serialClients.map (·.map f)
  tcpServers := d.tcpServers.map f
  serialServers := d.serialServers.map f

def finishedCycle (d : Daemon) : Daemon := d.mapUnits CycleUnit.finishedCycle

/-- `starting_new_cycle` of all managers; the one for TCP servers only sees to its ports. -/
def startingNewCycle (now : ℤ) (d : Daemon) : Option Daemon := do
  let tcpClients ←
    d.tcpClients.mapM fun us => us.mapM (CycleUnit.startingNewCycle floatWords values now)
  let serialClients ←
    d.serialClients.mapM fun us => us.mapM (CycleUnit.startingNewCycle floatWords values now)
  let serialServers ←
    d.serialServers.mapM (CycleUnit.startingNewCycle floatWords values now)
  some ⟨tcpClients, serialClients, d.tcpServers, serialServers⟩

/-- `cycle_timer_callback`, where `values` are those that `GoSender` reads. -/
def cycleTimerCallback (now : ℤ) (d : Daemon) : Option Daemon :=
  d.finishedCycle.startingNewCycle floatWords values now

/-- The units of the daemon but for those of TCP servers. -/
def others (d : Daemon) : List CycleUnit :=
  d.tcpClients.flatten ++ d.serialClients.flatten ++ d.serialServers

def units (d : Daemon) : List CycleUnit := d.others ++ d.tcpServers

inductive Event where
  | cycle (values : ℕ → Short) (now : ℤ)
  | traffic (registers : CycleUnit → RegisterObject → Register)

def step (d : Daemon) : Event → Option Daemon
  | .cycle values now => d.cycleTimerCallback floatWords values now
  | .traffic registers => some (d.mapUnits fun u => { u with registers := registers u })

end Daemon

/-! ## Operations -/

namespace CycleUnit

variable (floatWords : ℚ → Short × Short) (values : ℕ → Short)

variable {floatWords values}

/-! ### The loop over the operations -/

section Words

variable {nodataValue : ℚ} {mSend : ℕ → Short}

end Words

/-! ### Registers -/

variable {u : CycleUnit} {now : ℤ}

end CycleUnit

/-! ## Cycles -/

namespace Daemon

variable (floatWords : ℚ → Short × Short)

variable {floatWords} {d d' : Daemon} {values : ℕ → Short} {now : ℤ}

end Daemon
end Boruta
end Szarp
