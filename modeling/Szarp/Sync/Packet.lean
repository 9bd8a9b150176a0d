import Szarp.Lib.BigEndian

/-!
# Packets

`sspackexchange.h`: the unit that the two sides of a synchronization exchange.
-/

namespace Szarp
namespace Sync

abbrev Byte := UInt8

/-- `m_size` is the length of `data`. -/
structure Packet where
  type : Byte
  data : List Byte
deriving DecidableEq, Repr

namespace Packet

/-- All packets of a message but the last. -/
def ok : Byte := 0
def last : Byte := 1
/-- An error ends the current message. -/
def error : Byte := 2
/-- Used locally: all requests are sent. -/
def eos : Byte := 3
/-- The peer has closed its side of the connection. -/
def eof : Byte := 4

/-- `MAX_LENGTH`: the longest packet body. -/
def maxLength : ℕ := 2 * 4092

def headerLength : ℕ := 3

end Packet

end Sync
end Szarp
