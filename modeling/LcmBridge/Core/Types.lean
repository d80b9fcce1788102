import Mathlib.Tactic.Common

/-!
# Shared Types

The values that travel between the transport and the bridge tasks.

A clock reading is a natural number of nanoseconds since some origin, and so
is a duration; `duration_since` is then truncated subtraction, exactly as the
standard library saturates it at zero.

## Main definitions

* `Instant`, `Duration`: Clock readings and spans of time.
* `SocketAddr`: The source address of a datagram.
* `Datagram`: The bytes of one UDP packet.
* `LcmMessage`: A complete message as the transport hands it out.
-/

namespace LcmBridge

/-- A reading of the monotonic clock, in nanoseconds. -/
abbrev Instant : Type := Nat

/-- A span of time, in nanoseconds. -/
abbrev Duration : Type := Nat

/-- The source address of a datagram. -/
inductive SocketAddr where
  | v4 (ip : UInt32) (port : UInt16)
  | v6 (ip : BitVec 128) (port : UInt16) (flowinfo scopeId : UInt32)
  deriving DecidableEq, Repr

/-- The bytes of one UDP packet. -/
abbrev Datagram : Type := List UInt8

/-- A fully reassembled LCM message. -/
structure LcmMessage where
  channel : String
  sequenceNumber : UInt32
  data : List UInt8
  deriving DecidableEq, Repr

end LcmBridge
