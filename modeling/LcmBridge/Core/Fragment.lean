import Mathlib.Logic.Function.Basic
import LcmBridge.Library.Checked
import LcmBridge.Library.Machine
import LcmBridge.Core.Types
import LcmBridge.Core.Protocol

/-!
# Fragment Reassembly

The reassembler that collects the fragments of large messages.

A pending set belongs to one key, the sender and the sequence number together.
Each call first sweeps out the sets that have outlived the timeout, then
finds or creates the set of its own key, and then offers it the fragment. The
map of pending sets is a partial function from keys, which is what a hash map
is to a caller.

`process` reads the clock once for the sweep, and a second time, later, when
it creates a set. The two readings are separate arguments.

The order of effects follows the source: the set is created, and the channel
name stored, before the fragment is checked against the set.

## Main definitions

* `FragmentKey`: The sender and the sequence number.
* `FragmentSet`: The state of one reassembly in progress.
* `FragmentSet.fresh`: The set created for the first fragment of a key.
* `FragmentSet.storeChannel`: Keeping the name that fragment zero carries.
* `FragmentSet.receive`: Checking a fragment and copying its data.
* `FragmentReassembler`: The pending sets and the two limits.
* `expireStale`: The sweep.
* `process`: One call of the reassembler.
* `Call`, `processAll`: A sequence of calls.
-/

namespace LcmBridge

open Checked

/-- The key of a pending set: sender address and sequence number. -/
abbrev FragmentKey : Type := SocketAddr × UInt32

/-- The state of an in-progress reassembly. -/
structure FragmentSet where
  channel : String
  payloadSize : UInt32
  nFragments : UInt16
  fragmentsReceived : UInt16
  buffer : List UInt8
  receivedMask : List Bool
  createdAt : Instant
  deriving DecidableEq, Repr

/-- The set created for a key that has none. -/
def FragmentSet.fresh (fragment : Fragment) (now : Instant) : FragmentSet where
  channel := ""
  payloadSize := fragment.payloadSize
  nFragments := fragment.nFragments
  fragmentsReceived := 0
  buffer := List.replicate fragment.payloadSize.toNat 0
  receivedMask := List.replicate fragment.nFragments.toNat false
  createdAt := now

/-- Store the channel name from the first fragment. -/
def FragmentSet.storeChannel (set : FragmentSet) (fragment : Fragment) : FragmentSet :=
  if fragment.fragmentNumber = 0 then
    match fragment.channel with
    | some channel => { set with channel := channel }
    | none => set
  else set

/-- Check a fragment against its set and copy its data. `none` if it is
    dropped. -/
def FragmentSet.receive (set : FragmentSet) (fragment : Fragment) : Exec (Option FragmentSet) :=
  -- Validate consistency.
  if fragment.payloadSize ≠ set.payloadSize ∨ fragment.nFragments ≠ set.nFragments then
    .ok none
  else
    let fragIdx := fragment.fragmentNumber.toNat
    if fragIdx ≥ set.receivedMask.length then .ok none
    else do
      -- Skip duplicate fragments.
      if ← index set.receivedMask fragIdx then return none
      let offset := fragment.fragmentOffset.toNat
      let stop ← addUsize offset fragment.data.length
      if stop > set.buffer.length then return none
      let buffer ← copyFromSlice set.buffer offset stop fragment.data
      let receivedMask ← store set.receivedMask fragIdx true
      let fragmentsReceived ← addU16 set.fragmentsReceived 1
      return some { set with buffer, receivedMask, fragmentsReceived }

/-- The reassembler. -/
structure FragmentReassembler where
  pending : FragmentKey → Option FragmentSet
  timeout : Duration
  maxMessageSize : Nat

namespace FragmentReassembler

/-- A reassembler with nothing pending. -/
def new (timeout : Duration) (maxMessageSize : Nat) : FragmentReassembler where
  pending := fun _ => none
  timeout := timeout
  maxMessageSize := maxMessageSize

/-- Remove the sets that have exceeded the timeout. -/
def expireStale (self : FragmentReassembler) (now : Instant) : FragmentReassembler :=
  { self with
    pending := fun key => (self.pending key).filter (fun set =>
      !decide (now - set.createdAt > self.timeout)) }

/-- Write back the set of a key. -/
def put (self : FragmentReassembler) (key : FragmentKey) (set : FragmentSet) :
    FragmentReassembler :=
  { self with pending := Function.update self.pending key (some set) }

/-- Take the set of a key out of the map. -/
def remove (self : FragmentReassembler) (key : FragmentKey) :
    Option FragmentSet × FragmentReassembler :=
  (self.pending key, { self with pending := Function.update self.pending key none })

/-- Process a fragment. Returns the message when all fragments have arrived.
    `now` is the clock reading of the sweep, `insertNow` the one that dates a
    set created by this call. -/
def process (self : FragmentReassembler) (fragment : Fragment) (sender : SocketAddr)
    (now insertNow : Instant) : Exec (FragmentReassembler × Option LcmMessage) :=
  -- Garbage collect timed-out fragment sets.
  let self := self.expireStale now
  let payloadSize := fragment.payloadSize.toNat
  if payloadSize > self.maxMessageSize then .ok (self, none)
  else do
    let key := (sender, fragment.sequenceNumber)
    let set := (self.pending key).getD (FragmentSet.fresh fragment insertNow)
    let set := set.storeChannel fragment
    match ← set.receive fragment with
    | none => return (self.put key set, none)
    | some set =>
        -- Check if all fragments have arrived.
        if set.fragmentsReceived = set.nFragments then
          match (self.put key set).remove key with
          | (none, _) => throw .unwrapOnNone
          | (some set, self) =>
              return (self, some { channel := set.channel,
                                   sequenceNumber := fragment.sequenceNumber,
                                   data := set.buffer })
        else
          return (self.put key set, none)

end FragmentReassembler

/-- The longest slice there can be, in bytes: `isize::MAX`. -/
def isizeMax : Nat := 9223372036854775807

/-- One call of `process`: its arguments and the clock readings it makes. The
    fragment's data is a slice in memory. -/
structure Call where
  fragment : Fragment
  sender : SocketAddr
  now : Instant
  insertNow : Instant
  inMemory : fragment.data.length ≤ isizeMax

/-- The key a call works on. -/
def Call.key (c : Call) : FragmentKey := (c.sender, c.fragment.sequenceNumber)

/-- The clock readings of a sequence of calls, in the order they are made. -/
def clockReadings (calls : List Call) : List Instant :=
  calls.flatMap (fun c => [c.now, c.insertNow])

/-- The clock never goes backwards. -/
def ClockOrdered (calls : List Call) : Prop :=
  (clockReadings calls).Pairwise (· ≤ ·)

instance (calls : List Call) : Decidable (ClockOrdered calls) :=
  inferInstanceAs (Decidable (List.Pairwise _ _))

namespace FragmentReassembler

/-- The call as a step of the reassembler. -/
def call (self : FragmentReassembler) (c : Call) :
    Exec (FragmentReassembler × Option LcmMessage) :=
  self.process c.fragment c.sender c.now c.insertNow

/-- A sequence of calls, with what each returns. -/
def processAll (self : FragmentReassembler) (calls : List Call) :
    Exec (FragmentReassembler × List (Option LcmMessage)) :=
  Machine.runAll call self calls

end FragmentReassembler

end LcmBridge
