import LcmBridge.Core.Fragment

/-!
# LCM Transport

Sending and receiving whole messages over UDP multicast.

The socket is the environment. A call of `send_to` is answered by an oracle:
`sendTo i` is the error of the `i`-th call that one `send` makes, or `none` if
it succeeds. A call that fails emits nothing and ends the `send`. What a `send`
emits is part of its result, whether or not it succeeds.

`send` decides between one short datagram and several fragments, and it never
looks at the payload again once the number of fragments is fixed. That number
and the payload size are computed in `usize` and narrowed to the widths of
their header fields; the loop runs to the narrowed number.

`handleDatagram` is the body of the receive loop on the bytes a datagram
arrived with, and `recv` the loop itself, over the datagrams the socket will
hand out.

## Main definitions

* `IoError`, `SendTo`: Failures, and the socket's answers to one `send`.
* `LcmTransport`: The state of a transport.
* `fragmentChunk`, `fragmentLoop`: The loop that emits the fragments of a message.
* `numberOfFragments`: How many there are.
* `sendFragmented`, `send`: Sending a message.
* `Arrival`, `handleDatagram`, `recvStep`, `recv`: Receiving.
* `receiveAll`: A sequence of datagrams with what each completes.
-/

namespace LcmBridge

open Bytes Checked

/-- Default maximum UDP datagram size for receiving. -/
def maxDatagramSize : Nat := 65536

/-- Default MTU for fragmenting outgoing messages. -/
def defaultFragmentMtu : Nat := 1400

/-- The ways a socket call or a request can fail. -/
inductive IoError where
  | invalidInput (message : String)
  | os (code : Int)
  deriving DecidableEq, Repr

/-- The socket's answers to the `send_to` calls of one `send`: the error of
    each, or `none` if it succeeds. -/
abbrev SendTo : Type := Nat → Option IoError

/-- The transport: its fragment MTU and its sequence counter. -/
structure LcmTransport where
  fragmentMtu : Nat
  sequenceCounter : UInt32
  deriving DecidableEq, Repr

namespace LcmTransport

/-- A transport that has sent nothing yet. -/
def new (fragmentMtu : Nat) : LcmTransport where
  fragmentMtu := fragmentMtu
  sequenceCounter := 0

/-! ### Sending -/

/-- The data of one fragment, and the channel if it is the first. -/
def fragmentChunk (firstFragCapacity subsequentFragCapacity : Nat) (channel : String)
    (data : List UInt8) (fragNum offset : Nat) : Exec (List UInt8 × Option String) :=
  if fragNum = 0 then do
    let chunkData ← slice data 0 (min firstFragCapacity data.length)
    return (chunkData, some channel)
  else do
    let stop ← addUsize offset subsequentFragCapacity
    let chunkData ← slice data offset (min stop data.length)
    return (chunkData, none)

/-- The loop over the fragment numbers still to send, at the offset reached so
    far. Returns the datagrams emitted and the result. -/
def fragmentLoop (sendTo : SendTo) (sequenceNumber payloadSize : UInt32) (nFragments : UInt16)
    (firstFragCapacity subsequentFragCapacity : Nat) (channel : String) (data : List UInt8) :
    List Nat → Nat → Exec (List Datagram × Except IoError Unit)
  | [], _ => .ok ([], .ok ())
  | fragNum :: rest, offset => do
      let (chunkData, chan) ←
        fragmentChunk firstFragCapacity subsequentFragCapacity channel data fragNum offset
      let buf := encodeFragment sequenceNumber payloadSize (UInt32.ofNat offset)
        (UInt16.ofNat fragNum) nFragments chan chunkData
      match sendTo fragNum with
      | some err => return ([], .error err)
      | none =>
          let offset ← addUsize offset chunkData.length
          let (sent, result) ← fragmentLoop sendTo sequenceNumber payloadSize nFragments
            firstFragCapacity subsequentFragCapacity channel data rest offset
          return (buf :: sent, result)

/-- The total number of fragments, in `usize`. -/
def numberOfFragments (firstFragCapacity subsequentFragCapacity len : Nat) : Exec Nat := do
  let remainingAfterFirst := len - firstFragCapacity
  let roundUp ← subUsize subsequentFragCapacity 1
  match checkedAdd remainingAfterFirst roundUp with
  | some v =>
      let further ← divUsize v subsequentFragCapacity
      addUsize 1 further
  | none => addUsize 1 0

/-- Send a message as fragments. -/
def sendFragmented (self : LcmTransport) (sendTo : SendTo) (sequenceNumber : UInt32)
    (channel : String) (data : List UInt8) : Exec (List Datagram × Except IoError Unit) := do
  let payloadSize := UInt32.ofNat data.length
  -- First fragment: header, channel and its zero byte, data.
  let firstFragOverhead ← addUsize (← addUsize fragmentHeaderSize (asBytes channel).length) 1
  let firstFragCapacity := self.fragmentMtu - firstFragOverhead
  let subsequentFragCapacity := self.fragmentMtu - fragmentHeaderSize
  if firstFragCapacity = 0 ∨ subsequentFragCapacity = 0 then
    return ([], .error (.invalidInput "Fragment MTU too small for channel name"))
  else
    let n ← numberOfFragments firstFragCapacity subsequentFragCapacity data.length
    let nFragments := UInt16.ofNat n
    fragmentLoop sendTo sequenceNumber payloadSize nFragments firstFragCapacity
      subsequentFragCapacity channel data (List.range nFragments.toNat) 0

/-- Send a message: the transport afterwards, the datagrams emitted, and the
    sequence number used. Fragments if the message exceeds the MTU. -/
def send (self : LcmTransport) (sendTo : SendTo) (channel : String) (data : List UInt8) :
    Exec (LcmTransport × List Datagram × Except IoError UInt32) := do
  let seq := self.sequenceCounter
  let self := { self with sequenceCounter := self.sequenceCounter + 1 }
  -- The total short message size: magic, sequence number, channel, data.
  let shortSize ← addUsize (← addUsize (← addUsize (4 + 4) (asBytes channel).length) 1) data.length
  if shortSize ≤ self.fragmentMtu then
    match sendTo 0 with
    | some err => return (self, [], .error err)
    | none => return (self, [encodeShortMessage seq channel data], .ok seq)
  else
    let (emitted, result) ← self.sendFragmented sendTo seq channel data
    match result with
    | .error err => return (self, emitted, .error err)
    | .ok () => return (self, emitted, .ok seq)

end LcmTransport

/-! ### Receiving -/

/-- A datagram as the socket hands it out, with the clock readings its
    processing makes. -/
structure Arrival where
  datagram : Datagram
  src : SocketAddr
  now : Instant
  insertNow : Instant
  deriving DecidableEq, Repr

/-- The body of the receive loop on the bytes that were read. -/
def handleDatagram (reassembler : FragmentReassembler) (datagram : Datagram) (src : SocketAddr)
    (now insertNow : Instant) : Exec (FragmentReassembler × Option LcmMessage) :=
  match parseDatagram datagram with
  | some (.short msg) =>
      .ok (reassembler, some { channel := msg.channel, sequenceNumber := msg.sequenceNumber,
                               data := msg.data })
  | some (.fragment frag) => reassembler.process frag src now insertNow
  | none => .ok (reassembler, none)

/-- One pass of the receive loop: the read fills a buffer of fixed size, which
    cuts off what is longer. -/
def recvStep (reassembler : FragmentReassembler) (a : Arrival) :
    Exec (FragmentReassembler × Option LcmMessage) :=
  handleDatagram reassembler (a.datagram.take maxDatagramSize) a.src a.now a.insertNow

/-- Receive the next complete message, and what is left to receive. `none` if
    the datagrams run out first. -/
def recv (reassembler : FragmentReassembler) :
    List Arrival → Exec (FragmentReassembler × Option (LcmMessage × List Arrival))
  | [] => .ok (reassembler, none)
  | a :: rest => do
      match ← recvStep reassembler a with
      | (reassembler, some msg) => return (reassembler, some (msg, rest))
      | (reassembler, none) => recv reassembler rest

/-- A sequence of datagrams through the parser and the reassembler, with the
    message each completes. -/
def receiveAll (reassembler : FragmentReassembler) (arrivals : List Arrival) :
    Exec (FragmentReassembler × List (Option LcmMessage)) :=
  Machine.runAll (fun r a => handleDatagram r a.datagram a.src a.now a.insertNow) reassembler
    arrivals

end LcmBridge
