import LcmBridge.Core.LcmToZenoh

/-!
# The Bridge

The two tasks of the bridge, interleaved.

The tasks share the transport and the set of sent sequence numbers, and they
meet on the network: whatever the bridge emits may come back to it. A step is
one move of one task between two points where it waits. The Zenoh to LCM task
takes a sample and sends it, and in a later step records the sequence number.
The LCM to Zenoh task takes one datagram after another until a message is
complete, and in a later step checks and handles that message. Any step that
is enabled may come next.

A send is one move, although it also waits at the socket between its
datagrams. The other task sees nothing of it but the datagrams, and these may
come back at any time after the move.

The environment provides the samples and the datagrams. A datagram with the
bridge's own source address is a loopback copy, and must be one the bridge has
emitted; it may come at any time after that. Datagrams from other addresses
are arbitrary.

## Main definitions

* `SenderTask`, `ReceiverTask`: Where each task waits.
* `Bridge`: The state of the two tasks and the network between them.
* `Action`, `Event`: The moves, and what is observed of each.
* `step`: One move.
* `Bridge.run`: A sequence of moves.
-/

namespace LcmBridge

/-- Where the Zenoh to LCM task waits: for a sample, or for the lock. -/
inductive SenderTask where
  | idle
  | recording (seq : UInt32)
  deriving DecidableEq, Repr

/-- Where the LCM to Zenoh task waits: for a datagram, or for the lock, with
    the message that is complete and the source of its last datagram. -/
inductive ReceiverTask where
  | receiving
  | checking (src : SocketAddr) (msg : LcmMessage)
  deriving DecidableEq, Repr

/-- The bridge, and the datagrams it has emitted so far. -/
structure Bridge where
  config : Config
  localAddr : SocketAddr
  transport : LcmTransport
  reassembler : FragmentReassembler
  sentSequences : Finset UInt32
  sender : SenderTask
  receiver : ReceiverTask
  emitted : List Datagram

/-- The reassembly timeout of the LCM to Zenoh task, one second. -/
def reassemblyTimeout : Duration := 1000000000

/-- The bridge as it starts. -/
def Bridge.start (config : Config) (localAddr : SocketAddr) (fragmentMtu : Nat) : Bridge where
  config := config
  localAddr := localAddr
  transport := LcmTransport.new fragmentMtu
  reassembler := FragmentReassembler.new reassemblyTimeout config.maxMessageSize
  sentSequences := ∅
  sender := .idle
  receiver := .receiving
  emitted := []

/-- The moves of the two tasks. -/
inductive Action where
  | sample (keyExpr : KeyExpr) (payload : List UInt8) (sendTo : SendTo)
  | record
  | arrive (a : Arrival)
  | check

/-- What is observed of a move. -/
inductive Event where
  | sampled (outcome : SampleOutcome)
  | recorded (seq : UInt32)
  | received (msg : Option LcmMessage)
  | handled (src : SocketAddr) (msg : LcmMessage) (handling : Handling)
  deriving DecidableEq

/-- Why there is no step: the task waits elsewhere, there is no such datagram,
    or the task panics. -/
inductive Stop where
  | disabled
  | panicked (panic : Panic)
  deriving DecidableEq, Repr

/-- Where the Zenoh to LCM task waits after a sample. -/
def SampleOutcome.next : SampleOutcome → SenderTask
  | .sent _ seq => .recording seq
  | _ => .idle

/-- One move of one task. -/
def step (tryFrom : String → Except String KeyExpr) (b : Bridge) :
    Action → Except Stop (Bridge × Event)
  | .sample keyExpr payload sendTo =>
      match b.sender with
      | .recording _ => .error .disabled
      | .idle =>
          match handleSample b.config b.transport sendTo keyExpr payload with
          | .error panic => .error (.panicked panic)
          | .ok (transport, emitted, outcome) =>
              .ok ({ b with transport, sender := outcome.next, emitted := b.emitted ++ emitted },
                .sampled outcome)
  | .record =>
      match b.sender with
      | .idle => .error .disabled
      | .recording seq =>
          .ok ({ b with sentSequences := recordSent b.sentSequences seq, sender := .idle },
            .recorded seq)
  | .arrive a =>
      match b.receiver with
      | .checking _ _ => .error .disabled
      | .receiving =>
          -- The bridge's own address only brings copies of its own datagrams.
          if a.src = b.localAddr ∧ a.datagram ∉ b.emitted then .error .disabled
          else
            match recvStep b.reassembler a with
            | .error panic => .error (.panicked panic)
            | .ok (reassembler, none) => .ok ({ b with reassembler }, .received none)
            | .ok (reassembler, some msg) =>
                .ok ({ b with reassembler, receiver := .checking a.src msg }, .received (some msg))
  | .check =>
      match b.receiver with
      | .receiving => .error .disabled
      | .checking src msg =>
          let out := handleMessage tryFrom b.config b.sentSequences msg
          .ok ({ b with sentSequences := out.1, receiver := .receiving }, .handled src msg out.2)

/-- A sequence of moves, with what is observed of each. -/
def Bridge.run (tryFrom : String → Except String KeyExpr) (b : Bridge) (actions : List Action) :
    Except Stop (Bridge × List Event) :=
  Machine.runAll (step tryFrom) b actions

end LcmBridge
