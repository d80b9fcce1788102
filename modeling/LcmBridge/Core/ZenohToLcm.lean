import Mathlib.Data.Finset.Card
import Mathlib.Data.UInt
import LcmBridge.Core.Config
import LcmBridge.Core.Mapping
import LcmBridge.Core.Multicast

/-!
# From Zenoh to LCM

The task that sends Zenoh samples to the LCM multicast group.

For each sample it extracts the channel from the key, filters it, and sends the
payload. The sequence number of a send that succeeded is recorded in
`sentSequences`, the set it shares with the task of the opposite direction. The
two are separate definitions, because the lock is taken between them:
`handleSample` goes as far as the result of the send, and `recordSent` is what
happens under the lock.

## Main definitions

* `pruneSentSequences`: Discarding old sequence numbers.
* `SampleOutcome`: What became of a sample.
* `handleSample`: The loop body up to the result of the send.
* `recordSent`: The loop body under the lock.
* `Sample`, `zenohToLcmLoop`: The loop by itself, up to the results of the sends.
-/

namespace LcmBridge

/-- Prune the set of sent sequence numbers when it grows too large. -/
def pruneSentSequences (seqs : Finset UInt32) (latestSeq : UInt32) : Finset UInt32 :=
  if seqs.card > 10000 then
    let cutoff := UInt32.ofNat (latestSeq.toNat - 5000)
    seqs.filter (fun s => s ≥ cutoff)
  else seqs

/-- What became of a sample: its key has no channel, its channel is not
    allowed, or it was handed to `send` with this result. -/
inductive SampleOutcome where
  | unmapped (error : String)
  | notAllowed (channel : String)
  | sent (channel : String) (seq : UInt32)
  | failed (channel : String) (error : IoError)
  deriving DecidableEq, Repr

/-- The loop body up to the result of the send. Returns the transport
    afterwards, the datagrams emitted, and what became of the sample. -/
def handleSample (config : Config) (transport : LcmTransport) (sendTo : SendTo)
    (keyExpr : KeyExpr) (payload : List UInt8) :
    Exec (LcmTransport × List Datagram × SampleOutcome) :=
  match keyExprToLcmChannel keyExpr config.keyPrefix with
  | .error error => .ok (transport, [], .unmapped error)
  | .ok channel =>
      if isAllowed channel config then do
        let (transport, emitted, result) ← transport.send sendTo channel payload
        match result with
        | .ok seq => return (transport, emitted, .sent channel seq)
        | .error error => return (transport, emitted, .failed channel error)
      else .ok (transport, [], .notAllowed channel)

/-- Record the sequence number of a successful send for loop prevention. -/
def recordSent (seqs : Finset UInt32) (seq : UInt32) : Finset UInt32 :=
  pruneSentSequences (insert seq seqs) seq

/-- A sample as the subscriber hands it out, with the answers of the socket. -/
structure Sample where
  keyExpr : KeyExpr
  payload : List UInt8
  sendTo : SendTo

/-- The loop over the samples that the subscriber will hand out, with the
    datagrams emitted and what becomes of each sample. -/
def zenohToLcmLoop (config : Config) (transport : LcmTransport) (emitted : List Datagram)
    (samples : List Sample) : Exec ((LcmTransport × List Datagram) × List SampleOutcome) :=
  Machine.runAll (fun (transport, emitted) sample => do
    let (transport, sent, outcome) ←
      handleSample config transport sample.sendTo sample.keyExpr sample.payload
    return ((transport, emitted ++ sent), outcome)) (transport, emitted) samples

end LcmBridge
