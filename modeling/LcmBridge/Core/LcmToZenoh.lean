import LcmBridge.Core.ZenohToLcm

/-!
# From LCM to Zenoh

The task that publishes received LCM messages to Zenoh.

`handleMessage` is the loop body on a message that `recv` has returned. It
first takes the lock and removes the sequence number from `sentSequences`; if
it was there, the message is taken for a loopback copy of one the bridge sent
and skipped. Everything after that concerns the message alone.

## Main definitions

* `Handling`: What becomes of a received message.
* `handleMessage`: The loop body on a received message.
* `lcmToZenohLoop`: The loop by itself, with the sets it finds at its locks.

## Theorems

* `handleMessage_sentSequences`: What it does to the set.
* `handleMessage_eq_loopback_iff`: Which messages are skipped.
* `handleMessage_eq_put_iff`: Which messages are published.
-/

namespace LcmBridge

/-- What becomes of a received message: it is taken for a loopback copy, its
    channel is not allowed or has no key, or it is handed to the Zenoh `put`. -/
inductive Handling where
  | loopback
  | notAllowed
  | unmapped (error : String)
  | put (keyExpr : KeyExpr) (payload : List UInt8)
  deriving DecidableEq

/-- The loop body on a received message, with the set of sent sequence numbers
    afterwards. -/
def handleMessage (tryFrom : String → Except String KeyExpr) (config : Config)
    (seqs : Finset UInt32) (msg : LcmMessage) : Finset UInt32 × Handling :=
  -- Loop prevention: skip messages we sent.
  if msg.sequenceNumber ∈ seqs then (seqs.erase msg.sequenceNumber, .loopback)
  -- Channel filtering.
  else if isAllowed msg.channel config = false then (seqs, .notAllowed)
  else
    -- Map channel to Zenoh key expression.
    match lcmChannelToKeyExpr tryFrom msg.channel config.keyPrefix with
    | .error error => (seqs, .unmapped error)
    | .ok keyExpr => (seqs, .put keyExpr msg.data)

/-- Whatever becomes of the message, its sequence number is not in the set
    afterwards, and the other numbers stay. -/
theorem handleMessage_sentSequences (tryFrom : String → Except String KeyExpr) (config : Config)
    (seqs : Finset UInt32) (msg : LcmMessage) :
    (handleMessage tryFrom config seqs msg).1 = seqs.erase msg.sequenceNumber := by
  unfold handleMessage
  by_cases hseq : msg.sequenceNumber ∈ seqs
  · rw [if_pos hseq]
  · -- The branches that remain leave the set as it is, which has no such number.
    rw [if_neg hseq, Finset.erase_eq_of_notMem hseq]
    split
    · rfl
    · split <;> rfl

/-- A message is taken for a loopback copy exactly when its sequence number is
    in the set, whoever sent it. -/
theorem handleMessage_eq_loopback_iff {tryFrom : String → Except String KeyExpr} {config : Config}
    {seqs : Finset UInt32} {msg : LcmMessage} :
    (handleMessage tryFrom config seqs msg).2 = .loopback ↔ msg.sequenceNumber ∈ seqs := by
  unfold handleMessage
  by_cases hseq : msg.sequenceNumber ∈ seqs
  · rw [if_pos hseq]
    simp only [hseq]
  · -- Every other branch says something else of the message.
    rw [if_neg hseq]
    simp only [hseq, iff_false]
    split
    · simp only [reduceCtorEq, not_false_eq_true]
    · split <;> simp only [reduceCtorEq, not_false_eq_true]

/-- A message is published under a key exactly when it is not taken for a
    loopback copy, its channel is allowed, and it is mapped to the key. -/
theorem handleMessage_eq_put_iff {tryFrom : String → Except String KeyExpr} {config : Config}
    {seqs : Finset UInt32} {msg : LcmMessage} {keyExpr : KeyExpr} {payload : List UInt8} :
    (handleMessage tryFrom config seqs msg).2 = .put keyExpr payload ↔
      msg.sequenceNumber ∉ seqs ∧ isAllowed msg.channel config = true ∧
        lcmChannelToKeyExpr tryFrom msg.channel config.keyPrefix = .ok keyExpr ∧
        payload = msg.data := by
  unfold handleMessage
  -- The cases are the branches of the source, in its order.
  by_cases hseq : msg.sequenceNumber ∈ seqs
  · rw [if_pos hseq]
    simp only [reduceCtorEq, hseq, not_true_eq_false, false_and]
  · rw [if_neg hseq]
    by_cases hallow : isAllowed msg.channel config = false
    · rw [if_pos hallow]
      simp only [reduceCtorEq, hallow, Bool.false_eq_true, false_and, and_false]
    · rw [if_neg hallow]
      rw [Bool.not_eq_false] at hallow
      cases hmap : lcmChannelToKeyExpr tryFrom msg.channel config.keyPrefix with
      | error error => simp only [reduceCtorEq, false_and, and_false]
      | ok ke =>
          simp only [Handling.put.injEq, Except.ok.injEq, hseq, hallow, not_false_eq_true,
            true_and, eq_comm]

/-- What is left to receive is less than there was. -/
theorem recv_length_lt {reassembler reassembler' : FragmentReassembler} {arrivals rest : List Arrival}
    {msg : LcmMessage} (h : recv reassembler arrivals = .ok (reassembler', some (msg, rest))) :
    rest.length < arrivals.length := by
  induction arrivals generalizing reassembler with
  | nil =>
      simp only [recv, Except.ok.injEq, Prod.mk.injEq, reduceCtorEq, and_false] at h
  | cons a arrivals ih =>
      rw [recv] at h
      rcases Checked.bind_eq_ok.mp h with ⟨⟨mid, result⟩, _, h⟩
      cases result with
      | none => exact Nat.lt_succ_of_lt (ih h)
      | some msg' =>
          have hout := Except.ok.inj h
          simp only [Prod.mk.injEq, Option.some.injEq] at hout
          rw [← hout.2.2]
          exact Nat.lt_succ_self _

/-- The loop over the datagrams that the socket will hand out, and what becomes
    of each message. `locked` are the sets found when the lock is taken; without
    one the loop waits with its message. -/
def lcmToZenohLoop (tryFrom : String → Except String KeyExpr) (config : Config)
    (reassembler : FragmentReassembler) (locked : List (Finset UInt32))
    (arrivals : List Arrival) : Exec (FragmentReassembler × List (LcmMessage × Handling)) :=
  match _hrecv : recv reassembler arrivals with
  | .error panic => .error panic
  | .ok (reassembler, none) => .ok (reassembler, [])
  | .ok (reassembler, some (msg, rest)) =>
      match locked with
      | [] => .ok (reassembler, [])
      | seqs :: locked => do
          let (reassembler, handled) ← lcmToZenohLoop tryFrom config reassembler locked rest
          return (reassembler, (msg, (handleMessage tryFrom config seqs msg).2) :: handled)
termination_by arrivals.length
decreasing_by exact recv_length_lt _hrecv

end LcmBridge
