import LcmBridge.Theory.FailedSend
import LcmBridge.Theory.Isolation

/-!
# Publishers on the Wire

What a publisher's messages depend on, from the datagrams on.

The socket hands out datagrams of all publishers, short messages and fragments
mixed, and some that are neither. Only a fragment looks at the pending sets and
only a fragment sweeps them. In between come messages that are delivered at once
and datagrams that are skipped. So a sequence of arrivals is a run of the
expiring store among events that are no accesses (`receiveAll_eq`), and the
rule for these runs gives the isolation: what is delivered under a set of keys
is what is delivered when nothing else arrives (`publishers_isolated`). The set
may be all the numbers of one sender, or of all senders but one.

This is stronger than it sounds for a single key, because a publisher uses many
numbers, and it is about bytes: nothing that another publisher puts on the wire,
well formed or not, changes what is received from this one.

## Main definitions

* `Arrival.key`: The sender and the sequence number a datagram is read with.
* `Arrival.call`, `Arrival.direct`: The call a datagram leads to, or its answer.
* `ArrivalsOrdered`: The clock goes forward along the arrivals.

## Theorems

* `handleDatagram_eq`: One arrival as an event of the store.
* `receiveAll_eq`: A sequence of arrivals as a run.
* `filter_results`: The results of some of the arrivals.
* `publishers_isolated`: What is delivered under a set of keys.
-/

namespace LcmBridge

open FragmentReassembler

/-- The sender and the sequence number a datagram is read with. -/
def Arrival.key (a : Arrival) : Option FragmentKey :=
  (parseDatagram a.datagram).map (fun p => (a.src, p.sequenceNumber))

/-- The call that a datagram leads to, if it is a fragment. -/
def Arrival.call (a : Arrival) : Option Call :=
  match parseDatagram a.datagram with
  | some (.fragment frag) =>
      if h : frag.data.length ≤ isizeMax then some ⟨frag, a.src, a.now, a.insertNow, h⟩ else none
  | _ => none

/-- What a datagram delivers that is no fragment. -/
def Arrival.direct (a : Arrival) : Option LcmMessage :=
  match parseDatagram a.datagram with
  | some (.short msg) => some ⟨msg.channel, msg.sequenceNumber, msg.data⟩
  | _ => none

/-- The clock never goes backwards along the arrivals. -/
def ArrivalsOrdered (arrivals : List Arrival) : Prop :=
  (arrivals.flatMap (fun a => [a.now, a.insertNow])).Pairwise (· ≤ ·)

instance (arrivals : List Arrival) : Decidable (ArrivalsOrdered arrivals) :=
  inferInstanceAs (Decidable (List.Pairwise _ _))

section Arrivals

variable {a : Arrival} {c : Call} {r r' : FragmentReassembler} {arrivals : List Arrival}

/-- The data of a fragment are part of its datagram. -/
theorem data_length_le {datagram : Datagram} {frag : Fragment}
    (h : parseDatagram datagram = some (.fragment frag)) :
    frag.data.length ≤ datagram.length := by
  have henc := (encodePacket_of_parse h).2
  rw [← henc, encodePacket, length_encodeFragment]
  omega

theorem call_eq_some (h : a.call = some c) :
    parseDatagram a.datagram = some (.fragment c.fragment) ∧ c.sender = a.src ∧ c.now = a.now ∧
      c.insertNow = a.insertNow := by
  unfold Arrival.call at h
  split at h
  · next frag hparse =>
      split at h
      · rw [← Option.some.inj h]
        exact ⟨hparse, rfl, rfl, rfl⟩
      · exact absurd h (by simp only [reduceCtorEq, not_false_eq_true])
  · exact absurd h (by simp only [reduceCtorEq, not_false_eq_true])

theorem key_of_call (h : a.call = some c) : a.key = some c.key := by
  rcases call_eq_some h with ⟨hparse, hsender, _, _⟩
  rw [Arrival.key, hparse, Option.map_some, Call.key, hsender]
  rfl

/-- One arrival is a call, or is answered without the reassembler. -/
theorem handleDatagram_eq (hmem : a.datagram.length ≤ isizeMax) :
    handleDatagram r a.datagram a.src a.now a.insertNow =
      match a.call with
      | some c => r.call c
      | none => .ok (r, a.direct) := by
  unfold handleDatagram Arrival.call Arrival.direct
  cases hparse : parseDatagram a.datagram with
  | none => rfl
  | some packet =>
      cases packet with
      | short msg => rfl
      | fragment frag =>
          dsimp only
          rw [dif_pos (Nat.le_trans (data_length_le hparse) hmem)]
          rfl

theorem allValid_handle (hv : r.AllValid) (hmem : a.datagram.length ≤ isizeMax)
    {result : Option LcmMessage}
    (h : handleDatagram r a.datagram a.src a.now a.insertNow = .ok (r', result)) :
    r'.AllValid := by
  rw [handleDatagram_eq hmem] at h
  cases hc : a.call with
  | none =>
      simp only [hc, Except.ok.injEq, Prod.mk.injEq] at h
      rw [← h.1]
      exact hv
  | some c =>
      simp only [hc] at h
      exact allValid_call hv h

/-- A sequence of arrivals is a run of the store, and it does not panic. -/
theorem receiveAll_eq (hv : r.AllValid) (hmem : ∀ a ∈ arrivals, a.datagram.length ≤ isizeMax) :
    receiveAll r arrivals
      = .ok (r.withPending (r.rules.runOn Arrival.call Arrival.direct r.pending arrivals).1,
          (r.rules.runOn Arrival.call Arrival.direct r.pending arrivals).2) := by
  induction arrivals generalizing r with
  | nil => rfl
  | cons a arrivals ih =>
      have hstep : handleDatagram r a.datagram a.src a.now a.insertNow
          = .ok (r.withPending (r.rules.stepOn Arrival.call Arrival.direct r.pending a).1,
              (r.rules.stepOn Arrival.call Arrival.direct r.pending a).2) := by
        rw [handleDatagram_eq (hmem a List.mem_cons_self), ExpiringStore.stepOn]
        cases a.call with
        | none => rfl
        | some c => exact call_eq hv c
      have hv' := allValid_handle hv (hmem a List.mem_cons_self) hstep
      have hrest := ih hv' (fun b hb => hmem b (List.mem_cons_of_mem a hb))
      exact Machine.runAll_cons_eq_ok.mpr ⟨_, _, _, hstep, hrest, rfl⟩

-- The calls are some of the arrivals, with the same readings.
theorem clockOrdered_calls (h : ArrivalsOrdered arrivals) :
    ClockOrdered (arrivals.filterMap Arrival.call) := by
  unfold ArrivalsOrdered at h
  unfold ClockOrdered clockReadings
  refine h.sublist ?_
  induction arrivals with
  | nil => exact List.Sublist.refl _
  | cons a arrivals ih =>
      have hrest := ih (List.Pairwise.sublist (by
        rw [List.flatMap_cons]
        exact List.sublist_append_right _ _) h)
      cases hc : a.call with
      | none =>
          rw [List.filterMap_cons_none hc, List.flatMap_cons]
          exact hrest.trans (List.sublist_append_right _ _)
      | some c =>
          rcases call_eq_some hc with ⟨_, _, hnow, hinsert⟩
          rw [List.filterMap_cons_some hc, List.flatMap_cons, List.flatMap_cons, hnow, hinsert]
          exact List.Sublist.append_left hrest _

/-- Of the results of two runs, one over the arrivals and one over some of them
    by key, the second are those of the first at the same arrivals. -/
theorem filter_results (hv : r.AllValid) (hmem : ∀ a ∈ arrivals, a.datagram.length ≤ isizeMax)
    (hclock : ArrivalsOrdered arrivals) (q : FragmentKey → Bool)
    {shared alone : FragmentReassembler} {results results' : List (Option LcmMessage)}
    (hshared : receiveAll r arrivals = .ok (shared, results))
    (halone : receiveAll r (arrivals.filter (fun a => a.key.any q)) = .ok (alone, results')) :
    ((arrivals.zip results).filter (fun p => p.1.key.any q)).map Prod.snd = results' := by
  rw [receiveAll_eq hv hmem, Except.ok.injEq, Prod.mk.injEq] at hshared
  rw [receiveAll_eq hv (fun a ha => hmem a (List.mem_filter.mp ha).1), Except.ok.injEq,
    Prod.mk.injEq] at halone
  rw [← hshared.2, ← halone.2]
  have hkeep : ∀ (a : Arrival) (c : Call), a.call = some c → a.key.any q = q (r.rules.key c) := by
    intro a c hc
    rw [key_of_call hc]
    rfl
  exact r.rules.runOn_filter_eq hkeep r.pending arrivals
    (monotoneExpiry_of_clockOrdered _ _ (clockOrdered_calls hclock))

end Arrivals

/-- In any sequence of arrivals at a receiver that is in a reachable state, what
    the datagrams deliver that are read with a key of some set is, one by one,
    what they deliver when they alone arrive, at the same times. -/
theorem publishers_isolated {r : FragmentReassembler} (hreach : r.Reachable)
    {arrivals : List Arrival} (hmem : ∀ a ∈ arrivals, a.datagram.length ≤ isizeMax)
    (hclock : ArrivalsOrdered arrivals) (q : FragmentKey → Bool) :
    ∃ (shared alone : FragmentReassembler) (results results' : List (Option LcmMessage)),
      receiveAll r arrivals = .ok (shared, results) ∧
      receiveAll r (arrivals.filter (fun a => a.key.any q)) = .ok (alone, results') ∧
      results.length = arrivals.length ∧
      ((arrivals.zip results).filter (fun p => p.1.key.any q)).map Prod.snd = results' := by
  have hv := reachable_allValid hreach
  have hshared := receiveAll_eq hv hmem
  have halone := receiveAll_eq hv
    (fun a (ha : a ∈ arrivals.filter (fun a => a.key.any q)) => hmem a (List.mem_filter.mp ha).1)
  exact ⟨_, _, _, _, hshared, halone, Machine.runAll_length hshared,
    filter_results hv hmem hclock q hshared halone⟩

theorem reachable_new (timeout : Duration) (maxMessageSize : Nat) :
    (new timeout maxMessageSize).Reachable :=
  ⟨timeout, maxMessageSize, [], [], List.Pairwise.nil, rfl⟩

/-- A message in two fragments, and in between, from another address, a short
    message and a fragment under the same number and three stray bytes. -/
def mixedArrivals : List Arrival :=
  [⟨encodeFragment 1 4 0 0 2 (some "A") [1, 2], .v4 1 5000, 0, 1⟩,
    ⟨encodeShortMessage 1 "B" [9], .v4 2 5000, 2, 2⟩,
    ⟨encodeFragment 1 4 2 1 2 none [7, 8], .v4 2 5000, 3, 3⟩,
    ⟨[1, 2, 3], .v4 2 5000, 4, 4⟩,
    ⟨encodeFragment 1 4 2 1 2 none [3, 4], .v4 1 5000, 5, 5⟩]

theorem publishers_isolated_mixed :
    ∃ (shared alone : FragmentReassembler) (results results' : List (Option LcmMessage)),
      receiveAll (new 10 100) mixedArrivals = .ok (shared, results) ∧
      receiveAll (new 10 100)
          (mixedArrivals.filter (fun a => a.key.any (fun k => k.1 = .v4 1 5000)))
        = .ok (alone, results') ∧
      results.length = mixedArrivals.length ∧
      ((mixedArrivals.zip results).filter
        (fun p => p.1.key.any (fun k => k.1 = .v4 1 5000))).map Prod.snd = results' :=
  publishers_isolated (reachable_new 10 100) (by decide) (by decide) (fun k => k.1 = .v4 1 5000)

end LcmBridge
