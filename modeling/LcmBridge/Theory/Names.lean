import LcmBridge.Theory.Runs
import LcmBridge.Theory.Slot
import LcmBridge.Theory.Wire

/-!
# Received Names

The channel of every message the bridge receives is one a datagram can carry.

A parser reads a name up to a zero byte, out of a buffer of fixed size. So what
it reads has no NUL character, and is no longer than the buffer. The
reassembler keeps a name from the call that read it until the message is
complete, and the LCM to Zenoh task keeps the message until the lock is free;
an invariant carries the property through both.

## Main definitions

* `Readable`: A name that fits a datagram.
* `FragmentReassembler.NamesReadable`: The names of the pending sets.
* `Bridge.NamesReadable`: These, and the name of the message being held.

## Theorems

* `readable_of_parse_short`, `readable_of_parse_fragment`: A parsed name is readable.
* `process_namesReadable`: One call of the reassembler.
* `move_namesReadable`: One move of the bridge.
* `readable_of_handled`: The messages a bridge handles.
-/

namespace LcmBridge

open Bytes Checked

/-- A name that a parser can read from one datagram. -/
def Readable (channel : String) : Prop :=
  NulFree channel ∧ (asBytes channel).length ≤ maxDatagramSize

/-- The name of a set before fragment zero has come. -/
theorem readable_empty : Readable "" := by
  unfold Readable
  decide

/-! ### Parsing -/

theorem readable_of_parse_short {bs : List UInt8} {msg : ShortMessage}
    (hlen : bs.length ≤ maxDatagramSize) (h : parseDatagram bs = some (.short msg)) :
    Readable msg.channel := by
  rcases encodePacket_of_parse h with ⟨hnul, hbytes⟩
  -- The datagram is the encoding of what was read, so the name fits in it.
  have hsize : (encodePacket (.short msg)).length
      = 9 + (asBytes msg.channel).length + msg.data.length := length_encodeShortMessage _ _ _
  rw [hbytes] at hsize
  exact ⟨hnul, by omega⟩

theorem readable_of_parse_fragment {bs : List UInt8} {frag : Fragment}
    (hlen : bs.length ≤ maxDatagramSize) (h : parseDatagram bs = some (.fragment frag))
    {channel : String} (hchannel : frag.channel = some channel) : Readable channel := by
  rcases encodePacket_of_parse h with ⟨⟨_, hnul⟩, hbytes⟩
  have hsize := congrArg List.length hbytes
  unfold encodePacket at hsize
  dsimp only at hsize
  rw [length_encodeFragment, hchannel] at hsize
  dsimp only at hsize
  exact ⟨hnul channel hchannel, by omega⟩

/-! ### The reassembler -/

/-- The name of every pending set is readable. -/
def FragmentReassembler.NamesReadable (self : FragmentReassembler) : Prop :=
  ∀ key set, self.pending key = some set → Readable set.channel

section Reassembler

variable {self self' : FragmentReassembler} {key : FragmentKey} {set set' : FragmentSet}
  {fragment : Fragment}

theorem namesReadable_expireStale (h : self.NamesReadable) (now : Instant) :
    (self.expireStale now).NamesReadable := by
  intro key set hset
  exact h key set (Option.eq_some_of_filter_eq_some hset)

-- Only the set of this key is new.
theorem namesReadable_put (h : self.NamesReadable) (hset : Readable set.channel) :
    (self.put key set).NamesReadable := by
  intro key' set' hset'
  unfold FragmentReassembler.put at hset'
  dsimp only at hset'
  by_cases hkey : key' = key
  · rw [hkey, Function.update_self, Option.some.injEq] at hset'
    rw [← hset']
    exact hset
  · rw [Function.update_of_ne hkey] at hset'
    exact h key' set' hset'

theorem namesReadable_remove (h : self.NamesReadable) : (self.remove key).2.NamesReadable := by
  intro key' set' hset'
  unfold FragmentReassembler.remove at hset'
  dsimp only at hset'
  by_cases hkey : key' = key
  · rw [hkey, Function.update_self] at hset'
    exact absurd hset' (by simp only [reduceCtorEq, not_false_eq_true])
  · rw [Function.update_of_ne hkey] at hset'
    exact h key' set' hset'

-- The name is the old one, or the one that fragment zero carries.
theorem readable_storeChannel (hset : Readable set.channel)
    (hfrag : ∀ channel, fragment.channel = some channel → Readable channel) :
    Readable (set.storeChannel fragment).channel := by
  unfold FragmentSet.storeChannel
  by_cases h0 : fragment.fragmentNumber = 0
  · rw [if_pos h0]
    cases hc : fragment.channel with
    | none => exact hset
    | some channel => exact hfrag channel hc
  · rw [if_neg h0]
    exact hset

/-- Copying the data of a fragment leaves the name alone. -/
theorem receive_channel (h : set.receive fragment = .ok (some set')) :
    set'.channel = set.channel := by
  unfold FragmentSet.receive at h
  split at h
  · simp only [Except.ok.injEq, reduceCtorEq] at h
  · dsimp only at h
    split at h
    · simp only [Except.ok.injEq, reduceCtorEq] at h
    · rcases bind_eq_ok.mp h with ⟨duplicate, _, h⟩
      cases duplicate with
      | true => simp only [if_true, pure, Except.pure, Except.ok.injEq, reduceCtorEq] at h
      | false =>
          rcases bind_eq_ok.mp h with ⟨stop, _, h⟩
          split at h
          · simp only [pure, Except.pure, Except.ok.injEq, reduceCtorEq] at h
          · -- Every check is passed: what remains writes other fields.
            rcases bind_eq_ok.mp h with ⟨buffer, _, h⟩
            rcases bind_eq_ok.mp h with ⟨receivedMask, _, h⟩
            rcases bind_eq_ok.mp h with ⟨fragmentsReceived, _, h⟩
            rw [← Option.some.inj (Except.ok.inj h)]

/-- One call keeps the names readable, and delivers under a readable name. -/
theorem process_namesReadable (hself : self.NamesReadable)
    (hfrag : ∀ channel, fragment.channel = some channel → Readable channel)
    {sender : SocketAddr} {now insertNow : Instant} {result : Option LcmMessage}
    (h : self.process fragment sender now insertNow = .ok (self', result)) :
    self'.NamesReadable ∧ ∀ m, result = some m → Readable m.channel := by
  have hswept := namesReadable_expireStale hself now
  -- Found or created, the set has a readable name when it is offered the
  -- fragment; what happens to the fragment then does not touch it.
  have hset : Readable ((((self.expireStale now).pending
      (sender, fragment.sequenceNumber)).getD
      (FragmentSet.fresh fragment insertNow)).storeChannel fragment).channel := by
    refine readable_storeChannel ?_ hfrag
    cases hs : (self.expireStale now).pending (sender, fragment.sequenceNumber) with
    | none => exact readable_empty
    | some set => exact hswept _ set hs
  rcases FragmentReassembler.process_cases h with
    ⟨rfl, rfl⟩ | ⟨_, rfl, rfl⟩ | ⟨placed, hreceive, hplaced⟩
  · exact ⟨hswept, fun m hm => absurd hm (by simp only [reduceCtorEq, not_false_eq_true])⟩
  · exact ⟨namesReadable_put hswept hset,
      fun m hm => absurd hm (by simp only [reduceCtorEq, not_false_eq_true])⟩
  · rw [← receive_channel hreceive] at hset
    rcases hplaced with ⟨rfl, rfl⟩ | ⟨rfl, rfl⟩
    · exact ⟨namesReadable_put hswept hset,
        fun m hm => absurd hm (by simp only [reduceCtorEq, not_false_eq_true])⟩
    · refine ⟨namesReadable_remove (namesReadable_put hswept hset), fun m hm => ?_⟩
      rw [← Option.some.inj hm]
      exact hset

/-- One pass of the receive loop. -/
theorem recvStep_namesReadable (hself : self.NamesReadable) {a : Arrival}
    {result : Option LcmMessage} (h : recvStep self a = .ok (self', result)) :
    self'.NamesReadable ∧ ∀ m, result = some m → Readable m.channel := by
  have hlen : (a.datagram.take maxDatagramSize).length ≤ maxDatagramSize := List.length_take_le _ _
  unfold recvStep handleDatagram at h
  cases hparse : parseDatagram (a.datagram.take maxDatagramSize) with
  | none =>
      simp only [hparse, Except.ok.injEq, Prod.mk.injEq] at h
      rw [← h.1, ← h.2]
      exact ⟨hself, fun m hm => absurd hm (by simp only [reduceCtorEq, not_false_eq_true])⟩
  | some packet =>
      cases packet with
      | short msg =>
          simp only [hparse, Except.ok.injEq, Prod.mk.injEq] at h
          rw [← h.1, ← h.2]
          refine ⟨hself, fun m hm => ?_⟩
          rw [← Option.some.inj hm]
          exact readable_of_parse_short hlen hparse
      | fragment frag =>
          simp only [hparse] at h
          exact process_namesReadable hself
            (fun _ hc => readable_of_parse_fragment hlen hparse hc) h

end Reassembler

/-! ### The bridge -/

/-- The names in the reassembler, and that of the message being held, are
    readable. -/
structure Bridge.NamesReadable (b : Bridge) : Prop where
  pending : b.reassembler.NamesReadable
  checking : ∀ src msg, b.receiver = .checking src msg → Readable msg.channel

theorem start_namesReadable (config : Config) (localAddr : SocketAddr) (fragmentMtu : Nat) :
    (Bridge.start config localAddr fragmentMtu).NamesReadable where
  pending key set hset := absurd hset (by
    simp only [Bridge.start, FragmentReassembler.new, reduceCtorEq, not_false_eq_true])
  checking src msg hcheck := absurd hcheck (by
    simp only [Bridge.start, reduceCtorEq, not_false_eq_true])

section Moves

variable {tryFrom : String → Except String KeyExpr} {b b' : Bridge}

theorem move_namesReadable {a : Action} {event : Event} (hb : b.NamesReadable)
    (h : Move tryFrom b a b' event) : b'.NamesReadable := by
  cases h with
  | sample _ _ => exact ⟨hb.pending, hb.checking⟩
  | record _ => exact ⟨hb.pending, hb.checking⟩
  | check _ =>
      refine ⟨hb.pending, fun src msg hcheck => ?_⟩
      exact absurd hcheck (by simp only [reduceCtorEq, not_false_eq_true])
  | @arrive a reassembler msg _ _ hrecv =>
      rcases recvStep_namesReadable hb.pending hrecv with ⟨hpending, hmsg⟩
      refine ⟨hpending, fun src m hcheck => ?_⟩
      -- What is held now is what this datagram completed.
      cases msg with
      | none => exact absurd hcheck (by simp only [Option.elim_none, reduceCtorEq, not_false_eq_true])
      | some msg =>
          simp only [Option.elim_some, ReceiverTask.checking.injEq] at hcheck
          rw [← hcheck.2]
          exact hmsg msg rfl

theorem run_namesReadable {actions : List Action} {events : List Event} (hb : b.NamesReadable)
    (h : b.run tryFrom actions = .ok (b', events)) : b'.NamesReadable :=
  Machine.runAll_invariant Bridge.NamesReadable
    (fun _ _ _ _ hu hstep => move_namesReadable hu (move_of_step hstep)) hb h

/-- Every message a bridge handles, from its start on, has a readable name. -/
theorem readable_of_handled {config : Config} {localAddr : SocketAddr} {fragmentMtu : Nat}
    {actions : List Action} {events : List Event}
    (hrun : (Bridge.start config localAddr fragmentMtu).run tryFrom actions = .ok (b', events))
    {src : SocketAddr} {msg : LcmMessage} {handling : Handling}
    (hmem : Event.handled src msg handling ∈ events) : Readable msg.channel := by
  rcases (handled_mem_iff hrun).mp hmem with ⟨u, ⟨pre, post, es, _, hpre, hcheck⟩, _⟩
  exact (run_namesReadable (start_namesReadable _ _ _) hpre).checking src msg hcheck

end Moves

end LcmBridge
