import LcmBridge.Theory.Names
import LcmBridge.Theory.RoundTrip
import LcmBridge.Theory.Transmission

/-!
# From Site to Site

What one bridge publishes, another one with the same settings puts back on LCM
unchanged.

The two sites only share a key and a payload. The key gives back the channel
because Zenoh keeps the string it is built from, and the filters agree because
they have the same patterns. From there the message is sent anew, under another
sequence number and cut at another MTU, so that the second half is the round
trip of a transport that knows nothing of the first.

That the second site can send the message at all rests on the first having
received it: a received name is no longer than a datagram, which keeps the
sizes that `send` adds up within reach of `usize`, and has no NUL character,
which keeps it whole on the wire.

## Main definitions

* `ReachesReceivers`: Every receiver of these datagrams gets the message.

## Theorems

* `reachesReceivers_of_outcome`: What a successful `send` emits.
* `extract_of_published`: The key of a published message.
* `sample_sends`: A sample with room for its channel is sent.
* `site_to_site`: From the publication of a message to its receivers.
-/

namespace LcmBridge

open Bytes Checked

/-! ### Every datagram once -/

/-- Every receiver that has room for the message, has nothing pending under its
    key, and gets each of the datagrams once within its timeout, in any order,
    delivers the message, with the last of them. -/
def ReachesReceivers (emitted : List Datagram) (sender : SocketAddr) (msg : LcmMessage) : Prop :=
  ∀ (reassembler : FragmentReassembler) (opened : Instant) (arrivals : List Arrival),
    msg.data.length ≤ reassembler.maxMessageSize →
    reassembler.pending (sender, msg.sequenceNumber) = none →
    (arrivals.map Arrival.datagram).Perm emitted →
    (∀ a ∈ arrivals, Timely sender opened reassembler.timeout a) →
    ∃ reassembler', receiveAll reassembler arrivals
      = .ok (reassembler', List.replicate (arrivals.length - 1) none ++ [some msg])

section Sending

variable {self : LcmTransport} {sendTo : SendTo} {channel : String} {data : List UInt8}
  {emitted : List Datagram} {seq : UInt32}

/-- A `send` emits no datagram twice. -/
theorem emitted_nodup (hout : (emitted, .ok seq) = outcome self sendTo channel data)
    (hnul : NulFree channel) (hlen : data.length < 4294967296)
    (hcount : fragmentsNeeded self.fragmentMtu channel data.length ≤ 65535) :
    emitted.Nodup := by
  rcases emitted_of_outcome hout hcount with rfl | ⟨n, _, _, rfl⟩
  · exact List.nodup_singleton _
  · have hcar : Carriers (fragmentDatagram self.fragmentMtu seq n channel data)
        (cutFragment self.fragmentMtu seq n channel data) seq (UInt32.ofNat data.length) n
        channel := carriers_cutFragment hnul (by unfold usizeBound; omega)
    refine List.Nodup.map_on (fun i hi j hj heq => ?_) List.nodup_range
    exact datagram_inj hcar (List.mem_range.mp hi) (List.mem_range.mp hj) heq

-- A permutation of distinct datagrams ends in one that has not come before, so
-- the message is delivered with it and not earlier.
theorem reachesReceivers_of_outcome
    (hout : (emitted, .ok seq) = outcome self sendTo channel data) (hnul : NulFree channel)
    (hlen : data.length < 4294967296)
    (hcount : fragmentsNeeded self.fragmentMtu channel data.length ≤ 65535)
    (sender : SocketAddr) : ReachesReceivers emitted sender ⟨channel, seq, data⟩ := by
  intro reassembler opened arrivals hmax hpending hperm htime
  have hnodup := emitted_nodup hout hnul hlen hcount
  rcases List.eq_nil_or_concat' arrivals with rfl | ⟨pre, a, rfl⟩
  · exact absurd hperm.nil_eq.symm (emitted_ne_nil hout hcount)
  · -- The last arrival is in none of the others, so one was missing before it.
    have hmissing : ¬ emitted ⊆ pre.map Arrival.datagram := by
      intro hsub
      have hnodup' := hperm.nodup_iff.mpr hnodup
      rw [List.map_append, List.map_singleton, List.nodup_append] at hnodup'
      have hmem : a.datagram ∈ emitted :=
        hperm.subset (List.mem_map_of_mem List.mem_concat_self)
      exact hnodup'.2.2 _ (hsub hmem) _ List.mem_cons_self rfl
    have harrive : ∀ b ∈ pre ++ [a],
        b.datagram ∈ emitted ∧ Timely sender opened reassembler.timeout b :=
      fun b hb => ⟨hperm.subset (List.mem_map_of_mem hb), htime b hb⟩
    rcases receive_emitted hout hnul hlen hcount hmax hpending harrive hmissing with ⟨r', hrun⟩
    refine ⟨r', ?_⟩
    rw [if_pos hperm.symm.subset] at hrun
    rw [List.length_append, List.length_singleton, Nat.add_sub_cancel]
    exact hrun

end Sending

/-! ### The two sites -/

section Sites

variable {tryFrom : String → Except String KeyExpr} {b b' : Bridge} {keyExpr : KeyExpr}
  {data : List UInt8} {channel : String}

/-- The key and the payload of a published message. -/
theorem extract_of_published
    (hkeep : ∀ s keyExpr, tryFrom s = .ok keyExpr → keyExpr.asStr = s) {actions : List Action}
    {events : List Event} (hrun : b.run tryFrom actions = .ok (b', events)) {src : SocketAddr}
    {msg : LcmMessage} (hput : Event.handled src msg (.put keyExpr data) ∈ events) :
    keyExprToLcmChannel keyExpr b.config.keyPrefix = .ok msg.channel ∧
      isAllowed msg.channel b.config = true ∧ data = msg.data := by
  rcases (handled_mem_iff hrun).mp hput with ⟨u, _, hhandling⟩
  rcases handleMessage_eq_put_iff.mp hhandling.symm with ⟨_, hallow, hmap, hdata⟩
  exact ⟨extract_of_map hkeep hmap, hallow, hdata⟩

/-- A sample on an accepted channel that a datagram can carry is sent, if the
    MTU has room for the channel. -/
theorem sample_sends (hidle : b.sender = .idle)
    (hkey : keyExprToLcmChannel keyExpr b.config.keyPrefix = .ok channel)
    (hallow : isAllowed channel b.config = true) (hread : Readable channel)
    (hroom : (asBytes channel).length + 22 ≤ b.transport.fragmentMtu)
    (hlen : data.length < 4294967296) {sendTo : SendTo} (hsend : ∀ i, sendTo i = none) :
    ∃ b' emitted, step tryFrom b (.sample keyExpr data sendTo)
        = .ok (b', .sampled (.sent channel b.transport.sequenceCounter)) ∧
      b'.emitted = b.emitted ++ emitted ∧
      (emitted, .ok b.transport.sequenceCounter) = outcome b.transport sendTo channel data := by
  have hnone : sendTo = fun _ => none := funext hsend
  have hname : (asBytes channel).length ≤ 65536 := hread.2
  -- The socket does not fail, and the MTU is not refused.
  have hok : (outcome b.transport sendTo channel data).2
      = .ok b.transport.sequenceCounter := by
    rw [hnone, outcome_of_succeeds]
    split
    · rfl
    · rw [if_neg (by unfold firstFragCapacity fragmentHeaderSize; omega)]
  have hhandle : handleSample b.config b.transport sendTo keyExpr data
      = .ok (b.transport.advanced, (outcome b.transport sendTo channel data).1,
        .sent channel b.transport.sequenceCounter) := by
    unfold handleSample
    simp only [hkey, if_pos hallow]
    rw [send_eq sendTo (by unfold usizeBound; omega), ok_bind]
    dsimp only
    rw [hok]
    rfl
  exact ⟨_, _, step_of_move (Move.sample hidle hhandle), rfl, by rw [← hok]⟩

end Sites

/-- A message that one bridge publishes under a key, in any run from its start,
    given to a bridge with the same key prefix and filter: that bridge extracts
    the channel of the message and accepts it, and if its MTU has room for the
    channel and the payload fits the header fields, what it emits reaches all
    receivers as the same channel and data. Whatever else is published under
    the key, by any bridge with the prefix, is on the same channel. -/
theorem site_to_site {tryFrom : String → Except String KeyExpr}
    (hkeep : ∀ s keyExpr, tryFrom s = .ok keyExpr → keyExpr.asStr = s)
    {config : Config} {localAddr : SocketAddr} {fragmentMtu : Nat} {actions : List Action}
    {a : Bridge} {events : List Event}
    (hrun : (Bridge.start config localAddr fragmentMtu).run tryFrom actions = .ok (a, events))
    {src : SocketAddr} {msg : LcmMessage} {keyExpr : KeyExpr} {data : List UInt8}
    (hput : Event.handled src msg (.put keyExpr data) ∈ events)
    {b : Bridge} (hkeyPrefix : b.config.keyPrefix = config.keyPrefix)
    (hallow : b.config.allow = config.allow) (hdeny : b.config.deny = config.deny) :
    keyExprToLcmChannel keyExpr b.config.keyPrefix = .ok msg.channel ∧
      isAllowed msg.channel b.config = true ∧
      data = msg.data ∧
      (b.sender = .idle → (asBytes msg.channel).length + 22 ≤ b.transport.fragmentMtu →
        data.length < 4294967296 →
        fragmentsNeeded b.transport.fragmentMtu msg.channel data.length ≤ 65535 →
        ∀ sendTo : SendTo, (∀ i, sendTo i = none) →
          ∃ b' emitted, step tryFrom b (.sample keyExpr data sendTo)
              = .ok (b', .sampled (.sent msg.channel b.transport.sequenceCounter)) ∧
            b'.emitted = b.emitted ++ emitted ∧
            ReachesReceivers emitted b.localAddr
              ⟨msg.channel, b.transport.sequenceCounter, data⟩) ∧
      ∀ (other : Config) (otherAddr : SocketAddr) (otherMtu : Nat) (otherActions : List Action)
        (c : Bridge) (otherEvents : List Event), other.keyPrefix = config.keyPrefix →
        (Bridge.start other otherAddr otherMtu).run tryFrom otherActions = .ok (c, otherEvents) →
        ∀ src' msg' data', Event.handled src' msg' (.put keyExpr data') ∈ otherEvents →
          msg'.channel = msg.channel := by
  rcases extract_of_published hkeep hrun hput with ⟨hkey, haccept, hdata⟩
  have hkey' : keyExprToLcmChannel keyExpr b.config.keyPrefix = .ok msg.channel := by
    rw [hkeyPrefix]
    exact hkey
  have haccept' : isAllowed msg.channel b.config = true := by
    rw [isAllowed_congr hallow hdeny]
    exact haccept
  have hread := readable_of_handled hrun hput
  refine ⟨hkey', haccept', hdata, ?_, ?_⟩
  · intro hidle hroom hlen hcount sendTo hsend
    rcases sample_sends hidle hkey' haccept' hread hroom hlen hsend with
      ⟨b', emitted, hstep, hemitted, hout⟩
    exact ⟨b', emitted, hstep, hemitted,
      reachesReceivers_of_outcome hout hread.1 hlen hcount b.localAddr⟩
  · intro other otherAddr otherMtu otherActions c otherEvents hother hrun' src' msg' data' hput'
    -- Both channels are what the one key stands for.
    have hkey'' := (extract_of_published hkeep hrun' hput').1
    have hsame : (Bridge.start other otherAddr otherMtu).config.keyPrefix
      = (Bridge.start config localAddr fragmentMtu).config.keyPrefix := hother
    rw [hsame, hkey, Except.ok.injEq] at hkey''
    exact hkey''.symm

/-- A bridge receives 24 bytes in one datagram. The other one sends them on in
    two, of at most 33 bytes. -/
theorem site_to_site_smaller_mtu :
    ∃ b' emitted, step KeyExpr.ofValid (Bridge.start Config.default (.v4 3 7667) 33)
        (.sample ⟨"lcm/A", by decide⟩ ((List.range 24).map UInt8.ofNat) (fun _ => none))
        = .ok (b', .sampled (.sent "A" 0)) ∧
      b'.emitted = emitted ∧
      ReachesReceivers emitted (.v4 3 7667) ⟨"A", 0, (List.range 24).map UInt8.ofNat⟩ := by
  have hrun : ∃ a, (Bridge.start Config.default (.v4 1 7667) 1400).run KeyExpr.ofValid
        [.arrive ⟨encodeShortMessage 5 "A" ((List.range 24).map UInt8.ofNat), .v4 2 7667, 0, 0⟩,
          .check]
      = .ok (a, [.received (some ⟨"A", 5, (List.range 24).map UInt8.ofNat⟩),
          .handled (.v4 2 7667) ⟨"A", 5, (List.range 24).map UInt8.ofNat⟩
            (.put ⟨"lcm/A", by decide⟩ ((List.range 24).map UInt8.ofNat))]) := ⟨_, rfl⟩
  have hkeep : ∀ s keyExpr, KeyExpr.ofValid s = .ok keyExpr → keyExpr.asStr = s := by
    intro s keyExpr h
    unfold KeyExpr.ofValid at h
    split at h
    · rw [← Except.ok.inj h]
    · simp only [reduceCtorEq] at h
  rcases hrun with ⟨a, hrun⟩
  have hsites := @site_to_site KeyExpr.ofValid hkeep Config.default (.v4 1 7667) 1400 _ a _ hrun
    (.v4 2 7667) ⟨"A", 5, (List.range 24).map UInt8.ofNat⟩ ⟨"lcm/A", by decide⟩
    ((List.range 24).map UInt8.ofNat) (by simp only [List.mem_cons, true_or, or_true])
    (Bridge.start Config.default (.v4 3 7667) 33) rfl rfl rfl
  exact hsites.2.2.2.1 rfl (by decide) (by decide) (by decide) (fun _ => none) (fun _ => rfl)

end LcmBridge
