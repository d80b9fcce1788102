import LcmBridge.Theory.Family
import LcmBridge.Theory.Fragmentation

/-!
# The Transport Round Trip

What is sent arrives, in whatever order the network delivers it.

The receiving half is about a family of fragments and the datagrams that carry
them. `receive_missing` follows a receiver while datagrams are still missing:
it delivers nothing, and its entry holds the members seen so far.
`receive_last` adds the datagram after which none is.

The sending half shows that what `send` emits is such a family, and that its
pieces are windows of the payload, which cover it. Writing them over zeros in
any order then gives the payload back.

## Main definitions

* `Carriers`: Datagrams that carry the members of a family.
* `Timely`: An arrival from the sender, within the timeout.

## Theorems

* `handle_member`: Receiving one member.
* `receive_missing`: While members are missing, nothing is delivered.
* `receive_last`: The last missing member delivers the message.
* `family_cutFragment`: The fragments of a message are a family.
* `validFragmentation_cutFragment`: They are a valid fragmentation of it.
* `emitted_ne_nil`: Something is emitted.
* `receive_short`, `receive_fragments`: Receiving either kind of message.
* `transport_round_trip`: What is sent arrives, once and unchanged.
-/

namespace LcmBridge

open Bytes Checked Windows

/-! ### Receiving a family -/

/-- The datagrams that carry the members of a family of fragments. -/
structure Carriers (datagram : Nat → Datagram) (frag : Nat → Fragment)
    (sequenceNumber payloadSize : UInt32) (nFragments : UInt16) (channel : String) : Prop where
  family : Family frag sequenceNumber payloadSize nFragments channel
  parses : ∀ i < nFragments.toNat, parseDatagram (datagram i) = some (.fragment (frag i))
  no_overflow : ∀ i < nFragments.toNat,
    (frag i).fragmentOffset.toNat + (frag i).data.length < usizeBound

/-- The arrival is from the sender, and its clock readings are within the
    timeout of `opened`. -/
def Timely (sender : SocketAddr) (opened : Instant) (timeout : Duration) (a : Arrival) : Prop :=
  a.src = sender ∧ opened ≤ a.now ∧ a.now ≤ opened + timeout ∧
    opened ≤ a.insertNow ∧ a.insertNow ≤ opened + timeout

instance (sender : SocketAddr) (opened : Instant) (timeout : Duration) (a : Arrival) :
    Decidable (Timely sender opened timeout a) :=
  inferInstanceAs (Decidable (_ ∧ _))

section Receiving

variable {datagram : Nat → Datagram} {frag : Nat → Fragment}
  {sequenceNumber payloadSize : UInt32} {nFragments : UInt16} {channel : String}
  {sender : SocketAddr} {opened : Instant} {seen : Nat → Prop}

/-- Different members travel in different datagrams. -/
theorem datagram_inj
    (hcar : Carriers datagram frag sequenceNumber payloadSize nFragments channel) {i j : Nat}
    (hi : i < nFragments.toNat) (hj : j < nFragments.toNat) (h : datagram i = datagram j) :
    i = j := by
  have hparse := hcar.parses i hi
  rw [h, hcar.parses j hj, Option.some.injEq, Packet.fragment.injEq] at hparse
  rw [← hcar.family.number_eq i hi, ← hparse, hcar.family.number_eq j hj]

/-- Receiving a member offers it to the entry of the sender and the sequence
    number, as the sweep leaves it. -/
theorem handle_member {reassembler : FragmentReassembler}
    (hcar : Carriers datagram frag sequenceNumber payloadSize nFragments channel) {i : Nat}
    (hi : i < nFragments.toNat) {a : Arrival} (ha : a.datagram = datagram i)
    (hsrc : a.src = sender) {slot : Option FragmentSet}
    (hslot : (reassembler.expireStale a.now).pending (sender, sequenceNumber) = slot)
    (hvalid : SlotValid slot) :
    handleDatagram reassembler a.datagram a.src a.now a.insertNow
      = .ok (⟨Function.update (reassembler.expireStale a.now).pending (sender, sequenceNumber)
            (offer reassembler.maxMessageSize (frag i) a.insertNow slot).1,
          reassembler.timeout, reassembler.maxMessageSize⟩,
        (offer reassembler.maxMessageSize (frag i) a.insertNow slot).2) := by
  have hslot' : (reassembler.expireStale a.now).pending (sender, (frag i).sequenceNumber)
      = slot := by
    rw [hcar.family.sequence_eq i hi]
    exact hslot
  unfold handleDatagram
  rw [ha, hcar.parses i hi, hsrc]
  dsimp only
  rw [FragmentReassembler.process_eq hslot' hvalid (hcar.no_overflow i hi),
    hcar.family.sequence_eq i hi]

/-- One more datagram while some are missing: it completes the message, or the
    entry holds one more member. -/
theorem receive_step {reassembler : FragmentReassembler}
    (hcar : Carriers datagram frag sequenceNumber payloadSize nFragments channel)
    (hfits : ∀ j < nFragments.toNat, (frag j).piece.Fits payloadSize.toNat)
    (hmax : payloadSize.toNat ≤ reassembler.maxMessageSize) {pre : List Arrival} {a : Arrival}
    (ha : ∃ i < nFragments.toNat, a.datagram = datagram i)
    (htime : Timely sender opened reassembler.timeout a)
    (h : Holding frag payloadSize nFragments channel opened
      (fun j => datagram j ∈ pre.map Arrival.datagram)
      (reassembler.pending (sender, sequenceNumber)))
    (hmissing : ¬ ∀ j < nFragments.toNat, datagram j ∈ pre.map Arrival.datagram) :
    ∃ reassembler' result,
      handleDatagram reassembler a.datagram a.src a.now a.insertNow = .ok (reassembler', result) ∧
      reassembler'.timeout = reassembler.timeout ∧
      reassembler'.maxMessageSize = reassembler.maxMessageSize ∧
      (((∀ j < nFragments.toNat, datagram j ∈ (pre ++ [a]).map Arrival.datagram) ∧
          ∃ set parts, result = some ⟨channel, sequenceNumber,
              Overlay.overlay (List.replicate payloadSize.toNat 0) (parts.map Fragment.piece)⟩ ∧
            FromFamily frag payloadSize nFragments channel set parts ∧
            ∀ j < nFragments.toNat, j ∈ parts.map Fragment.number) ∨
        ((¬ ∀ j < nFragments.toNat, datagram j ∈ (pre ++ [a]).map Arrival.datagram) ∧
          result = none ∧
          Holding frag payloadSize nFragments channel opened
            (fun j => datagram j ∈ (pre ++ [a]).map Arrival.datagram)
            (reassembler'.pending (sender, sequenceNumber)))) := by
  rcases ha with ⟨i, hi, ha⟩
  have hopened : opened ≤ a.insertNow := htime.2.2.2.1
  -- One more datagram has been seen, and it stands for one more number.
  have hgrow : ∀ j < nFragments.toNat, datagram j ∈ (pre ++ [a]).map Arrival.datagram ↔
      datagram j ∈ pre.map Arrival.datagram ∨ j = i := by
    intro j hj
    rw [List.map_append, List.mem_append, List.map_singleton, List.mem_singleton, ha]
    constructor
    · intro h
      rcases h with hold | hnew
      · exact Or.inl hold
      · exact Or.inr (datagram_inj hcar hj hi hnew)
    · intro h
      rcases h with hold | rfl
      · exact Or.inl hold
      · exact Or.inr rfl
  -- The sweep is within the timeout, so it leaves the entry alone.
  refine ⟨_, _, handle_member hcar hi ha htime.1 (holding_filter h htime.2.2.1)
    (holding_valid h), rfl, rfl, ?_⟩
  dsimp only
  rw [Function.update_self]
  rcases holding_offer hcar.family hfits hmax hi hopened h hmissing with
    ⟨hall, set, parts, hoffer, hfrom, hparts⟩ | ⟨hsome, slot', hoffer, hhold⟩
  · rw [hoffer]
    exact Or.inl ⟨fun j hj => (hgrow j hj).mpr (hall j hj), set, parts, rfl, hfrom, hparts⟩
  · rw [hoffer]
    exact Or.inr ⟨fun hc => hsome (fun j hj => (hgrow j hj).mp (hc j hj)), rfl,
      holding_congr hhold (fun j hj => (hgrow j hj).symm)⟩

/-- While members are missing nothing is delivered, and the entry holds those
    seen so far. -/
theorem receive_missing {reassembler : FragmentReassembler}
    (hcar : Carriers datagram frag sequenceNumber payloadSize nFragments channel)
    (hfits : ∀ j < nFragments.toNat, (frag j).piece.Fits payloadSize.toNat)
    (hmax : payloadSize.toNat ≤ reassembler.maxMessageSize)
    (hpending : reassembler.pending (sender, sequenceNumber) = none) :
    ∀ {pre : List Arrival},
      (∀ b ∈ pre, (∃ i < nFragments.toNat, b.datagram = datagram i) ∧
        Timely sender opened reassembler.timeout b) →
      (¬ ∀ j < nFragments.toNat, datagram j ∈ pre.map Arrival.datagram) →
      ∃ reassembler', receiveAll reassembler pre
          = .ok (reassembler', List.replicate pre.length none) ∧
        reassembler'.timeout = reassembler.timeout ∧
        reassembler'.maxMessageSize = reassembler.maxMessageSize ∧
        Holding frag payloadSize nFragments channel opened
          (fun j => datagram j ∈ pre.map Arrival.datagram)
          (reassembler'.pending (sender, sequenceNumber)) := by
  intro pre
  induction pre using List.reverseRecOn with
  | nil =>
      intro _ _
      refine ⟨reassembler, rfl, rfl, rfl, Or.inl ⟨hpending, fun j _ => ?_⟩⟩
      exact List.not_mem_nil
  | append_singleton pre a ih =>
      intro harr hmissing
      -- What is missing now was missing before.
      have hmissing' : ¬ ∀ j < nFragments.toNat, datagram j ∈ pre.map Arrival.datagram := by
        intro hall
        refine hmissing (fun j hj => ?_)
        rw [List.map_append]
        exact List.mem_append_left _ (hall j hj)
      rcases ih (fun b hb => harr b (List.mem_append_left [a] hb)) hmissing' with
        ⟨mid, hrun, htimeout, hmax', hhold⟩
      have ha := harr a List.mem_concat_self
      rw [← htimeout] at ha
      rcases receive_step hcar hfits (by rw [hmax']; exact hmax) ha.1 ha.2 hhold hmissing' with
        ⟨r', result, hstep, htimeout', hmax'', hdone | ⟨_, hnone, hhold'⟩⟩
      · exact absurd hdone.1 hmissing
      · refine ⟨r', ?_, htimeout'.trans htimeout, hmax''.trans hmax', hhold'⟩
        rw [hnone] at hstep
        refine Machine.runAll_concat.mpr ⟨mid, _, none, hrun, hstep, ?_⟩
        rw [List.length_append, List.length_singleton, List.replicate_succ']

/-- The datagram after which none is missing delivers the message. Its data are
    those of all members, written in some order. -/
theorem receive_last {reassembler : FragmentReassembler}
    (hcar : Carriers datagram frag sequenceNumber payloadSize nFragments channel)
    (hfits : ∀ j < nFragments.toNat, (frag j).piece.Fits payloadSize.toNat)
    (hmax : payloadSize.toNat ≤ reassembler.maxMessageSize)
    (hpending : reassembler.pending (sender, sequenceNumber) = none) {pre : List Arrival}
    {a : Arrival}
    (harr : ∀ b ∈ pre ++ [a], (∃ i < nFragments.toNat, b.datagram = datagram i) ∧
      Timely sender opened reassembler.timeout b)
    (hmissing : ¬ ∀ j < nFragments.toNat, datagram j ∈ pre.map Arrival.datagram) :
    ∃ reassembler' result, receiveAll reassembler (pre ++ [a])
        = .ok (reassembler', List.replicate pre.length none ++ [result]) ∧
      (((∀ j < nFragments.toNat, datagram j ∈ (pre ++ [a]).map Arrival.datagram) ∧
          ∃ set parts, result = some ⟨channel, sequenceNumber,
              Overlay.overlay (List.replicate payloadSize.toNat 0) (parts.map Fragment.piece)⟩ ∧
            FromFamily frag payloadSize nFragments channel set parts ∧
            ∀ j < nFragments.toNat, j ∈ parts.map Fragment.number) ∨
        ((¬ ∀ j < nFragments.toNat, datagram j ∈ (pre ++ [a]).map Arrival.datagram) ∧
          result = none)) := by
  rcases receive_missing hcar hfits hmax hpending
      (fun b hb => harr b (List.mem_append_left [a] hb)) hmissing with
    ⟨mid, hrun, htimeout, hmax', hhold⟩
  have ha := harr a List.mem_concat_self
  rw [← htimeout] at ha
  rcases receive_step hcar hfits (by rw [hmax']; exact hmax) ha.1 ha.2 hhold hmissing with
    ⟨r', result, hstep, _, _, hresult⟩
  refine ⟨r', result, Machine.runAll_concat.mpr ⟨mid, _, result, hrun, hstep, rfl⟩, ?_⟩
  rcases hresult with hdone | ⟨hsome, hnone, _⟩
  · exact Or.inl hdone
  · exact Or.inr ⟨hsome, hnone⟩

end Receiving

/-! ### Sending a family -/

section Sending

variable {mtu : Nat} {sequenceNumber : UInt32} {nFragments : UInt16} {channel : String}
  {data : List UInt8}

theorem cutFragment_number {i : Nat} (hi : i < nFragments.toNat) :
    (cutFragment mtu sequenceNumber nFragments channel data i).number = i := by
  have hlt := nFragments.toNat_lt
  unfold Fragment.number cutFragment
  rw [UInt16.toNat_ofNat', Nat.mod_eq_of_lt (by omega)]

theorem cutFragment_number_eq_zero {i : Nat} (hi : i < nFragments.toNat) :
    (cutFragment mtu sequenceNumber nFragments channel data i).fragmentNumber = 0 ↔ i = 0 := by
  have hval : (cutFragment mtu sequenceNumber nFragments channel data i).fragmentNumber.toNat = i :=
    cutFragment_number hi
  rw [← UInt16.toNat_inj, hval]
  rfl

/-- The channel is present in number zero and nowhere else. -/
theorem cutFragment_wellFormed (hnul : NulFree channel) {i : Nat} (hi : i < nFragments.toNat) :
    (cutFragment mtu sequenceNumber nFragments channel data i).WellFormed := by
  unfold Fragment.WellFormed
  rw [cutFragment_number_eq_zero hi]
  unfold cutFragment
  by_cases h0 : i = 0
  · simp only [h0, if_true, Option.isSome_some, Option.some.injEq, forall_eq', true_and]
    exact hnul
  · simp only [h0, if_false, Option.isSome_none, Bool.false_eq_true, reduceCtorEq, false_implies,
      implies_true, and_true]

/-- However the offset is narrowed, no fragment ends past the payload. -/
theorem cutFragment_end_le (i : Nat) :
    (cutFragment mtu sequenceNumber nFragments channel data i).fragmentOffset.toNat
        + (cutFragment mtu sequenceNumber nFragments channel data i).data.length
      ≤ data.length := by
  have hle := cut_le_succ (firstFragCapacity mtu channel) (subsequentFragCapacity mtu) i
  unfold cutFragment
  rw [UInt32.toNat_ofNat', length_window]
  have hmod := Nat.mod_le (min (cut (firstFragCapacity mtu channel)
    (subsequentFragCapacity mtu) i) data.length) (2 ^ 32)
  omega

theorem family_cutFragment :
    Family (cutFragment mtu sequenceNumber nFragments channel data) sequenceNumber
      (UInt32.ofNat data.length) nFragments channel where
  sequence_eq _ _ := rfl
  payload_eq _ _ := rfl
  count_eq _ _ := rfl
  number_eq _ hi := cutFragment_number hi
  channel_eq _ := rfl

/-- The fragments of a message are a family, and their datagrams carry it. -/
theorem carriers_cutFragment (hnul : NulFree channel) (hlen : data.length < usizeBound) :
    Carriers (fragmentDatagram mtu sequenceNumber nFragments channel data)
      (cutFragment mtu sequenceNumber nFragments channel data) sequenceNumber
      (UInt32.ofNat data.length) nFragments channel where
  family := family_cutFragment
  parses _ hi := parse_encodePacket (p := .fragment _) (cutFragment_wellFormed hnul hi)
  no_overflow i _ := Nat.lt_of_le_of_lt (cutFragment_end_le i) hlen

/-- A fragment that is needed starts at its cut. -/
theorem cutFragment_piece (hfirst : firstFragCapacity mtu channel ≠ 0)
    (hlen : data.length < 4294967296) {i : Nat}
    (hi : i < fragmentsNeeded mtu channel data.length) :
    (cutFragment mtu sequenceNumber nFragments channel data i).piece
      = ⟨cut (firstFragCapacity mtu channel) (subsequentFragCapacity mtu) i,
        window (firstFragCapacity mtu channel) (subsequentFragCapacity mtu) data i⟩ := by
  have hle := cut_le_of_lt_needed (firstFragCapacity mtu channel)
    (subsequentFragCapacity_pos hfirst) hi
  unfold Fragment.piece cutFragment
  rw [Nat.min_eq_left hle, UInt32.toNat_ofNat', Nat.mod_eq_of_lt (by omega)]

-- Its end is the next cut, or the end of the payload.
theorem cutFragment_fits (hfirst : firstFragCapacity mtu channel ≠ 0)
    (hlen : data.length < 4294967296) {i : Nat}
    (hi : i < fragmentsNeeded mtu channel data.length) :
    (cutFragment mtu sequenceNumber nFragments channel data i).piece.Fits data.length := by
  have hle := cut_le_of_lt_needed (firstFragCapacity mtu channel)
    (subsequentFragCapacity_pos hfirst) hi
  rw [cutFragment_piece hfirst hlen hi]
  unfold Overlay.Piece.Fits
  dsimp only
  rw [length_window]
  omega

/-- The needed fragments are a valid fragmentation of the payload. -/
theorem validFragmentation_cutFragment (hfirst : firstFragCapacity mtu channel ≠ 0)
    (hlen : data.length < 4294967296)
    (hcount : nFragments.toNat = fragmentsNeeded mtu channel data.length) :
    ValidFragmentation (cutFragment mtu sequenceNumber nFragments channel data) sequenceNumber
      nFragments channel data where
  toFamily := family_cutFragment
  length_lt := hlen
  count_pos := by
    rw [hcount]
    exact needed_pos _ _ _
  fits i hi := cutFragment_fits hfirst hlen (by omega)
  agrees i hi := by
    rw [cutFragment_piece hfirst hlen (by omega)]
    exact Overlay.agrees_slice data _ _
  covers x hx := by
    -- Each position is in the window of some number.
    have hcut := le_cut_needed (firstFragCapacity mtu channel)
      (subsequentFragCapacity_pos hfirst) data.length
    rcases exists_window (firstFragCapacity mtu channel) (subsequentFragCapacity mtu)
      (Nat.lt_of_lt_of_le hx hcut) with ⟨k, hk, hlo, hhi⟩
    have hk' : k < fragmentsNeeded mtu channel data.length := hk
    refine ⟨k, by omega, ?_⟩
    rw [cutFragment_piece hfirst hlen hk']
    unfold Overlay.Piece.Covers
    dsimp only
    rw [length_window]
    omega

/-- What a successful `send` emits: one short message, or the needed fragments
    of one too long for that. -/
theorem emitted_of_outcome {self : LcmTransport} {sendTo : SendTo} {emitted : List Datagram}
    {seq : UInt32} (hout : (emitted, .ok seq) = outcome self sendTo channel data)
    (hcount : fragmentsNeeded self.fragmentMtu channel data.length ≤ 65535) :
    emitted = [encodeShortMessage seq channel data] ∨
      ∃ n : UInt16, firstFragCapacity self.fragmentMtu channel ≠ 0 ∧
        n.toNat = fragmentsNeeded self.fragmentMtu channel data.length ∧
        emitted = (List.range n.toNat).map
          (fragmentDatagram self.fragmentMtu seq n channel data) := by
  rcases emitted_cases hout with ⟨_, hshort⟩ | ⟨_, hfirst, hfrags⟩
  · exact Or.inl hshort
  · refine Or.inr ⟨_, hfirst, ?_, hfrags⟩
    rw [UInt16.toNat_ofNat', Nat.mod_eq_of_lt (by omega)]

/-- A `send` that succeeds emits something, if its fragments can be counted. -/
theorem emitted_ne_nil {self : LcmTransport} {sendTo : SendTo} {emitted : List Datagram}
    {seq : UInt32} (hout : (emitted, .ok seq) = outcome self sendTo channel data)
    (hcount : fragmentsNeeded self.fragmentMtu channel data.length ≤ 65535) : emitted ≠ [] := by
  rcases emitted_of_outcome hout hcount with rfl | ⟨n, _, hn, rfl⟩
  · exact List.cons_ne_nil _ _
  · rw [ne_eq, List.map_eq_nil_iff, List.range_eq_nil, hn]
    exact Nat.ne_of_gt (needed_pos _ _ _)

end Sending

/-! ### The round trip -/

section Receivers

variable {channel : String} {data : List UInt8} {seq : UInt32}
  {reassembler : FragmentReassembler} {sender : SocketAddr} {opened : Instant}
  {pre : List Arrival} {a : Arrival}

/-- A short message is delivered at once, so nothing can come before it while
    it is missing. -/
theorem receive_short (hnul : NulFree channel)
    (harrive : ∀ b ∈ pre ++ [a], b.datagram = encodeShortMessage seq channel data)
    (hmissing : ¬ [encodeShortMessage seq channel data] ⊆ pre.map Arrival.datagram) :
    receiveAll reassembler (pre ++ [a])
      = .ok (reassembler, List.replicate pre.length none ++
          [if [encodeShortMessage seq channel data] ⊆ (pre ++ [a]).map Arrival.datagram then
            some ⟨channel, seq, data⟩ else none]) := by
  have hpre : pre = [] := by
    cases pre with
    | nil => rfl
    | cons b rest =>
        refine absurd (fun d hd => ?_) hmissing
        rw [List.mem_singleton] at hd
        rw [hd, ← harrive b List.mem_cons_self]
        exact List.mem_map_of_mem List.mem_cons_self
  have ha : a.datagram = encodeShortMessage seq channel data := harrive a List.mem_concat_self
  have hsub : [encodeShortMessage seq channel data] ⊆ (pre ++ [a]).map Arrival.datagram := by
    rw [hpre, List.nil_append, List.map_singleton, ha]
    exact List.Subset.refl _
  rw [if_pos hsub, hpre]
  refine Machine.runAll_singleton.mpr ⟨some ⟨channel, seq, data⟩, ?_, rfl⟩
  unfold handleDatagram
  rw [ha, parse_encodeShortMessage, readName_append _ _ ((nulFree_iff channel).mp hnul)]
  rfl

/-- The needed fragments of a message are delivered as one, with the last of
    them. -/
theorem receive_fragments {mtu : Nat} {n : UInt16} (hnul : NulFree channel)
    (hlen : data.length < 4294967296) (hfirst : firstFragCapacity mtu channel ≠ 0)
    (hn : n.toNat = fragmentsNeeded mtu channel data.length)
    (hmax : data.length ≤ reassembler.maxMessageSize)
    (hpending : reassembler.pending (sender, seq) = none)
    (harrive : ∀ b ∈ pre ++ [a],
      b.datagram ∈ (List.range n.toNat).map (fragmentDatagram mtu seq n channel data) ∧
        Timely sender opened reassembler.timeout b)
    (hmissing : ¬ (List.range n.toNat).map (fragmentDatagram mtu seq n channel data)
      ⊆ pre.map Arrival.datagram) :
    ∃ reassembler', receiveAll reassembler (pre ++ [a])
      = .ok (reassembler', List.replicate pre.length none ++
          [if (List.range n.toNat).map (fragmentDatagram mtu seq n channel data)
              ⊆ (pre ++ [a]).map Arrival.datagram then some ⟨channel, seq, data⟩ else none]) := by
  have hcar : Carriers (fragmentDatagram mtu seq n channel data)
      (cutFragment mtu seq n channel data) seq (UInt32.ofNat data.length) n channel :=
    carriers_cutFragment hnul (by unfold usizeBound; omega)
  -- A receiver counts the numbers, the caller the datagrams.
  have hsub : ∀ ds : List Datagram,
      (List.range n.toNat).map (fragmentDatagram mtu seq n channel data) ⊆ ds ↔
        ∀ j < n.toNat, fragmentDatagram mtu seq n channel data j ∈ ds := by
    intro ds
    rw [List.subset_def, List.forall_mem_map]
    simp only [List.mem_range]
  have hfits : ∀ j < n.toNat, (cutFragment mtu seq n channel data j).piece.Fits
      (UInt32.ofNat data.length).toNat := by
    intro j hj
    rw [toNat_ofNat_length hlen]
    exact cutFragment_fits hfirst hlen (by omega)
  have harr : ∀ b ∈ pre ++ [a], (∃ i < n.toNat,
      b.datagram = fragmentDatagram mtu seq n channel data i) ∧
      Timely sender opened reassembler.timeout b := by
    intro b hb
    rcases harrive b hb with ⟨hmem, htime⟩
    rcases List.mem_map.mp hmem with ⟨i, hi, heq⟩
    exact ⟨⟨i, List.mem_range.mp hi, heq.symm⟩, htime⟩
  rw [hsub] at hmissing
  rcases receive_last hcar hfits (by rw [toNat_ofNat_length hlen]; exact hmax) hpending harr
      hmissing with
    ⟨r', result, hrun, ⟨hall, set, parts, hresult, hfrom, hparts⟩ | ⟨hsome, hresult⟩⟩
  · refine ⟨r', ?_⟩
    rw [if_pos ((hsub _).mpr hall), hrun, hresult, overlay_members
      (validFragmentation_cutFragment hfirst hlen hn) hfrom hparts]
  · refine ⟨r', ?_⟩
    rw [if_neg (fun hc => hsome ((hsub _).mp hc)), hrun, hresult]

/-- Receiving what a successful `send` emitted. -/
theorem receive_emitted {self : LcmTransport} {sendTo : SendTo} {emitted : List Datagram}
    (hout : (emitted, .ok seq) = outcome self sendTo channel data) (hnul : NulFree channel)
    (hlen : data.length < 4294967296)
    (hcount : fragmentsNeeded self.fragmentMtu channel data.length ≤ 65535)
    (hmax : data.length ≤ reassembler.maxMessageSize)
    (hpending : reassembler.pending (sender, seq) = none)
    (harrive : ∀ b ∈ pre ++ [a],
      b.datagram ∈ emitted ∧ Timely sender opened reassembler.timeout b)
    (hmissing : ¬ emitted ⊆ pre.map Arrival.datagram) :
    ∃ reassembler', receiveAll reassembler (pre ++ [a])
      = .ok (reassembler', List.replicate pre.length none ++
          [if emitted ⊆ (pre ++ [a]).map Arrival.datagram then some ⟨channel, seq, data⟩
            else none]) := by
  rcases emitted_of_outcome hout hcount with rfl | ⟨n, hfirst, hn, rfl⟩
  · exact ⟨reassembler, receive_short hnul
      (fun b hb => List.mem_singleton.mp (harrive b hb).1) hmissing⟩
  · exact receive_fragments hnul hlen hfirst hn hmax hpending harrive hmissing

end Receivers

/-- A successful `send` emits something. Fed to a receiver in any order and with
    any repetitions, all within the timeout, nothing is delivered until every
    datagram has come, and the one after which none is missing delivers the
    message. -/
theorem transport_round_trip {self t : LcmTransport} {sendTo : SendTo} {channel : String}
    {data : List UInt8} {emitted : List Datagram} {seq : UInt32}
    (hsend : self.send sendTo channel data = .ok (t, emitted, .ok seq)) (hnul : NulFree channel)
    (hlen : data.length < 4294967296)
    (hcount : fragmentsNeeded self.fragmentMtu channel data.length ≤ 65535) :
    emitted ≠ [] ∧
      ∀ (reassembler : FragmentReassembler), data.length ≤ reassembler.maxMessageSize →
      ∀ (sender : SocketAddr), reassembler.pending (sender, seq) = none →
      ∀ (opened : Instant) (pre : List Arrival) (a : Arrival),
        (∀ b ∈ pre ++ [a], b.datagram ∈ emitted ∧ Timely sender opened reassembler.timeout b) →
        ¬ emitted ⊆ pre.map Arrival.datagram →
        ∃ reassembler', receiveAll reassembler (pre ++ [a])
          = .ok (reassembler', List.replicate pre.length none ++
              [if emitted ⊆ (pre ++ [a]).map Arrival.datagram then some ⟨channel, seq, data⟩
                else none]) := by
  have hout := (outcome_of_send hsend).2.2
  refine ⟨emitted_ne_nil hout hcount, ?_⟩
  intro reassembler hmax sender hpending opened pre a harrive hmissing
  exact receive_emitted hout hnul hlen hcount hmax hpending harrive hmissing

/-- The bytes 0 to 23 in two fragments, which come in reverse order, the second
    one twice. -/
theorem transport_round_trip_reversed :
    ∃ t first second, (LcmTransport.mk 33 7).send (fun _ => none) "A"
        ((List.range 24).map UInt8.ofNat) = .ok (t, [first, second], .ok 7) ∧
      ∃ reassembler', receiveAll (FragmentReassembler.new 10 100)
          [⟨second, .v4 1 5000, 0, 0⟩, ⟨second, .v4 1 5000, 3, 4⟩, ⟨first, .v4 1 5000, 9, 9⟩]
        = .ok (reassembler',
            [none, none, some ⟨"A", 7, (List.range 24).map UInt8.ofNat⟩]) := by
  have hsend := @send_eq (LcmTransport.mk 33 7) "A" ((List.range 24).map UInt8.ofNat)
    (fun _ => none) (by decide)
  have hout : outcome (LcmTransport.mk 33 7) (fun _ => none) "A" ((List.range 24).map UInt8.ofNat)
    = ([encodeFragment 7 24 0 0 2 (some "A") ((List.range 11).map UInt8.ofNat),
        encodeFragment 7 24 11 1 2 none ((List.range' 11 13).map UInt8.ofNat)], .ok 7) := by
    decide
  rw [hout] at hsend
  refine ⟨_, _, _, hsend, ?_⟩
  exact (transport_round_trip hsend (by decide) (by decide) (by decide)).2
    (FragmentReassembler.new 10 100) (by decide) (.v4 1 5000) rfl 0
    [⟨encodeFragment 7 24 11 1 2 none ((List.range' 11 13).map UInt8.ofNat), .v4 1 5000, 0, 0⟩,
      ⟨encodeFragment 7 24 11 1 2 none ((List.range' 11 13).map UInt8.ofNat), .v4 1 5000, 3, 4⟩]
    ⟨encodeFragment 7 24 0 0 2 (some "A") ((List.range 11).map UInt8.ofNat), .v4 1 5000, 9, 9⟩
    (by decide) (by decide)

end LcmBridge
