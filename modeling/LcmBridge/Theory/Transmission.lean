import LcmBridge.Theory.Fragmentation

/-!
# What Send Puts on the Wire

Whether the datagrams of a successful `send` carry its payload.

They do unless the narrowing bites. The number of fragments is a 16-bit field,
and the loop runs to the narrowed number: a payload that takes 65536
fragments is sent as none at all, one that takes 65537 as its first fragment
alone, and either way the call succeeds. The payload size is a 32-bit field,
and a payload past it is announced with the wrong size.

## Main definitions

* `Carries`: The datagrams carry the payload, and their headers say so.

## Theorems

* `outcome_of_succeeds`: What is emitted when the socket never fails.
* `carries_of_fits`: Within the header fields, the payload is carried.
* `not_carries_of_not_fits`: Outside them, it is not.
* `send_carries_iff`: When a successful `send` carries its payload.
-/

namespace LcmBridge

open Bytes Checked Windows

/-- The datagrams carry the payload on the channel: one short message, or
    fragments whose data make up the payload in order, whose headers give its
    size and their number, and whose offsets count the bytes before them. -/
def Carries (emitted : List Datagram) (channel : String) (data : List UInt8) : Prop :=
  (∃ seq, emitted = [encodeShortMessage seq channel data]) ∨
  ∃ frags : List Fragment, emitted = frags.map (fun f => encodePacket (.fragment f)) ∧
    (frags.map Fragment.data).flatten = data ∧
    ∀ i f, frags[i]? = some f →
      f.channel = (if i = 0 then some channel else none) ∧
      f.payloadSize.toNat = data.length ∧
      f.nFragments.toNat = emitted.length ∧
      f.fragmentOffset.toNat = ((frags.take i).map Fragment.data).flatten.length

/-! ### Within the header fields -/

section Fits

variable (mtu : Nat) (sequenceNumber : UInt32) (channel : String) (data : List UInt8)

/-- The fragments of a message have the windows of its payload as data. -/
theorem map_data_cutFragment (nFragments : UInt16) (numbers : List Nat) :
    (numbers.map (cutFragment mtu sequenceNumber nFragments channel data)).map Fragment.data
      = numbers.map (window (firstFragCapacity mtu channel) (subsequentFragCapacity mtu) data) := by
  rw [List.map_map]
  rfl

/-- The number of datagrams emitted is the narrowed number of fragments. -/
theorem toNat_ofNat_fragmentsNeeded :
    (UInt16.ofNat (fragmentsNeeded mtu channel data.length)).toNat
      = fragmentsNeeded mtu channel data.length % 65536 := UInt16.toNat_ofNat'

-- Nothing is narrowed, so the numbers run over all the windows needed, and
-- the offset of each is the length of those before it.
theorem carries_of_fits (hfirst : firstFragCapacity mtu channel ≠ 0)
    (hlen : data.length < 4294967296)
    (hcount : fragmentsNeeded mtu channel data.length ≤ 65535) :
    Carries ((List.range (UInt16.ofNat (fragmentsNeeded mtu channel data.length)).toNat).map
      (fragmentDatagram mtu sequenceNumber
        (UInt16.ofNat (fragmentsNeeded mtu channel data.length)) channel data)) channel data := by
  set n := UInt16.ofNat (fragmentsNeeded mtu channel data.length) with hn
  have hn' : n.toNat = fragmentsNeeded mtu channel data.length := by
    rw [hn, toNat_ofNat_fragmentsNeeded, Nat.mod_eq_of_lt (by omega)]
  refine Or.inr ⟨(List.range n.toNat).map (cutFragment mtu sequenceNumber n channel data), ?_, ?_,
    fun i f hf => ?_⟩
  · rw [List.map_map]
    rfl
  · -- All needed windows together are the payload.
    rw [map_data_cutFragment, flatten_windows, hn']
    exact List.take_of_length_le (le_cut_needed _ (subsequentFragCapacity_pos hfirst) _)
  · rw [List.getElem?_map, Option.map_eq_some_iff] at hf
    rcases hf with ⟨j, hj, rfl⟩
    rcases List.getElem?_eq_some_iff.mp hj with ⟨hi, hval⟩
    rw [List.length_range] at hi
    rw [List.getElem_range] at hval
    rw [← hval]
    have hsize : (UInt32.ofNat data.length).toNat = data.length := by
      rw [UInt32.toNat_ofNat', Nat.mod_eq_of_lt hlen]
    refine ⟨rfl, hsize, ?_, ?_⟩
    · rw [List.length_map, List.length_range]
      rfl
    · rw [← List.map_take, List.take_range, Nat.min_eq_left (Nat.le_of_lt hi),
        map_data_cutFragment, flatten_windows, List.length_take]
      simp only [cutFragment]
      rw [UInt32.toNat_ofNat', Nat.mod_eq_of_lt (by omega)]

/-! ### Outside the header fields -/

/-- A short message is not a fragment: the magic numbers differ. -/
theorem encodeShortMessage_ne_fragment (seq : UInt32) (payload : List UInt8) (f : Fragment) :
    encodeShortMessage seq channel payload ≠ encodePacket (.fragment f) := by
  intro h
  have htake := congrArg (List.take 4) h
  have hmagic : u32ToBeBytes magicShort = u32ToBeBytes magicFragment := by
    simpa only [encodeShortMessage, encodePacket, encodeFragment, List.append_assoc,
      List.take_left' (length_u32ToBeBytes _)] using htake
  revert hmagic
  decide

/-- Two encodings of a fragment with the same channel field have the same
    amount of data. -/
theorem data_length_of_encode_eq {f f' : Fragment} (hchan : f.channel = f'.channel)
    (h : encodePacket (.fragment f) = encodePacket (.fragment f')) :
    f.data.length = f'.data.length := by
  have hlen := congrArg List.length h
  unfold encodePacket at hlen
  dsimp only at hlen
  rw [length_encodeFragment, length_encodeFragment, hchan] at hlen
  omega

/-- Datagrams that are the fragments of a message, encoded, have fragment by
    fragment as much data as there is in the window of their number. -/
theorem data_lengths_of_encode_eq {n : UInt16} {frags : List Fragment}
    (hemit : (List.range n.toNat).map (fragmentDatagram mtu sequenceNumber n channel data)
      = frags.map (fun f => encodePacket (.fragment f)))
    (hchan : ∀ i f, frags[i]? = some f → f.channel = if i = 0 then some channel else none) :
    frags.length = n.toNat ∧
      (frags.map Fragment.data).map List.length
        = ((List.range n.toNat).map (window (firstFragCapacity mtu channel)
            (subsequentFragCapacity mtu) data)).map List.length := by
  have hcount : frags.length = n.toNat := by
    have hlen := congrArg List.length hemit
    rw [List.length_map, List.length_map, List.length_range] at hlen
    exact hlen.symm
  refine ⟨hcount, ?_⟩
  apply List.ext_getElem?
  intro i
  rw [List.getElem?_map, List.getElem?_map, List.getElem?_map, List.getElem?_map]
  by_cases hi : i < n.toNat
  · have hi' : i < frags.length := by omega
    have hf : frags[i]? = some frags[i] := List.getElem?_eq_getElem hi'
    -- The two encodings at this place are the same, and so are their channels.
    have heq := congrArg (fun ds => ds[i]?) hemit
    rw [List.getElem?_map, List.getElem?_map, List.getElem?_range hi, hf, Option.map_some,
      Option.map_some, Option.some.injEq] at heq
    have hlen := data_length_of_encode_eq
      (f := cutFragment mtu sequenceNumber n channel data i) (hchan i _ hf).symm heq
    rw [hf, List.getElem?_range hi]
    simp only [Option.map_some, Option.some.injEq]
    exact hlen.symm
  · rw [List.getElem?_eq_none (by omega),
      List.getElem?_eq_none (by rw [List.length_range]; omega)]
    rfl

-- Were the payload carried, the fragments sent would be as many as it needs;
-- then their number was not narrowed, and the size was.
theorem not_carries_of_not_fits (hfirst : firstFragCapacity mtu channel ≠ 0)
    (hover : ¬ (data.length < 4294967296 ∧ fragmentsNeeded mtu channel data.length ≤ 65535)) :
    ¬ Carries ((List.range (UInt16.ofNat (fragmentsNeeded mtu channel data.length)).toNat).map
      (fragmentDatagram mtu sequenceNumber
        (UInt16.ofNat (fragmentsNeeded mtu channel data.length)) channel data)) channel data := by
  have hsub := subsequentFragCapacity_pos hfirst
  set n := UInt16.ofNat (fragmentsNeeded mtu channel data.length) with hn
  have hn' : n.toNat = fragmentsNeeded mtu channel data.length % 65536 := by
    rw [hn, toNat_ofNat_fragmentsNeeded]
  intro h
  rcases h with ⟨seq, hshort⟩ | ⟨frags, hemit, hflat, hhead⟩
  · -- The first datagram would be a fragment.
    cases hr : List.range n.toNat with
    | nil =>
        rw [hr] at hshort
        simp only [List.map_nil, List.ne_cons_self] at hshort
    | cons i rest =>
        rw [hr, List.map_cons, List.cons.injEq] at hshort
        exact encodeShortMessage_ne_fragment channel seq data _ hshort.1.symm
  · rcases data_lengths_of_encode_eq mtu sequenceNumber channel data hemit
      (fun i f hf => (hhead i f hf).1) with ⟨hcount, hdata⟩
    have htotal : data.length ≤ cut (firstFragCapacity mtu channel)
        (subsequentFragCapacity mtu) n.toNat := by
      have hsum := congrArg List.length hflat
      rw [List.length_flatten, hdata, ← List.length_flatten, flatten_windows,
        List.length_take] at hsum
      omega
    have hpos : 0 < n.toNat := by
      rcases Nat.eq_zero_or_pos n.toNat with hzero | hpos
      · -- Nothing is emitted: then the payload is empty, and takes one fragment.
        rw [hzero, cut_zero, Nat.le_zero] at htotal
        have hone : fragmentsNeeded mtu channel data.length = 1 := by
          unfold fragmentsNeeded needed
          rw [htotal, Nat.zero_sub, Nat.zero_add, Nat.div_eq_of_lt (Nat.sub_lt hsub Nat.one_pos)]
        rw [hone] at hn'
        omega
      · exact hpos
    have hneeded : fragmentsNeeded mtu channel data.length ≤ n.toNat := by
      have hle := le_cut_iff (firstFragCapacity mtu channel) hsub data.length (n.toNat - 1)
      rw [Nat.sub_add_cancel hpos] at hle
      exact hle.mp htotal
    -- So no fragment is missing, and it is the size that does not fit.
    have hi' : 0 < frags.length := by omega
    have hf : frags[0]? = some frags[0] := List.getElem?_eq_getElem hi'
    have hsize := (hhead 0 _ hf).2.1
    have hlt := frags[0].payloadSize.toNat_lt
    omega

end Fits

/-! ### The whole send -/

/-- A call that is met with no failure: one short message, a refusal, or the
    narrowed number of fragments. -/
theorem outcome_of_succeeds (self : LcmTransport) (channel : String) (data : List UInt8) :
    outcome self (fun _ => none) channel data =
      if 9 + (asBytes channel).length + data.length ≤ self.fragmentMtu then
        ([encodeShortMessage self.sequenceCounter channel data], .ok self.sequenceCounter)
      else if firstFragCapacity self.fragmentMtu channel = 0 then
        ([], .error (.invalidInput "Fragment MTU too small for channel name"))
      else
        ((List.range (UInt16.ofNat
            (fragmentsNeeded self.fragmentMtu channel data.length)).toNat).map
          (fragmentDatagram self.fragmentMtu self.sequenceCounter
            (UInt16.ofNat (fragmentsNeeded self.fragmentMtu channel data.length)) channel data),
          .ok self.sequenceCounter) := by
  unfold outcome fragmentedOutcome
  by_cases hfits : 9 + (asBytes channel).length + data.length ≤ self.fragmentMtu
  · rw [if_pos hfits, if_pos hfits]
  · rw [if_neg hfits, if_neg hfits]
    by_cases hzero : firstFragCapacity self.fragmentMtu channel = 0
    · rw [if_pos hzero, if_pos hzero]
      rfl
    · rw [if_neg hzero, if_neg hzero, transmit_of_none (fun _ => rfl)]
      rfl

/-- On a socket that never fails, a success means that the payload was sent
    exactly when the message fits one datagram, or is refused because the MTU
    has no room for its channel, or fits the header fields. -/
theorem send_carries_iff {self t : LcmTransport} {channel : String} {data : List UInt8}
    {emitted : List Datagram} {result : Except IoError UInt32}
    (hret : self.send (fun _ => none) channel data = .ok (t, emitted, result)) :
    (∀ seq, result = .ok seq → Carries emitted channel data) ↔
      9 + (asBytes channel).length + data.length ≤ self.fragmentMtu ∨
      self.fragmentMtu ≤ 21 + (asBytes channel).length ∨
      (data.length < 4294967296 ∧
        fragmentsNeeded self.fragmentMtu channel data.length ≤ 65535) := by
  have hout := (outcome_of_send hret).2.2
  have hroom : self.fragmentMtu ≤ 21 + (asBytes channel).length ↔
      firstFragCapacity self.fragmentMtu channel = 0 := by
    unfold firstFragCapacity fragmentHeaderSize
    omega
  -- The three ways a call without failures can go.
  rw [outcome_of_succeeds] at hout
  rw [hroom]
  by_cases hfits : 9 + (asBytes channel).length + data.length ≤ self.fragmentMtu
  · rw [if_pos hfits, Prod.mk.injEq] at hout
    simp only [hfits, true_or, iff_true]
    intro seq _
    exact Or.inl ⟨self.sequenceCounter, hout.1⟩
  · rw [if_neg hfits] at hout
    by_cases hzero : firstFragCapacity self.fragmentMtu channel = 0
    · rw [if_pos hzero, Prod.mk.injEq] at hout
      simp only [hzero, true_or, or_true, iff_true]
      intro seq hseq
      rw [hout.2] at hseq
      exact absurd hseq (by simp only [reduceCtorEq, not_false_eq_true])
    · rw [if_neg hzero, Prod.mk.injEq] at hout
      simp only [hfits, hzero, false_or]
      rw [hout.1, hout.2]
      constructor
      · intro h
        by_contra hover
        exact not_carries_of_not_fits _ _ _ _ hzero hover (h _ rfl)
      · rintro ⟨hlen, hcount⟩ seq _
        exact carries_of_fits _ _ _ _ hzero hlen hcount

/-- Fifteen bytes over an MTU of 24, in five fragments. -/
theorem send_carries_five_fragments :
    ∃ t emitted, (LcmTransport.mk 24 7).send (fun _ => none) "A" (List.replicate 15 9)
        = .ok (t, emitted, .ok 7) ∧
      emitted.length = 5 ∧ Carries emitted "A" (List.replicate 15 9) := by
  have hret : (LcmTransport.mk 24 7).send (fun _ => none) "A" (List.replicate 15 9)
      = .ok ((LcmTransport.mk 24 7).advanced,
        outcome (LcmTransport.mk 24 7) (fun _ => none) "A" (List.replicate 15 9)) :=
    send_eq _ (by decide)
  exact ⟨_, _, hret, by decide, (send_carries_iff hret).mpr (by decide) 7 rfl⟩

/-- At the default MTU, a payload that takes 65536 fragments: the call reports
    success, and nothing is sent. -/
theorem send_succeeds_with_nothing_sent :
    (LcmTransport.new defaultFragmentMtu).send (fun _ => none) "A" (List.replicate 90439678 0)
        = .ok (⟨1400, 1⟩, [], .ok 0) ∧
      ¬ Carries [] "A" (List.replicate 90439678 0) := by
  have hlen : (List.replicate 90439678 (0 : UInt8)).length = 90439678 := List.length_replicate
  revert hlen
  generalize List.replicate 90439678 (0 : UInt8) = data
  intro hlen
  have hname : (asBytes "A").length = 1 := by decide
  have hcount : fragmentsNeeded 1400 "A" 90439678 = 65536 := by
    unfold fragmentsNeeded needed firstFragCapacity subsequentFragCapacity fragmentHeaderSize
    rw [hname]
  constructor
  · have hmtu : (LcmTransport.new defaultFragmentMtu).fragmentMtu = 1400 := rfl
    have hfirst : firstFragCapacity 1400 "A" ≠ 0 := by decide
    have hzero : (UInt16.ofNat 65536).toNat = 0 := by decide
    rw [send_eq _ (by rw [hlen, hname]; decide), outcome_of_succeeds, hmtu, hname, hlen,
      if_neg (by omega), if_neg hfirst, hcount, hzero]
    rfl
  · intro h
    rcases h with ⟨seq, hshort⟩ | ⟨frags, hemit, hflat, _⟩
    · exact absurd hshort (by simp only [reduceCtorEq, not_false_eq_true])
    · rw [eq_comm, List.map_eq_nil_iff] at hemit
      rw [hemit] at hflat
      rw [← hflat] at hlen
      exact absurd hlen (by decide)

end LcmBridge
