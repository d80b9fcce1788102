import Mathlib.Algebra.Group.Nat.Defs
import LcmBridge.Theory.Fragmentation

/-!
# The Sizes of What Is Sent

How the MTU, the payload and the channel determine what a `send` emits.

The first fragment has to carry the channel and its zero byte after the
header, so an MTU of at most 21 bytes more than the channel has no room for
data in it, and `send` refuses a message that needs fragments. With more room
every fragment is filled up to the MTU, until the data run out. The MTU bounds
every datagram, because a short message is sent only if it fits.

The header of a fragment is longer than that of a short message. A message may
therefore be too long for a short datagram and still fit into one fragment
with room to spare, but never into none.

## Main results

* `firstFragCapacity_eq_zero_iff`: When there is no room in the first fragment.
* `length_fragmentDatagram`: The size of one datagram.
* `window_ne_nil`: A fragment that is sent carries data.
* `fragment_full`: It is full, or it is the last.
* `send_respects_mtu`: The sizes of everything a `send` emits.
-/

namespace LcmBridge

open Bytes Checked Windows

section Sizes

variable {mtu : Nat} {sequenceNumber : UInt32} {nFragments : UInt16} {channel : String}
  {data : List UInt8} {i : Nat}

theorem firstFragCapacity_eq_zero_iff :
    firstFragCapacity mtu channel = 0 ↔ mtu ≤ 21 + (asBytes channel).length := by
  unfold firstFragCapacity fragmentHeaderSize
  omega

/-- The header, the channel if this is the first fragment, and the data. -/
theorem length_fragmentDatagram :
    (fragmentDatagram mtu sequenceNumber nFragments channel data i).length
      = 20 + (if i = 0 then (asBytes channel).length + 1 else 0)
        + (window (firstFragCapacity mtu channel) (subsequentFragCapacity mtu) data i).length := by
  unfold fragmentDatagram encodePacket
  dsimp only
  rw [length_encodeFragment]
  unfold cutFragment
  by_cases h0 : i = 0
  · simp only [h0, if_true]
  · simp only [h0, if_false]

/-- The room for data in a fragment, which is the distance to the next cut. -/
theorem cut_succ_eq (hfirst : firstFragCapacity mtu channel ≠ 0) :
    20 + (if i = 0 then (asBytes channel).length + 1 else 0)
        + (cut (firstFragCapacity mtu channel) (subsequentFragCapacity mtu) (i + 1)
          - cut (firstFragCapacity mtu channel) (subsequentFragCapacity mtu) i) = mtu := by
  have hsub := subsequentFragCapacity_pos hfirst
  by_cases h0 : i = 0
  · rw [if_pos h0, h0, cut_one, cut_zero]
    unfold firstFragCapacity fragmentHeaderSize at hfirst ⊢
    omega
  · rw [if_neg h0, cut_succ_of_pos _ _ (Nat.pos_of_ne_zero h0), Nat.add_sub_cancel_left]
    unfold subsequentFragCapacity fragmentHeaderSize at hsub ⊢
    omega

theorem length_fragmentDatagram_le (hfirst : firstFragCapacity mtu channel ≠ 0) :
    (fragmentDatagram mtu sequenceNumber nFragments channel data i).length ≤ mtu := by
  have hroom := @cut_succ_eq mtu channel i hfirst
  rw [length_fragmentDatagram, length_window]
  omega

/-- A fragment that is needed carries data, if the message has any. -/
theorem window_ne_nil (hfirst : firstFragCapacity mtu channel ≠ 0) (hdata : 0 < data.length)
    (hi : i < fragmentsNeeded mtu channel data.length) :
    window (firstFragCapacity mtu channel) (subsequentFragCapacity mtu) data i ≠ [] := by
  have hsub := subsequentFragCapacity_pos hfirst
  have hstart : cut (firstFragCapacity mtu channel) (subsequentFragCapacity mtu) i
      < data.length := by
    by_cases h0 : i = 0
    · rw [h0, cut_zero]
      exact hdata
    · exact cut_lt_of_lt_needed _ hsub (Nat.pos_of_ne_zero h0) hi
  have hroom : cut (firstFragCapacity mtu channel) (subsequentFragCapacity mtu) i
      < cut (firstFragCapacity mtu channel) (subsequentFragCapacity mtu) (i + 1) := by
    by_cases h0 : i = 0
    · rw [h0, cut_one, cut_zero]
      exact Nat.pos_of_ne_zero hfirst
    · rw [cut_succ_of_pos _ _ (Nat.pos_of_ne_zero h0)]
      exact Nat.lt_add_of_pos_right hsub
  intro hnil
  have hlen := congrArg List.length hnil
  rw [length_window, List.length_nil] at hlen
  omega

/-- A fragment is filled to the MTU, unless it reaches the end of the data. -/
theorem fragment_full (hfirst : firstFragCapacity mtu channel ≠ 0)
    (hi : i < fragmentsNeeded mtu channel data.length) :
    (fragmentDatagram mtu sequenceNumber nFragments channel data i).length = mtu ∨
      data.length ≤ cut (firstFragCapacity mtu channel) (subsequentFragCapacity mtu) (i + 1) := by
  have hroom := @cut_succ_eq mtu channel i hfirst
  have hstart := cut_le_of_lt_needed (firstFragCapacity mtu channel)
    (subsequentFragCapacity_pos hfirst) hi
  by_cases hend : data.length
      ≤ cut (firstFragCapacity mtu channel) (subsequentFragCapacity mtu) (i + 1)
  · exact Or.inr hend
  · refine Or.inl ?_
    rw [length_fragmentDatagram, length_window]
    omega

end Sizes

/-- The chunks are consecutive slices of the data from its start, none of them
    empty, and every fragment is filled to the MTU unless its chunk reaches the
    end of the data. -/
structure FillsMtu (mtu : Nat) (data : List UInt8) (frags : List Fragment) : Prop where
  consecutive : (frags.map Fragment.data).flatten <+: data
  nonempty : ∀ f ∈ frags, f.data ≠ []
  full : ∀ pre f post, frags = pre ++ f :: post →
    (encodePacket (.fragment f)).length = mtu ∨ ((pre ++ [f]).map Fragment.data).flatten = data

-- The chunks before a cut, put together, are the data up to it.
theorem fillsMtu_range {mtu : Nat} {sequenceNumber : UInt32} {nFragments : UInt16}
    {channel : String} {data : List UInt8} {j : Nat}
    (hfirst : firstFragCapacity mtu channel ≠ 0) (hdata : 0 < data.length)
    (hj : j ≤ fragmentsNeeded mtu channel data.length) :
    FillsMtu mtu data
      ((List.range j).map (cutFragment mtu sequenceNumber nFragments channel data)) := by
  have hchunks : ∀ k, (((List.range k).map
      (cutFragment mtu sequenceNumber nFragments channel data)).map Fragment.data).flatten
      = data.take (cut (firstFragCapacity mtu channel) (subsequentFragCapacity mtu) k) := by
    intro k
    rw [List.map_map]
    exact flatten_windows _ _ data k
  constructor
  · rw [hchunks]
    exact List.take_prefix _ _
  · intro f hf
    rcases List.mem_map.mp hf with ⟨i, hi, rfl⟩
    rw [List.mem_range] at hi
    exact window_ne_nil hfirst hdata (by omega)
  · intro pre f post hsplit
    rcases List.map_eq_append_iff.mp hsplit with ⟨l₁, l₂, hrange, rfl, hl₂⟩
    rcases List.map_eq_cons_iff.mp hl₂ with ⟨i, l₃, rfl, rfl, _⟩
    rcases range_eq_append_cons hrange with ⟨hi, rfl⟩
    rcases @fragment_full mtu sequenceNumber nFragments channel data i hfirst (by omega) with
      hfull | hend
    · exact Or.inl hfull
    · refine Or.inr ?_
      rw [← List.map_singleton, ← List.map_append, ← List.range_succ, hchunks]
      exact List.take_of_length_le hend

/-- What a message that needs fragments comes to: a refusal with nothing
    emitted, or fragments that fill the MTU, all of them or those before the
    first failure of the socket. -/
theorem fragmentedOutcome_sizes (mtu : Nat) (sendTo : SendTo) (sequenceNumber : UInt32)
    (channel : String) (data : List UInt8)
    (hlong : mtu < 9 + (asBytes channel).length + data.length) :
    ∃ frags : List Fragment,
      (fragmentedOutcome mtu sendTo sequenceNumber channel data).1
        = frags.map (fun f => encodePacket (.fragment f)) ∧
      (∀ d ∈ (fragmentedOutcome mtu sendTo sequenceNumber channel data).1, d.length ≤ mtu) ∧
      FillsMtu mtu data frags ∧
      if mtu ≤ 21 + (asBytes channel).length then
        frags = [] ∧ (fragmentedOutcome mtu sendTo sequenceNumber channel data).2
          = .error (.invalidInput "Fragment MTU too small for channel name")
      else
        (fragmentedOutcome mtu sendTo sequenceNumber channel data).2 = .ok () ∨
          ∃ i err, sendTo i = some err ∧
            (fragmentedOutcome mtu sendTo sequenceNumber channel data).2 = .error err := by
  have hzero : firstFragCapacity mtu channel = 0 ↔ mtu ≤ 21 + (asBytes channel).length :=
    firstFragCapacity_eq_zero_iff
  unfold fragmentedOutcome
  by_cases hfirst : firstFragCapacity mtu channel = 0
  · rw [if_pos hfirst]
    refine ⟨[], rfl, fun d hd => absurd hd List.not_mem_nil, ⟨List.nil_prefix, fun f hf =>
      absurd hf List.not_mem_nil, fun pre f post hsplit => ?_⟩, ?_⟩
    · exact absurd hsplit.symm (List.append_ne_nil_of_right_ne_nil pre (List.cons_ne_nil f post))
    · rw [if_pos (hzero.mp hfirst)]
      exact ⟨rfl, rfl⟩
  · rw [if_neg hfirst]
    dsimp only
    -- Not all that are needed need be sent, since the count is narrowed.
    have hcount : (UInt16.ofNat (fragmentsNeeded mtu channel data.length)).toNat
        ≤ fragmentsNeeded mtu channel data.length := by
      rw [UInt16.toNat_ofNat']
      exact Nat.mod_le _ _
    have hdata : 0 < data.length := by
      unfold firstFragCapacity fragmentHeaderSize at hfirst
      omega
    rcases transmit_range sendTo (fragmentDatagram mtu sequenceNumber
        (UInt16.ofNat (fragmentsNeeded mtu channel data.length)) channel data)
        (UInt16.ofNat (fragmentsNeeded mtu channel data.length)).toNat with ⟨j, hsent, hres⟩
    have hj : j ≤ fragmentsNeeded mtu channel data.length := by
      rcases hres with ⟨rfl, _⟩ | ⟨hlt, _⟩
      · exact hcount
      · omega
    refine ⟨(List.range j).map (cutFragment mtu sequenceNumber
      (UInt16.ofNat (fragmentsNeeded mtu channel data.length)) channel data), ?_, ?_,
      fillsMtu_range hfirst hdata hj, ?_⟩
    · rw [hsent, List.map_map]
      rfl
    · intro d hd
      rw [hsent] at hd
      rcases List.mem_map.mp hd with ⟨i, _, rfl⟩
      exact length_fragmentDatagram_le hfirst
    · rw [if_neg (fun hc => hfirst (hzero.mpr hc))]
      rcases hres with ⟨_, hok⟩ | ⟨_, err, hj', herr⟩
      · exact Or.inl hok
      · exact Or.inr ⟨j, err, hj', herr⟩

/-- A `send` never panics. It refuses exactly the messages that need fragments
    under an MTU with no room for data after the channel, and emits nothing of
    them. Every datagram is within the MTU, and fragments fill it, up to the
    end of the data. -/
theorem send_respects_mtu (self : LcmTransport) (sendTo : SendTo) (channel : String)
    (data : List UInt8) (hchannel : (asBytes channel).length < 2 ^ 62)
    (hdata : data.length < 2 ^ 62) :
    ∃ emitted result, self.send sendTo channel data = .ok (self.advanced, emitted, result) ∧
      (if self.fragmentMtu < 9 + (asBytes channel).length + data.length ∧
          self.fragmentMtu ≤ 21 + (asBytes channel).length then
        emitted = [] ∧ result = .error (.invalidInput "Fragment MTU too small for channel name")
      else
        result = .ok self.sequenceCounter ∨ ∃ i err, sendTo i = some err ∧ result = .error err) ∧
      (∀ d ∈ emitted, d.length ≤ self.fragmentMtu) ∧
      (self.fragmentMtu < 9 + (asBytes channel).length + data.length →
        ∃ frags : List Fragment, emitted = frags.map (fun f => encodePacket (.fragment f)) ∧
          FillsMtu self.fragmentMtu data frags) := by
  have hbound : 64 + (asBytes channel).length + 2 * data.length < usizeBound := by
    unfold usizeBound
    omega
  refine ⟨(outcome self sendTo channel data).1, (outcome self sendTo channel data).2,
    send_eq sendTo hbound, ?_⟩
  unfold outcome
  by_cases hfits : 9 + (asBytes channel).length + data.length ≤ self.fragmentMtu
  · -- One short message, or nothing if the socket refuses it.
    rw [if_pos hfits, if_neg (fun hc => absurd hc.1 (Nat.not_lt.mpr hfits))]
    cases hsend : sendTo 0 with
    | some err =>
        exact ⟨Or.inr ⟨0, err, hsend, rfl⟩, fun d hd => absurd hd List.not_mem_nil,
          fun hc => absurd hc (Nat.not_lt.mpr hfits)⟩
    | none =>
        refine ⟨Or.inl rfl, fun d hd => ?_, fun hc => absurd hc (Nat.not_lt.mpr hfits)⟩
        rw [List.mem_singleton.mp hd, length_encodeShortMessage]
        exact hfits
  · rw [if_neg hfits]
    rw [Nat.not_le] at hfits
    rcases fragmentedOutcome_sizes self.fragmentMtu sendTo self.sequenceCounter channel data
      hfits with ⟨frags, hemitted, hlengths, hfills, hresult⟩
    refine ⟨?_, hlengths, fun _ => ⟨frags, hemitted, hfills⟩⟩
    dsimp only
    by_cases hsmall : self.fragmentMtu ≤ 21 + (asBytes channel).length
    · rw [if_pos hsmall] at hresult
      rw [if_pos ⟨hfits, hsmall⟩, hemitted, hresult.1, hresult.2]
      exact ⟨rfl, rfl⟩
    · rw [if_neg hsmall] at hresult
      rw [if_neg (fun hc => hsmall hc.2)]
      rcases hresult with hok | ⟨i, err, hi, herr⟩
      · rw [hok]
        exact Or.inl rfl
      · rw [herr]
        exact Or.inr ⟨i, err, hi, rfl⟩

/-- The bytes 0 to 23 under an MTU of 33: a full fragment with the channel, and
    a full one that also reaches the end. -/
theorem send_respects_mtu_two_fragments :
    ∃ emitted result, (LcmTransport.mk 33 7).send (fun _ => none) "A"
        ((List.range 24).map UInt8.ofNat)
          = .ok ((LcmTransport.mk 33 7).advanced, emitted, result) ∧
      emitted.map List.length = [33, 33] ∧ ∀ d ∈ emitted, d.length ≤ 33 := by
  rcases send_respects_mtu (LcmTransport.mk 33 7) (fun _ => none) "A"
      ((List.range 24).map UInt8.ofNat) (by decide) (by decide) with
    ⟨emitted, result, hsend, _, hle, _⟩
  refine ⟨emitted, result, hsend, ?_, hle⟩
  have hout : emitted = (outcome (LcmTransport.mk 33 7) (fun _ => none) "A"
      ((List.range 24).map UInt8.ofNat)).1 := congrArg Prod.fst (outcome_of_send hsend).2.2
  rw [hout]
  decide

end LcmBridge
