import LcmBridge.Theory.Filled

/-!
# The Fragments of One Message

Reassembly of fragments that belong together, whatever brings them.

A `Family` is a numbered set of fragments with one sequence number, one payload
size, one count and one channel. They need not be what a sender would cut: the
chunks may overlap, leave gaps, or not fit. The sets built from a family
(`FromFamily`) are `Filled` sets whose parts are members, with the channel in
place once member zero has been accepted.

`offerFamily_cases` says what an offer of a member does, and everything about
the delivery of one message is read off it. `Holding` keeps track of which
members have been seen, for receivers that lose no set to the timeout. Then
nothing is delivered until all have been seen, in whatever order and however
often each of them comes (`holding_offer`).

## Main definitions

* `Family`: Numbered fragments with common metadata.
* `FromFamily`: A set built from members of a family.
* `Holding`: An entry that holds the members seen so far.
* `ValidFragmentation`: A family whose chunks make up a message.

## Theorems

* `fromFamily_fresh`, `fromFamily_storeChannel`, `fromFamily_place`: How sets
  are built.
* `offerFamily_cases`, `offer_built`: What an offer of a member does.
* `holding_offer`: An offer to an entry that holds the members seen so far.
* `overlay_members`: The members of a valid fragmentation make up the message.
-/

namespace LcmBridge

/-- Numbered fragments with common metadata. Member zero carries the channel. -/
structure Family (frag : Nat → Fragment) (sequenceNumber payloadSize : UInt32)
    (nFragments : UInt16) (channel : String) : Prop where
  sequence_eq : ∀ i < nFragments.toNat, (frag i).sequenceNumber = sequenceNumber
  payload_eq : ∀ i < nFragments.toNat, (frag i).payloadSize = payloadSize
  count_eq : ∀ i < nFragments.toNat, (frag i).nFragments = nFragments
  number_eq : ∀ i < nFragments.toNat, (frag i).number = i
  channel_eq : 0 < nFragments.toNat → (frag 0).channel = some channel

/-- A set built from members of the family. -/
structure FromFamily (frag : Nat → Fragment) (payloadSize : UInt32) (nFragments : UInt16)
    (channel : String) (set : FragmentSet) (parts : List Fragment) : Prop where
  valid : set.Valid
  filled : set.Filled parts
  payload_eq : set.payloadSize = payloadSize
  count_eq : set.nFragments = nFragments
  members : ∀ f ∈ parts, ∃ i < nFragments.toNat, f = frag i
  channel_eq : 0 ∈ parts.map Fragment.number → set.channel = channel

section Members

variable {frag : Nat → Fragment} {sequenceNumber payloadSize : UInt32} {nFragments : UInt16}
  {channel : String} {set : FragmentSet} {parts : List Fragment} {i : Nat}

theorem fromFamily_fresh (hfam : Family frag sequenceNumber payloadSize nFragments channel)
    (hi : i < nFragments.toNat) (now : Instant) :
    FromFamily frag payloadSize nFragments channel (FragmentSet.fresh (frag i) now) [] where
  valid := valid_fresh (frag i) now
  filled := filled_fresh (frag i) now
  payload_eq := hfam.payload_eq i hi
  count_eq := hfam.count_eq i hi
  members _ hf := absurd hf List.not_mem_nil
  channel_eq h := absurd h List.not_mem_nil

/-- Storing the channel of a member leaves the right one, and member zero puts
    it there. -/
theorem fromFamily_storeChannel (hfam : Family frag sequenceNumber payloadSize nFragments channel)
    (hi : i < nFragments.toNat)
    (h : FromFamily frag payloadSize nFragments channel set parts) :
    FromFamily frag payloadSize nFragments channel (set.storeChannel (frag i)) parts ∧
      (i = 0 → (set.storeChannel (frag i)).channel = channel) := by
  have hzero : i = 0 → (set.storeChannel (frag i)).channel = channel := by
    intro h0
    have hnum : (frag i).fragmentNumber = 0 := by
      rw [← UInt16.toNat_inj]
      exact (hfam.number_eq i hi).trans h0
    unfold FragmentSet.storeChannel
    rw [if_pos hnum, h0, hfam.channel_eq (by omega)]
  refine ⟨⟨valid_storeChannel h.valid _, filled_storeChannel h.filled _, ?_, ?_, h.members, ?_⟩,
    hzero⟩
  · rw [storeChannel_payloadSize, h.payload_eq]
  · rw [storeChannel_nFragments, h.count_eq]
  · intro hmem
    by_cases h0 : i = 0
    · exact hzero h0
    · -- Another member does not touch the channel.
      have hnum : (frag i).fragmentNumber ≠ 0 := by
        intro hc
        have hval := hfam.number_eq i hi
        unfold Fragment.number at hval
        rw [hc] at hval
        exact h0 hval.symm
      unfold FragmentSet.storeChannel
      rw [if_neg hnum]
      exact h.channel_eq hmem

/-- A member is accepted unless it has been before, or its data does not fit. -/
theorem accepts_member_iff (hfam : Family frag sequenceNumber payloadSize nFragments channel)
    (hi : i < nFragments.toNat)
    (h : FromFamily frag payloadSize nFragments channel set parts) :
    set.Accepts (frag i) ↔
      i ∉ parts.map Fragment.number ∧ (frag i).piece.Fits payloadSize.toNat := by
  have hnum : (frag i).fragmentNumber.toNat = i := hfam.number_eq i hi
  unfold FragmentSet.Accepts
  rw [hfam.payload_eq i hi, hfam.count_eq i hi, h.payload_eq, h.count_eq, hnum,
    mask_eq_some_false_iff h.valid h.filled, h.count_eq, h.valid.buffer_length, h.payload_eq]
  simp only [true_and, hi]
  rfl

-- The name is in place with member zero: either it was there already, or this
-- is it, and storing the channel came first.
theorem fromFamily_place (hfam : Family frag sequenceNumber payloadSize nFragments channel)
    (hi : i < nFragments.toNat)
    (h : FromFamily frag payloadSize nFragments channel set parts)
    (hzero : i = 0 → set.channel = channel) (hacc : set.Accepts (frag i)) :
    FromFamily frag payloadSize nFragments channel (set.place (frag i)) (parts ++ [frag i]) := by
  refine ⟨valid_place h.valid hacc, filled_place h.valid h.filled hacc, h.payload_eq, h.count_eq,
    ?_, ?_⟩
  · intro f hf
    rcases List.mem_append.mp hf with hf | hf
    · exact h.members f hf
    · exact ⟨i, hi, List.mem_singleton.mp hf⟩
  · intro hmem
    rw [List.map_append, List.mem_append, List.map_singleton, List.mem_singleton,
      hfam.number_eq i hi] at hmem
    rcases hmem with hmem | hmem
    · exact h.channel_eq hmem
    · exact hzero hmem.symm

/-- What an offer of a member does to an entry whose set, found or created, is
    built from the family: the member is dropped, or kept, or it completes the
    message. -/
theorem offerFamily_cases {maxMessageSize : Nat} {insertNow : Instant} {slot : Option FragmentSet}
    (hfam : Family frag sequenceNumber payloadSize nFragments channel)
    (hi : i < nFragments.toNat) (hsize : payloadSize.toNat ≤ maxMessageSize)
    (h : FromFamily frag payloadSize nFragments channel
      (slot.getD (FragmentSet.fresh (frag i) insertNow)) parts) :
    let opened := (slot.getD (FragmentSet.fresh (frag i) insertNow)).createdAt
    (¬ (i ∉ parts.map Fragment.number ∧ (frag i).piece.Fits payloadSize.toNat) ∧
      ∃ set, offer maxMessageSize (frag i) insertNow slot = (some set, none) ∧
        FromFamily frag payloadSize nFragments channel set parts ∧ set.createdAt = opened) ∨
    ((i ∉ parts.map Fragment.number ∧ (frag i).piece.Fits payloadSize.toNat) ∧
      (¬ ∀ j < nFragments.toNat, j ∈ (parts ++ [frag i]).map Fragment.number) ∧
      ∃ set, offer maxMessageSize (frag i) insertNow slot = (some set, none) ∧
        FromFamily frag payloadSize nFragments channel set (parts ++ [frag i]) ∧
        set.createdAt = opened) ∨
    ((i ∉ parts.map Fragment.number ∧ (frag i).piece.Fits payloadSize.toNat) ∧
      (∀ j < nFragments.toNat, j ∈ (parts ++ [frag i]).map Fragment.number) ∧
      offer maxMessageSize (frag i) insertNow slot = (none, some ⟨channel, sequenceNumber,
        Overlay.overlay (List.replicate payloadSize.toNat 0)
          ((parts ++ [frag i]).map Fragment.piece)⟩) ∧
      ∃ set, FromFamily frag payloadSize nFragments channel set (parts ++ [frag i])) := by
  intro opened
  rcases fromFamily_storeChannel hfam hi h with ⟨hset, hzero⟩
  have hiff := accepts_member_iff hfam hi hset
  have hsize' : ¬ (frag i).payloadSize.toNat > maxMessageSize := by
    rw [hfam.payload_eq i hi]
    exact Nat.not_lt.mpr hsize
  have hopened : ((slot.getD (FragmentSet.fresh (frag i) insertNow)).storeChannel
      (frag i)).createdAt = opened := storeChannel_createdAt _ _
  rcases offer_cases hsize' with ⟨hrej, hoffer⟩ | ⟨hacc, hpart, hoffer⟩ | ⟨hacc, hfull, hoffer⟩
  · exact Or.inl ⟨fun hc => hrej (hiff.mpr hc), _, hoffer, hset, hopened⟩
  · have hplace := fromFamily_place hfam hi hset hzero hacc
    rw [ne_eq, complete_iff hplace.valid hplace.filled, hplace.count_eq] at hpart
    exact Or.inr (Or.inl ⟨hiff.mp hacc, hpart, _, hoffer, hplace, hopened⟩)
  · have hplace := fromFamily_place hfam hi hset hzero hacc
    rw [complete_iff hplace.valid hplace.filled, hplace.count_eq] at hfull
    refine Or.inr (Or.inr ⟨hiff.mp hacc, hfull, ?_, _, hplace⟩)
    -- All numbers have arrived, zero among them, so the channel is in place.
    have hchan := hplace.channel_eq (hfull 0 (by omega))
    rw [hoffer, hchan, hplace.filled.buffer_eq, hplace.payload_eq, hfam.sequence_eq i hi]

/-- What an offer of a member does to an entry that is built from the family,
    with a property of its parts that an accepted member keeps: what is left of
    it is built in the same way, and a message is delivered on the channel of
    the family only from a set that has all the members. -/
theorem offer_built (maxMessageSize : Nat) (insertNow : Instant) {slot : Option FragmentSet}
    (hfam : Family frag sequenceNumber payloadSize nFragments channel)
    (hi : i < nFragments.toNat) (P : List Fragment → Prop) (hnil : P [])
    (hadd : ∀ parts, P parts → P (parts ++ [frag i]))
    (h : ∀ set, slot = some set →
      ∃ parts, FromFamily frag payloadSize nFragments channel set parts ∧ P parts) :
    (∀ set, (offer maxMessageSize (frag i) insertNow slot).1 = some set →
      ∃ parts, FromFamily frag payloadSize nFragments channel set parts ∧ P parts) ∧
    ∀ m, (offer maxMessageSize (frag i) insertNow slot).2 = some m → m.channel = channel ∧
      ∃ set parts, FromFamily frag payloadSize nFragments channel set parts ∧ P parts ∧
        ∀ j < nFragments.toNat, j ∈ parts.map Fragment.number := by
  by_cases hsize : payloadSize.toNat ≤ maxMessageSize
  · have hset : ∃ parts, FromFamily frag payloadSize nFragments channel
        (slot.getD (FragmentSet.fresh (frag i) insertNow)) parts ∧ P parts := by
      cases hs : slot with
      | none => exact ⟨[], fromFamily_fresh hfam hi insertNow, hnil⟩
      | some set => exact h set hs
    rcases hset with ⟨parts, hfrom, hP⟩
    rcases offerFamily_cases hfam hi hsize hfrom with
      ⟨_, set, hoffer, hfrom', _⟩ | ⟨_, _, set, hoffer, hfrom', _⟩ |
      ⟨_, hall, hoffer, set, hfrom'⟩
    · rw [hoffer]
      refine ⟨fun set' hset' => ⟨parts, ?_, hP⟩, fun m hm => ?_⟩
      · rw [← Option.some.inj hset']
        exact hfrom'
      · exact absurd hm (by simp only [reduceCtorEq, not_false_eq_true])
    · rw [hoffer]
      refine ⟨fun set' hset' => ⟨parts ++ [frag i], ?_, hadd parts hP⟩, fun m hm => ?_⟩
      · rw [← Option.some.inj hset']
        exact hfrom'
      · exact absurd hm (by simp only [reduceCtorEq, not_false_eq_true])
    · rw [hoffer]
      refine ⟨fun set' hset' => ?_, fun m hm => ?_⟩
      · exact absurd hset' (by simp only [reduceCtorEq, not_false_eq_true])
      · rw [← Option.some.inj hm]
        exact ⟨rfl, set, parts ++ [frag i], hfrom', hadd parts hP, hall⟩
  · -- Refused for its size, the entry stays as it is.
    have hbig : (frag i).payloadSize.toNat > maxMessageSize := by
      rw [hfam.payload_eq i hi]
      exact Nat.lt_of_not_le hsize
    rw [offer_of_too_large hbig]
    exact ⟨h, fun m hm => absurd hm (by simp only [reduceCtorEq, not_false_eq_true])⟩

end Members

/-! ### Members seen so far -/

section Holding

variable {frag : Nat → Fragment} {sequenceNumber payloadSize : UInt32} {nFragments : UInt16}
  {channel : String} {opened : Instant} {seen : Nat → Prop} {i : Nat}

/-- The entry holds exactly the members seen so far, in a set no older than
    `opened`. -/
def Holding (frag : Nat → Fragment) (payloadSize : UInt32) (nFragments : UInt16)
    (channel : String) (opened : Instant) (seen : Nat → Prop) (slot : Option FragmentSet) : Prop :=
  (slot = none ∧ ∀ j < nFragments.toNat, ¬ seen j) ∨
  ∃ set parts, slot = some set ∧ FromFamily frag payloadSize nFragments channel set parts ∧
    (∀ j < nFragments.toNat, j ∈ parts.map Fragment.number ↔ seen j) ∧ opened ≤ set.createdAt

/-- The sweep of a call within the timeout of `opened` leaves the entry. -/
theorem holding_filter {slot : Option FragmentSet} {now : Instant} {timeout : Duration}
    (h : Holding frag payloadSize nFragments channel opened seen slot)
    (hnow : now ≤ opened + timeout) :
    slot.filter (fun set => !decide (now - set.createdAt > timeout)) = slot := by
  rcases h with ⟨rfl, _⟩ | ⟨set, parts, rfl, _, _, hopened⟩
  · rfl
  · have hlive : now - set.createdAt ≤ timeout :=
      Nat.sub_le_iff_le_add'.mpr (Nat.le_trans hnow (Nat.add_le_add_right hopened timeout))
    rw [Option.filter_some, if_pos]
    rw [Bool.not_eq_true', decide_eq_false_iff_not]
    exact Nat.not_lt.mpr hlive

theorem holding_valid {slot : Option FragmentSet}
    (h : Holding frag payloadSize nFragments channel opened seen slot) : SlotValid slot := by
  intro set hset
  rcases h with ⟨hnone, _⟩ | ⟨set', parts, hsome, hfrom, _, _⟩
  · rw [hnone] at hset
    exact absurd hset (by simp only [reduceCtorEq, not_false_eq_true])
  · rw [hsome, Option.some.injEq] at hset
    rw [← hset]
    exact hfrom.valid

/-- Only the members of the family matter for what has been seen. -/
theorem holding_congr {seen' : Nat → Prop} {slot : Option FragmentSet}
    (h : Holding frag payloadSize nFragments channel opened seen slot)
    (hseen : ∀ j < nFragments.toNat, seen j ↔ seen' j) :
    Holding frag payloadSize nFragments channel opened seen' slot := by
  rcases h with ⟨hnone, hno⟩ | ⟨set, parts, hset, hfrom, hparts, hold⟩
  · exact Or.inl ⟨hnone, fun j hj hc => hno j hj ((hseen j hj).mpr hc)⟩
  · exact Or.inr ⟨set, parts, hset, hfrom, fun j hj => (hparts j hj).trans (hseen j hj), hold⟩

/-- While members are missing, an offer of one either completes the message or
    leaves an entry that holds one more. -/
theorem holding_offer {maxMessageSize : Nat} {insertNow : Instant} {slot : Option FragmentSet}
    (hfam : Family frag sequenceNumber payloadSize nFragments channel)
    (hfits : ∀ j < nFragments.toNat, (frag j).piece.Fits payloadSize.toNat)
    (hsize : payloadSize.toNat ≤ maxMessageSize) (hi : i < nFragments.toNat)
    (hopened : opened ≤ insertNow)
    (h : Holding frag payloadSize nFragments channel opened seen slot)
    (hmissing : ¬ ∀ j < nFragments.toNat, seen j) :
    ((∀ j < nFragments.toNat, seen j ∨ j = i) ∧
      ∃ set parts, offer maxMessageSize (frag i) insertNow slot
          = (none, some ⟨channel, sequenceNumber,
            Overlay.overlay (List.replicate payloadSize.toNat 0) (parts.map Fragment.piece)⟩) ∧
        FromFamily frag payloadSize nFragments channel set parts ∧
        ∀ j < nFragments.toNat, j ∈ parts.map Fragment.number) ∨
    ((¬ ∀ j < nFragments.toNat, seen j ∨ j = i) ∧
      ∃ slot', offer maxMessageSize (frag i) insertNow slot = (slot', none) ∧
        Holding frag payloadSize nFragments channel opened (fun j => seen j ∨ j = i) slot') := by
  -- The set that is found or created holds the members seen so far.
  have hset : ∃ parts, FromFamily frag payloadSize nFragments channel
      (slot.getD (FragmentSet.fresh (frag i) insertNow)) parts ∧
      (∀ j < nFragments.toNat, j ∈ parts.map Fragment.number ↔ seen j) ∧
      opened ≤ (slot.getD (FragmentSet.fresh (frag i) insertNow)).createdAt := by
    rcases h with ⟨rfl, hseen⟩ | ⟨set, parts, rfl, hfrom, hseen, hold⟩
    · refine ⟨[], fromFamily_fresh hfam hi insertNow, fun j hj => ?_, hopened⟩
      simp only [List.map_nil, List.not_mem_nil, false_iff]
      exact hseen j hj
    · exact ⟨parts, hfrom, hseen, hold⟩
  rcases hset with ⟨parts, hfrom, hseen, hold⟩
  have hgrow : ∀ j < nFragments.toNat,
      j ∈ (parts ++ [frag i]).map Fragment.number ↔ seen j ∨ j = i := by
    intro j hj
    rw [List.map_append, List.mem_append, List.map_singleton, List.mem_singleton,
      hfam.number_eq i hi, hseen j hj]
  rcases offerFamily_cases hfam hi hsize hfrom with
    ⟨hdup, set, hoffer, hfrom', hcreated⟩ | ⟨_, hpart, set, hoffer, hfrom', hcreated⟩ |
    ⟨_, hall, hoffer, set, hfrom'⟩
  · -- Dropped although it fits: it has been seen before.
    have hold_i : seen i := by
      by_contra hnew
      exact hdup ⟨fun hmem => hnew ((hseen i hi).mp hmem), hfits i hi⟩
    have hsame : ∀ j, seen j ∨ j = i ↔ seen j := by
      intro j
      constructor
      · intro h
        rcases h with hj | rfl
        · exact hj
        · exact hold_i
      · exact Or.inl
    simp only [hsame]
    exact Or.inr ⟨hmissing, some set, hoffer,
      Or.inr ⟨set, parts, rfl, hfrom', hseen, by rw [hcreated]; exact hold⟩⟩
  · refine Or.inr ⟨fun hc => hpart (fun j hj => (hgrow j hj).mpr (hc j hj)), some set, hoffer,
      Or.inr ⟨set, parts ++ [frag i], rfl, hfrom', hgrow, by rw [hcreated]; exact hold⟩⟩
  · exact Or.inl ⟨fun j hj => (hgrow j hj).mp (hall j hj), set, parts ++ [frag i], hoffer, hfrom',
      hall⟩

end Holding

/-! ### Fragmentations of a message -/

/-- A family cut from a message in any way: each chunk is what the message
    holds at its range, and together the chunks cover the message. -/
structure ValidFragmentation (frag : Nat → Fragment) (sequenceNumber : UInt32)
    (nFragments : UInt16) (channel : String) (data : List UInt8) : Prop
    extends Family frag sequenceNumber (UInt32.ofNat data.length) nFragments channel where
  length_lt : data.length < 4294967296
  count_pos : 0 < nFragments.toNat
  fits : ∀ i < nFragments.toNat, (frag i).piece.Fits data.length
  agrees : ∀ i < nFragments.toNat, (frag i).piece.Agrees data
  covers : ∀ x < data.length, ∃ i < nFragments.toNat, (frag i).piece.Covers x

section ValidFragmentation

variable {frag : Nat → Fragment} {sequenceNumber : UInt32} {nFragments : UInt16}
  {channel : String} {data : List UInt8}

theorem toNat_ofNat_length (hlen : data.length < 4294967296) :
    (UInt32.ofNat data.length).toNat = data.length := by
  rw [UInt32.toNat_ofNat', Nat.mod_eq_of_lt hlen]

/-- All members together make up the message, in whatever order they are
    written over a buffer of its length. -/
theorem overlay_members (h : ValidFragmentation frag sequenceNumber nFragments channel data)
    {set : FragmentSet} {parts : List Fragment}
    (hfrom : FromFamily frag (UInt32.ofNat data.length) nFragments channel set parts)
    (hall : ∀ j < nFragments.toNat, j ∈ parts.map Fragment.number) :
    Overlay.overlay (List.replicate (UInt32.ofNat data.length).toNat 0)
      (parts.map Fragment.piece) = data := by
  have hmember : ∀ p ∈ parts.map Fragment.piece, ∃ i < nFragments.toNat, p = (frag i).piece := by
    intro p hp
    rcases List.mem_map.mp hp with ⟨f, hf, rfl⟩
    rcases hfrom.members f hf with ⟨i, hi, rfl⟩
    exact ⟨i, hi, rfl⟩
  refine Overlay.overlay_eq_of_covers ?_ ?_ ?_ ?_
  · rw [List.length_replicate, toNat_ofNat_length h.length_lt]
  · intro p hp
    rcases hmember p hp with ⟨i, hi, rfl⟩
    rw [List.length_replicate, toNat_ofNat_length h.length_lt]
    exact h.fits i hi
  · intro p hp
    rcases hmember p hp with ⟨i, hi, rfl⟩
    exact h.agrees i hi
  · -- Each position is covered by the chunk of some number, and that number is there.
    intro x hx
    rcases h.covers x hx with ⟨k, hk, hcov⟩
    rcases List.mem_map.mp (hall k hk) with ⟨f, hf, hnum⟩
    rcases hfrom.members f hf with ⟨i, hi, rfl⟩
    rw [h.number_eq i hi] at hnum
    refine ⟨_, List.mem_map_of_mem hf, ?_⟩
    rw [hnum]
    exact hcov

end ValidFragmentation

end LcmBridge
