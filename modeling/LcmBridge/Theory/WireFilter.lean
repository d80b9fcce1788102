import LcmBridge.Core.ZenohToLcm
import LcmBridge.Theory.RoundTrip

/-!
# The Channel Filter on the Wire

Whether the channel a receiver reads is the one the filter accepted.

The filter looks at the string that was extracted from the key. A receiver
looks at the name field of a datagram, up to its first zero byte. A name with
a NUL character in it is therefore read short, and what follows the NUL is
read as data (`readChannel`). Nothing between the key and the wire excludes
such a name.

A short message with such a name always decodes under the shorter name. A
fragmented one may not: the bytes that went over to the data make fragment
zero too long, and if it no longer fits the payload, it is dropped and the
message never completes. So the fragments that are read are still a family
(`carriers_readFragment`), of members that may or may not fit.

## Main definitions

* `Decodable`: A message some receiver decodes from these datagrams.
* `readFragment`: A fragment as a receiver reads it.

## Theorems

* `handle_builtFrom`: One arrival of a family, at any time.
* `receive_sound`: What any receiver of a family can deliver.
* `receive_complete`: If all members fit, some receiver delivers.
* `exists_readChannel`: Every channel is read as some name.
* `readFragment_fits_iff`: When the fragments of a message fit as read.
* `decodable_emitted`: What is decoded from what was sent.
* `channel_on_wire_iff`: When receivers see the channel that was accepted.
-/

namespace LcmBridge

open Bytes Checked Windows

/-- Some receiver with nothing pending from the sender decodes the message from
    these datagrams alone, in some order and at some times. -/
def Decodable (emitted : List Datagram) (m : LcmMessage) : Prop :=
  ∃ (reassembler : FragmentReassembler) (sender : SocketAddr) (arrivals : List Arrival)
    (reassembler' : FragmentReassembler) (results : List (Option LcmMessage)),
    (∀ seq, reassembler.pending (sender, seq) = none) ∧
    (∀ a ∈ arrivals, a.datagram ∈ emitted ∧ a.src = sender) ∧
    receiveAll reassembler arrivals = .ok (reassembler', results) ∧ some m ∈ results

/-! ### Any receiver of a family -/

section Family

variable {datagram : Nat → Datagram} {frag : Nat → Fragment}
  {sequenceNumber payloadSize : UInt32} {nFragments : UInt16} {channel : String}
  {sender : SocketAddr}

/-- The entry of the sender and the sequence number, if there is one, is built
    from the family. -/
def BuiltFrom (frag : Nat → Fragment) (payloadSize : UInt32) (nFragments : UInt16)
    (channel : String) (slot : Option FragmentSet) : Prop :=
  ∀ set, slot = some set → ∃ parts, FromFamily frag payloadSize nFragments channel set parts

/-- An offer of a member keeps the entry built from the family, and delivers
    only on the channel of the family, and only if all members fit. -/
theorem offer_builtFrom {maxMessageSize : Nat} {insertNow : Instant} {slot : Option FragmentSet}
    (hfam : Family frag sequenceNumber payloadSize nFragments channel) {i : Nat}
    (hi : i < nFragments.toNat) (h : BuiltFrom frag payloadSize nFragments channel slot) :
    BuiltFrom frag payloadSize nFragments channel
        (offer maxMessageSize (frag i) insertNow slot).1 ∧
      ∀ m, (offer maxMessageSize (frag i) insertNow slot).2 = some m →
        m.channel = channel ∧
          ∀ j < nFragments.toNat, (frag j).piece.Fits payloadSize.toNat := by
  have hbuilt : ∀ set, slot = some set → ∃ parts,
      FromFamily frag payloadSize nFragments channel set parts ∧ True := by
    intro set hset
    rcases h set hset with ⟨parts, hfrom⟩
    exact ⟨parts, hfrom, trivial⟩
  rcases offer_built maxMessageSize insertNow hfam hi (fun _ => True) trivial
    (fun _ _ => trivial) hbuilt with ⟨hleft, hmsg⟩
  refine ⟨fun set hset => ?_, fun m hm => ?_⟩
  · rcases hleft set hset with ⟨parts, hfrom, _⟩
    exact ⟨parts, hfrom⟩
  · rcases hmsg m hm with ⟨hchannel, set, parts, hfrom, _, hall⟩
    refine ⟨hchannel, fun j hj => ?_⟩
    -- Every number has been accepted, so the data of every member fits.
    rcases List.mem_map.mp (hall j hj) with ⟨f, hf, hnum⟩
    have hfit := hfrom.filled.fits f hf
    rcases hfrom.members f hf with ⟨k, hk, rfl⟩
    rw [hfam.number_eq k hk] at hnum
    rw [← hnum, ← hfrom.payload_eq]
    exact hfit

/-- Receiving a member, at whatever time, does the same: the sweep can only
    take the entry away. -/
theorem handle_builtFrom
    (hcar : Carriers datagram frag sequenceNumber payloadSize nFragments channel)
    {reassembler reassembler' : FragmentReassembler} {a : Arrival} {result : Option LcmMessage}
    (hbuilt : BuiltFrom frag payloadSize nFragments channel
      (reassembler.pending (sender, sequenceNumber)))
    (ha : ∃ i < nFragments.toNat, a.datagram = datagram i) (hsrc : a.src = sender)
    (h : handleDatagram reassembler a.datagram a.src a.now a.insertNow
      = .ok (reassembler', result)) :
    BuiltFrom frag payloadSize nFragments channel
        (reassembler'.pending (sender, sequenceNumber)) ∧
      ∀ m, result = some m → m.channel = channel ∧
        ∀ j < nFragments.toNat, (frag j).piece.Fits payloadSize.toNat := by
  rcases ha with ⟨i, hi, hdata⟩
  have hswept : BuiltFrom frag payloadSize nFragments channel
      ((reassembler.expireStale a.now).pending (sender, sequenceNumber)) := by
    intro set hset
    exact hbuilt set (Option.eq_some_of_filter_eq_some hset)
  -- The sweep cannot add anything, so what is left is built from the family.
  have hvalid : SlotValid
      ((reassembler.expireStale a.now).pending (sender, sequenceNumber)) := by
    intro set hset
    rcases hswept set hset with ⟨parts, hfrom⟩
    exact hfrom.valid
  rw [handle_member hcar hi hdata hsrc rfl hvalid, Except.ok.injEq, Prod.mk.injEq] at h
  rw [← h.1, ← h.2]
  dsimp only
  rw [Function.update_self]
  exact offer_builtFrom hcar.family hi hswept

/-- What any receiver can deliver from the datagrams of a family: a message on
    the channel of the family, and only if there are members and all of them
    fit. -/
theorem receive_sound
    (hcar : Carriers datagram frag sequenceNumber payloadSize nFragments channel)
    {reassembler reassembler' : FragmentReassembler} {arrivals : List Arrival}
    {results : List (Option LcmMessage)} {m : LcmMessage}
    (hpending : reassembler.pending (sender, sequenceNumber) = none)
    (harr : ∀ a ∈ arrivals, (∃ i < nFragments.toNat, a.datagram = datagram i) ∧ a.src = sender)
    (hrun : receiveAll reassembler arrivals = .ok (reassembler', results))
    (hm : some m ∈ results) :
    m.channel = channel ∧ 0 < nFragments.toNat ∧
      ∀ j < nFragments.toNat, (frag j).piece.Fits payloadSize.toNat := by
  rcases List.mem_iff_getElem?.mp hm with ⟨k, hk⟩
  -- The arrival that delivers, and the state the earlier ones lead to.
  rcases (Machine.runAll_getElem? hrun k (some m)).mp hk with
    ⟨pre, a, post, u, u', rs, hsplit, _, hpre, hlast⟩
  have hmem : ∀ b ∈ pre, b ∈ arrivals := by
    intro b hb
    rw [hsplit]
    exact List.mem_append_left _ hb
  have ha : a ∈ arrivals := by
    rw [hsplit]
    exact List.mem_append_right _ List.mem_cons_self
  have hstart : BuiltFrom frag payloadSize nFragments channel
      (reassembler.pending (sender, sequenceNumber)) := by
    intro set hset
    rw [hpending] at hset
    exact absurd hset (by simp only [reduceCtorEq, not_false_eq_true])
  have hbuilt := Machine.runAll_invariant_mem
    (fun r : FragmentReassembler => BuiltFrom frag payloadSize nFragments channel
      (r.pending (sender, sequenceNumber)))
    (fun r b hb r' result hr hstep =>
      (handle_builtFrom hcar hr (harr b (hmem b hb)).1 (harr b (hmem b hb)).2 hstep).1)
    hstart hpre
  rcases (harr a ha).1 with ⟨i, hi, _⟩
  rcases (handle_builtFrom hcar hbuilt (harr a ha).1 (harr a ha).2 hlast).2 m rfl with
    ⟨hchannel, hfits⟩
  exact ⟨hchannel, Nat.zero_lt_of_lt hi, hfits⟩

/-- If there are members and all of them fit, a receiver that gets them in
    order, all at once, delivers a message on the channel of the family. -/
theorem receive_complete
    (hcar : Carriers datagram frag sequenceNumber payloadSize nFragments channel)
    (hpos : 0 < nFragments.toNat)
    (hfits : ∀ j < nFragments.toNat, (frag j).piece.Fits payloadSize.toNat) :
    ∃ m, m.channel = channel ∧
      Decodable ((List.range nFragments.toNat).map datagram) m := by
  have hlast : nFragments.toNat - 1 < nFragments.toNat := Nat.sub_lt hpos Nat.one_pos
  have hsplit : (List.range (nFragments.toNat - 1)).map datagram ++
      [datagram (nFragments.toNat - 1)] = (List.range nFragments.toNat).map datagram := by
    have hsucc : nFragments.toNat = nFragments.toNat - 1 + 1 := by omega
    rw [← List.map_singleton, ← List.map_append, hsucc, List.range_succ, Nat.add_sub_cancel]
  -- All but the last, then the last, everything at time zero.
  set pre := (List.range (nFragments.toNat - 1)).map
    (fun i => Arrival.mk (datagram i) (.v4 0 0) 0 0) with hpre
  have hdata : pre.map Arrival.datagram = (List.range (nFragments.toNat - 1)).map datagram := by
    rw [hpre, List.map_map]
    rfl
  have hsrc : ∀ a ∈ pre ++ [Arrival.mk (datagram (nFragments.toNat - 1)) (.v4 0 0) 0 0],
      (∃ i < nFragments.toNat, a.datagram = datagram i) ∧
        Timely (.v4 0 0) 0 (FragmentReassembler.new 0 payloadSize.toNat).timeout a := by
    intro a ha
    rcases List.mem_append.mp ha with ha | ha
    · rcases List.mem_map.mp ha with ⟨i, hi, rfl⟩
      rw [List.mem_range] at hi
      exact ⟨⟨i, by omega, rfl⟩, rfl, Nat.le_refl 0, Nat.le_refl 0, Nat.le_refl 0, Nat.le_refl 0⟩
    · rw [List.mem_singleton.mp ha]
      exact ⟨⟨_, hlast, rfl⟩, rfl, Nat.le_refl 0, Nat.le_refl 0, Nat.le_refl 0, Nat.le_refl 0⟩
  have hmissing : ¬ ∀ j < nFragments.toNat, datagram j ∈ pre.map Arrival.datagram := by
    intro hall
    have hmem := hall _ hlast
    rw [hdata] at hmem
    rcases List.mem_map.mp hmem with ⟨i, hi, heq⟩
    rw [List.mem_range] at hi
    have hsame := datagram_inj hcar (by omega) hlast heq
    omega
  rcases receive_last hcar hfits (Nat.le_refl _) rfl hsrc hmissing with
    ⟨r', result, hrun, ⟨_, set, parts, hresult, _, _⟩ | ⟨hsome, _⟩⟩
  · refine ⟨⟨channel, sequenceNumber, Overlay.overlay (List.replicate payloadSize.toNat 0)
      (parts.map Fragment.piece)⟩, rfl, _, .v4 0 0, _, r', _, fun _ => rfl, fun a ha => ?_, hrun,
      ?_⟩
    · refine ⟨?_, (hsrc a ha).2.1⟩
      rcases (hsrc a ha).1 with ⟨i, hi, heq⟩
      rw [heq]
      exact List.mem_map_of_mem (List.mem_range.mpr hi)
    · rw [hresult]
      exact List.mem_append_right _ List.mem_cons_self
  · refine absurd (fun j hj => ?_) hsome
    rw [List.map_append, hdata, List.map_singleton, hsplit]
    exact List.mem_map_of_mem (List.mem_range.mpr hj)

end Family

/-! ### Fragments as they are read -/

/-- Every channel field is read as a name and some further data. The name is
    the channel itself if there is no NUL character in it; otherwise it is
    shorter, by the bytes from the first NUL on. -/
theorem exists_readChannel (channel : String) :
    ∃ (name : String) (extra : List UInt8),
      (∀ data, readName (asBytes channel ++ 0 :: data) = some (name, extra ++ data)) ∧
      (name = channel ↔ NulFree channel) ∧
      extra.length = (asBytes channel).length - (asBytes channel).idxOf 0 := by
  -- With a NUL in it, the name ends there, and the closing zero byte goes to
  -- the data as well.
  by_cases hnul : (0 : UInt8) ∈ asBytes channel
  · rcases exists_name_before_nul channel hnul with ⟨name, post, hbytes, hname⟩
    refine ⟨name, post ++ [0], fun data => ?_, ?_, ?_⟩
    · rw [hbytes, List.append_assoc, List.cons_append, readName_append name _ hname,
        List.append_assoc, List.singleton_append]
    · rw [nulFree_iff]
      constructor
      · rintro rfl
        exact hname
      · exact fun h => absurd hnul h
    · rw [hbytes, List.idxOf_append, if_neg hname, List.idxOf_cons_self]
      simp only [List.length_append, List.length_cons, List.length_nil]
      omega
  · refine ⟨channel, [], fun data => readName_append channel data hnul, ?_, ?_⟩
    · rw [nulFree_iff]
      simp only [hnul, not_false_eq_true]
    · rw [List.idxOf_eq_length hnul, Nat.sub_self, List.length_nil]

section Read

variable (mtu : Nat) (sequenceNumber : UInt32) (nFragments : UInt16) (channel : String)
  (data : List UInt8) (name : String) (extra : List UInt8)

/-- Fragment number `i` as a receiver reads it: number zero under the name it
    sees, with the rest of the channel in front of the data. -/
def readFragment (i : Nat) : Fragment :=
  if i = 0 then
    { cutFragment mtu sequenceNumber nFragments channel data 0 with
      channel := some name
      data := extra ++ (cutFragment mtu sequenceNumber nFragments channel data 0).data }
  else cutFragment mtu sequenceNumber nFragments channel data i

variable {mtu sequenceNumber nFragments channel data name extra}

/-- Reading changes nothing but the channel and the data of number zero. -/
theorem readFragment_header (i : Nat) :
    (readFragment mtu sequenceNumber nFragments channel data name extra i).sequenceNumber
        = sequenceNumber ∧
      (readFragment mtu sequenceNumber nFragments channel data name extra i).payloadSize
        = UInt32.ofNat data.length ∧
      (readFragment mtu sequenceNumber nFragments channel data name extra i).nFragments
        = nFragments ∧
      (readFragment mtu sequenceNumber nFragments channel data name extra i).fragmentNumber
        = UInt16.ofNat i := by
  unfold readFragment
  by_cases h0 : i = 0
  · rw [if_pos h0, h0]
    exact ⟨rfl, rfl, rfl, rfl⟩
  · rw [if_neg h0]
    exact ⟨rfl, rfl, rfl, rfl⟩

/-- The fragments as they are read are a family under the name that is read. -/
theorem carriers_readFragment
    (hread : ∀ rest, readName (asBytes channel ++ 0 :: rest) = some (name, extra ++ rest))
    (hlen : extra.length + data.length < usizeBound) :
    Carriers (fragmentDatagram mtu sequenceNumber nFragments channel data)
      (readFragment mtu sequenceNumber nFragments channel data name extra) sequenceNumber
      (UInt32.ofNat data.length) nFragments name where
  family :=
    { sequence_eq := fun i _ => (readFragment_header i).1
      payload_eq := fun i _ => (readFragment_header i).2.1
      count_eq := fun i _ => (readFragment_header i).2.2.1
      number_eq := fun i hi => by
        have hlt := nFragments.toNat_lt
        unfold Fragment.number
        rw [(readFragment_header i).2.2.2, UInt16.toNat_ofNat', Nat.mod_eq_of_lt (by omega)]
      channel_eq := fun _ => rfl }
  parses i hi := by
    have hlt := nFragments.toNat_lt
    have hzero : (cutFragment mtu sequenceNumber nFragments channel data i).fragmentNumber = 0 ↔
        i = 0 := cutFragment_number_eq_zero hi
    unfold fragmentDatagram encodePacket
    dsimp only
    rw [parse_encodeFragment]
    unfold readFragment
    by_cases h0 : i = 0
    · rw [if_pos (hzero.mpr h0), if_pos h0, h0]
      simp only [cutFragment, if_true, fragmentBody, hread, Option.map_some]
    · rw [if_neg (fun hc => h0 (hzero.mp hc)), if_neg h0]
      simp only [cutFragment, if_neg h0, fragmentBody]
  no_overflow i _ := by
    unfold readFragment
    by_cases h0 : i = 0
    · have hend : (cutFragment mtu sequenceNumber nFragments channel data 0).fragmentOffset.toNat
          + (cutFragment mtu sequenceNumber nFragments channel data 0).data.length
          ≤ data.length := cutFragment_end_le 0
      rw [if_pos h0]
      dsimp only
      rw [List.length_append]
      omega
    · rw [if_neg h0]
      exact Nat.lt_of_le_of_lt (cutFragment_end_le i) (by omega)

-- The offset is narrowed to 32 bits, the length is not.
theorem readFragment_piece_fits_iff (i P : Nat) :
    (readFragment mtu sequenceNumber nFragments channel data name extra i).piece.Fits P ↔
      min (cut (firstFragCapacity mtu channel) (subsequentFragCapacity mtu) i) data.length
            % 4294967296
          + ((if i = 0 then extra.length else 0)
            + (min (cut (firstFragCapacity mtu channel) (subsequentFragCapacity mtu) (i + 1))
                data.length
              - min (cut (firstFragCapacity mtu channel) (subsequentFragCapacity mtu) i)
                data.length))
        ≤ P := by
  unfold Overlay.Piece.Fits Fragment.piece readFragment
  by_cases h0 : i = 0
  · rw [if_pos h0, if_pos h0, h0]
    dsimp only [cutFragment]
    rw [List.length_append, length_window, UInt32.toNat_ofNat']
  · rw [if_neg h0, if_neg h0, Nat.zero_add]
    dsimp only [cutFragment]
    rw [length_window, UInt32.toNat_ofNat']

/-- All fragments fit as they are read exactly when the first one does, with
    the bytes it took over from the channel, and the last one ends in time. -/
theorem readFragment_fits_iff {P : Nat} (hP : P < 4294967296) {n : Nat} (hn : 0 < n) :
    (∀ i < n, (readFragment mtu sequenceNumber nFragments channel data name extra i).piece.Fits P) ↔
      extra.length + min (firstFragCapacity mtu channel) data.length ≤ P ∧
        min (cut (firstFragCapacity mtu channel) (subsequentFragCapacity mtu) n) data.length
          ≤ P := by
  constructor
  · intro h
    have hzero := (readFragment_piece_fits_iff 0 P).mp (h 0 hn)
    rw [if_pos rfl, cut_one, cut_zero, Nat.zero_min, Nat.zero_mod, Nat.zero_add,
      Nat.sub_zero] at hzero
    refine ⟨hzero, ?_⟩
    -- A fragment that starts where the one before it ended has its true
    -- offset, since that is below the payload size as it is announced.
    have hend : ∀ k < n, min (cut (firstFragCapacity mtu channel)
        (subsequentFragCapacity mtu) (k + 1)) data.length ≤ P := by
      intro k
      induction k with
      | zero =>
          intro _
          rw [cut_one]
          omega
      | succ k ih =>
          intro hk
          have hprev := ih (by omega)
          have hfit := (readFragment_piece_fits_iff (k + 1) P).mp (h (k + 1) hk)
          rw [Nat.mod_eq_of_lt (by omega), if_neg (Nat.succ_ne_zero k), Nat.zero_add] at hfit
          omega
    have hlast := hend (n - 1) (by omega)
    rwa [Nat.sub_add_cancel hn] at hlast
  · rintro ⟨hzero, hlast⟩ i hi
    rw [readFragment_piece_fits_iff]
    have hstop : cut (firstFragCapacity mtu channel) (subsequentFragCapacity mtu) (i + 1)
        ≤ cut (firstFragCapacity mtu channel) (subsequentFragCapacity mtu) n :=
      cut_mono _ _ hi
    have hle := cut_le_succ (firstFragCapacity mtu channel) (subsequentFragCapacity mtu) i
    rw [Nat.mod_eq_of_lt (by omega)]
    by_cases h0 : i = 0
    · rw [if_pos h0, h0, cut_one, cut_zero, Nat.zero_min]
      omega
    · rw [if_neg h0]
      omega

end Read

/-! ### What is decoded -/

/-- The fragments of a message that no receiver can complete: the number of
    them is narrowed to zero, or one of them, as it is read, does not fit the
    payload size that is announced. -/
def Undeliverable (mtu : Nat) (channel : String) (len : Nat) : Prop :=
  mtu < 9 + (asBytes channel).length + len ∧
    (fragmentsNeeded mtu channel len % 65536 = 0 ∨
      len % 4294967296 < min (cut (firstFragCapacity mtu channel) (subsequentFragCapacity mtu)
        (fragmentsNeeded mtu channel len % 65536)) len ∨
      len % 4294967296
        < (asBytes channel).length - (asBytes channel).idxOf 0 + firstFragCapacity mtu channel)

instance (mtu : Nat) (channel : String) (len : Nat) : Decidable (Undeliverable mtu channel len) :=
  inferInstanceAs (Decidable (_ ∧ _))

section Decoded

variable {channel name : String} {extra : List UInt8}

-- A short message does not touch the reassembler.
theorem handle_short
    (hread : ∀ rest, readName (asBytes channel ++ 0 :: rest) = some (name, extra ++ rest))
    (seq : UInt32) (data : List UInt8) (reassembler : FragmentReassembler) (src : SocketAddr)
    (now insertNow : Instant) :
    handleDatagram reassembler (encodeShortMessage seq channel data) src now insertNow
      = .ok (reassembler, some ⟨name, seq, extra ++ data⟩) := by
  unfold handleDatagram
  rw [parse_encodeShortMessage, hread]
  rfl

/-- Whatever is decoded from a short message is on the channel that is read. -/
theorem decodable_short
    (hread : ∀ rest, readName (asBytes channel ++ 0 :: rest) = some (name, extra ++ rest))
    {seq : UInt32} {data : List UInt8} {m : LcmMessage}
    (h : Decodable [encodeShortMessage seq channel data] m) : m.channel = name := by
  rcases h with ⟨reassembler, sender, arrivals, r', results, _, harr, hrun, hm⟩
  rcases List.mem_iff_getElem?.mp hm with ⟨k, hk⟩
  rcases (Machine.runAll_getElem? hrun k (some m)).mp hk with
    ⟨pre, a, post, u, u', rs, hsplit, _, _, hlast⟩
  have ha : a ∈ arrivals := by
    rw [hsplit]
    exact List.mem_append_right _ List.mem_cons_self
  rw [List.mem_singleton.mp (harr a ha).1, handle_short hread, Except.ok.injEq, Prod.mk.injEq,
    Option.some.injEq] at hlast
  rw [← hlast.2]

theorem decodable_short_exists
    (hread : ∀ rest, readName (asBytes channel ++ 0 :: rest) = some (name, extra ++ rest))
    (seq : UInt32) (data : List UInt8) :
    ∃ m, Decodable [encodeShortMessage seq channel data] m := by
  refine ⟨⟨name, seq, extra ++ data⟩, FragmentReassembler.new 0 0, .v4 0 0,
    [⟨encodeShortMessage seq channel data, .v4 0 0, 0, 0⟩], FragmentReassembler.new 0 0,
    [some ⟨name, seq, extra ++ data⟩], fun _ => rfl, fun a ha => ?_, ?_, List.mem_cons_self⟩
  · rw [List.mem_singleton.mp ha]
    exact ⟨List.mem_cons_self, rfl⟩
  · exact Machine.runAll_singleton.mpr ⟨_, handle_short hread _ _ _ _ _ _, rfl⟩

/-- Whatever is decoded from fragments is on the channel that is read, and
    something is exactly when there are fragments and all of them fit as they
    are read. -/
theorem decodable_fragments
    (hread : ∀ rest, readName (asBytes channel ++ 0 :: rest) = some (name, extra ++ rest))
    {mtu : Nat} {seq : UInt32} {n : UInt16} {data : List UInt8}
    (hbound : extra.length + data.length < usizeBound) :
    (∀ m, Decodable ((List.range n.toNat).map (fragmentDatagram mtu seq n channel data)) m →
        m.channel = name) ∧
      ((∃ m, Decodable ((List.range n.toNat).map (fragmentDatagram mtu seq n channel data)) m) ↔
        0 < n.toNat ∧ ∀ j < n.toNat, (readFragment mtu seq n channel data name
          extra j).piece.Fits (UInt32.ofNat data.length).toNat) := by
  have hcar : Carriers (fragmentDatagram mtu seq n channel data)
      (readFragment mtu seq n channel data name extra) seq (UInt32.ofNat data.length) n name :=
    carriers_readFragment hread hbound
  have hsound : ∀ m, Decodable ((List.range n.toNat).map
        (fragmentDatagram mtu seq n channel data)) m →
      m.channel = name ∧ 0 < n.toNat ∧ ∀ j < n.toNat, (readFragment mtu seq n channel data name
        extra j).piece.Fits (UInt32.ofNat data.length).toNat := by
    intro m h
    rcases h with ⟨reassembler, sender, arrivals, r', results, hpending, harr, hrun, hm⟩
    refine receive_sound hcar (hpending seq) (fun a ha => ⟨?_, (harr a ha).2⟩) hrun hm
    rcases List.mem_map.mp (harr a ha).1 with ⟨i, hi, heq⟩
    exact ⟨i, List.mem_range.mp hi, heq.symm⟩
  refine ⟨fun m hm => (hsound m hm).1, ?_⟩
  constructor
  · intro h
    rcases h with ⟨m, hm⟩
    exact (hsound m hm).2
  · intro h
    rcases receive_complete hcar h.1 h.2 with ⟨m, _, hm⟩
    exact ⟨m, hm⟩

/-- What a successful `send` emitted decodes, unless it is undeliverable, and only
    under the channel that is read. -/
theorem decodable_emitted
    (hread : ∀ rest, readName (asBytes channel ++ 0 :: rest) = some (name, extra ++ rest))
    (hextra : extra.length = (asBytes channel).length - (asBytes channel).idxOf 0)
    {self : LcmTransport} {sendTo : SendTo} {data : List UInt8} {emitted : List Datagram}
    {seq : UInt32} (hbound : 9 + (asBytes channel).length + data.length < usizeBound)
    (hout : (emitted, .ok seq) = outcome self sendTo channel data) :
    (∀ m, Decodable emitted m → m.channel = name) ∧
      ((∃ m, Decodable emitted m) ↔ ¬ Undeliverable self.fragmentMtu channel data.length) := by
  unfold Undeliverable
  rcases emitted_cases hout with ⟨hfits, rfl⟩ | ⟨hlong, hfirst, rfl⟩
  · refine ⟨fun m hm => decodable_short hread hm, ?_⟩
    simp only [Nat.not_lt.mpr hfits, false_and, not_false_eq_true, iff_true]
    exact decodable_short_exists hread seq data
  · set n := UInt16.ofNat (fragmentsNeeded self.fragmentMtu channel data.length) with hn
    have hcount : n.toNat = fragmentsNeeded self.fragmentMtu channel data.length % 65536 := by
      rw [hn, UInt16.toNat_ofNat']
    have hsize : (UInt32.ofNat data.length).toNat = data.length % 4294967296 := by
      rw [UInt32.toNat_ofNat']
    -- The message is longer than the MTU, so it fills the first fragment.
    have hwhole : min (firstFragCapacity self.fragmentMtu channel) data.length
        = firstFragCapacity self.fragmentMtu channel := by
      unfold firstFragCapacity fragmentHeaderSize
      omega
    rcases @decodable_fragments channel name extra hread self.fragmentMtu seq n data (by omega)
      with ⟨hchannel, hsome⟩
    refine ⟨hchannel, ?_⟩
    rw [hsome]
    by_cases hpos : 0 < n.toNat
    · rw [readFragment_fits_iff (UInt32.toNat_lt _) hpos, hwhole, hextra, hcount, hsize]
      omega
    · omega

end Decoded

/-! ### The filter -/

theorem handleSample_eq_sent {config : Config} {transport t : LcmTransport} {sendTo : SendTo}
    {keyExpr : KeyExpr} {payload : List UInt8} {emitted : List Datagram} {channel : String}
    {seq : UInt32}
    (h : handleSample config transport sendTo keyExpr payload = .ok (t, emitted, .sent channel seq)) :
    keyExprToLcmChannel keyExpr config.keyPrefix = .ok channel ∧
      isAllowed channel config = true ∧
      transport.send sendTo channel payload = .ok (t, emitted, .ok seq) := by
  unfold handleSample at h
  cases hkey : keyExprToLcmChannel keyExpr config.keyPrefix with
  | error error => simp only [hkey, Except.ok.injEq, Prod.mk.injEq, reduceCtorEq, and_false] at h
  | ok found =>
      simp only [hkey] at h
      by_cases hallow : isAllowed found config = true
      · rw [if_pos hallow] at h
        rcases bind_eq_ok.mp h with ⟨⟨t', emitted', result⟩, hsend, hout⟩
        cases result with
        | error error =>
            simp only [pure, Except.pure, Except.ok.injEq, Prod.mk.injEq, reduceCtorEq,
              and_false] at hout
        | ok seq' =>
            simp only [pure, Except.pure, Except.ok.injEq, Prod.mk.injEq,
              SampleOutcome.sent.injEq] at hout
            obtain ⟨rfl, rfl, rfl, rfl⟩ := hout
            exact ⟨rfl, hallow, hsend⟩
      · rw [if_neg hallow] at h
        simp only [Except.ok.injEq, Prod.mk.injEq, reduceCtorEq, and_false] at h

/-- Every message that is decoded from what a sample emitted is on the channel
    that was extracted from its key and accepted by the filter, exactly when
    there is no NUL character in that channel, or nothing is decoded at all. -/
theorem channel_on_wire_iff {config : Config} {transport t : LcmTransport} {sendTo : SendTo}
    {keyExpr : KeyExpr} {payload : List UInt8} {emitted : List Datagram} {channel : String}
    {seq : UInt32}
    (h : handleSample config transport sendTo keyExpr payload = .ok (t, emitted, .sent channel seq)) :
    (∀ m, Decodable emitted m →
        keyExprToLcmChannel keyExpr config.keyPrefix = .ok m.channel ∧
          isAllowed m.channel config = true) ↔
      NulFree channel ∨ Undeliverable transport.fragmentMtu channel payload.length := by
  rcases handleSample_eq_sent h with ⟨hkey, hallow, hsend⟩
  rcases outcome_of_send hsend with ⟨_, hbound, hout⟩
  rcases exists_readChannel channel with ⟨name, extra, hread, hname, hextra⟩
  rcases decodable_emitted hread hextra hbound hout with ⟨hchannel, hsome⟩
  constructor
  · intro hall
    rw [or_iff_not_imp_right, ← hsome]
    intro h
    rcases h with ⟨m, hm⟩
    -- A decoded message is on the channel that is read.
    have heq := (hall m hm).1
    rw [hkey, Except.ok.injEq, hchannel m hm] at heq
    exact hname.mp heq.symm
  · rintro (hnul | hnone) m hm
    · rw [hchannel m hm, hname.mpr hnul]
      exact ⟨hkey, hallow⟩
    · exact absurd hnone (hsome.mp ⟨m, hm⟩)

/-- A short message on a channel without a NUL character. -/
theorem channel_on_wire_plain :
    handleSample Config.default (LcmTransport.new defaultFragmentMtu) (fun _ => none)
        ⟨"lcm/AB", by decide⟩ [7]
      = .ok (⟨1400, 1⟩, [encodeShortMessage 0 "AB" [7]], .sent "AB" 0) ∧
      ∀ m, Decodable [encodeShortMessage 0 "AB" [7]] m →
        keyExprToLcmChannel ⟨"lcm/AB", by decide⟩ "lcm" = .ok m.channel ∧
          isAllowed m.channel Config.default = true := by
  have hsent : handleSample Config.default (LcmTransport.new defaultFragmentMtu) (fun _ => none)
        ⟨"lcm/AB", by decide⟩ [7]
      = .ok (⟨1400, 1⟩, [encodeShortMessage 0 "AB" [7]], .sent "AB" 0) := rfl
  exact ⟨hsent, (channel_on_wire_iff hsent).mpr (Or.inl (by decide))⟩

/-- The filter denies the channel `A`. A sample whose channel is `A`, a NUL
    character and `B` passes it, and is decoded on the channel `A`. -/
theorem denied_channel_on_wire :
    ∃ t emitted m,
      handleSample { Config.default with deny := some ⟨"^A$", fun s => s == "A"⟩ }
          (LcmTransport.new defaultFragmentMtu) (fun _ => none) ⟨"lcm/A\x00B", by decide⟩ []
        = .ok (t, emitted, .sent "A\x00B" 0) ∧
      Decodable emitted m ∧ m.channel = "A" ∧
      isAllowed m.channel { Config.default with deny := some ⟨"^A$", fun s => s == "A"⟩ }
        = false := by
  refine ⟨⟨1400, 1⟩, [encodeShortMessage 0 "A\x00B" []], ⟨"A", 0, [66, 0]⟩, rfl, ?_, rfl, rfl⟩
  exact ⟨FragmentReassembler.new 0 0, .v4 0 0,
    [⟨encodeShortMessage 0 "A\x00B" [], .v4 0 0, 0, 0⟩], FragmentReassembler.new 0 0,
    [some ⟨"A", 0, [66, 0]⟩], fun _ => rfl, by simp, rfl, by simp⟩

end LcmBridge
