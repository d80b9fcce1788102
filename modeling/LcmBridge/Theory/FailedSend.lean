import LcmBridge.Theory.WireFilter

/-!
# Sends That Fail

A message whose `send` failed is delivered to nobody.

A `send` that fails has stopped at the first datagram the socket refused, so
it has emitted the fragments below some number and not the one of that number
(`emitted_of_error`). Every fragment announces the full count, and a receiver
completes a message only when it has all the numbers below the count. So no
receiver completes this one, in whatever order the fragments come and however
often.

The fragments are taken as they are read, since the channel may have a NUL
character in it.

## Main definitions

* `NumberedAs`: A datagram that is read with a given sequence number.
* `BuiltBelow`: An entry that holds members below a number.

## Theorems

* `emitted_of_error`: What a `send` that fails has emitted.
* `handle_below`: One arrival while a member is never sent.
* `failed_send_undelivered`: Nothing is delivered of a `send` that fails.
-/

namespace LcmBridge

open Bytes Checked

/-- The sequence number of a packet of either kind. -/
def Packet.sequenceNumber : Packet → UInt32
  | .short msg => msg.sequenceNumber
  | .fragment frag => frag.sequenceNumber

/-- The datagram is read as a packet with this sequence number. -/
def NumberedAs (datagram : Datagram) (sequenceNumber : UInt32) : Prop :=
  (parseDatagram datagram).map Packet.sequenceNumber = some sequenceNumber

instance (datagram : Datagram) (sequenceNumber : UInt32) :
    Decidable (NumberedAs datagram sequenceNumber) :=
  inferInstanceAs (Decidable (_ = _))

/-! ### What was emitted -/

/-- A `send` that fails has emitted the fragments below one that it did not
    send. -/
theorem emitted_of_error {self : LcmTransport} {sendTo : SendTo} {channel : String}
    {data : List UInt8} {emitted : List Datagram} {err : IoError}
    (hout : (emitted, .error err) = outcome self sendTo channel data) :
    ∃ (n : UInt16) (j : Nat), j < n.toNat ∧
      emitted = (List.range j).map
        (fragmentDatagram self.fragmentMtu self.sequenceCounter n channel data) := by
  unfold outcome at hout
  by_cases hfits : 9 + (asBytes channel).length + data.length ≤ self.fragmentMtu
  · rw [if_pos hfits] at hout
    cases hsend : sendTo 0 with
    | some err' =>
        simp only [hsend, Prod.mk.injEq] at hout
        exact ⟨1, 0, Nat.one_pos, hout.1⟩
    | none => simp only [hsend, Prod.mk.injEq, reduceCtorEq, and_false] at hout
  · rw [if_neg hfits, Prod.mk.injEq] at hout
    rcases hout with ⟨hemit, herr⟩
    have herr' : (fragmentedOutcome self.fragmentMtu sendTo self.sequenceCounter channel data).2
        = .error err := by
      cases hres : (fragmentedOutcome self.fragmentMtu sendTo self.sequenceCounter channel
          data).2 with
      | ok u => simp only [hres, Except.map, reduceCtorEq] at herr
      | error err' =>
          simp only [hres, Except.map, Except.error.injEq] at herr
          rw [herr]
    unfold fragmentedOutcome at hemit herr'
    by_cases hfirst : firstFragCapacity self.fragmentMtu channel = 0
    · rw [if_pos hfirst] at hemit
      exact ⟨1, 0, Nat.one_pos, hemit⟩
    · rw [if_neg hfirst] at hemit herr'
      rcases transmit_range sendTo (fragmentDatagram self.fragmentMtu self.sequenceCounter
          (UInt16.ofNat (fragmentsNeeded self.fragmentMtu channel data.length)) channel data)
          (UInt16.ofNat (fragmentsNeeded self.fragmentMtu channel data.length)).toNat with
        ⟨j, hsent, ⟨_, hok⟩ | ⟨hj, _⟩⟩
      · rw [hok] at herr'
        simp only [reduceCtorEq] at herr'
      · exact ⟨_, j, hj, hemit.trans hsent⟩

/-! ### What receivers make of it -/

section Receiving

variable {datagram : Nat → Datagram} {frag : Nat → Fragment}
  {sequenceNumber payloadSize : UInt32} {nFragments : UInt16} {channel : String}
  {sender : SocketAddr} {j : Nat}

/-- The entry, if there is one, is built from members below a number. -/
def BuiltBelow (frag : Nat → Fragment) (payloadSize : UInt32) (nFragments : UInt16)
    (channel : String) (j : Nat) (slot : Option FragmentSet) : Prop :=
  ∀ set, slot = some set → ∃ parts,
    FromFamily frag payloadSize nFragments channel set parts ∧ ∀ f ∈ parts, f.number < j

theorem builtBelow_filter {slot : Option FragmentSet}
    (h : BuiltBelow frag payloadSize nFragments channel j slot) (p : FragmentSet → Bool) :
    BuiltBelow frag payloadSize nFragments channel j (slot.filter p) := by
  intro set hset
  exact h set (Option.eq_some_of_filter_eq_some hset)

/-- An offer of a member below the number completes nothing, since the member
    of this number is missing. -/
theorem offer_builtBelow {maxMessageSize : Nat} {insertNow : Instant} {slot : Option FragmentSet}
    (hfam : Family frag sequenceNumber payloadSize nFragments channel) (hj : j < nFragments.toNat)
    {i : Nat} (hi : i < j) (h : BuiltBelow frag payloadSize nFragments channel j slot) :
    BuiltBelow frag payloadSize nFragments channel j
        (offer maxMessageSize (frag i) insertNow slot).1 ∧
      (offer maxMessageSize (frag i) insertNow slot).2 = none := by
  have hi' : i < nFragments.toNat := by omega
  have hadd : ∀ parts : List Fragment, (∀ f ∈ parts, f.number < j) →
      ∀ f ∈ parts ++ [frag i], f.number < j := by
    intro parts hbelow f hf
    rcases List.mem_append.mp hf with hf | hf
    · exact hbelow f hf
    · rw [List.mem_singleton.mp hf, hfam.number_eq i hi']
      exact hi
  rcases offer_built maxMessageSize insertNow hfam hi' (fun parts => ∀ f ∈ parts, f.number < j)
    (fun f hf => absurd hf List.not_mem_nil) hadd h with ⟨hleft, hmsg⟩
  refine ⟨hleft, ?_⟩
  cases hdone : (offer maxMessageSize (frag i) insertNow slot).2 with
  | none => rfl
  | some m =>
      rcases hmsg m hdone with ⟨_, set, parts, _, hbelow, hall⟩
      rcases List.mem_map.mp (hall j hj) with ⟨f, hf, hnum⟩
      have hlt := hbelow f hf
      omega

/-- One arrival, if the member of number `j` is never sent: the entry of the
    sender and the sequence number has members below `j` only, and nothing is
    delivered under this sequence number from this sender. -/
theorem handle_below
    (hcar : Carriers datagram frag sequenceNumber payloadSize nFragments channel)
    (hj : j < nFragments.toNat) {reassembler reassembler' : FragmentReassembler} {a : Arrival}
    {result : Option LcmMessage}
    (hbelow : BuiltBelow frag payloadSize nFragments channel j
      (reassembler.pending (sender, sequenceNumber)))
    (hown : a.src = sender → NumberedAs a.datagram sequenceNumber →
      a.datagram ∈ (List.range j).map datagram)
    (h : handleDatagram reassembler a.datagram a.src a.now a.insertNow
      = .ok (reassembler', result)) :
    BuiltBelow frag payloadSize nFragments channel j
        (reassembler'.pending (sender, sequenceNumber)) ∧
      ∀ m, result = some m → a.src = sender → m.sequenceNumber ≠ sequenceNumber := by
  have hswept : BuiltBelow frag payloadSize nFragments channel j
      ((reassembler.expireStale a.now).pending (sender, sequenceNumber)) :=
    builtBelow_filter hbelow _
  by_cases hmine : a.src = sender ∧ NumberedAs a.datagram sequenceNumber
  · -- One of the datagrams that were emitted.
    rcases List.mem_map.mp (hown hmine.1 hmine.2) with ⟨i, hi, hdata⟩
    rw [List.mem_range] at hi
    have hi' : i < nFragments.toNat := by omega
    have hvalid : SlotValid
        ((reassembler.expireStale a.now).pending (sender, sequenceNumber)) := by
      intro set hset
      rcases hswept set hset with ⟨parts, hfrom, _⟩
      exact hfrom.valid
    have hoffer : BuiltBelow frag payloadSize nFragments channel j
          (offer reassembler.maxMessageSize (frag i) a.insertNow
            ((reassembler.expireStale a.now).pending (sender, sequenceNumber))).1 ∧
        (offer reassembler.maxMessageSize (frag i) a.insertNow
          ((reassembler.expireStale a.now).pending (sender, sequenceNumber))).2 = none :=
      offer_builtBelow hcar.family hj hi hswept
    rw [handle_member hcar hi' hdata.symm hmine.1 rfl hvalid, Except.ok.injEq, Prod.mk.injEq,
      hoffer.2] at h
    rw [← h.1, ← h.2]
    dsimp only
    rw [Function.update_self]
    exact ⟨hoffer.1, fun m hm => absurd hm (by simp only [reduceCtorEq, not_false_eq_true])⟩
  · unfold handleDatagram at h
    unfold NumberedAs at hmine
    cases hparse : parseDatagram a.datagram with
    | none =>
        simp only [hparse, Except.ok.injEq, Prod.mk.injEq] at h
        rw [← h.1, ← h.2]
        exact ⟨hbelow, fun m hm => absurd hm (by simp only [reduceCtorEq, not_false_eq_true])⟩
    | some packet =>
        cases packet with
        | short msg =>
            simp only [hparse, Except.ok.injEq, Prod.mk.injEq, Option.map_some, Option.some.injEq,
              Packet.sequenceNumber] at h hmine
            rw [← h.1, ← h.2]
            refine ⟨hbelow, fun m hm hsrc hseq => hmine ⟨hsrc, ?_⟩⟩
            rw [← Option.some.inj hm] at hseq
            exact hseq
        | fragment fragment =>
            simp only [hparse, Option.map_some, Option.some.injEq, Packet.sequenceNumber] at h hmine
            rcases FragmentReassembler.process_frame h with ⟨hother, hnumber⟩
            rw [hother (sender, sequenceNumber) (fun hkey => hmine
              ⟨(congrArg Prod.fst hkey).symm, (congrArg Prod.snd hkey).symm⟩)]
            refine ⟨hswept, fun m hm hsrc hseq => hmine ⟨hsrc, ?_⟩⟩
            rw [← hnumber m hm]
            exact hseq

end Receiving

/-- Of a `send` that fails nothing is delivered, to no receiver with nothing
    pending from the sender under the sequence number, if all it gets from the
    sender under this number are datagrams that were emitted. -/
theorem failed_send_undelivered {self t : LcmTransport} {sendTo : SendTo} {channel : String}
    {data : List UInt8} {emitted : List Datagram} {err : IoError}
    (hsend : self.send sendTo channel data = .ok (t, emitted, .error err))
    {reassembler reassembler' : FragmentReassembler} {sender : SocketAddr}
    (hpending : reassembler.pending (sender, self.sequenceCounter) = none)
    {arrivals : List Arrival} {results : List (Option LcmMessage)}
    (hown : ∀ a ∈ arrivals, a.src = sender → NumberedAs a.datagram self.sequenceCounter →
      a.datagram ∈ emitted)
    (hrun : receiveAll reassembler arrivals = .ok (reassembler', results)) :
    ∀ (i : Nat) (a : Arrival) (m : LcmMessage), arrivals[i]? = some a →
      results[i]? = some (some m) → a.src = sender → m.sequenceNumber ≠ self.sequenceCounter := by
  rcases outcome_of_send hsend with ⟨_, hbound, hout⟩
  rcases emitted_of_error hout with ⟨n, j, hj, rfl⟩
  rcases exists_readChannel channel with ⟨name, extra, hread, _, hextra⟩
  have hcar : Carriers (fragmentDatagram self.fragmentMtu self.sequenceCounter n channel data)
      (readFragment self.fragmentMtu self.sequenceCounter n channel data name extra)
      self.sequenceCounter (UInt32.ofNat data.length) n name :=
    carriers_readFragment hread (by omega)
  intro i a m ha hm hsrc
  -- The arrival that delivers, and the state the earlier ones lead to.
  rcases Machine.runAll_step_at hrun ha hm with
    ⟨pre, post, u, u', out, rest, hsplit, _, _, hpre, hlast⟩
  have hstart : BuiltBelow
      (readFragment self.fragmentMtu self.sequenceCounter n channel data name extra)
      (UInt32.ofNat data.length) n name j (reassembler.pending (sender, self.sequenceCounter)) := by
    intro set hset
    rw [hpending] at hset
    exact absurd hset (by simp only [reduceCtorEq, not_false_eq_true])
  have hbelow := Machine.runAll_invariant_mem
    (fun r : FragmentReassembler => BuiltBelow
      (readFragment self.fragmentMtu self.sequenceCounter n channel data name extra)
      (UInt32.ofNat data.length) n name j (r.pending (sender, self.sequenceCounter)))
    (fun r b hb r' result hr hstep => (handle_below hcar hj hr
      (hown b (by rw [hsplit]; exact List.mem_append_left _ hb)) hstep).1) hstart hpre
  exact (handle_below hcar hj hbelow (hown a (List.mem_of_getElem? ha)) hlast).2 m rfl hsrc

/-- The bytes 0 to 23 in two fragments, the second one refused by the socket.
    The first one comes twice, and another publisher uses the same number. -/
theorem failed_send_undelivered_second_refused :
    ∃ t first, (LcmTransport.mk 33 7).send (fun i => if i = 1 then some (.os 5) else none) "A"
        ((List.range 24).map UInt8.ofNat) = .ok (t, [first], .error (.os 5)) ∧
      ∃ reassembler' results, receiveAll (FragmentReassembler.new 10 100)
          [⟨first, .v4 1 5000, 0, 0⟩, ⟨encodeShortMessage 7 "B" [9], .v4 2 5000, 1, 1⟩,
            ⟨first, .v4 1 5000, 3, 4⟩] = .ok (reassembler', results) ∧
        results = [none, some ⟨"B", 7, [9]⟩, none] ∧
        ∀ (i : Nat) (a : Arrival) (m : LcmMessage),
          ([⟨first, .v4 1 5000, 0, 0⟩, ⟨encodeShortMessage 7 "B" [9], .v4 2 5000, 1, 1⟩,
            ⟨first, .v4 1 5000, 3, 4⟩] : List Arrival)[i]? = some a →
          results[i]? = some (some m) → a.src = .v4 1 5000 → m.sequenceNumber ≠ 7 := by
  have hsend := @send_eq (LcmTransport.mk 33 7) "A" ((List.range 24).map UInt8.ofNat)
    (fun i => if i = 1 then some (.os 5) else none) (by decide)
  have hout : outcome (LcmTransport.mk 33 7) (fun i => if i = 1 then some (.os 5) else none) "A"
      ((List.range 24).map UInt8.ofNat)
    = ([encodeFragment 7 24 0 0 2 (some "A") ((List.range 11).map UInt8.ofNat)],
      .error (.os 5)) := by
    decide
  rw [hout] at hsend
  have hrun : ∃ reassembler', receiveAll (FragmentReassembler.new 10 100)
      [⟨encodeFragment 7 24 0 0 2 (some "A") ((List.range 11).map UInt8.ofNat), .v4 1 5000, 0, 0⟩,
        ⟨encodeShortMessage 7 "B" [9], .v4 2 5000, 1, 1⟩,
        ⟨encodeFragment 7 24 0 0 2 (some "A") ((List.range 11).map UInt8.ofNat), .v4 1 5000, 3, 4⟩]
      = .ok (reassembler', [none, some ⟨"B", 7, [9]⟩, none]) := ⟨_, rfl⟩
  rcases hrun with ⟨reassembler', hrun⟩
  refine ⟨_, _, hsend, reassembler', _, hrun, rfl, ?_⟩
  exact failed_send_undelivered hsend rfl (by decide) hrun

end LcmBridge
