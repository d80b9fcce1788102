import LcmBridge.Library.Windows
import LcmBridge.Core.Multicast
import LcmBridge.Theory.Wire

/-!
# What Send Emits

The result of a `send`, stated without its loop.

The loop carries an offset and cuts the payload as it goes. Here the payload is
cut once and for all into windows, and fragment number `i` is a function of `i`
alone: `cutFragment`. The offset is then an invariant of the loop rather than a
part of the result. `outcome` is the whole of a `send` in these terms.

The two directions are separate. Whatever a `send` returns is its `outcome`
(`outcome_of_send`), with no assumption on the lengths, because an addition
that overflows is a panic and not a return. That a `send` does return
(`send_eq`) needs the lengths to be within reach of `usize`.

The number of fragments in the headers is the number needed, narrowed to 16
bits. `outcome` keeps the narrowing; what it does to the message is the
subject of `Theory.Transmission`.

## Main definitions

* `firstFragCapacity`, `subsequentFragCapacity`: Room for data in a fragment.
* `fragmentsNeeded`: The number of fragments, before it is narrowed.
* `cutFragment`, `fragmentDatagram`: One fragment of a message, and its bytes.
* `transmit`: Sending datagrams up to the first failure.
* `fragmentedOutcome`, `outcome`: What a `send` emits and returns.

## Theorems

* `fragmentLoop_eq_ok`: What the loop returns is a transmission.
* `fragmentLoop_total`: The loop returns.
* `emitted_cases`: What a `send` that succeeds has emitted.
* `outcome_of_send`: What a `send` returns is its outcome.
* `send_eq`: A `send` within reach of `usize` returns its outcome.
-/

namespace LcmBridge

open Bytes Checked Windows

/-- Room for data in the first fragment, after the header, the channel and its
    zero byte. -/
def firstFragCapacity (mtu : Nat) (channel : String) : Nat :=
  mtu - (fragmentHeaderSize + (asBytes channel).length + 1)

/-- Room for data in every other fragment. -/
def subsequentFragCapacity (mtu : Nat) : Nat := mtu - fragmentHeaderSize

/-- The number of fragments a payload of `len` bytes takes. -/
def fragmentsNeeded (mtu : Nat) (channel : String) (len : Nat) : Nat :=
  needed (firstFragCapacity mtu channel) (subsequentFragCapacity mtu) len

theorem subsequentFragCapacity_pos {mtu : Nat} {channel : String}
    (h : firstFragCapacity mtu channel ≠ 0) : 0 < subsequentFragCapacity mtu := by
  unfold firstFragCapacity at h
  unfold subsequentFragCapacity
  omega

/-- Fragment number `i` of a message. -/
def cutFragment (mtu : Nat) (sequenceNumber : UInt32) (nFragments : UInt16) (channel : String)
    (data : List UInt8) (i : Nat) : Fragment where
  sequenceNumber := sequenceNumber
  payloadSize := UInt32.ofNat data.length
  fragmentOffset := UInt32.ofNat
    (min (cut (firstFragCapacity mtu channel) (subsequentFragCapacity mtu) i) data.length)
  fragmentNumber := UInt16.ofNat i
  nFragments := nFragments
  channel := if i = 0 then some channel else none
  data := window (firstFragCapacity mtu channel) (subsequentFragCapacity mtu) data i

/-- The bytes of fragment number `i`. -/
def fragmentDatagram (mtu : Nat) (sequenceNumber : UInt32) (nFragments : UInt16)
    (channel : String) (data : List UInt8) (i : Nat) : Datagram :=
  encodePacket (.fragment (cutFragment mtu sequenceNumber nFragments channel data i))

/-- Send the numbered datagrams in order, up to the first failure. -/
def transmit (sendTo : SendTo) (datagram : Nat → Datagram) :
    List Nat → List Datagram × Except IoError Unit
  | [] => ([], .ok ())
  | i :: rest =>
      match sendTo i with
      | some err => ([], .error err)
      | none =>
          let tail := transmit sendTo datagram rest
          (datagram i :: tail.1, tail.2)

/-- A transmission has sent everything, or all up to the first failure. -/
theorem transmit_cases (sendTo : SendTo) (datagram : Nat → Datagram) (numbers : List Nat) :
    ((transmit sendTo datagram numbers).2 = .ok () ∧
        (transmit sendTo datagram numbers).1 = numbers.map datagram) ∨
      ∃ pre i post err, numbers = pre ++ i :: post ∧ sendTo i = some err ∧
        (transmit sendTo datagram numbers).2 = .error err ∧
        (transmit sendTo datagram numbers).1 = pre.map datagram := by
  induction numbers with
  | nil => exact Or.inl ⟨rfl, rfl⟩
  | cons k rest ih =>
      unfold transmit
      cases hk : sendTo k with
      | some err => exact Or.inr ⟨[], k, rest, err, rfl, hk, rfl, rfl⟩
      | none =>
          dsimp only
          rcases ih with ⟨hok, hsent⟩ | ⟨pre, i, post, err, hsplit, hi, herr, hsent⟩
          · exact Or.inl ⟨hok, by rw [hsent, List.map_cons]⟩
          · refine Or.inr ⟨k :: pre, i, post, err, ?_, hi, herr, ?_⟩
            · rw [hsplit, List.cons_append]
            · rw [hsent, List.map_cons]

/-- A transmission that succeeds has sent everything. -/
theorem transmit_ok {sendTo : SendTo} {datagram : Nat → Datagram} {numbers : List Nat}
    (h : (transmit sendTo datagram numbers).2 = .ok ()) :
    (transmit sendTo datagram numbers).1 = numbers.map datagram := by
  rcases transmit_cases sendTo datagram numbers with ⟨_, hsent⟩ | ⟨_, _, _, err, _, _, herr, _⟩
  · exact hsent
  · rw [h] at herr
    simp only [reduceCtorEq] at herr

theorem range_eq_append_cons {n i : Nat} {pre post : List Nat}
    (h : List.range n = pre ++ i :: post) : i < n ∧ pre = List.range i := by
  have hlen := congrArg List.length h
  rw [List.length_range, List.length_append, List.length_cons] at hlen
  have hget : (List.range n)[pre.length]? = (pre ++ i :: post)[pre.length]? := by rw [h]
  rw [List.getElem?_range (by omega), List.getElem?_append_right (Nat.le_refl _), Nat.sub_self,
    List.getElem?_cons_zero, Option.some.injEq] at hget
  have htake := congrArg (List.take pre.length) h
  rw [List.take_range, List.take_left, Nat.min_eq_left (by omega), hget] at htake
  exact ⟨by omega, htake.symm⟩

/-- The numbers that a transmission of the first `n` datagrams has sent are the
    first ones, up to the first failure. -/
theorem transmit_range (sendTo : SendTo) (datagram : Nat → Datagram) (n : Nat) :
    ∃ j, (transmit sendTo datagram (List.range n)).1 = (List.range j).map datagram ∧
      ((j = n ∧ (transmit sendTo datagram (List.range n)).2 = .ok ()) ∨
        (j < n ∧ ∃ err, sendTo j = some err ∧
          (transmit sendTo datagram (List.range n)).2 = .error err)) := by
  rcases transmit_cases sendTo datagram (List.range n) with
    ⟨hok, hsent⟩ | ⟨pre, j, post, err, hsplit, hj, herr, hsent⟩
  · exact ⟨n, hsent, Or.inl ⟨rfl, hok⟩⟩
  · rcases range_eq_append_cons hsplit with ⟨hlt, hpre⟩
    rw [hpre] at hsent
    exact ⟨j, hsent, Or.inr ⟨hlt, err, hj, herr⟩⟩

theorem transmit_of_none {sendTo : SendTo} (h : ∀ i, sendTo i = none)
    (datagram : Nat → Datagram) (numbers : List Nat) :
    transmit sendTo datagram numbers = (numbers.map datagram, .ok ()) := by
  induction numbers with
  | nil => rfl
  | cons i rest ih =>
      unfold transmit
      simp only [h i, ih, List.map_cons]

/-! ### The loop -/

/-- The slice the loop takes at its offset is the window of its number. -/
theorem window_eq_slice (first sub : Nat) (data : List UInt8) {i : Nat} (hi : 0 < i) :
    (data.take (min (min (cut first sub i) data.length + sub) data.length)).drop
        (min (cut first sub i) data.length) = window first sub data i := by
  unfold window
  rw [cut_succ_of_pos first sub hi]
  by_cases hle : cut first sub i ≤ data.length
  · rw [Nat.min_eq_left hle, ← List.take_eq_take_min]
  · -- Past the end both sides are empty.
    have hover : data.length ≤ cut first sub i := Nat.le_of_not_le hle
    rw [Nat.min_eq_right hover, List.drop_eq_nil_of_le (by rw [List.length_take]; omega),
      List.drop_eq_nil_of_le (by rw [List.length_take]; omega)]

theorem window_zero_eq_slice (first sub : Nat) (data : List UInt8) :
    (data.take (min first data.length)).drop 0 = window first sub data 0 := by
  unfold window
  rw [cut_one, cut_zero, ← List.take_eq_take_min]

/-- Whatever the loop cuts at its offset is the window of its number. -/
theorem fragmentChunk_eq_ok {first sub : Nat} {channel : String} {data : List UInt8} {i : Nat}
    {out : List UInt8 × Option String}
    (h : LcmTransport.fragmentChunk first sub channel data i (min (cut first sub i) data.length)
      = .ok out) :
    out = (window first sub data i, if i = 0 then some channel else none) := by
  unfold LcmTransport.fragmentChunk at h
  by_cases h0 : i = 0
  · rw [if_pos h0] at h ⊢
    rcases bind_eq_ok.mp h with ⟨chunkData, hslice, hout⟩
    rw [← Except.ok.inj hout, (slice_eq_ok.mp hslice).2, h0, window_zero_eq_slice]
  · rw [if_neg h0] at h ⊢
    rcases bind_eq_ok.mp h with ⟨stop, hstop, h'⟩
    rcases bind_eq_ok.mp h' with ⟨chunkData, hslice, hout⟩
    rw [← Except.ok.inj hout, (slice_eq_ok.mp hslice).2, (addUsize_eq_ok.mp hstop).2,
      window_eq_slice _ _ data (Nat.pos_of_ne_zero h0)]

/-- Every bound the loop slices at is at most the length of the data. -/
theorem fragmentChunk_total {first sub : Nat} (channel : String) {data : List UInt8} (i : Nat)
    (h : data.length + sub < usizeBound) :
    ∃ out, LcmTransport.fragmentChunk first sub channel data i
      (min (cut first sub i) data.length) = .ok out := by
  unfold LcmTransport.fragmentChunk
  by_cases h0 : i = 0
  · rw [if_pos h0, slice_of_le (Nat.zero_le _) (Nat.min_le_right _ _)]
    exact ⟨_, rfl⟩
  · rw [if_neg h0, addUsize_of_lt (by omega), ok_bind, slice_of_le (by omega) (by omega)]
    exact ⟨_, rfl⟩

/-- The offset after a window is the next cut, or the end of the data. -/
theorem offset_step (first sub : Nat) (data : List UInt8) (i : Nat) :
    min (cut first sub i) data.length + (window first sub data i).length
      = min (cut first sub (i + 1)) data.length := by
  have hle := cut_le_succ first sub i
  rw [length_window]
  omega

section Loop

variable (mtu : Nat) (sendTo : SendTo) (sequenceNumber : UInt32) (nFragments : UInt16)
  (channel : String) (data : List UInt8)

-- Induction on how many numbers are left, for every number to go on from. The
-- offset is that of the cut, or the end of the data.
theorem fragmentLoop_eq_ok :
    ∀ (m i : Nat) {out : List Datagram × Except IoError Unit},
      LcmTransport.fragmentLoop sendTo sequenceNumber (UInt32.ofNat data.length) nFragments
          (firstFragCapacity mtu channel) (subsequentFragCapacity mtu) channel data
          (List.range' i m)
          (min (cut (firstFragCapacity mtu channel) (subsequentFragCapacity mtu) i) data.length)
        = .ok out →
      out = transmit sendTo (fragmentDatagram mtu sequenceNumber nFragments channel data)
        (List.range' i m) := by
  intro m
  induction m with
  | zero =>
      intro i out h
      exact (Except.ok.inj h).symm
  | succ m ih =>
      intro i out h
      rw [List.range'_succ] at h ⊢
      unfold LcmTransport.fragmentLoop at h
      rcases bind_eq_ok.mp h with ⟨⟨chunkData, chan⟩, hchunk, hrest⟩
      -- The chunk is the window of this number, whichever branch cut it.
      have hwin := fragmentChunk_eq_ok hchunk
      rw [Prod.mk.injEq] at hwin
      rw [hwin.1, hwin.2] at hrest
      unfold transmit
      cases hsend : sendTo i with
      | some err =>
          simp only [hsend] at hrest
          exact (Except.ok.inj hrest).symm
      | none =>
          simp only [hsend] at hrest
          rcases bind_eq_ok.mp hrest with ⟨offset, hoffset, hrest'⟩
          rcases bind_eq_ok.mp hrest' with ⟨⟨sent, result⟩, htail, hout⟩
          rw [(addUsize_eq_ok.mp hoffset).2, offset_step] at htail
          have htail' := ih (i + 1) htail
          dsimp only
          rw [← Except.ok.inj hout, ← htail']
          rfl

-- The same induction as for the result: each slice is in range because the
-- offset never passes the end, and the additions are bounded by the lengths.
theorem fragmentLoop_total (hlen : data.length + subsequentFragCapacity mtu < usizeBound) :
    ∀ (m i : Nat), ∃ out,
      LcmTransport.fragmentLoop sendTo sequenceNumber (UInt32.ofNat data.length) nFragments
          (firstFragCapacity mtu channel) (subsequentFragCapacity mtu) channel data
          (List.range' i m)
          (min (cut (firstFragCapacity mtu channel) (subsequentFragCapacity mtu) i) data.length)
        = .ok out := by
  intro m
  induction m with
  | zero => exact fun i => ⟨([], .ok ()), rfl⟩
  | succ m ih =>
      intro i
      have hstep := offset_step (firstFragCapacity mtu channel) (subsequentFragCapacity mtu) data i
      rw [List.range'_succ]
      unfold LcmTransport.fragmentLoop
      rcases fragmentChunk_total channel i hlen with ⟨⟨chunkData, chan⟩, hchunk⟩
      have hwin := fragmentChunk_eq_ok hchunk
      rw [Prod.mk.injEq] at hwin
      rw [hchunk, ok_bind, hwin.1]
      cases hsend : sendTo i with
      | some err => exact ⟨_, rfl⟩
      | none =>
          rcases ih (i + 1) with ⟨⟨sent, result⟩, htail⟩
          dsimp only
          rw [addUsize_of_lt (by omega), ok_bind, hstep, htail]
          exact ⟨_, rfl⟩

end Loop

/-! ### The whole send -/

/-- A success in which only the value was replaced was a success before. -/
theorem ok_eq_map_iff {result : Except IoError Unit} {seq seq' : UInt32} :
    Except.ok seq = result.map (fun _ => seq') ↔ result = .ok () ∧ seq = seq' := by
  cases result with
  | error err => simp only [Except.map, reduceCtorEq, false_and]
  | ok u => simp only [Except.map, Except.ok.injEq, true_and]

/-- What a message too long for one datagram comes to. -/
def fragmentedOutcome (mtu : Nat) (sendTo : SendTo) (sequenceNumber : UInt32) (channel : String)
    (data : List UInt8) : List Datagram × Except IoError Unit :=
  if firstFragCapacity mtu channel = 0 then
    ([], .error (.invalidInput "Fragment MTU too small for channel name"))
  else
    let nFragments := UInt16.ofNat (fragmentsNeeded mtu channel data.length)
    transmit sendTo (fragmentDatagram mtu sequenceNumber nFragments channel data)
      (List.range nFragments.toNat)

/-- What a `send` emits and returns. -/
def outcome (self : LcmTransport) (sendTo : SendTo) (channel : String) (data : List UInt8) :
    List Datagram × Except IoError UInt32 :=
  if 9 + (asBytes channel).length + data.length ≤ self.fragmentMtu then
    match sendTo 0 with
    | some err => ([], .error err)
    | none => ([encodeShortMessage self.sequenceCounter channel data], .ok self.sequenceCounter)
  else
    let sent := fragmentedOutcome self.fragmentMtu sendTo self.sequenceCounter channel data
    (sent.1, sent.2.map (fun _ => self.sequenceCounter))

/-- A `send` succeeds by emitting one short message, or all of the fragments it
    announces. -/
theorem emitted_cases {self : LcmTransport} {sendTo : SendTo} {channel : String}
    {data : List UInt8} {emitted : List Datagram} {seq : UInt32}
    (hout : (emitted, .ok seq) = outcome self sendTo channel data) :
    (9 + (asBytes channel).length + data.length ≤ self.fragmentMtu ∧
        emitted = [encodeShortMessage seq channel data]) ∨
      (self.fragmentMtu < 9 + (asBytes channel).length + data.length ∧
        firstFragCapacity self.fragmentMtu channel ≠ 0 ∧
        emitted = (List.range
            (UInt16.ofNat (fragmentsNeeded self.fragmentMtu channel data.length)).toNat).map
          (fragmentDatagram self.fragmentMtu seq
            (UInt16.ofNat (fragmentsNeeded self.fragmentMtu channel data.length)) channel
            data)) := by
  unfold outcome at hout
  by_cases hfits : 9 + (asBytes channel).length + data.length ≤ self.fragmentMtu
  · rw [if_pos hfits] at hout
    cases hsend : sendTo 0 with
    | some err =>
        simp only [hsend, Prod.mk.injEq, reduceCtorEq, and_false] at hout
    | none =>
        simp only [hsend, Prod.mk.injEq, Except.ok.injEq] at hout
        refine Or.inl ⟨hfits, ?_⟩
        rw [hout.1, hout.2]
  · rw [if_neg hfits] at hout
    rw [Prod.mk.injEq, ok_eq_map_iff] at hout
    obtain ⟨hemit, hok, hseq⟩ := hout
    unfold fragmentedOutcome at hemit hok
    by_cases hfirst : firstFragCapacity self.fragmentMtu channel = 0
    · rw [if_pos hfirst] at hok
      exact absurd hok (by simp only [reduceCtorEq, not_false_eq_true])
    · -- The transmission succeeded, so all of it was sent.
      rw [if_neg hfirst] at hemit hok
      refine Or.inr ⟨Nat.lt_of_not_le hfits, hfirst, ?_⟩
      rw [hemit, transmit_ok hok, hseq]

/-- The transport after a `send`, whatever came of it. -/
def LcmTransport.advanced (self : LcmTransport) : LcmTransport :=
  { self with sequenceCounter := self.sequenceCounter + 1 }

/-- The addition that reports its overflow never has to: it would take an MTU
    so large that nothing remains after the first fragment. -/
theorem numberOfFragments_eq_ok {first sub len n : Nat} (hsub : 0 < sub)
    (hbound : len - first = 0 ∨ len - first + (sub - 1) < usizeBound)
    (h : LcmTransport.numberOfFragments first sub len = .ok n) : n = needed first sub len := by
  unfold LcmTransport.numberOfFragments at h
  rw [subUsize_of_le hsub, ok_bind] at h
  unfold needed
  by_cases hfit : len - first + (sub - 1) < usizeBound
  · rw [checkedAdd_of_lt hfit] at h
    simp only [divUsize_of_pos hsub, ok_bind] at h
    exact (addUsize_eq_ok.mp h).2
  · have hzero := hbound.resolve_right hfit
    have hnone : checkedAdd (len - first) (sub - 1) = none := by
      unfold checkedAdd
      rw [if_neg hfit]
    rw [hnone] at h
    rw [hzero, Nat.zero_add, Nat.div_eq_of_lt (Nat.sub_lt hsub Nat.one_pos)]
    exact (addUsize_eq_ok.mp h).2

theorem numberOfFragments_total {first sub len : Nat} (hsub : 0 < sub)
    (hlen : len + 1 < usizeBound) : ∃ n, LcmTransport.numberOfFragments first sub len = .ok n := by
  unfold LcmTransport.numberOfFragments
  rw [subUsize_of_le hsub, ok_bind]
  cases hadd : checkedAdd (len - first) (sub - 1) with
  | none => exact ⟨1 + 0, addUsize_of_lt (by decide)⟩
  | some v =>
      -- Rounding up cannot take the quotient past the dividend by more than one.
      have hv : v = len - first + (sub - 1) := by
        unfold checkedAdd at hadd
        split at hadd
        · exact (Option.some.inj hadd).symm
        · simp only [reduceCtorEq] at hadd
      have hdiv : v / sub ≤ len := by
        rw [hv, ← Nat.lt_succ_iff, Nat.div_lt_iff_lt_mul hsub, Nat.succ_mul]
        have hmul : len ≤ len * sub := Nat.le_mul_of_pos_right len hsub
        omega
      simp only [divUsize_of_pos hsub, ok_bind]
      exact ⟨_, addUsize_of_lt (by omega)⟩

theorem sendFragmented_eq_ok {self : LcmTransport} {sendTo : SendTo} {sequenceNumber : UInt32}
    {channel : String} {data : List UInt8} {out : List Datagram × Except IoError Unit}
    (hlong : self.fragmentMtu < 9 + (asBytes channel).length + data.length)
    (hbound : 9 + (asBytes channel).length + data.length < usizeBound)
    (h : self.sendFragmented sendTo sequenceNumber channel data = .ok out) :
    out = fragmentedOutcome self.fragmentMtu sendTo sequenceNumber channel data := by
  unfold LcmTransport.sendFragmented at h
  rcases bind_eq_ok.mp h with ⟨overhead, hover, h⟩
  rcases bind_eq_ok.mp h with ⟨overhead', hover', h⟩
  have hfirst : self.fragmentMtu - overhead' = firstFragCapacity self.fragmentMtu channel := by
    rw [(addUsize_eq_ok.mp hover').2, (addUsize_eq_ok.mp hover).2]
    rfl
  have hrest : self.fragmentMtu - fragmentHeaderSize
    = subsequentFragCapacity self.fragmentMtu := rfl
  dsimp only at h
  rw [hfirst, hrest] at h
  unfold fragmentedOutcome
  by_cases hzero : firstFragCapacity self.fragmentMtu channel = 0
  · rw [if_pos (Or.inl hzero)] at h
    rw [if_pos hzero]
    exact (Except.ok.inj h).symm
  · have hsub := subsequentFragCapacity_pos hzero
    rw [if_neg (by omega)] at h
    rw [if_neg hzero]
    rcases bind_eq_ok.mp h with ⟨n, hn, hloop⟩
    have hcount : n = fragmentsNeeded self.fragmentMtu channel data.length := by
      refine numberOfFragments_eq_ok hsub (Or.inr ?_) hn
      unfold firstFragCapacity subsequentFragCapacity at *
      omega
    -- The loop starts at number zero, where the offset is zero.
    have hstart : (0 : Nat) = min (cut (firstFragCapacity self.fragmentMtu channel)
        (subsequentFragCapacity self.fragmentMtu) 0) data.length := by
      rw [cut_zero, Nat.zero_min]
    rw [hcount] at hloop
    dsimp only at hloop ⊢
    rw [List.range_eq_range'] at hloop ⊢
    rw [hstart] at hloop
    exact fragmentLoop_eq_ok self.fragmentMtu sendTo sequenceNumber _ channel data _ 0 hloop

-- Peel the additions off first: that they did not overflow is the bound on the
-- lengths. The two branches of the source are then those of `outcome`.
theorem outcome_of_send {self t : LcmTransport} {sendTo : SendTo} {channel : String}
    {data : List UInt8} {emitted : List Datagram} {result : Except IoError UInt32}
    (h : self.send sendTo channel data = .ok (t, emitted, result)) :
    t = self.advanced ∧ 9 + (asBytes channel).length + data.length < usizeBound ∧
      (emitted, result) = outcome self sendTo channel data := by
  unfold LcmTransport.send at h
  rcases bind_eq_ok.mp h with ⟨size, hsize, h⟩
  rcases bind_eq_ok.mp h with ⟨size', hsize', h⟩
  rcases bind_eq_ok.mp h with ⟨shortSize, hshort, h⟩
  rcases addUsize_eq_ok.mp hshort with ⟨hbound, hval⟩
  rw [(addUsize_eq_ok.mp hsize').2, (addUsize_eq_ok.mp hsize).2] at hbound hval
  have hval' : shortSize = 9 + (asBytes channel).length + data.length := by omega
  have hbound' : 9 + (asBytes channel).length + data.length < usizeBound := by omega
  rw [hval'] at h
  rw [and_left_comm, ← Prod.mk.injEq]
  refine ⟨hbound', ?_⟩
  unfold outcome
  by_cases hfits : 9 + (asBytes channel).length + data.length ≤ self.fragmentMtu
  · rw [if_pos hfits] at h ⊢
    cases hsend : sendTo 0 with
    | some err =>
        simp only [hsend] at h
        exact (Except.ok.inj h).symm
    | none =>
        simp only [hsend] at h
        exact (Except.ok.inj h).symm
  · rw [if_neg hfits] at h ⊢
    rcases bind_eq_ok.mp h with ⟨⟨sent, res⟩, hfrag, h⟩
    have hout := sendFragmented_eq_ok (Nat.lt_of_not_le hfits) hbound' hfrag
    have hout' : (sent, res)
      = fragmentedOutcome self.fragmentMtu sendTo self.sequenceCounter channel data := hout
    rw [← hout']
    cases res with
    | error err => exact (Except.ok.inj h).symm
    | ok u => exact (Except.ok.inj h).symm

-- Every addition is of lengths, and their sum is in range.
theorem sendFragmented_total {self : LcmTransport} (sendTo : SendTo) (sequenceNumber : UInt32)
    {channel : String} {data : List UInt8}
    (hlong : self.fragmentMtu < 9 + (asBytes channel).length + data.length)
    (hbound : 64 + (asBytes channel).length + 2 * data.length < usizeBound) :
    ∃ out, self.sendFragmented sendTo sequenceNumber channel data = .ok out := by
  unfold LcmTransport.sendFragmented
  rw [addUsize_of_lt (by unfold fragmentHeaderSize; omega), ok_bind,
    addUsize_of_lt (by unfold fragmentHeaderSize; omega), ok_bind]
  dsimp only
  by_cases hzero : self.fragmentMtu - (fragmentHeaderSize + (asBytes channel).length + 1) = 0 ∨
      self.fragmentMtu - fragmentHeaderSize = 0
  · rw [if_pos hzero]
    exact ⟨_, rfl⟩
  · rw [if_neg hzero]
    rw [not_or] at hzero
    have hlen : data.length + 1 < usizeBound := by omega
    rcases numberOfFragments_total (Nat.pos_of_ne_zero hzero.2) hlen with ⟨n, hn⟩
    rw [hn, ok_bind]
    have hstart : (0 : Nat) = min (cut (firstFragCapacity self.fragmentMtu channel)
        (subsequentFragCapacity self.fragmentMtu) 0) data.length := by
      rw [cut_zero, Nat.zero_min]
    rw [List.range_eq_range', hstart]
    refine fragmentLoop_total self.fragmentMtu sendTo sequenceNumber _ channel data ?_ _ 0
    unfold subsequentFragCapacity
    omega

theorem send_eq {self : LcmTransport} {channel : String} {data : List UInt8} (sendTo : SendTo)
    (h : 64 + (asBytes channel).length + 2 * data.length < usizeBound) :
    self.send sendTo channel data
      = .ok (self.advanced, outcome self sendTo channel data) := by
  -- It returns something, so it returns its outcome.
  have hret : ∃ out, self.send sendTo channel data = .ok out := by
    unfold LcmTransport.send
    rw [addUsize_of_lt (by omega), ok_bind, addUsize_of_lt (by omega), ok_bind,
      addUsize_of_lt (by omega), ok_bind]
    by_cases hfits : 4 + 4 + (asBytes channel).length + 1 + data.length ≤ self.fragmentMtu
    · rw [if_pos hfits]
      cases sendTo 0 with
      | some err => exact ⟨_, rfl⟩
      | none => exact ⟨_, rfl⟩
    · rw [if_neg hfits]
      have hlong : self.fragmentMtu < 9 + (asBytes channel).length + data.length := by omega
      rcases @sendFragmented_total self.advanced sendTo self.sequenceCounter channel data
        hlong h with ⟨⟨sent, res⟩, hfrag⟩
      have hfrag' : (LcmTransport.mk self.fragmentMtu (self.sequenceCounter + 1)).sendFragmented
        sendTo self.sequenceCounter channel data = .ok (sent, res) := hfrag
      rw [hfrag', ok_bind]
      cases res with
      | error err => exact ⟨_, rfl⟩
      | ok u => exact ⟨_, rfl⟩
  rcases hret with ⟨⟨t, emitted, result⟩, hret⟩
  rcases outcome_of_send hret with ⟨ht, _, hout⟩
  rw [hret, ht, hout]

end LcmBridge
