import LcmBridge.Library.ExpiringStore
import LcmBridge.Library.Overlay
import LcmBridge.Core.Fragment

/-!
# The Reassembler as an Expiring Store

What one call of `process` does, stated without its control flow.

`process` is written as the source writes it: in place, with early returns, on
operations that can panic. Here it is shown to be a step of an expiring store.
A call sweeps, and then replaces the entry of its own key by `offer`, a total
function of that entry alone. Everything proved about the reassembler goes
through `offer`; no later proof unfolds `process` again.

The bridge between the two is `FragmentSet.Valid`, the representation
invariant. It is what excludes the panics: the mask has a place for every
fragment number, the buffer a byte for every position of the payload, and the
counter is the number of places taken, so it stays below the width of the
mask whenever a place is still free.

`Accepts` is the conjunction of the checks a fragment has to pass. A fragment
that fails one is dropped, but not without a trace: `offer` still returns the
set it was offered to, newly created or with a new channel name.

## Main definitions

* `FragmentSet.Valid`: The representation invariant of a set.
* `FragmentSet.Accepts`: The checks a fragment has to pass.
* `FragmentSet.place`: The set after copying an accepted fragment.
* `offer`: What a call does to the entry of its key.
* `reassemblyRules`: The reassembler as an expiring store.
* `FragmentReassembler.CallEffect`: All that a call does.
* `FragmentReassembler.AllValid`: Every pending set is valid.

## Theorems

* `receive_eq`: The checks and the copy, free of panics on a valid set.
* `process_eq`: One call, in terms of `offer`.
* `offer_valid`: `offer` keeps the invariant.
* `call_eq`: One call as a step of the expiring store.
* `call_effect`: What a call that returns has done.
* `processAll_eq`: A sequence of calls as a run of the expiring store.
-/

namespace LcmBridge

open Checked

/-! ### Storing the channel -/

section StoreChannel

variable (set : FragmentSet) (fragment : Fragment)

/-- Storing the channel touches no other field. -/
theorem storeChannel_eq : ∃ channel, set.storeChannel fragment = { set with channel := channel } := by
  unfold FragmentSet.storeChannel
  by_cases h0 : fragment.fragmentNumber = 0
  · rw [if_pos h0]
    cases fragment.channel with
    | none => exact ⟨set.channel, rfl⟩
    | some channel => exact ⟨channel, rfl⟩
  · rw [if_neg h0]
    exact ⟨set.channel, rfl⟩

@[simp] theorem storeChannel_payloadSize :
    (set.storeChannel fragment).payloadSize = set.payloadSize := by
  rcases storeChannel_eq set fragment with ⟨channel, h⟩
  rw [h]

@[simp] theorem storeChannel_nFragments :
    (set.storeChannel fragment).nFragments = set.nFragments := by
  rcases storeChannel_eq set fragment with ⟨channel, h⟩
  rw [h]

@[simp] theorem storeChannel_fragmentsReceived :
    (set.storeChannel fragment).fragmentsReceived = set.fragmentsReceived := by
  rcases storeChannel_eq set fragment with ⟨channel, h⟩
  rw [h]

@[simp] theorem storeChannel_buffer : (set.storeChannel fragment).buffer = set.buffer := by
  rcases storeChannel_eq set fragment with ⟨channel, h⟩
  rw [h]

@[simp] theorem storeChannel_receivedMask :
    (set.storeChannel fragment).receivedMask = set.receivedMask := by
  rcases storeChannel_eq set fragment with ⟨channel, h⟩
  rw [h]

@[simp] theorem storeChannel_createdAt :
    (set.storeChannel fragment).createdAt = set.createdAt := by
  rcases storeChannel_eq set fragment with ⟨channel, h⟩
  rw [h]

end StoreChannel

/-! ### Accepting a fragment -/

/-- The representation invariant of a pending set. -/
structure FragmentSet.Valid (set : FragmentSet) : Prop where
  buffer_length : set.buffer.length = set.payloadSize.toNat
  mask_length : set.receivedMask.length = set.nFragments.toNat
  received_count : set.fragmentsReceived.toNat = set.receivedMask.count true

/-- The checks a fragment has to pass before its data is copied: it agrees
    with the metadata of the set, its number is one not received yet, and its
    data lies within the payload. -/
def FragmentSet.Accepts (set : FragmentSet) (fragment : Fragment) : Prop :=
  fragment.payloadSize = set.payloadSize ∧ fragment.nFragments = set.nFragments ∧
    set.receivedMask[fragment.fragmentNumber.toNat]? = some false ∧
    fragment.fragmentOffset.toNat + fragment.data.length ≤ set.buffer.length

instance (set : FragmentSet) (fragment : Fragment) : Decidable (set.Accepts fragment) :=
  inferInstanceAs (Decidable (_ ∧ _))

/-- The set after copying an accepted fragment. -/
def FragmentSet.place (set : FragmentSet) (fragment : Fragment) : FragmentSet :=
  { set with
    buffer := Overlay.write set.buffer fragment.fragmentOffset.toNat fragment.data
    receivedMask := set.receivedMask.set fragment.fragmentNumber.toNat true
    fragmentsReceived := set.fragmentsReceived + 1 }

theorem accepts_storeChannel (set : FragmentSet) (fragment other : Fragment) :
    (set.storeChannel fragment).Accepts other ↔ set.Accepts other := by
  simp only [FragmentSet.Accepts, storeChannel_payloadSize, storeChannel_nFragments,
    storeChannel_receivedMask, storeChannel_buffer]

theorem valid_storeChannel {set : FragmentSet} (h : set.Valid) (fragment : Fragment) :
    (set.storeChannel fragment).Valid where
  buffer_length := by rw [storeChannel_buffer, storeChannel_payloadSize, h.buffer_length]
  mask_length := by rw [storeChannel_receivedMask, storeChannel_nFragments, h.mask_length]
  received_count := by
    rw [storeChannel_fragmentsReceived, storeChannel_receivedMask, h.received_count]

theorem valid_fresh (fragment : Fragment) (now : Instant) :
    (FragmentSet.fresh fragment now).Valid where
  buffer_length := List.length_replicate
  mask_length := List.length_replicate
  received_count := by
    simp only [FragmentSet.fresh, List.count_replicate, beq_iff_eq, Bool.false_eq_true, if_false]
    rfl

/-- Taking a free place raises the number of places taken by one. -/
theorem count_set_true {mask : List Bool} {i : Nat} (h : mask[i]? = some false) :
    (mask.set i true).count true = mask.count true + 1 := by
  rcases List.getElem?_eq_some_iff.mp h with ⟨hi, hval⟩
  rw [List.count_set hi, hval]
  simp only [beq_iff_eq, Bool.false_eq_true, if_false, beq_self_eq_true, if_true, Nat.sub_zero]

/-- While a place is free, not all of them are taken. -/
theorem count_lt_length {mask : List Bool} {i : Nat} (h : mask[i]? = some false) :
    mask.count true < mask.length := by
  have hle := List.count_le_length (l := mask.set i true) (a := true)
  rw [count_set_true h, List.length_set] at hle
  exact hle

/-- The counter has room for one more while a place is free. -/
theorem received_succ {set : FragmentSet} (hv : set.Valid) {i : Nat}
    (h : set.receivedMask[i]? = some false) :
    (set.fragmentsReceived + 1).toNat = set.fragmentsReceived.toNat + 1 := by
  have hlt := count_lt_length h
  have hn := set.nFragments.toNat_lt
  rw [hv.mask_length, ← hv.received_count] at hlt
  rw [UInt16.toNat_add]
  exact Nat.mod_eq_of_lt (by simp only [UInt16.toNat_one]; omega)

theorem valid_place {set : FragmentSet} {fragment : Fragment} (hv : set.Valid)
    (h : set.Accepts fragment) : (set.place fragment).Valid := by
  obtain ⟨_, _, hmask, hfit⟩ := h
  constructor
  · simp only [FragmentSet.place, Overlay.length_write hfit, hv.buffer_length]
  · simp only [FragmentSet.place, List.length_set, hv.mask_length]
  · simp only [FragmentSet.place, count_set_true hmask, received_succ hv hmask, hv.received_count]

/-- The checks and the copy do not panic on a valid set. -/
theorem receive_eq {set : FragmentSet} {fragment : Fragment} (hv : set.Valid)
    (hmem : fragment.fragmentOffset.toNat + fragment.data.length < usizeBound) :
    set.receive fragment = .ok (if set.Accepts fragment then some (set.place fragment) else none) := by
  unfold FragmentSet.receive
  by_cases hmeta : fragment.payloadSize ≠ set.payloadSize ∨ fragment.nFragments ≠ set.nFragments
  · have hrej : ¬ set.Accepts fragment := by
      intro h
      rcases h with ⟨h1, h2, -⟩
      rcases hmeta with h | h
      · exact h h1
      · exact h h2
    rw [if_pos hmeta, if_neg hrej]
  · rw [if_neg hmeta]
    rw [not_or, not_not, not_not] at hmeta
    by_cases hidx : fragment.fragmentNumber.toNat ≥ set.receivedMask.length
    · -- The number is out of range, so the mask has no place for it.
      have hrej : ¬ set.Accepts fragment := by
        intro h
        rcases h with ⟨-, -, h, -⟩
        rw [List.getElem?_eq_none hidx] at h
        exact absurd h (by simp only [reduceCtorEq, not_false_eq_true])
      rw [if_neg hrej]
      simp only [if_pos hidx]
    · simp only [if_neg hidx]
      rw [Nat.not_le] at hidx
      rw [index_of_lt hidx, ok_bind]
      cases hdup : set.receivedMask[fragment.fragmentNumber.toNat] with
      | true =>
          have hrej : ¬ set.Accepts fragment := by
            intro h
            rcases h with ⟨-, -, h, -⟩
            rw [List.getElem?_eq_getElem hidx, hdup] at h
            exact absurd h (by simp only [Option.some.injEq, Bool.true_eq_false, not_false_eq_true])
          rw [if_neg hrej]
          rfl
      | false =>
          have hfree : set.receivedMask[fragment.fragmentNumber.toNat]? = some false := by
            rw [List.getElem?_eq_getElem hidx, hdup]
          simp only [Bool.false_eq_true, if_false, addUsize_of_lt hmem, ok_bind]
          by_cases hfit : fragment.fragmentOffset.toNat + fragment.data.length > set.buffer.length
          · have hrej : ¬ set.Accepts fragment := by
              intro h
              rcases h with ⟨-, -, -, h⟩
              omega
            rw [if_neg hrej]
            simp only [if_pos hfit]
            rfl
          · rw [Nat.not_lt] at hfit
            have hacc : set.Accepts fragment := ⟨hmeta.1, hmeta.2, hfree, hfit⟩
            have hcount : set.fragmentsReceived.toNat + (1 : UInt16).toNat < 65536 := by
              have hlt := count_lt_length hfree
              have hn := set.nFragments.toNat_lt
              rw [hv.mask_length, ← hv.received_count] at hlt
              simp only [UInt16.toNat_one]
              omega
            rw [if_pos hacc]
            simp only [if_neg (Nat.not_lt.mpr hfit), copyFromSlice_of_le hfit, ok_bind,
              store_of_lt true hidx, addU16_of_lt hcount]
            rfl

/-! ### One call -/

/-- What a call does to the entry of its own key, after the sweep. -/
def offer (maxMessageSize : Nat) (fragment : Fragment) (insertNow : Instant)
    (slot : Option FragmentSet) : Option FragmentSet × Option LcmMessage :=
  if fragment.payloadSize.toNat > maxMessageSize then (slot, none)
  else
    let set := (slot.getD (FragmentSet.fresh fragment insertNow)).storeChannel fragment
    if set.Accepts fragment then
      let set := set.place fragment
      if set.fragmentsReceived = set.nFragments then
        (none, some { channel := set.channel, sequenceNumber := fragment.sequenceNumber,
                      data := set.buffer })
      else (some set, none)
    else (some set, none)

/-- A fragment of too large a message is refused before the entry is looked at. -/
theorem offer_of_too_large {maxMessageSize : Nat} {fragment : Fragment}
    (h : fragment.payloadSize.toNat > maxMessageSize) (insertNow : Instant)
    (slot : Option FragmentSet) : offer maxMessageSize fragment insertNow slot = (slot, none) := by
  unfold offer
  rw [if_pos h]

/-- The invariant of an entry: an absent one has nothing to satisfy. -/
def SlotValid (slot : Option FragmentSet) : Prop := ∀ set, slot = some set → set.Valid

theorem slotValid_filter {slot : Option FragmentSet} (h : SlotValid slot)
    (p : FragmentSet → Bool) : SlotValid (slot.filter p) := by
  intro set hset
  exact h set (Option.eq_some_of_filter_eq_some hset)

theorem valid_getD_fresh {slot : Option FragmentSet} (h : SlotValid slot) (fragment : Fragment)
    (now : Instant) : (slot.getD (FragmentSet.fresh fragment now)).Valid := by
  cases hs : slot with
  | none => exact valid_fresh fragment now
  | some set => exact h set hs

-- By the three outcomes: nothing is left, or the set with the fragment, or the
-- set without it.
theorem offer_valid {maxMessageSize : Nat} {fragment : Fragment} {insertNow : Instant}
    {slot : Option FragmentSet} (h : SlotValid slot) :
    SlotValid (offer maxMessageSize fragment insertNow slot).1 := by
  by_cases hbig : fragment.payloadSize.toNat > maxMessageSize
  · rw [offer_of_too_large hbig]
    exact h
  · unfold offer
    rw [if_neg hbig]
    have hv := valid_storeChannel (valid_getD_fresh h fragment insertNow) fragment
    dsimp only
    by_cases hacc : ((slot.getD (FragmentSet.fresh fragment insertNow)).storeChannel
        fragment).Accepts fragment
    · rw [if_pos hacc]
      split
      · intro set hset
        exact absurd hset (by simp only [reduceCtorEq, not_false_eq_true])
      · intro set hset
        rw [← Option.some.inj hset]
        exact valid_place hv hacc
    · rw [if_neg hacc]
      intro set hset
      rw [← Option.some.inj hset]
      exact hv

namespace FragmentReassembler

/-- One call: sweep, then `offer` the fragment to the entry of its key. -/
theorem process_eq {self : FragmentReassembler} {fragment : Fragment} {sender : SocketAddr}
    {now insertNow : Instant} {slot : Option FragmentSet}
    (hslot : (self.expireStale now).pending (sender, fragment.sequenceNumber) = slot)
    (hv : SlotValid slot)
    (hmem : fragment.fragmentOffset.toNat + fragment.data.length < usizeBound) :
    self.process fragment sender now insertNow
      = .ok (⟨Function.update (self.expireStale now).pending (sender, fragment.sequenceNumber)
            (offer self.maxMessageSize fragment insertNow slot).1,
          self.timeout, self.maxMessageSize⟩,
        (offer self.maxMessageSize fragment insertNow slot).2) := by
  unfold process offer
  have hmax : (self.expireStale now).maxMessageSize = self.maxMessageSize := rfl
  by_cases hbig : fragment.payloadSize.toNat > self.maxMessageSize
  · simp only [hmax, if_pos hbig, ← hslot, Function.update_eq_self]
    rfl
  · have hvalid := valid_storeChannel (valid_getD_fresh hv fragment insertNow) fragment
    simp only [hmax, if_neg hbig, hslot, receive_eq hvalid hmem, ok_bind]
    by_cases hacc : ((slot.getD (FragmentSet.fresh fragment insertNow)).storeChannel
        fragment).Accepts fragment
    · simp only [if_pos hacc]
      split
      · -- Complete: the set just written back is taken out again.
        simp only [put, remove, Function.update_self, Function.update_idem]
        rfl
      · rfl
    · simp only [if_neg hacc]
      rfl

/-- What a call that returns has done, valid sets or not: it refused the
    fragment for its size, or wrote the set of its key back without it or with
    it, or took the set out as a message. -/
theorem process_cases {self self' : FragmentReassembler} {fragment : Fragment}
    {sender : SocketAddr} {now insertNow : Instant} {result : Option LcmMessage}
    (h : self.process fragment sender now insertNow = .ok (self', result)) :
    let swept := self.expireStale now
    let key := (sender, fragment.sequenceNumber)
    let set := ((swept.pending key).getD (FragmentSet.fresh fragment insertNow)).storeChannel
      fragment
    (self' = swept ∧ result = none) ∨
      (set.receive fragment = .ok none ∧ self' = swept.put key set ∧ result = none) ∨
      ∃ placed, set.receive fragment = .ok (some placed) ∧
        ((self' = swept.put key placed ∧ result = none) ∨
          (self' = ((swept.put key placed).remove key).2 ∧
            result = some ⟨placed.channel, fragment.sequenceNumber, placed.buffer⟩)) := by
  intro swept key set
  unfold process at h
  dsimp only at h
  split at h
  · rw [Except.ok.injEq, Prod.mk.injEq] at h
    exact Or.inl ⟨h.1.symm, h.2.symm⟩
  · rcases bind_eq_ok.mp h with ⟨received, hreceive, h⟩
    cases received with
    | none =>
        simp only [pure, Except.pure, Except.ok.injEq, Prod.mk.injEq] at h
        exact Or.inr (Or.inl ⟨hreceive, h.1.symm, h.2.symm⟩)
    | some placed =>
        refine Or.inr (Or.inr ⟨placed, hreceive, ?_⟩)
        dsimp only at h
        split at h
        · -- Complete: the set just written back is taken out again.
          refine Or.inr ?_
          simp only [remove, put, Function.update_self, pure, Except.pure, Except.ok.injEq,
            Prod.mk.injEq] at h
          exact ⟨h.1.symm, h.2.symm⟩
        · simp only [pure, Except.pure, Except.ok.injEq, Prod.mk.injEq] at h
          exact Or.inl ⟨h.1.symm, h.2.symm⟩

/-- Whatever a call does, it only sweeps the entries of other keys, and what it
    delivers has the sequence number of its fragment. -/
theorem process_frame {self self' : FragmentReassembler} {fragment : Fragment}
    {sender : SocketAddr} {now insertNow : Instant} {result : Option LcmMessage}
    (h : self.process fragment sender now insertNow = .ok (self', result)) :
    (∀ key, key ≠ (sender, fragment.sequenceNumber) →
      self'.pending key = (self.expireStale now).pending key) ∧
    ∀ m, result = some m → m.sequenceNumber = fragment.sequenceNumber := by
  rcases process_cases h with ⟨rfl, rfl⟩ | ⟨_, rfl, rfl⟩ | ⟨placed, _, ⟨rfl, rfl⟩ | ⟨rfl, rfl⟩⟩
  · exact ⟨fun _ _ => rfl, fun m hm => absurd hm (by simp only [reduceCtorEq, not_false_eq_true])⟩
  · exact ⟨fun _ hkey => Function.update_of_ne hkey _ _,
      fun m hm => absurd hm (by simp only [reduceCtorEq, not_false_eq_true])⟩
  · exact ⟨fun _ hkey => Function.update_of_ne hkey _ _,
      fun m hm => absurd hm (by simp only [reduceCtorEq, not_false_eq_true])⟩
  · refine ⟨fun key hkey => ?_, fun m hm => by rw [← Option.some.inj hm]⟩
    unfold remove put
    dsimp only
    rw [Function.update_idem, Function.update_of_ne hkey]

/-- Every pending set is valid. -/
def AllValid (self : FragmentReassembler) : Prop := ∀ key, SlotValid (self.pending key)

theorem allValid_new (timeout : Duration) (maxMessageSize : Nat) :
    (new timeout maxMessageSize).AllValid := by
  intro key set hset
  exact absurd hset (by simp only [new, reduceCtorEq, not_false_eq_true])

end FragmentReassembler

/-- The reassembler as an expiring store. -/
def reassemblyRules (timeout : Duration) (maxMessageSize : Nat) :
    ExpiringStore FragmentKey FragmentSet Call (Option LcmMessage) where
  key := Call.key
  expired c set := decide (c.now - set.createdAt > timeout)
  act c slot := offer maxMessageSize c.fragment c.insertNow slot

namespace FragmentReassembler

/-- The rules this reassembler follows. -/
def rules (self : FragmentReassembler) :
    ExpiringStore FragmentKey FragmentSet Call (Option LcmMessage) :=
  reassemblyRules self.timeout self.maxMessageSize

/-- The reassembler with other pending sets. -/
def withPending (self : FragmentReassembler) (pending : FragmentKey → Option FragmentSet) :
    FragmentReassembler :=
  { self with pending := pending }

/-- The end of a slice in memory is within reach of `usize`. -/
theorem no_overflow (c : Call) :
    c.fragment.fragmentOffset.toNat + c.fragment.data.length < usizeBound := by
  have hoff := c.fragment.fragmentOffset.toNat_lt
  have hmem := c.inMemory
  simp only [isizeMax, usizeBound] at hmem ⊢
  omega

/-- One call is a step of the expiring store, and it does not panic. -/
theorem call_eq {self : FragmentReassembler} (hv : self.AllValid) (c : Call) :
    self.call c = .ok (self.withPending (self.rules.step self.pending c).1,
      (self.rules.step self.pending c).2) :=
  process_eq rfl (slotValid_filter (hv c.key) _) (no_overflow c)

/-- The same in terms of `offer`. -/
theorem call_eq_offer {self : FragmentReassembler} (hv : self.AllValid) (c : Call) :
    self.call c = .ok (⟨Function.update (self.expireStale c.now).pending c.key
          (offer self.maxMessageSize c.fragment c.insertNow
            ((self.expireStale c.now).pending c.key)).1,
        self.timeout, self.maxMessageSize⟩,
      (offer self.maxMessageSize c.fragment c.insertNow
        ((self.expireStale c.now).pending c.key)).2) :=
  process_eq rfl (slotValid_filter (hv c.key) _) (no_overflow c)

/-- All that a call does: the entry of its own key goes through the sweep and
    `offer`, which also gives the answer, and the others through the sweep. -/
structure CallEffect (r : FragmentReassembler) (c : Call) (r' : FragmentReassembler)
    (result : Option LcmMessage) : Prop where
  timeout_eq : r'.timeout = r.timeout
  maxMessageSize_eq : r'.maxMessageSize = r.maxMessageSize
  own : r'.pending c.key = (offer r.maxMessageSize c.fragment c.insertNow
    ((r.expireStale c.now).pending c.key)).1
  other : ∀ key, key ≠ c.key → r'.pending key = (r.expireStale c.now).pending key
  result_eq : result = (offer r.maxMessageSize c.fragment c.insertNow
    ((r.expireStale c.now).pending c.key)).2

theorem call_effect {self self' : FragmentReassembler} {c : Call} {result : Option LcmMessage}
    (hv : self.AllValid) (hstep : self.call c = .ok (self', result)) :
    CallEffect self c self' result := by
  rw [call_eq_offer hv c, Except.ok.injEq, Prod.mk.injEq] at hstep
  rcases hstep with ⟨rfl, rfl⟩
  exact ⟨rfl, rfl, Function.update_self _ _ _, fun _ hkey => Function.update_of_ne hkey _ _, rfl⟩

-- The entry of the call's own key by `offer`, all others by the sweep.
theorem allValid_step {self : FragmentReassembler} (hv : self.AllValid) (c : Call) :
    (self.withPending (self.rules.step self.pending c).1).AllValid := by
  intro key
  unfold withPending
  by_cases hk : key = self.rules.key c
  · have hself := congrArg Prod.fst (self.rules.step_self self.pending c)
    dsimp only at hself ⊢
    rw [hk, hself]
    exact offer_valid (slotValid_filter (hv _) _)
  · dsimp only
    rw [self.rules.step_other self.pending c key hk]
    exact slotValid_filter (hv key) _

theorem allValid_call {self self' : FragmentReassembler} {c : Call} {result : Option LcmMessage}
    (hv : self.AllValid) (hstep : self.call c = .ok (self', result)) : self'.AllValid := by
  rw [call_eq hv c, Except.ok.injEq, Prod.mk.injEq] at hstep
  rw [← hstep.1]
  exact allValid_step hv c

/-- A sequence of calls is a run of the expiring store, and it does not
    panic. -/
theorem processAll_eq (calls : List Call) :
    ∀ {self : FragmentReassembler}, self.AllValid →
      self.processAll calls = .ok (self.withPending (self.rules.run self.pending calls).1,
        (self.rules.run self.pending calls).2) := by
  induction calls with
  | nil =>
      intro self _
      rfl
  | cons c calls ih =>
      intro self hv
      have hrest := ih (allValid_step hv c)
      exact Machine.runAll_cons_eq_ok.mpr ⟨_, _, _, call_eq hv c, hrest, rfl⟩

/-- A run keeps the two limits of the reassembler. -/
theorem processAll_limits {self self' : FragmentReassembler} {calls : List Call}
    {results : List (Option LcmMessage)} (hv : self.AllValid)
    (hrun : self.processAll calls = .ok (self', results)) :
    self'.timeout = self.timeout ∧ self'.maxMessageSize = self.maxMessageSize := by
  rw [processAll_eq calls hv, Except.ok.injEq, Prod.mk.injEq] at hrun
  rw [← hrun.1]
  exact ⟨rfl, rfl⟩

end FragmentReassembler

end LcmBridge
