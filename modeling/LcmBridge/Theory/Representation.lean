import LcmBridge.Theory.Rejection
import LcmBridge.Theory.Filled

/-!
# The Representation of Pending Sets

What holds of every set the reassembler keeps, whatever fragments it was
given.

`FragmentSet.Valid` is what a call needs in order not to panic. It says
nothing about the limits of the reassembler, and does not have to: the calls
go through without them. The sets that are kept do respect the limits, and for
three different reasons. The payload is bounded because the size is checked
before a set is created. The counter is below the number of fragments because
a set is taken out by the call that makes them equal, so zero fragments is the
one case in which they are equal from the start. The age is bounded because
the sweep of a call comes before everything else it does, and a set that the
call creates is dated after the sweep.

`Live` collects these facts at one sweep. Each of the three things a call does
to a set keeps it, and so does a call. Between calls the clock moves on, and
all but the age is kept.

## Main definitions

* `FragmentSet.WellFormed`: The representation invariant with the limits.
* `FragmentSet.Live`: A well-formed set within its timeout.
* `FragmentReassembler.AllWellFormed`: Every pending set is well formed.

## Theorems

* `live_fresh`, `live_storeChannel`, `live_place`: What a call does to a set.
* `offer_live`, `call_live`: One call.
* `processAll_wellFormed`: A sequence of calls.
* `reassembler_representation`: No call panics, and every pending set is well
  formed and was within its timeout at the last sweep.
-/

namespace LcmBridge

open FragmentReassembler

/-- The representation invariant of a set in a reassembler with this limit. -/
structure FragmentSet.WellFormed (maxMessageSize : Nat) (set : FragmentSet) : Prop
    extends FragmentSet.Valid set where
  payload_le : set.payloadSize.toNat ≤ maxMessageSize
  received_lt : 0 < set.nFragments.toNat → set.fragmentsReceived.toNat < set.nFragments.toNat

/-- A well-formed set that a sweep at `now` leaves alone. -/
structure FragmentSet.Live (timeout : Duration) (maxMessageSize : Nat) (now : Instant)
    (set : FragmentSet) : Prop extends FragmentSet.WellFormed maxMessageSize set where
  age_le : now - set.createdAt ≤ timeout

section Sets

variable {timeout : Duration} {maxMessageSize : Nat} {now insertNow : Instant}
  {set : FragmentSet} {fragment : Fragment}

theorem live_fresh (hsize : fragment.payloadSize.toNat ≤ maxMessageSize) (hnow : now ≤ insertNow) :
    (FragmentSet.fresh fragment insertNow).Live timeout maxMessageSize now where
  toValid := valid_fresh fragment insertNow
  payload_le := hsize
  received_lt hpos := hpos
  age_le := by
    have hage : now - (FragmentSet.fresh fragment insertNow).createdAt = 0 :=
      Nat.sub_eq_zero_of_le hnow
    rw [hage]
    exact Nat.zero_le timeout

theorem live_storeChannel (h : set.Live timeout maxMessageSize now) (fragment : Fragment) :
    (set.storeChannel fragment).Live timeout maxMessageSize now where
  toValid := valid_storeChannel h.toValid fragment
  payload_le := by
    rw [storeChannel_payloadSize]
    exact h.payload_le
  received_lt := by
    rw [storeChannel_nFragments, storeChannel_fragmentsReceived]
    exact h.received_lt
  age_le := by
    rw [storeChannel_createdAt]
    exact h.age_le

/-- No more places are taken than there are. -/
theorem received_le (hv : set.Valid) : set.fragmentsReceived.toNat ≤ set.nFragments.toNat := by
  rw [hv.received_count, ← hv.mask_length]
  exact List.count_le_length

/-- A set that is not complete with an accepted fragment still misses one. -/
theorem live_place (h : set.Live timeout maxMessageSize now) (hacc : set.Accepts fragment)
    (hpart : (set.place fragment).fragmentsReceived ≠ (set.place fragment).nFragments) :
    (set.place fragment).Live timeout maxMessageSize now where
  toValid := valid_place h.toValid hacc
  payload_le := h.payload_le
  received_lt _ := by
    have hle := received_le (valid_place h.toValid hacc)
    have hne : (set.place fragment).fragmentsReceived.toNat
        ≠ (set.place fragment).nFragments.toNat := fun heq => hpart (UInt16.toNat_inj.mp heq)
    omega
  age_le := h.age_le

/-- What a call leaves under its own key is live if what it found there was. -/
theorem offer_live {slot : Option FragmentSet} (hnow : now ≤ insertNow)
    (hslot : ∀ set, slot = some set → set.Live timeout maxMessageSize now)
    (hset : (offer maxMessageSize fragment insertNow slot).1 = some set) :
    set.Live timeout maxMessageSize now := by
  by_cases hsize : fragment.payloadSize.toNat > maxMessageSize
  · rw [offer_of_too_large hsize] at hset
    exact hslot set hset
  · have hfound : (slot.getD (FragmentSet.fresh fragment insertNow)).Live timeout maxMessageSize
        now := by
      cases hs : slot with
      | none => exact live_fresh (Nat.le_of_not_lt hsize) hnow
      | some found => exact hslot found hs
    have hstored := live_storeChannel hfound fragment
    rcases offer_cases hsize with ⟨_, hoffer⟩ | ⟨hacc, hpart, hoffer⟩ | ⟨_, _, hoffer⟩
    · rw [hoffer] at hset
      rw [← Option.some.inj hset]
      exact hstored
    · rw [hoffer] at hset
      rw [← Option.some.inj hset]
      exact live_place hstored hacc hpart
    · rw [hoffer] at hset
      exact absurd hset (by simp only [reduceCtorEq, not_false_eq_true])

end Sets

namespace FragmentReassembler

/-- Every pending set is well formed. -/
def AllWellFormed (self : FragmentReassembler) : Prop :=
  ∀ key set, self.pending key = some set → set.WellFormed self.maxMessageSize

theorem allWellFormed_new (timeout : Duration) (maxMessageSize : Nat) :
    (new timeout maxMessageSize).AllWellFormed := by
  intro key set hset
  exact absurd hset (by simp only [new, reduceCtorEq, not_false_eq_true])

variable {self self' : FragmentReassembler}

theorem AllWellFormed.allValid (h : self.AllWellFormed) : self.AllValid := by
  intro key set hset
  exact (h key set hset).toValid

/-- What the sweep of a call leaves is live. -/
theorem expireStale_live (h : self.AllWellFormed) (now : Instant) {key : FragmentKey}
    {set : FragmentSet} (hset : (self.expireStale now).pending key = some set) :
    set.Live self.timeout self.maxMessageSize now := by
  rcases expireStale_eq_some_iff.mp hset with ⟨hpending, hage⟩
  exact ⟨h key set hpending, hage⟩

-- The entry of the call's own key by `offer`, all others by the sweep.
theorem call_live (h : self.AllWellFormed) {c : Call} (hnow : c.now ≤ c.insertNow)
    {result : Option LcmMessage} (hstep : self.call c = .ok (self', result)) :
    ∀ key set, self'.pending key = some set →
      set.Live self.timeout self.maxMessageSize c.now := by
  intro key set hset
  have heffect := call_effect h.allValid hstep
  by_cases hkey : key = c.key
  · rw [hkey, heffect.own] at hset
    exact offer_live hnow (fun _ => expireStale_live h c.now) hset
  · rw [heffect.other key hkey] at hset
    exact expireStale_live h c.now hset

theorem call_wellFormed (h : self.AllWellFormed) {c : Call} (hnow : c.now ≤ c.insertNow)
    {result : Option LcmMessage} (hstep : self.call c = .ok (self', result)) :
    self'.AllWellFormed := by
  intro key set hset
  rw [(call_effect h.allValid hstep).maxMessageSize_eq]
  exact (call_live h hnow hstep key set hset).toWellFormed

theorem processAll_wellFormed (h : self.AllWellFormed) {calls : List Call}
    (hnow : ∀ c ∈ calls, c.now ≤ c.insertNow) {results : List (Option LcmMessage)}
    (hrun : self.processAll calls = .ok (self', results)) : self'.AllWellFormed :=
  Machine.runAll_invariant_mem AllWellFormed
    (fun _ c hc _ _ hs hstep => call_wellFormed hs (hnow c hc) hstep) h hrun

-- The last call is the one whose sweep the ages are about.
theorem processAll_live (h : self.AllWellFormed) {calls : List Call} {last : Call}
    (hnow : ∀ c ∈ calls ++ [last], c.now ≤ c.insertNow) {results : List (Option LcmMessage)}
    (hrun : self.processAll (calls ++ [last]) = .ok (self', results)) :
    ∀ key set, self'.pending key = some set →
      set.Live self.timeout self.maxMessageSize last.now := by
  rcases Machine.runAll_concat.mp hrun with ⟨mid, results', result, hrun', hstep, _⟩
  have hmid : mid.AllWellFormed :=
    processAll_wellFormed h (fun c hc => hnow c (List.mem_append_left [last] hc)) hrun'
  rcases processAll_limits h.allValid hrun' with ⟨htimeout, hmax⟩
  rw [← htimeout, ← hmax]
  exact call_live hmid (hnow last List.mem_concat_self) hstep

end FragmentReassembler

/-- Whatever calls are made, on a clock that does not go back, none of them
    panics. Every set pending afterwards is well formed, and at the sweep of
    the last call it was not older than the timeout. -/
theorem reassembler_representation (timeout : Duration) (maxMessageSize : Nat)
    (calls : List Call) (hclock : ClockOrdered calls) :
    ∃ self results, (new timeout maxMessageSize).processAll calls = .ok (self, results) ∧
      ∀ key set, self.pending key = some set →
        set.WellFormed maxMessageSize ∧
          ∀ last ∈ calls.getLast?, last.now - set.createdAt ≤ timeout := by
  have hnew := allWellFormed_new timeout maxMessageSize
  have hrun := processAll_eq calls hnew.allValid
  have hnow : ∀ c ∈ calls, c.now ≤ c.insertNow := fun c hc => now_le_insertNow hclock hc
  refine ⟨_, _, hrun, fun key set hset => ⟨?_, fun last hlast => ?_⟩⟩
  · exact processAll_wellFormed hnew hnow hrun key set hset
  · rcases List.getLast?_eq_some_iff.mp hlast with ⟨init, rfl⟩
    exact (processAll_live hnew hnow hrun key set hset).age_le

/-- A message of no fragments, an offset at the end of the range, and the
    first of two fragments. -/
theorem reassembler_representation_extremes :
    ∃ self results,
      (new 10 100).processAll
          [⟨⟨1, 4, 0, 0, 0, none, [1, 2]⟩, .v4 1 5000, 0, 1, by decide⟩,
            ⟨⟨2, 4, 4294967295, 65534, 65535, none, [1, 2]⟩, .v4 1 5000, 2, 3, by decide⟩,
            ⟨⟨3, 4, 0, 0, 2, some "A", [1, 2]⟩, .v4 2 5000, 5, 5, by decide⟩]
        = .ok (self, results) ∧
      ∀ key set, self.pending key = some set →
        set.WellFormed 100 ∧ 5 - set.createdAt ≤ 10 := by
  rcases reassembler_representation 10 100
      [⟨⟨1, 4, 0, 0, 0, none, [1, 2]⟩, .v4 1 5000, 0, 1, by decide⟩,
        ⟨⟨2, 4, 4294967295, 65534, 65535, none, [1, 2]⟩, .v4 1 5000, 2, 3, by decide⟩,
        ⟨⟨3, 4, 0, 0, 2, some "A", [1, 2]⟩, .v4 2 5000, 5, 5, by decide⟩]
      (by decide) with ⟨self, results, hrun, hsets⟩
  exact ⟨self, results, hrun, fun key set hset =>
    ⟨(hsets key set hset).1, (hsets key set hset).2 _ rfl⟩⟩

end LcmBridge
