import LcmBridge.Theory.Isolation

/-!
# Rejected Fragments

What a call leaves behind when it drops its fragment.

`process` creates the set and stores the channel name before it checks
anything but the message size. A rejected fragment therefore passes without a
trace only in two cases: it was refused for its size, or its key already had a
live set whose channel name it does not change. In every other case the set
that was created, or the name that was written, stays.

## Main definitions

* `FragmentReassembler.slotOf`: The set a call finds or creates.
* `FragmentReassembler.Rejects`: The five reasons for dropping a fragment.

## Theorems

* `accepts_iff`: A valid set accepts what it has no reason to drop.
* `storeChannel_eq_self_iff`: When storing the channel changes nothing.
* `offer_of_not_accepts`: What a rejected fragment does to its entry.
* `rejection_atomic_iff`: When a rejected fragment leaves no trace.
-/

namespace LcmBridge

/-- On a valid set the checks are the ones the source names: the index is
    within the count, and the end of the data within the payload. -/
theorem accepts_iff {set : FragmentSet} (hv : set.Valid) (fragment : Fragment) :
    set.Accepts fragment ↔
      ¬ (fragment.payloadSize ≠ set.payloadSize ∨ fragment.nFragments ≠ set.nFragments ∨
        fragment.fragmentNumber ≥ set.nFragments ∨
        set.receivedMask[fragment.fragmentNumber.toNat]? = some true ∨
        fragment.fragmentOffset.toNat + fragment.data.length > set.payloadSize.toNat) := by
  have hindex : fragment.fragmentNumber ≥ set.nFragments ↔
      set.receivedMask.length ≤ fragment.fragmentNumber.toNat := by
    rw [hv.mask_length, ge_iff_le, UInt16.le_iff_toNat_le]
  have hmask : set.receivedMask[fragment.fragmentNumber.toNat]? = some false ↔
      ¬ (fragment.fragmentNumber ≥ set.nFragments) ∧
        ¬ set.receivedMask[fragment.fragmentNumber.toNat]? = some true := by
    rw [hindex, ← List.getElem?_eq_none_iff]
    cases set.receivedMask[fragment.fragmentNumber.toNat]? with
    | none => simp only [reduceCtorEq, not_true_eq_false, false_and]
    | some b => cases b <;> simp only [reduceCtorEq, Option.some.injEq, not_false_eq_true,
        not_true_eq_false, Bool.true_eq_false, Bool.false_eq_true, and_self, and_false]
  -- What remains is to read the checks one by one.
  unfold FragmentSet.Accepts
  rw [hmask, hv.buffer_length]
  simp only [not_or, ne_eq, not_not, gt_iff_lt, Nat.not_lt, and_assoc]

-- Fragment zero writes its channel over the name, so it must be the same.
theorem storeChannel_eq_self_iff (set : FragmentSet) (fragment : Fragment) :
    set.storeChannel fragment = set ↔
      (fragment.fragmentNumber = 0 → ∀ channel, fragment.channel = some channel →
        channel = set.channel) := by
  unfold FragmentSet.storeChannel
  by_cases h0 : fragment.fragmentNumber = 0
  · rw [if_pos h0]
    cases hc : fragment.channel with
    | none => simp only [reduceCtorEq, false_implies, implies_true]
    | some name =>
        simp only [h0, Option.some.injEq, forall_eq', forall_const]
        constructor
        · intro h
          exact congrArg FragmentSet.channel h
        · intro h
          rw [h]
  · rw [if_neg h0]
    simp only [h0, false_implies]

/-- A rejected fragment leaves its set behind, whether found or created. -/
theorem offer_of_not_accepts {maxMessageSize : Nat} {fragment : Fragment} {insertNow : Instant}
    {slot : Option FragmentSet} (hsize : ¬ fragment.payloadSize.toNat > maxMessageSize)
    (h : ¬ (slot.getD (FragmentSet.fresh fragment insertNow)).Accepts fragment) :
    offer maxMessageSize fragment insertNow slot
      = (some ((slot.getD (FragmentSet.fresh fragment insertNow)).storeChannel fragment), none) := by
  unfold offer
  rw [if_neg hsize]
  dsimp only
  rw [if_neg (by rwa [accepts_storeChannel])]

namespace FragmentReassembler

/-- The set a call works on: the pending set of its key, unless the sweep
    removes it, or else a new one. -/
def slotOf (self : FragmentReassembler) (c : Call) : FragmentSet :=
  ((self.expireStale c.now).pending c.key).getD (FragmentSet.fresh c.fragment c.insertNow)

/-- The five reasons for dropping a fragment. -/
def Rejects (self : FragmentReassembler) (c : Call) : Prop :=
  c.fragment.payloadSize.toNat > self.maxMessageSize ∨
    (c.fragment.payloadSize ≠ (self.slotOf c).payloadSize ∨
      c.fragment.nFragments ≠ (self.slotOf c).nFragments) ∨
    c.fragment.fragmentNumber ≥ (self.slotOf c).nFragments ∨
    (self.slotOf c).receivedMask[c.fragment.fragmentNumber.toNat]? = some true ∨
    c.fragment.fragmentOffset.toNat + c.fragment.data.length > (self.slotOf c).payloadSize.toNat

instance (self : FragmentReassembler) (c : Call) : Decidable (self.Rejects c) :=
  inferInstanceAs (Decidable (_ ∨ _))

theorem slotOf_valid {self : FragmentReassembler} (hv : self.AllValid) (c : Call) :
    (self.slotOf c).Valid :=
  valid_getD_fresh (slotValid_filter (hv c.key) _) c.fragment c.insertNow

/-- The sweep leaves a set under a key exactly when it was there and is not too
    old. -/
theorem expireStale_eq_some_iff {self : FragmentReassembler} {now : Instant} {key : FragmentKey}
    {set : FragmentSet} :
    (self.expireStale now).pending key = some set ↔
      self.pending key = some set ∧ now - set.createdAt ≤ self.timeout := by
  unfold expireStale
  rw [Option.filter_eq_some_iff]
  simp only [gt_iff_lt, Bool.not_eq_true', decide_eq_false_iff_not, Nat.not_lt]

end FragmentReassembler

/-- A rejected fragment leaves the pending sets as the sweep left them exactly
    when it was refused for its size, or when its key has a live set and the
    fragment brings no new channel name. -/
theorem rejection_atomic_iff {self : FragmentReassembler} (hreach : self.Reachable) (c : Call)
    (hrej : self.Rejects c) :
    ∃ self', self.call c = .ok (self', none) ∧
      (self'.pending = (self.expireStale c.now).pending ↔
        c.fragment.payloadSize.toNat > self.maxMessageSize ∨
        ∃ set, self.pending c.key = some set ∧ c.now - set.createdAt ≤ self.timeout ∧
          (c.fragment.fragmentNumber = 0 → ∀ channel, c.fragment.channel = some channel →
            channel = set.channel)) := by
  have hv := FragmentReassembler.reachable_allValid hreach
  have hcall := FragmentReassembler.call_eq_offer hv c
  by_cases hsize : c.fragment.payloadSize.toNat > self.maxMessageSize
  · -- Refused before the map is touched.
    refine ⟨self.expireStale c.now, ?_, ?_⟩
    · rw [hcall, offer_of_too_large hsize, Function.update_eq_self]
      rfl
    · simp only [hsize, true_or]
  · have hnot : ¬ (self.slotOf c).Accepts c.fragment := by
      rw [accepts_iff (FragmentReassembler.slotOf_valid hv c), not_not, ← or_assoc]
      exact hrej.resolve_left hsize
    rw [offer_of_not_accepts hsize hnot] at hcall
    refine ⟨_, hcall, ?_⟩
    simp only [hsize, false_or]
    rw [Function.update_eq_self_iff]
    -- The entry is unchanged if it was there and kept its channel name.
    cases hslot : (self.expireStale c.now).pending c.key with
    | none =>
        simp only [reduceCtorEq, false_iff, not_exists]
        rintro set ⟨hset, hlive, _⟩
        have hswept := FragmentReassembler.expireStale_eq_some_iff.mpr ⟨hset, hlive⟩
        rw [hslot] at hswept
        exact absurd hswept (by simp only [reduceCtorEq, not_false_eq_true])
    | some set =>
        have hlive := FragmentReassembler.expireStale_eq_some_iff.mp hslot
        rw [Option.getD_some, Option.some.injEq, storeChannel_eq_self_iff]
        constructor
        · intro hkeep
          exact ⟨set, hlive.1, hlive.2, hkeep⟩
        · intro h
          rcases h with ⟨set', hset', _, hkeep⟩
          rw [hlive.1, Option.some.injEq] at hset'
          rw [hset']
          exact hkeep

/-- A duplicate of fragment zero under the name already stored is dropped, and
    nothing changes. -/
theorem rejection_atomic_duplicate :
    ∃ self', (FragmentReassembler.mk (Function.update (fun _ => none) (.v4 1 5000, 1)
          (some ⟨"A", 4, 2, 1, [1, 2, 0, 0], [true, false], 0⟩)) 10 100).call
          ⟨⟨1, 4, 0, 0, 2, some "A", [1, 2]⟩, .v4 1 5000, 5, 5, by decide⟩ = .ok (self', none) ∧
      self'.pending = ((FragmentReassembler.mk (Function.update (fun _ => none) (.v4 1 5000, 1)
          (some ⟨"A", 4, 2, 1, [1, 2, 0, 0], [true, false], 0⟩)) 10 100).expireStale 5).pending := by
  have hreach : (FragmentReassembler.mk (Function.update (fun _ => none) (.v4 1 5000, 1)
      (some ⟨"A", 4, 2, 1, [1, 2, 0, 0], [true, false], 0⟩)) 10 100).Reachable :=
    ⟨10, 100, [⟨⟨1, 4, 0, 0, 2, some "A", [1, 2]⟩, .v4 1 5000, 0, 0, by decide⟩], [none],
      by decide, rfl⟩
  rcases rejection_atomic_iff hreach
      ⟨⟨1, 4, 0, 0, 2, some "A", [1, 2]⟩, .v4 1 5000, 5, 5, by decide⟩ (by decide) with
    ⟨self', hcall, hiff⟩
  refine ⟨self', hcall, hiff.mpr (Or.inr ⟨_, rfl, by decide, fun _ channel hc => ?_⟩)⟩
  rw [← Option.some.inj hc]

/-- A duplicate of fragment zero under another name is rejected, and renames
    the pending message. -/
theorem rejection_not_atomic :
    ¬ ∀ (self : FragmentReassembler) (c : Call), self.Reachable → self.Rejects c →
      ∀ self', self.call c = .ok (self', none) →
        self'.pending = (self.expireStale c.now).pending := by
  intro h
  have hrun : (FragmentReassembler.new 10 100).processAll
      [⟨⟨1, 4, 0, 0, 2, some "A", [1, 2]⟩, .v4 1 5000, 0, 0, by decide⟩]
        = .ok (⟨Function.update (fun _ => none) (.v4 1 5000, 1)
            (some ⟨"A", 4, 2, 1, [1, 2, 0, 0], [true, false], 0⟩), 10, 100⟩, [none]) := rfl
  have hsame := h _ ⟨⟨1, 4, 0, 0, 2, some "B", [1, 2]⟩, .v4 1 5000, 5, 5, by decide⟩
    ⟨10, 100, _, _, by decide, hrun⟩ (by decide) _ rfl
  have hname := congrArg (fun pending => (pending (.v4 1 5000, 1)).map FragmentSet.channel) hsame
  revert hname
  decide

end LcmBridge
