import Mathlib.Data.List.Nodup
import LcmBridge.Theory.Slot

/-!
# What a Set Is Made Of

A pending set summarises the fragments it has accepted.

`FragmentSet.Valid` says that the fields of a set fit together; it does not
say where they come from. `Filled` ties them to a list of fragments in the
order of acceptance: the mask marks their numbers, no number twice, and the
buffer is what writing their data over zeros in that order gives.

The counter is compared with the number of fragments to decide whether a
message is complete. `complete_iff` says that this comparison means what it is
meant to: every number has arrived.

## Main definitions

* `Fragment.number`, `Fragment.piece`: A fragment as a numbered piece.
* `FragmentSet.Filled`: A set as the summary of the fragments it accepted.

## Theorems

* `filled_fresh`, `filled_storeChannel`, `filled_place`: How sets are filled.
* `complete_iff`: The counter is full exactly when every number has arrived.
* `numbers_perm`: The numbers in a complete set are those below the count.
* `offer_cases`: What an offer does to a filled entry.
-/

namespace LcmBridge

/-- The number of a fragment, as an index. -/
def Fragment.number (fragment : Fragment) : Nat := fragment.fragmentNumber.toNat

/-- The data of a fragment and where they go. -/
def Fragment.piece (fragment : Fragment) : Overlay.Piece UInt8 :=
  ⟨fragment.fragmentOffset.toNat, fragment.data⟩

/-- The set is what accepting these fragments, in this order, made of it. -/
structure FragmentSet.Filled (set : FragmentSet) (parts : List Fragment) : Prop where
  payload_eq : ∀ f ∈ parts, f.payloadSize = set.payloadSize
  count_eq : ∀ f ∈ parts, f.nFragments = set.nFragments
  fits : ∀ f ∈ parts, f.piece.Fits set.payloadSize.toNat
  numbers_lt : ∀ f ∈ parts, f.number < set.nFragments.toNat
  numbers_nodup : (parts.map Fragment.number).Nodup
  mask : ∀ i < set.nFragments.toNat,
    set.receivedMask[i]? = some (decide (i ∈ parts.map Fragment.number))
  buffer_eq : set.buffer
    = Overlay.overlay (List.replicate set.payloadSize.toNat 0) (parts.map Fragment.piece)

theorem filled_fresh (fragment : Fragment) (now : Instant) :
    (FragmentSet.fresh fragment now).Filled [] where
  payload_eq f hf := absurd hf List.not_mem_nil
  count_eq f hf := absurd hf List.not_mem_nil
  fits f hf := absurd hf List.not_mem_nil
  numbers_lt f hf := absurd hf List.not_mem_nil
  numbers_nodup := List.nodup_nil
  mask i hi := by
    simp only [List.map_nil, List.not_mem_nil, decide_false]
    exact List.getElem?_replicate_of_lt hi
  buffer_eq := rfl

theorem filled_storeChannel {set : FragmentSet} {parts : List Fragment} (h : set.Filled parts)
    (fragment : Fragment) : (set.storeChannel fragment).Filled parts := by
  rcases storeChannel_eq set fragment with ⟨channel, heq⟩
  rw [heq]
  exact ⟨h.payload_eq, h.count_eq, h.fits, h.numbers_lt, h.numbers_nodup, h.mask, h.buffer_eq⟩

/-- A set has a free place for a fragment exactly when the number is in range
    and not among those that have arrived. -/
theorem mask_eq_some_false_iff {set : FragmentSet} {parts : List Fragment} (hv : set.Valid)
    (h : set.Filled parts) (i : Nat) :
    set.receivedMask[i]? = some false ↔
      i < set.nFragments.toNat ∧ i ∉ parts.map Fragment.number := by
  by_cases hi : i < set.nFragments.toNat
  · simp only [h.mask i hi, Option.some.injEq, decide_eq_false_iff_not, hi, true_and]
  · rw [List.getElem?_eq_none (by rw [hv.mask_length]; omega)]
    simp only [reduceCtorEq, hi, false_and]

/-- What holds of the elements of a list holds with one more at its end. -/
theorem forall_mem_concat {α : Type} {P : α → Prop} {xs : List α} {x : α} (h : ∀ y ∈ xs, P y)
    (hx : P x) : ∀ y ∈ xs ++ [x], P y :=
  List.forall_mem_append.mpr ⟨h, List.forall_mem_singleton.mpr hx⟩

-- What is said of all fragments holds of the old ones and of the new one. The
-- mask and the buffer are changed in one place each.
theorem filled_place {set : FragmentSet} {parts : List Fragment} {fragment : Fragment}
    (hv : set.Valid) (h : set.Filled parts) (hacc : set.Accepts fragment) :
    (set.place fragment).Filled (parts ++ [fragment]) := by
  obtain ⟨hpayload, hcount, hfree, hfit⟩ := hacc
  rcases (mask_eq_some_false_iff hv h _).mp hfree with ⟨hlt, hnew⟩
  rw [hv.buffer_length] at hfit
  constructor
  · exact forall_mem_concat h.payload_eq hpayload
  · exact forall_mem_concat h.count_eq hcount
  · exact forall_mem_concat h.fits hfit
  · exact forall_mem_concat h.numbers_lt hlt
  · rw [List.map_append, List.map_singleton, List.nodup_append]
    refine ⟨h.numbers_nodup, List.nodup_singleton _, fun a ha b hb hab => ?_⟩
    rw [hab, List.mem_singleton.mp hb] at ha
    exact hnew ha
  · intro i hi
    have hmem : i ∈ (parts ++ [fragment]).map Fragment.number ↔
        fragment.fragmentNumber.toNat = i ∨ i ∈ parts.map Fragment.number := by
      rw [List.map_append, List.mem_append, List.map_singleton, List.mem_singleton, or_comm,
        eq_comm]
      rfl
    have hlen : fragment.fragmentNumber.toNat < set.receivedMask.length := by
      rw [hv.mask_length]
      exact hlt
    simp only [FragmentSet.place, List.getElem?_set, hlen, if_true, hmem]
    by_cases hnum : fragment.fragmentNumber.toNat = i
    · simp only [hnum, if_true, true_or, decide_true]
    · simp only [hnum, if_false, false_or]
      exact h.mask i hi
  · simp only [FragmentSet.place, h.buffer_eq, List.map_append, List.map_singleton,
      Overlay.overlay_concat]
    rfl

/-- The counter is full exactly when every number has arrived. -/
theorem complete_iff {set : FragmentSet} {parts : List Fragment} (hv : set.Valid)
    (h : set.Filled parts) :
    set.fragmentsReceived = set.nFragments ↔
      ∀ i < set.nFragments.toNat, i ∈ parts.map Fragment.number := by
  -- The counter is the number of places taken, so it is full when all are.
  rw [← UInt16.toNat_inj, hv.received_count, ← hv.mask_length, List.count_eq_length]
  constructor
  · intro hall i hi
    rw [hv.mask_length] at hi
    have hget := h.mask i hi
    have htrue := hall _ (List.mem_of_getElem? hget)
    exact of_decide_eq_true htrue.symm
  · intro hall b hb
    rcases List.getElem?_of_mem hb with ⟨i, hget⟩
    have hi : i < set.nFragments.toNat := by
      rw [← hv.mask_length]
      exact (List.getElem?_eq_some_iff.mp hget).1
    rw [h.mask i hi, Option.some.injEq] at hget
    rw [← hget]
    refine (decide_eq_true (hall i ?_)).symm
    rw [hv.mask_length]
    exact hi

/-- Every number has arrived, and once: the numbers are those below the
    count. -/
theorem numbers_perm {set : FragmentSet} {parts : List Fragment} (h : set.Filled parts)
    (hall : ∀ i < set.nFragments.toNat, i ∈ parts.map Fragment.number) :
    (parts.map Fragment.number).Perm (List.range set.nFragments.toNat) := by
  rw [List.perm_ext_iff_of_nodup h.numbers_nodup List.nodup_range]
  intro i
  rw [List.mem_range]
  constructor
  · intro hi
    rcases List.mem_map.mp hi with ⟨f, hf, rfl⟩
    exact h.numbers_lt f hf
  · exact hall i

/-- The three outcomes of an offer that is not refused for its size, on the set
    the entry holds or gets: dropped, kept, or kept as the last one missing. -/
theorem offer_cases {maxMessageSize : Nat} {fragment : Fragment} {insertNow : Instant}
    {slot : Option FragmentSet} (hsize : ¬ fragment.payloadSize.toNat > maxMessageSize) :
    let set := (slot.getD (FragmentSet.fresh fragment insertNow)).storeChannel fragment
    (¬ set.Accepts fragment ∧ offer maxMessageSize fragment insertNow slot = (some set, none)) ∨
    (set.Accepts fragment ∧
      (set.place fragment).fragmentsReceived ≠ (set.place fragment).nFragments ∧
      offer maxMessageSize fragment insertNow slot = (some (set.place fragment), none)) ∨
    (set.Accepts fragment ∧
      (set.place fragment).fragmentsReceived = (set.place fragment).nFragments ∧
      offer maxMessageSize fragment insertNow slot
        = (none, some ⟨(set.place fragment).channel, fragment.sequenceNumber,
            (set.place fragment).buffer⟩)) := by
  intro set
  unfold offer
  rw [if_neg hsize]
  by_cases hacc : set.Accepts fragment
  · by_cases hfull : (set.place fragment).fragmentsReceived = (set.place fragment).nFragments
    · refine Or.inr (Or.inr ⟨hacc, hfull, ?_⟩)
      dsimp only
      rw [if_pos hacc, if_pos hfull]
    · refine Or.inr (Or.inl ⟨hacc, hfull, ?_⟩)
      dsimp only
      rw [if_pos hacc, if_neg hfull]
  · refine Or.inl ⟨hacc, ?_⟩
    dsimp only
    rw [if_neg hacc]

end LcmBridge
