import Mathlib.Algebra.GroupWithZero.Nat
import Mathlib.Data.List.Induction
import Mathlib.Order.Interval.Finset.Nat
import Mathlib.Tactic.Common

/-!
# Overlays

Assembling a buffer from pieces written over it one after another.

A piece is a list of elements and the offset it goes to. Pieces may be empty,
overlap, or leave gaps, and the order of writing matters exactly where they
overlap. It stops mattering when all pieces are cut from one original
(`Agrees`): then `overlay_eq_of_covers` gives back the original whatever the
order, the cuts, and the initial content of the buffer, as soon as the pieces
cover it.

## Main definitions

* `write`: One piece written over a buffer.
* `Piece`: Elements and the offset they go to.
* `Piece.Fits`, `Piece.Covers`, `Piece.Agrees`: A piece against a buffer.
* `overlay`: Several pieces written in order.
* `Piece.Apart`, `covered`: The positions that pieces go over.

## Theorems

* `length_write`, `length_overlay`: A write in range keeps the length.
* `getElem?_write`: What a write leaves at each position.
* `getElem?_overlay_of_not_covers`: Where no piece goes, the buffer shows.
* `getElem?_overlay_of_last`: Elsewhere, the last piece shows.
* `getElem?_overlay_of_agrees`: Where a piece goes, the original shows.
* `overlay_eq_of_covers`: Covering pieces of an original rebuild it.
* `agrees_slice`: A slice of the original agrees with it.
* `covers_iff_sum_length`: Pieces that lie apart cover a buffer when their
  lengths add up.
-/

namespace LcmBridge

namespace Overlay

variable {α : Type}

/-- Replace the elements at `offset` onwards by those of `chunk`. -/
def write (buf : List α) (offset : Nat) (chunk : List α) : List α :=
  buf.take offset ++ chunk ++ buf.drop (offset + chunk.length)

theorem length_write {buf chunk : List α} {offset : Nat}
    (h : offset + chunk.length ≤ buf.length) : (write buf offset chunk).length = buf.length := by
  simp only [write, List.length_append, List.length_take, List.length_drop]
  omega

-- A position is before the chunk, inside it, or after it.
theorem getElem?_write {buf chunk : List α} {offset : Nat}
    (h : offset + chunk.length ≤ buf.length) (i : Nat) :
    (write buf offset chunk)[i]?
      = if offset ≤ i ∧ i < offset + chunk.length then chunk[i - offset]? else buf[i]? := by
  have hlen : (buf.take offset).length = offset := by
    rw [List.length_take]
    omega
  have hlen2 : (buf.take offset ++ chunk).length = offset + chunk.length := by
    rw [List.length_append, hlen]
  rw [write]
  by_cases hlo : i < offset
  · -- Before the chunk.
    rw [if_neg (by omega), List.getElem?_append_left (by omega),
      List.getElem?_append_left (by omega), List.getElem?_take_of_lt hlo]
  · by_cases hhi : i < offset + chunk.length
    · -- Inside the chunk.
      rw [if_pos ⟨by omega, hhi⟩, List.getElem?_append_left (by omega),
        List.getElem?_append_right (by omega), hlen]
    · -- After the chunk.
      rw [if_neg (by omega), List.getElem?_append_right (by omega), hlen2, List.getElem?_drop]
      congr 1
      omega

/-- Elements and the offset they go to. -/
structure Piece (α : Type) where
  offset : Nat
  bytes : List α

/-- The piece lies within a buffer of `n` elements. -/
def Piece.Fits (p : Piece α) (n : Nat) : Prop := p.offset + p.bytes.length ≤ n

/-- The piece goes over position `i`. -/
def Piece.Covers (p : Piece α) (i : Nat) : Prop := p.offset ≤ i ∧ i < p.offset + p.bytes.length

/-- The piece is what `data` holds at its range. -/
def Piece.Agrees (p : Piece α) (data : List α) : Prop :=
  ∀ i, p.Covers i → p.bytes[i - p.offset]? = data[i]?

instance (p : Piece α) (n : Nat) : Decidable (p.Fits n) :=
  inferInstanceAs (Decidable (_ ≤ _))

instance (p : Piece α) (i : Nat) : Decidable (p.Covers i) :=
  inferInstanceAs (Decidable (_ ∧ _))

/-- Agreement is a matter of the elements of the piece. -/
theorem Piece.agrees_iff (p : Piece α) (data : List α) :
    p.Agrees data ↔ ∀ k < p.bytes.length, p.bytes[k]? = data[p.offset + k]? := by
  constructor
  · intro h k hk
    have hcov := h (p.offset + k) ⟨Nat.le_add_right _ _, Nat.add_lt_add_left hk _⟩
    rw [Nat.add_sub_cancel_left] at hcov
    exact hcov
  · rintro h i ⟨hlo, hhi⟩
    have hk := h (i - p.offset) (Nat.sub_lt_left_of_lt_add hlo hhi)
    rw [Nat.add_sub_cancel' hlo] at hk
    exact hk

instance [DecidableEq α] (p : Piece α) (data : List α) : Decidable (p.Agrees data) :=
  decidable_of_iff _ (p.agrees_iff data).symm

/-- Write the pieces over the buffer in order. -/
def overlay (buf : List α) (ps : List (Piece α)) : List α :=
  ps.foldl (fun b p => write b p.offset p.bytes) buf

theorem overlay_concat (buf : List α) (ps : List (Piece α)) (p : Piece α) :
    overlay buf (ps ++ [p]) = write (overlay buf ps) p.offset p.bytes := by
  simp only [overlay, List.foldl_append, List.foldl_cons, List.foldl_nil]

theorem overlay_append (buf : List α) (ps qs : List (Piece α)) :
    overlay buf (ps ++ qs) = overlay (overlay buf ps) qs := by
  simp only [overlay, List.foldl_append]

theorem length_overlay {buf : List α} {ps : List (Piece α)} (h : ∀ p ∈ ps, p.Fits buf.length) :
    (overlay buf ps).length = buf.length := by
  induction ps using List.reverseRecOn with
  | nil => rfl
  | append_singleton ps p ih =>
      have ihp := ih (fun q hq => h q (List.mem_append_left [p] hq))
      have hp := h p List.mem_concat_self
      rw [overlay_concat, length_write (by rw [ihp]; exact hp), ihp]

-- From the end of the list: the last piece does not go over the position.
theorem getElem?_overlay_of_not_covers {buf : List α} {ps : List (Piece α)}
    (h : ∀ p ∈ ps, p.Fits buf.length) (i : Nat) (hi : ∀ p ∈ ps, ¬ p.Covers i) :
    (overlay buf ps)[i]? = buf[i]? := by
  induction ps using List.reverseRecOn with
  | nil => rfl
  | append_singleton ps p ih =>
      have hfit := fun q hq => h q (List.mem_append_left [p] hq)
      have hp := h p List.mem_concat_self
      have hout : ¬ (p.offset ≤ i ∧ i < p.offset + p.bytes.length) := hi p List.mem_concat_self
      rw [overlay_concat, getElem?_write (by rw [length_overlay hfit]; exact hp), if_neg hout]
      exact ih hfit (fun q hq => hi q (List.mem_append_left [p] hq))

/-- Where the last piece over a position puts an element, it shows. -/
theorem getElem?_overlay_of_last {buf : List α} {pre post : List (Piece α)} {p : Piece α}
    (h : ∀ q ∈ pre ++ p :: post, q.Fits buf.length) (i : Nat) (hi : p.Covers i)
    (hlast : ∀ q ∈ post, ¬ q.Covers i) :
    (overlay buf (pre ++ p :: post))[i]? = p.bytes[i - p.offset]? := by
  have hsplit : pre ++ p :: post = (pre ++ [p]) ++ post := by
    rw [List.append_assoc, List.singleton_append]
  rw [hsplit] at h ⊢
  have hpre : ∀ q ∈ pre ++ [p], q.Fits buf.length := fun q hq => h q (List.mem_append_left post hq)
  have hlen : (overlay buf pre).length = buf.length :=
    length_overlay (fun q hq => hpre q (List.mem_append_left [p] hq))
  have hpost : ∀ q ∈ post, q.Fits (overlay buf (pre ++ [p])).length := by
    intro q hq
    rw [length_overlay hpre]
    exact h q (List.mem_append_right _ hq)
  -- What comes after the piece does not touch the position.
  rw [overlay_append, getElem?_overlay_of_not_covers hpost i hlast, overlay_concat,
    getElem?_write (by rw [hlen]; exact hpre p List.mem_concat_self)]
  exact if_pos hi

/-- The last piece over a position decides it, and every piece agrees with the
    original, so it does not matter which one was last. -/
theorem getElem?_overlay_of_agrees {buf data : List α} {ps : List (Piece α)}
    (h : ∀ p ∈ ps, p.Fits buf.length) (hag : ∀ p ∈ ps, p.Agrees data) (i : Nat)
    (hi : ∃ p ∈ ps, p.Covers i) : (overlay buf ps)[i]? = data[i]? := by
  induction ps using List.reverseRecOn with
  | nil =>
      rcases hi with ⟨p, hp, _⟩
      exact absurd hp List.not_mem_nil
  | append_singleton ps p ih =>
      have hfit := fun q hq => h q (List.mem_append_left [p] hq)
      have hp := h p List.mem_concat_self
      rw [overlay_concat, getElem?_write (by rw [length_overlay hfit]; exact hp)]
      by_cases hcov : p.offset ≤ i ∧ i < p.offset + p.bytes.length
      · rw [if_pos hcov]
        exact hag p List.mem_concat_self i hcov
      · rw [if_neg hcov]
        refine ih hfit (fun q hq => hag q (List.mem_append_left [p] hq)) ?_
        rcases hi with ⟨q, hq, hqi⟩
        rcases List.mem_append.mp hq with hq' | hq'
        · exact ⟨q, hq', hqi⟩
        · rw [List.mem_singleton.mp hq'] at hqi
          exact absurd hqi hcov

-- Position by position, so that neither the order of the pieces nor what the
-- buffer held before comes in.
theorem overlay_eq_of_covers {buf data : List α} {ps : List (Piece α)}
    (hlen : buf.length = data.length) (h : ∀ p ∈ ps, p.Fits buf.length)
    (hag : ∀ p ∈ ps, p.Agrees data) (hcov : ∀ i < data.length, ∃ p ∈ ps, p.Covers i) :
    overlay buf ps = data := by
  apply List.ext_getElem?
  intro i
  by_cases hi : i < data.length
  · exact getElem?_overlay_of_agrees h hag i (hcov i hi)
  · rw [List.getElem?_eq_none (by rw [length_overlay h]; omega),
      List.getElem?_eq_none (by omega)]

/-- A slice of the original agrees with it. -/
theorem agrees_slice (data : List α) (start stop : Nat) :
    (Piece.mk start ((data.take stop).drop start)).Agrees data := by
  rintro i ⟨hlo, hhi⟩
  simp only [List.length_drop, List.length_take] at hlo hhi
  simp only [List.getElem?_drop]
  rw [show start + (i - start) = i by omega, List.getElem?_take_of_lt (by omega)]

/-! ### What pieces cover -/

/-- The pieces have no position in common. -/
def Piece.Apart (p q : Piece α) : Prop := ∀ i, ¬ (p.Covers i ∧ q.Covers i)

/-- The positions that some piece goes over. -/
def covered (ps : List (Piece α)) : Finset Nat :=
  ps.foldr (fun p s => Finset.Ico p.offset (p.offset + p.bytes.length) ∪ s) ∅

theorem covered_cons (p : Piece α) (ps : List (Piece α)) :
    covered (p :: ps) = Finset.Ico p.offset (p.offset + p.bytes.length) ∪ covered ps := rfl

theorem mem_covered {ps : List (Piece α)} {i : Nat} : i ∈ covered ps ↔ ∃ p ∈ ps, p.Covers i := by
  induction ps with
  | nil => simp only [covered, List.foldr_nil, Finset.notMem_empty, List.not_mem_nil, false_and,
      exists_false]
  | cons p ps ih =>
      rw [covered_cons, Finset.mem_union, Finset.mem_Ico, ih]
      simp only [List.mem_cons, exists_eq_or_imp, Piece.Covers]

-- Piece by piece, each one apart from all that follow.
theorem card_covered {ps : List (Piece α)} (h : ps.Pairwise Piece.Apart) :
    (covered ps).card = (ps.map (fun p => p.bytes.length)).sum := by
  induction ps with
  | nil => rfl
  | cons p ps ih =>
      rw [List.pairwise_cons] at h
      have hdisjoint : Disjoint (Finset.Ico p.offset (p.offset + p.bytes.length)) (covered ps) := by
        rw [Finset.disjoint_left]
        intro i hi hcov
        rcases mem_covered.mp hcov with ⟨q, hq, hqi⟩
        exact h.1 q hq i ⟨Finset.mem_Ico.mp hi, hqi⟩
      rw [covered_cons, Finset.card_union_of_disjoint hdisjoint, Nat.card_Ico, ih h.2,
        List.map_cons, List.sum_cons, Nat.add_sub_cancel_left]

/-- Pieces apart from each other cover a buffer exactly when their lengths add
    up to its length. -/
theorem covers_iff_sum_length {n : Nat} {ps : List (Piece α)} (h : ∀ p ∈ ps, p.Fits n)
    (hapart : ps.Pairwise Piece.Apart) :
    (∀ i < n, ∃ p ∈ ps, p.Covers i) ↔ (ps.map (fun p => p.bytes.length)).sum = n := by
  have hsub : covered ps ⊆ Finset.range n := by
    intro i hi
    rcases mem_covered.mp hi with ⟨p, hp, _, hhi⟩
    exact Finset.mem_range.mpr (Nat.lt_of_lt_of_le hhi (h p hp))
  rw [← card_covered hapart]
  constructor
  · intro hall
    have heq : covered ps = Finset.range n := by
      refine Finset.Subset.antisymm hsub (fun i hi => ?_)
      exact mem_covered.mpr (hall i (Finset.mem_range.mp hi))
    rw [heq, Finset.card_range]
  · intro hcard i hi
    have heq : covered ps = Finset.range n :=
      Finset.eq_of_subset_of_card_le hsub (by rw [hcard, Finset.card_range])
    rw [← mem_covered, heq, Finset.mem_range]
    exact hi

end Overlay

end LcmBridge
