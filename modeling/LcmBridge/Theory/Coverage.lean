import LcmBridge.Theory.Offered

/-!
# Where the Bytes of a Message Come From

The reassembler decides that a message is complete by counting fragment
numbers. Whether the chunks reach every position of the payload is another
matter, which it does not look at: chunks may be empty, overlap, or leave gaps.
A position under some chunk holds what the last such chunk put there. A
position under none holds the zero that the buffer was filled with.

Where the chunks do not overlap, as those of a sender that cuts a payload do
not, there is no such position exactly when their lengths add up to the
payload size.

## Main results

* `delivered_bytes`: Where each byte of a delivered message comes from.
* `uncovered_zeros`: A message of four zeros that no fragment carried.
-/

namespace LcmBridge

open FragmentReassembler

/-- Where each byte of a delivered message comes from: from the last accepted
    fragment over its position, or from the zero filling where there is none.
    When the accepted fragments do not overlap, they leave no gap exactly when
    their lengths add up. -/
theorem delivered_bytes (timeout : Duration) (maxMessageSize : Nat) (calls : List Call) :
    ∃ self results, (new timeout maxMessageSize).processAll calls = .ok (self, results) ∧
      ∀ i m, results[i]? = some (some m) →
        ∃ pieces, pieces = (accepted maxMessageSize
            (offeredTo timeout maxMessageSize calls i)).map (fun c => c.fragment.piece) ∧
          (∀ p ∈ pieces, p.Fits m.data.length) ∧
          (∀ pre p post x, pieces = pre ++ p :: post → p.Covers x → (∀ q ∈ post, ¬ q.Covers x) →
            m.data[x]? = p.bytes[x - p.offset]?) ∧
          (∀ x < m.data.length, (∀ p ∈ pieces, ¬ p.Covers x) → m.data[x]? = some 0) ∧
          (pieces.Pairwise Overlay.Piece.Apart →
            ((∀ x < m.data.length, ∃ p ∈ pieces, p.Covers x) ↔
              (pieces.map (fun p => p.bytes.length)).sum = m.data.length)) := by
  have hrun := processAll_eq calls (allValid_new timeout maxMessageSize)
  refine ⟨_, _, hrun, fun i m hm => ⟨_, rfl, ?_⟩⟩
  rcases offeredTo_of_delivery (P := fun _ => True) (fun _ _ => trivial) hrun hm with
    ⟨_, set, c, _, hset, _, _, rfl⟩
  have hbuffer : set.buffer = Overlay.overlay (List.replicate set.payloadSize.toNat 0)
      ((accepted maxMessageSize (offeredTo timeout maxMessageSize calls i)).map
        (fun c => c.fragment.piece)) := by
    rw [hset.filled.buffer_eq, List.map_map]
    rfl
  have hfits : ∀ p ∈ (accepted maxMessageSize (offeredTo timeout maxMessageSize calls i)).map
      (fun c => c.fragment.piece), p.Fits set.payloadSize.toNat := by
    intro p hp
    rcases List.mem_map.mp hp with ⟨d, hd, rfl⟩
    exact hset.filled.fits _ (List.mem_map_of_mem hd)
  generalize (accepted maxMessageSize (offeredTo timeout maxMessageSize calls i)).map
    (fun c => c.fragment.piece) = pieces at hbuffer hfits ⊢
  dsimp only
  rw [hset.valid.buffer_length, hbuffer]
  -- The buffer starts as zeros of the length of the payload.
  have hinside : ∀ p ∈ pieces,
      p.Fits (List.replicate set.payloadSize.toNat (0 : UInt8)).length := by
    rw [List.length_replicate]
    exact hfits
  refine ⟨hfits, ?_, ?_, Overlay.covers_iff_sum_length hfits⟩
  · intro pre p post x hsplit hcov hlast
    rw [hsplit] at hinside ⊢
    exact Overlay.getElem?_overlay_of_last hinside x hcov hlast
  · intro x hx hnone
    rw [Overlay.getElem?_overlay_of_not_covers hinside x hnone, List.getElem?_replicate_of_lt hx]

/-- A message of four zeros that no fragment carried: its only fragment is
    empty. -/
theorem uncovered_zeros :
    ∃ self,
      (new 10 100).processAll [⟨⟨1, 4, 0, 0, 1, some "A", []⟩, .v4 1 5000, 0, 0, by decide⟩]
        = .ok (self, [some ⟨"A", 1, [0, 0, 0, 0]⟩]) ∧
      ∀ c ∈ accepted 100 (offeredTo 10 100
          [⟨⟨1, 4, 0, 0, 1, some "A", []⟩, .v4 1 5000, 0, 0, by decide⟩] 0),
        ∀ x, ¬ c.fragment.piece.Covers x := by
  refine ⟨_, rfl, fun c hc x hcov => ?_⟩
  rw [List.mem_singleton.mp hc] at hcov
  exact absurd hcov.2 (Nat.not_lt.mpr hcov.1)

end LcmBridge
