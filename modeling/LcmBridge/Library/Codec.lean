import Mathlib.Tactic.Common

/-!
# Partial Codecs

An encoder that is faithful only on well-formed values, paired with a decoder
that accepts only encodings of well-formed values.

The two laws are the round trip in each direction. Everything else a reader
of such a format relies on follows: the round trip holds *exactly* on the
well-formed values, and rejection means exactly that no well-formed value
encodes to the input.

## Main definitions

* `Codec`: An encoder and a decoder with the round trip in each direction.

## Theorems

* `decode_encode_iff`: The round trip holds exactly on valid values.
* `decode_eq_none_iff`: Rejection means not the encoding of a valid value.
-/

namespace LcmBridge

/-- An encoder and a decoder that invert each other between the valid values
    and the accepted encodings. -/
structure Codec (α β : Type) where
  Valid : α → Prop
  encode : α → β
  decode : β → Option α
  decode_encode : ∀ a, Valid a → decode (encode a) = some a
  encode_decode : ∀ b a, decode b = some a → Valid a ∧ encode a = b

namespace Codec

variable {α β : Type} (C : Codec α β)

/-- The round trip fails on an invalid value: the decoder would have to return
    a value it never returns. -/
theorem decode_encode_iff (a : α) : C.decode (C.encode a) = some a ↔ C.Valid a := by
  constructor
  · intro h
    exact (C.encode_decode _ _ h).1
  · exact C.decode_encode a

-- What is refused is what nothing valid encodes to: each direction is one of
-- the two laws.
theorem decode_eq_none_iff (b : β) :
    C.decode b = none ↔ ¬ ∃ a, C.Valid a ∧ C.encode a = b := by
  constructor
  · rintro hnone ⟨a, hvalid, rfl⟩
    rw [C.decode_encode a hvalid] at hnone
    exact absurd hnone (by simp only [reduceCtorEq, not_false_eq_true])
  · intro hno
    cases hdec : C.decode b with
    | none => rfl
    | some a => exact absurd ⟨a, C.encode_decode b a hdec⟩ hno

end Codec

end LcmBridge
