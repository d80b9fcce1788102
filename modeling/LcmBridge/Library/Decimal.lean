import Mathlib.Data.List.Basic
import Mathlib.Data.List.Induction
import Mathlib.Tactic.Common

/-!
# Decimal Numerals

Digits, and the number they stand for.

A number has many numerals, because zeros may stand in front of it. The one it
is written with has none, and it is the only one that has none, so a reader
that refuses leading zeros accepts each number in one way
(`IsNumeral.eq_toDigits`).

## Main definitions

* `IsNumeral`: Digits that stand for a number.

## Theorems

* `isNumeral_toDigits`: A number as it is written.
* `toDigits_head`: It is written without leading zeros.
* `IsNumeral.eq_toDigits`: No other numeral is without them.
* `le_ofDigitChars`: More digits make a larger number.
-/

namespace LcmBridge

namespace Decimal

/-- The digits stand for the number. -/
structure IsNumeral (cs : List Char) (n : Nat) : Prop where
  ne_nil : cs ≠ []
  digits : ∀ c ∈ cs, c.isDigit = true
  value : Nat.ofDigitChars 10 cs 0 = n

variable {cs : List Char} {c : Char} {n : Nat}

theorem isNumeral_toDigits (n : Nat) : IsNumeral (Nat.toDigits 10 n) n where
  ne_nil := Nat.toDigits_ne_nil
  digits _ hc := Nat.isDigit_of_mem_toDigits (by decide) (by decide) hc
  value := Nat.ofDigitChars_ten_toDigits

/-- A digit is written as itself. -/
theorem digitChar_of_isDigit (h : c.isDigit = true) :
    c.toNat - '0'.toNat < 10 ∧ (c.toNat - '0'.toNat).digitChar = c := by
  rw [Char.isDigit_iff_toNat] at h
  have hzero : '0'.toNat = 48 := rfl
  have hnine : '9'.toNat = 57 := rfl
  have hlt : c.toNat - '0'.toNat < 10 := by omega
  refine ⟨hlt, Char.toNat_inj.mp ?_⟩
  rw [Nat.toNat_digitChar_of_lt_ten hlt]
  omega

theorem le_ofDigitChars (cs : List Char) (n : Nat) : n ≤ Nat.ofDigitChars 10 cs n := by
  induction cs generalizing n with
  | nil => exact Nat.le_of_eq Nat.ofDigitChars_nil.symm
  | cons c cs ih =>
      rw [Nat.ofDigitChars_cons]
      exact Nat.le_trans (by omega) (ih _)

-- Induction on the number of digits, taking off the last one.
theorem toDigits_head (n : Nat) (h : (Nat.toDigits 10 n).head? = some '0') : n = 0 := by
  induction n using Nat.strongRecOn with
  | ind n ih =>
      by_cases hlt : n < 10
      · rw [Nat.toDigits_of_lt_base hlt, List.head?_cons, Option.some.injEq] at h
        have hnat := congrArg Char.toNat h
        rw [Nat.toNat_digitChar_of_lt_ten hlt] at hnat
        have hzero : '0'.toNat = 48 := rfl
        omega
      · rw [Nat.toDigits_of_base_le (by decide) (Nat.le_of_not_lt hlt),
          List.head?_append_of_ne_nil _ Nat.toDigits_ne_nil] at h
        have hdiv := ih (n / 10) (by omega) h
        omega

-- Induction on the digits from the right. Without the last one they have no
-- leading zero either, and they are not zero, so the last one can be appended.
theorem IsNumeral.eq_toDigits (h : IsNumeral cs n) (hlead : cs.head? = some '0' → cs.length = 1) :
    cs = Nat.toDigits 10 n := by
  induction cs using List.reverseRecOn generalizing n with
  | nil => exact absurd rfl h.ne_nil
  | append_singleton ds c ih =>
      have hvalue := h.value
      rw [Nat.ofDigitChars_append, Nat.ofDigitChars_cons, Nat.ofDigitChars_nil] at hvalue
      rcases digitChar_of_isDigit (h.digits c List.mem_concat_self) with ⟨hlt, hchar⟩
      by_cases hnil : ds = []
      · rw [hnil, Nat.ofDigitChars_nil, Nat.mul_zero, Nat.zero_add] at hvalue
        rw [hnil, List.nil_append, ← hvalue, Nat.toDigits_of_lt_base hlt, hchar]
      · have hnolead : ds.head? ≠ some '0' := by
          intro hhead
          have hlength := hlead (by rw [List.head?_append_of_ne_nil _ hnil, hhead])
          rw [List.length_append, List.length_singleton] at hlength
          exact hnil (List.eq_nil_of_length_eq_zero (by omega))
        have hds : IsNumeral ds (Nat.ofDigitChars 10 ds 0) :=
          ⟨hnil, fun d hd => h.digits d (List.mem_append_left _ hd), rfl⟩
        have hwritten := ih hds (fun hhead => absurd hhead hnolead)
        have hpos : 0 < Nat.ofDigitChars 10 ds 0 := by
          by_contra hzero
          rw [Nat.eq_zero_of_not_pos hzero, Nat.toDigits_zero] at hwritten
          exact hnolead (by rw [hwritten, List.head?_cons])
        rw [← hvalue, ← Nat.toDigits_append_toDigits (by decide) hpos hlt, ← hwritten,
          Nat.toDigits_of_lt_base hlt, hchar]

end Decimal

end LcmBridge
