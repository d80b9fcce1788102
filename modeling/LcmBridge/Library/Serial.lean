import Mathlib.Data.Finset.Card
import Mathlib.Data.UInt

/-!
# Serial Numbers

Numbers handed out by a 32 bit counter that wraps around.

There are two ways to say how old such a number is. `behind` goes round: it is
how many numbers ago this one was handed out, if the counter has not gone all
the way round since. The other is the order of the numbers themselves. The two
agree as long as nothing older than the last wrap is around
(`behind_of_le`), and are far apart otherwise (`behind_of_lt`).

`windowStart` is the lower end of a window of recent numbers in the second
sense, and it does not wrap. Such a window always contains what is recent in
the first sense (`windowStart_le_of_behind`), but it is bounded by it only
where the two agree (`behind_le_of_windowStart`).

## Main definitions

* `behind`: How far a number is behind another one.
* `windowStart`: The lower end of a window that does not wrap.

## Theorems

* `behind_add`: What the counter advances is what a number falls behind.
* `card_le_of_behind`: There are few recent numbers.
* `windowStart_le_of_behind`, `behind_le_of_windowStart`: The two notions of
  recent compared.
-/

namespace LcmBridge

namespace Serial

/-- How far a number is behind the latest one, going round. -/
def behind (latest s : UInt32) : Nat := (latest - s).toNat

/-- The lower end of the window of this width below the latest number. At the
    bottom of the range it stays at zero. -/
def windowStart (width : Nat) (latest : UInt32) : UInt32 := UInt32.ofNat (latest.toNat - width)

variable {latest s : UInt32} {width : Nat}

theorem toNat_windowStart (width : Nat) (latest : UInt32) :
    (windowStart width latest).toNat = latest.toNat - width := by
  have hlt := latest.toNat_lt
  rw [windowStart, UInt32.toNat_ofNat_of_lt']
  simp only [UInt32.size]
  omega

theorem behind_self (s : UInt32) : behind s s = 0 := by
  rw [behind, UInt32.sub_self]
  rfl

theorem behind_of_le (h : s ≤ latest) : behind latest s = latest.toNat - s.toNat :=
  UInt32.toNat_sub_of_le latest s h

/-- Numbers above the latest one are from before the counter wrapped. -/
theorem behind_of_lt (h : latest < s) :
    behind latest s = latest.toNat + 4294967296 - s.toNat := by
  have hlt := s.toNat_lt
  rw [UInt32.lt_iff_toNat_lt] at h
  rw [behind, UInt32.toNat_sub]
  omega

/-- A number falls behind by what the counter advances. -/
theorem behind_add (s : UInt32) {n : Nat} (h : n < 4294967296) :
    behind (s + UInt32.ofNat n) s = n := by
  rw [behind, UInt32.add_comm, UInt32.add_sub_cancel, UInt32.toNat_ofNat_of_lt' h]

/-- There are no more numbers within a distance than the distance allows. -/
theorem card_le_of_behind {numbers : Finset UInt32} {latest : UInt32} {width : Nat}
    (h : ∀ s ∈ numbers, behind latest s ≤ width) : numbers.card ≤ width + 1 := by
  rw [← Finset.card_range (width + 1)]
  refine Finset.card_le_card_of_injOn (behind latest) (fun s hs => ?_) (fun s _ t _ heq => ?_)
  · have hbehind := h s hs
    exact Finset.mem_coe.mpr (Finset.mem_range.mpr (by omega))
  · -- The distance determines the number.
    have hsub : latest - s = latest - t := UInt32.toNat_inj.mp heq
    exact (UInt32.sub_right_inj latest).mp hsub

/-- A window that does not wrap contains every recent number. -/
theorem windowStart_le_of_behind (h : behind latest s ≤ width) : windowStart width latest ≤ s := by
  rw [UInt32.le_iff_toNat_le, toNat_windowStart]
  by_cases hle : s ≤ latest
  · rw [behind_of_le hle] at h
    omega
  · -- Above the latest number, it is above the window's lower end.
    rw [UInt32.not_le, UInt32.lt_iff_toNat_lt] at hle
    omega

/-- Below the latest number, such a window contains only recent numbers. -/
theorem behind_le_of_windowStart (hle : s ≤ latest) (h : windowStart width latest ≤ s) :
    behind latest s ≤ width := by
  rw [UInt32.le_iff_toNat_le, toNat_windowStart] at h
  rw [behind_of_le hle]
  omega

/-- A number from before the wrap is only recent if the window has run into the
    bottom of the range. -/
theorem windowStart_eq_zero_of_behind (hlt : latest < s) (h : behind latest s ≤ width) :
    windowStart width latest = 0 := by
  have hs := s.toNat_lt
  rw [behind_of_lt hlt] at h
  rw [← UInt32.toNat_inj, toNat_windowStart, UInt32.toNat_zero]
  omega

end Serial

end LcmBridge
