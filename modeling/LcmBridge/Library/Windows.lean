import Mathlib.Data.List.Basic
import Mathlib.Tactic.Common

/-!
# Windows

Cutting a list into consecutive windows, the first of one size and all others
of another.

The cut points do not depend on the list. Past its end the windows are empty,
so any number of them can be asked for, and a prefix of them is the list up to
the next cut point (`flatten_windows`). `needed` is the least number that
takes in the whole list, by ceiling division; `le_cut_iff` is the statement
that it is.

## Main definitions

* `cut`: Where a window starts.
* `window`: One window of a list.
* `needed`: The number of windows a list of a given length takes.

## Theorems

* `cut_succ_of_pos`, `cut_mono`: The cut points advance.
* `le_cut_iff`: A number of windows takes in a length when it is needed.
* `cut_lt_of_lt_needed`: No needed window starts past the end.
* `length_window`: The length of a window, at the end too.
* `flatten_windows`: The first windows together are a prefix.
* `exists_window`: Every position of the list falls in a window.
-/

namespace LcmBridge

namespace Windows

variable {α : Type} (first sub : Nat)

/-- Where window `i` starts. -/
def cut : Nat → Nat
  | 0 => 0
  | i + 1 => first + i * sub

/-- Window `i` of a list. -/
def window (xs : List α) (i : Nat) : List α :=
  (xs.take (cut first sub (i + 1))).drop (cut first sub i)

/-- The number of windows a list of length `len` takes. One is always taken,
    however short the list. -/
def needed (len : Nat) : Nat := 1 + (len - first + (sub - 1)) / sub

@[simp] theorem cut_zero : cut first sub 0 = 0 := rfl

theorem cut_succ (i : Nat) : cut first sub (i + 1) = first + i * sub := rfl

theorem cut_one : cut first sub 1 = first := by
  rw [cut_succ, Nat.zero_mul, Nat.add_zero]

/-- All windows but the first have the same size. -/
theorem cut_succ_of_pos {i : Nat} (hi : 0 < i) : cut first sub (i + 1) = cut first sub i + sub := by
  cases i with
  | zero => omega
  | succ i =>
      rw [cut_succ, cut_succ, Nat.add_mul, Nat.one_mul, Nat.add_assoc]

theorem cut_le_succ (i : Nat) : cut first sub i ≤ cut first sub (i + 1) := by
  by_cases hi : 0 < i
  · rw [cut_succ_of_pos first sub hi]
    exact Nat.le_add_right _ _
  · rw [Nat.eq_zero_of_not_pos hi, cut_zero]
    exact Nat.zero_le _

theorem cut_mono {i j : Nat} (h : i ≤ j) : cut first sub i ≤ cut first sub j := by
  induction h with
  | refl => exact Nat.le_refl _
  | step _ ih => exact Nat.le_trans ih (cut_le_succ first sub _)

variable {sub} in
/-- The windows up to `n` take in a length exactly when no more are needed. -/
theorem le_cut_iff (hsub : 0 < sub) (len n : Nat) :
    len ≤ cut first sub (n + 1) ↔ needed first sub len ≤ n + 1 := by
  have hceil : (len - first + (sub - 1)) / sub ≤ n ↔ len - first ≤ n * sub := by
    rw [← Nat.lt_succ_iff, Nat.div_lt_iff_lt_mul hsub, Nat.succ_mul]
    omega
  unfold needed
  rw [cut_succ, Nat.add_comm 1, Nat.add_le_add_iff_right, hceil]
  omega

theorem needed_pos (len : Nat) : 0 < needed first sub len := by
  unfold needed
  exact Nat.lt_of_lt_of_le Nat.zero_lt_one (Nat.le_add_right 1 _)

variable {sub} in
theorem le_cut_needed (hsub : 0 < sub) (len : Nat) :
    len ≤ cut first sub (needed first sub len) := by
  have hpos := needed_pos first sub len
  have h := (le_cut_iff first hsub len (needed first sub len - 1)).mpr (by omega)
  rwa [Nat.sub_add_cancel hpos] at h

variable {sub} in
/-- A window that is needed, other than the first, starts before the end. -/
theorem cut_lt_of_lt_needed (hsub : 0 < sub) {len i : Nat} (hpos : 0 < i)
    (hi : i < needed first sub len) : cut first sub i < len := by
  by_contra hle
  have h := (le_cut_iff first hsub len (i - 1)).mp (by
    rw [Nat.sub_add_cancel hpos]
    exact Nat.le_of_not_lt hle)
  omega

variable {sub} in
theorem cut_le_of_lt_needed (hsub : 0 < sub) {len i : Nat} (hi : i < needed first sub len) :
    cut first sub i ≤ len := by
  by_cases hpos : 0 < i
  · exact Nat.le_of_lt (cut_lt_of_lt_needed first hsub hpos hi)
  · rw [Nat.eq_zero_of_not_pos hpos, cut_zero]
    exact Nat.zero_le len

theorem length_window (xs : List α) (i : Nat) :
    (window first sub xs i).length
      = min (cut first sub (i + 1)) xs.length - min (cut first sub i) xs.length := by
  have hle := cut_le_succ first sub i
  unfold window
  rw [List.length_drop, List.length_take]
  omega

/-- A window, joined to what comes before it. -/
theorem take_append_window (xs : List α) (i : Nat) :
    xs.take (cut first sub i) ++ window first sub xs i = xs.take (cut first sub (i + 1)) := by
  have hle := cut_le_succ first sub i
  have htake : xs.take (cut first sub i)
      = (xs.take (cut first sub (i + 1))).take (cut first sub i) := by
    rw [List.take_take, Nat.min_eq_left hle]
  unfold window
  rw [htake, List.take_append_drop]

/-- The first `n` windows together are the list up to the next cut. -/
theorem flatten_windows (xs : List α) (n : Nat) :
    ((List.range n).map (window first sub xs)).flatten = xs.take (cut first sub n) := by
  induction n with
  | zero => rfl
  | succ n ih =>
      rw [List.range_succ, List.map_append, List.flatten_append, ih, List.map_singleton,
        List.flatten_singleton, take_append_window]

/-- Every position before the last cut falls in a window. -/
theorem exists_window {n i : Nat} (hi : i < cut first sub n) :
    ∃ k < n, cut first sub k ≤ i ∧ i < cut first sub (k + 1) := by
  induction n with
  | zero => exact absurd hi (Nat.not_lt_zero i)
  | succ n ih =>
      by_cases hlt : i < cut first sub n
      · rcases ih hlt with ⟨k, hk, hlo, hhi⟩
        exact ⟨k, Nat.lt_succ_of_lt hk, hlo, hhi⟩
      · exact ⟨n, Nat.lt_succ_self n, Nat.le_of_not_lt hlt, hi⟩

end Windows

end LcmBridge
