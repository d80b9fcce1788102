import Mathlib.Data.List.Basic

/-!
# The Potential Method

What a sequence of steps costs altogether.

Each step turns one value into the next and costs something that depends on the
value before it. A step may cost much, as long as cheap steps have saved up for
it. What is saved is a potential of the value, so that a step's cost and the
potential after it are covered by the potential before it and by what the step
is paid (`totalCost_le`). Only some steps are paid, all at the same rate, so
that the bound is a count.

The condition on a step is asked for at the places of one sequence only. What is
known of the values there may come from the run that the sequence was taken
from.

## Main definitions

* `replay`: The value after a sequence of steps.
* `totalCost`: The cost of a sequence of steps.

## Theorems

* `totalCost_le`: The cost is covered by what is paid.
-/

namespace LcmBridge

namespace Potential

variable {T B : Type} (next : B → T → T) (cost : B → T → Nat)

/-- The value after a sequence of steps. -/
def replay : T → List B → T
  | t, [] => t
  | t, b :: bs => replay (next b t) bs

/-- The cost of a sequence of steps. -/
def totalCost : T → List B → Nat
  | _, [] => 0
  | t, b :: bs => cost b t + totalCost (next b t) bs

theorem replay_concat (t : T) (bs : List B) (b : B) :
    replay next t (bs ++ [b]) = next b (replay next t bs) := by
  induction bs generalizing t with
  | nil => rfl
  | cons b' bs ih => exact ih (next b' t)

theorem totalCost_mul (k : Nat) (t : T) (bs : List B) :
    totalCost next (fun b t => k * cost b t) t bs = k * totalCost next cost t bs := by
  induction bs generalizing t with
  | nil => rfl
  | cons b bs ih => rw [totalCost, totalCost, ih, Nat.mul_add]

variable {next cost}

-- Induction on the steps; the places after the first are those of the rest.
theorem totalCost_le (potential : T → Nat) (paid : B → Bool) (rate : Nat) {t : T} {bs : List B}
    (h : ∀ pre b post, bs = pre ++ b :: post →
      cost b (replay next t pre) + potential (next b (replay next t pre))
        ≤ potential (replay next t pre) + (if paid b then rate else 0)) :
    totalCost next cost t bs + potential (replay next t bs)
      ≤ potential t + rate * bs.countP paid := by
  induction bs generalizing t with
  | nil => exact Nat.le_of_eq (Nat.add_comm 0 (potential t))
  | cons b bs ih =>
      have hfirst : cost b t + potential (next b t) ≤ potential t + (if paid b then rate else 0) :=
        h [] b bs rfl
      have hrest : totalCost next cost (next b t) bs + potential (replay next (next b t) bs)
          ≤ potential (next b t) + rate * bs.countP paid :=
        ih (fun pre b' post hsplit => h (b :: pre) b' post (by rw [hsplit, List.cons_append]))
      rw [totalCost, replay, List.countP_cons, Nat.mul_add]
      by_cases hpaid : paid b = true
      · rw [if_pos hpaid] at hfirst
        rw [if_pos hpaid, Nat.mul_one]
        omega
      · rw [if_neg hpaid] at hfirst
        rw [if_neg hpaid, Nat.mul_zero]
        omega

end Potential

end LcmBridge
