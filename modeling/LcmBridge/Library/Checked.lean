import Mathlib.Tactic.Common

/-!
# Checked Computations

Machine arithmetic and slices as a Rust program performs them, with every
panic made visible.

A computation is an `Except Panic`. An addition that does not fit its type, a
division by zero, an index or a slice out of range, and an `unwrap` of nothing
each stop it. A model written in these operations can be shown free of panics
rather than assumed to be, and a claim about what a call returns is a claim
about its `.ok` results.

`usize` is 64 bits wide. Its values are natural numbers; only the operations
know the width.

Every operation has a lemma that it succeeds when it is in range, with the
range as a side condition. Where a proof starts from a success, an `_eq_ok`
lemma inverts it.

## Main definitions

* `Panic`: The ways a computation can stop.
* `Exec`: A computation that may panic.
* `addUsize`, `subUsize`, `divUsize`: Checked arithmetic on `usize`.
* `addU16`: Checked addition on `u16`.
* `checkedAdd`: The addition that reports overflow instead of panicking.
* `index`, `store`, `slice`, `copyFromSlice`: Checked access to a vector.

## Theorems

* `bind_eq_ok`: Inverting the success of a sequence.
* `addUsize_eq_ok`, `slice_eq_ok`: Inverting a success.
* `copyFromSlice_of_le`: A copy in range replaces just that range.
-/

namespace LcmBridge

/-- The ways a computation can panic. -/
inductive Panic where
  | arithmeticOverflow
  | divisionByZero
  | indexOutOfBounds
  | sliceOutOfRange
  | unwrapOnNone
  deriving DecidableEq, Repr

/-- A computation that may panic. -/
abbrev Exec (α : Type) : Type := Except Panic α

namespace Checked

variable {α β ε : Type}

@[simp] theorem ok_bind (a : α) (f : α → Except ε β) :
    ((Except.ok a : Except ε α) >>= f) = f a := rfl

@[simp] theorem error_bind (e : ε) (f : α → Except ε β) :
    ((Except.error e : Except ε α) >>= f) = Except.error e := rfl

theorem bind_eq_ok {x : Except ε α} {f : α → Except ε β} {b : β} :
    (x >>= f) = .ok b ↔ ∃ a, x = .ok a ∧ f a = .ok b := by
  cases x with
  | error e => simp only [error_bind, reduceCtorEq, false_and, exists_false]
  | ok a => simp only [ok_bind, Except.ok.injEq, exists_eq_left']

/-- One more than the largest `usize`. -/
def usizeBound : Nat := 18446744073709551616

/-- `a + b` on `usize`. -/
def addUsize (a b : Nat) : Exec Nat :=
  if a + b < usizeBound then .ok (a + b) else .error .arithmeticOverflow

/-- `a - b` on `usize`. -/
def subUsize (a b : Nat) : Exec Nat :=
  if b ≤ a then .ok (a - b) else .error .arithmeticOverflow

/-- `a / b` on `usize`. -/
def divUsize (a b : Nat) : Exec Nat :=
  if b = 0 then .error .divisionByZero else .ok (a / b)

/-- `a.checked_add(b)` on `usize`. -/
def checkedAdd (a b : Nat) : Option Nat :=
  if a + b < usizeBound then some (a + b) else none

/-- `a + b` on `u16`. -/
def addU16 (a b : UInt16) : Exec UInt16 :=
  if a.toNat + b.toNat < 65536 then .ok (a + b) else .error .arithmeticOverflow

/-- `xs[i]`. -/
def index (xs : List α) (i : Nat) : Exec α :=
  match xs[i]? with
  | some x => .ok x
  | none => .error .indexOutOfBounds

/-- `xs[i] = x`. -/
def store (xs : List α) (i : Nat) (x : α) : Exec (List α) :=
  if i < xs.length then .ok (xs.set i x) else .error .indexOutOfBounds

/-- `&xs[start..stop]`. -/
def slice (xs : List α) (start stop : Nat) : Exec (List α) :=
  if start ≤ stop ∧ stop ≤ xs.length then .ok ((xs.take stop).drop start)
  else .error .sliceOutOfRange

/-- `xs[start..stop].copy_from_slice(chunk)`. -/
def copyFromSlice (xs : List α) (start stop : Nat) (chunk : List α) : Exec (List α) :=
  if start ≤ stop ∧ stop ≤ xs.length ∧ chunk.length = stop - start then
    .ok (xs.take start ++ chunk ++ xs.drop stop)
  else .error .sliceOutOfRange

@[simp] theorem addUsize_of_lt {a b : Nat} (h : a + b < usizeBound) : addUsize a b = .ok (a + b) := by
  rw [addUsize, if_pos h]

theorem addUsize_eq_ok {a b c : Nat} :
    addUsize a b = .ok c ↔ a + b < usizeBound ∧ c = a + b := by
  rw [addUsize]
  split
  · simp only [Except.ok.injEq, *, true_and, eq_comm]
  · simp only [reduceCtorEq, *, false_and]

@[simp] theorem subUsize_of_le {a b : Nat} (h : b ≤ a) : subUsize a b = .ok (a - b) := by
  rw [subUsize, if_pos h]

@[simp] theorem divUsize_of_pos {a b : Nat} (h : 0 < b) : divUsize a b = .ok (a / b) := by
  rw [divUsize, if_neg (by omega)]

theorem checkedAdd_of_lt {a b : Nat} (h : a + b < usizeBound) :
    checkedAdd a b = some (a + b) := by
  rw [checkedAdd, if_pos h]

theorem addU16_of_lt {a b : UInt16} (h : a.toNat + b.toNat < 65536) : addU16 a b = .ok (a + b) := by
  rw [addU16, if_pos h]

theorem index_of_lt {xs : List α} {i : Nat} (h : i < xs.length) : index xs i = .ok xs[i] := by
  rw [index, List.getElem?_eq_getElem h]

theorem store_of_lt {xs : List α} {i : Nat} (x : α) (h : i < xs.length) :
    store xs i x = .ok (xs.set i x) := by
  rw [store, if_pos h]

theorem slice_of_le {xs : List α} {start stop : Nat} (h1 : start ≤ stop) (h2 : stop ≤ xs.length) :
    slice xs start stop = .ok ((xs.take stop).drop start) := by
  rw [slice, if_pos ⟨h1, h2⟩]

theorem slice_eq_ok {xs ys : List α} {start stop : Nat} :
    slice xs start stop = .ok ys ↔
      (start ≤ stop ∧ stop ≤ xs.length) ∧ ys = (xs.take stop).drop start := by
  rw [slice]
  split
  · simp only [Except.ok.injEq, *, true_and, eq_comm]
  · simp only [reduceCtorEq, *, false_and]

theorem copyFromSlice_of_le {xs chunk : List α} {start : Nat}
    (h : start + chunk.length ≤ xs.length) :
    copyFromSlice xs start (start + chunk.length) chunk
      = .ok (xs.take start ++ chunk ++ xs.drop (start + chunk.length)) := by
  rw [copyFromSlice, if_pos ⟨by omega, h, by omega⟩]

end Checked

end LcmBridge
