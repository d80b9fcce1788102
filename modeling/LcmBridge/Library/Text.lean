import Mathlib.Data.List.Induction
import Mathlib.Tactic.Common

/-!
# Text

Taking text apart at its separators, reading it in steps that can fail, and
settings that are given more than once.

Splitting once is a search for the first separator, or for the last. Either is
determined by where the separator does not occur, so that each has one lemma:
the text is the first part, the separator and the second part, and one of the
parts is free of separators. Trimming gives back what was surrounded.

When a setting is given several times, the last value counts, but all of them
are read. `LastValue` is the relation this defines. It says nothing about the
order in which settings are read, which is the point of it.

## Main definitions

* `splitOnce`, `rsplitOnce`: Splitting at the first or the last separator.
* `trim`: Dropping elements at both ends.
* `LastValue`: All values can be read, and the last one counts.

## Theorems

* `splitOnce_eq_some_iff`, `rsplitOnce_eq_some_iff`: What splitting finds.
* `trim_append`: Trimming undoes surrounding.
* `mapError_eq_ok_iff`, `map_eq_ok_iff`: When a step that was mapped succeeds.
* `toOption_eq_of_iff`: Results that agree up to their errors.
* `lastValue_cons`: Reading one value before the others.
* `lastValue_concat`: The result when there are values.
* `lastValue_filterMap_cons`: Reading one entry before the others.
* `exists_lastValue_iff`: There is a result when all values can be read.
-/

namespace LcmBridge

namespace Text

/-! ### Splitting -/

section Split

variable {α : Type} [DecidableEq α] {sep : α}

/-- Split at the first separator. -/
def splitOnce (sep : α) : List α → Option (List α × List α)
  | [] => none
  | x :: xs =>
      if x = sep then some ([], xs)
      else (splitOnce sep xs).map (fun parts => (x :: parts.1, parts.2))

/-- Split at the last separator. -/
def rsplitOnce (sep : α) (xs : List α) : Option (List α × List α) :=
  (splitOnce sep xs.reverse).map (fun parts => (parts.2.reverse, parts.1.reverse))

theorem splitOnce_append {xs ys : List α} (h : sep ∉ xs) :
    splitOnce sep (xs ++ sep :: ys) = some (xs, ys) := by
  induction xs with
  | nil => simp only [List.nil_append, splitOnce, if_true]
  | cons x xs ih =>
      rw [List.mem_cons, not_or] at h
      rw [List.cons_append, splitOnce, if_neg (Ne.symm h.1), ih h.2]
      rfl

theorem splitOnce_eq_none {xs : List α} (h : sep ∉ xs) : splitOnce sep xs = none := by
  induction xs with
  | nil => rfl
  | cons x xs ih =>
      rw [List.mem_cons, not_or] at h
      rw [splitOnce, if_neg (Ne.symm h.1), ih h.2]
      rfl

/-- The first separator is the one with none before it. -/
theorem splitOnce_eq_some_iff {xs ys zs : List α} :
    splitOnce sep xs = some (ys, zs) ↔ xs = ys ++ sep :: zs ∧ sep ∉ ys := by
  constructor
  · intro h
    by_cases hsep : sep ∈ xs
    · rcases List.eq_append_cons_of_mem hsep with ⟨before, after, rfl, hbefore⟩
      rw [splitOnce_append hbefore, Option.some.injEq, Prod.mk.injEq] at h
      rw [← h.1, ← h.2]
      exact ⟨rfl, hbefore⟩
    · rw [splitOnce_eq_none hsep] at h
      exact absurd h (by simp only [reduceCtorEq, not_false_eq_true])
  · intro h
    rw [h.1, splitOnce_append h.2]

/-- The last separator is the one with none after it. -/
theorem rsplitOnce_eq_some_iff {xs ys zs : List α} :
    rsplitOnce sep xs = some (ys, zs) ↔ xs = ys ++ sep :: zs ∧ sep ∉ zs := by
  unfold rsplitOnce
  rw [Option.map_eq_some_iff]
  constructor
  · intro h
    rcases h with ⟨⟨before, after⟩, hsplit, heq⟩
    rcases splitOnce_eq_some_iff.mp hsplit with ⟨hrev, hbefore⟩
    rw [Prod.mk.injEq] at heq
    rw [← heq.1, ← heq.2, List.mem_reverse]
    refine ⟨?_, hbefore⟩
    rw [← List.reverse_reverse xs, hrev, List.reverse_append, List.reverse_cons, List.append_assoc,
      List.singleton_append]
  · intro h
    refine ⟨(zs.reverse, ys.reverse), splitOnce_eq_some_iff.mpr ⟨?_, ?_⟩, ?_⟩
    · rw [h.1, List.reverse_append, List.reverse_cons, List.append_assoc, List.singleton_append]
    · rw [List.mem_reverse]
      exact h.2
    · simp only [List.reverse_reverse]

end Split

/-! ### Trimming -/

section Trim

variable {α : Type} {p : α → Bool}

/-- Drop the elements at both ends that satisfy `p`. -/
def trim (p : α → Bool) (xs : List α) : List α :=
  ((xs.dropWhile p).reverse.dropWhile p).reverse

theorem dropWhile_append {ws xs ys : List α} (hws : ∀ x ∈ ws, p x = true)
    (hxs : ∀ x ∈ xs, p x = false) (hne : xs ≠ []) :
    (ws ++ (xs ++ ys)).dropWhile p = xs ++ ys := by
  rw [List.dropWhile_append_of_pos hws]
  cases xs with
  | nil => exact absurd rfl hne
  | cons x xs =>
      have hx : ¬ p x = true := by
        rw [hxs x List.mem_cons_self]
        exact Bool.false_ne_true
      rw [List.cons_append, List.dropWhile_cons_of_neg hx]

/-- Trimming gives back the text that was surrounded. -/
theorem trim_append {ws xs ws' : List α} (hws : ∀ x ∈ ws, p x = true)
    (hxs : ∀ x ∈ xs, p x = false) (hws' : ∀ x ∈ ws', p x = true) (hne : xs ≠ []) :
    trim p (ws ++ xs ++ ws') = xs := by
  have hrev : ∀ x ∈ xs.reverse, p x = false := fun x hx => hxs x (List.mem_reverse.mp hx)
  have hrev' : ∀ x ∈ ws'.reverse, p x = true := fun x hx => hws' x (List.mem_reverse.mp hx)
  have hback : (ws'.reverse ++ (xs.reverse ++ [])).dropWhile p = xs.reverse ++ [] :=
    dropWhile_append hrev' hrev (fun h => hne (List.reverse_eq_nil_iff.mp h))
  rw [List.append_nil] at hback
  rw [trim, List.append_assoc, dropWhile_append hws hxs hne, List.reverse_append, hback,
    List.reverse_reverse]

end Trim

/-! ### Results -/

section Results

variable {α β ε ε' : Type} {x : Except ε α} {a : α} {b : β}

theorem mapError_eq_ok_iff {f : ε → ε'} : x.mapError f = .ok a ↔ x = .ok a := by
  cases x with
  | error e => simp only [Except.mapError, reduceCtorEq]
  | ok a' => simp only [Except.mapError, Except.ok.injEq]

theorem map_eq_ok_iff {f : α → β} : x.map f = .ok b ↔ ∃ a, x = .ok a ∧ f a = b := by
  cases x with
  | error e => simp only [Except.map, reduceCtorEq, false_and, exists_false]
  | ok a => simp only [Except.map, Except.ok.injEq, exists_eq_left']

/-- Two results that succeed with the same values are the same up to the
    error. -/
theorem toOption_eq_of_iff {y : Except ε' α} (h : ∀ a, x = .ok a ↔ y = .ok a) :
    x.toOption = y.toOption := by
  cases x with
  | ok a =>
      rw [(h a).mp rfl]
      rfl
  | error e =>
      cases y with
      | error e' => rfl
      | ok a => exact absurd ((h a).mpr rfl) (by simp only [reduceCtorEq, not_false_eq_true])

end Results

/-! ### Settings -/

section Settings

variable {ν τ ε : Type} {parse : ν → Except ε τ} {init t : τ}

/-- All values can be read, and `t` is the last one, or `init` if there is
    none. -/
def LastValue (parse : ν → Except ε τ) (init : τ) (values : List ν) (t : τ) : Prop :=
  (∀ v ∈ values, ∃ u, parse v = .ok u) ∧
    values.getLast?.elim (t = init) (fun v => parse v = .ok t)

theorem lastValue_nil : LastValue parse init [] t ↔ t = init := by
  unfold LastValue
  simp only [List.not_mem_nil, false_imp_iff, implies_true, true_and, List.getLast?_nil,
    Option.elim_none]

theorem lastValue_concat {values : List ν} {v : ν} :
    LastValue parse init (values ++ [v]) t ↔
      (∀ w ∈ values, ∃ u, parse w = .ok u) ∧ parse v = .ok t := by
  unfold LastValue
  rw [List.getLast?_concat, Option.elim_some]
  constructor
  · intro h
    exact ⟨fun w hw => h.1 w (List.mem_append_left [v] hw), h.2⟩
  · intro h
    refine ⟨fun w hw => ?_, h.2⟩
    rcases List.mem_append.mp hw with hw | hw
    · exact h.1 w hw
    · rw [List.mem_singleton.mp hw]
      exact ⟨t, h.2⟩

/-- Reading one value before the others is starting from it. -/
theorem lastValue_cons {v : ν} {values : List ν} :
    LastValue parse init (v :: values) t ↔
      ∃ u, parse v = .ok u ∧ LastValue parse u values t := by
  induction values using List.reverseRecOn with
  | nil =>
      have hone : LastValue parse init ([] ++ [v]) t ↔
          (∀ w ∈ ([] : List ν), ∃ u, parse w = .ok u) ∧ parse v = .ok t := lastValue_concat
      rw [List.nil_append] at hone
      rw [hone]
      simp only [List.not_mem_nil, false_imp_iff, implies_true, true_and, lastValue_nil]
      constructor
      · intro h
        exact ⟨t, h, rfl⟩
      · intro h
        rcases h with ⟨u, hu, rfl⟩
        exact hu
  | append_singleton values w _ =>
      rw [← List.cons_append, lastValue_concat]
      simp only [lastValue_concat, List.forall_mem_cons]
      constructor
      · intro h
        rcases h with ⟨⟨⟨u, hu⟩, hall⟩, hlast⟩
        exact ⟨u, hu, hall, hlast⟩
      · intro h
        rcases h with ⟨u, hu, hall, hlast⟩
        exact ⟨⟨⟨u, hu⟩, hall⟩, hlast⟩

/-- The same for entries of which only some give a value. -/
theorem lastValue_filterMap_cons {α : Type} {f : α → Option ν} {a : α} {as : List α} :
    LastValue parse init ((a :: as).filterMap f) t ↔
      ∃ u, (f a).elim (u = init) (fun v => parse v = .ok u) ∧
        LastValue parse u (as.filterMap f) t := by
  cases hfa : f a with
  | none => simp only [List.filterMap_cons, hfa, Option.elim_none, exists_eq_left]
  | some v => simp only [List.filterMap_cons, hfa, Option.elim_some, lastValue_cons]

/-- There is a result exactly when all values can be read. -/
theorem exists_lastValue_iff {values : List ν} :
    (∃ t, LastValue parse init values t) ↔ ∀ v ∈ values, ∃ u, parse v = .ok u := by
  constructor
  · intro h
    rcases h with ⟨t, hall, _⟩
    exact hall
  · intro h
    cases hlast : values.getLast? with
    | none => exact ⟨init, h, by rw [hlast]; rfl⟩
    | some v =>
        rcases h v (List.mem_of_getLast? hlast) with ⟨t, ht⟩
        exact ⟨t, h, by rw [hlast]; exact ht⟩

end Settings

end Text

end LcmBridge
