import Mathlib.Data.List.Basic
import Mathlib.Data.List.Induction
import Mathlib.Data.List.Perm.Subperm

/-!
# Lists by Class

Lists whose elements fall into numbered classes.

The class of an element is read off the element, and `c` is a name for each of
the first `n` classes. A list whose elements are all in these classes is the
classes one after the other, up to order (`perm_flatMap_filter`), and where a
list was put together from one part for each class, filtering gives the parts
back (`filter_flatten_class`).

## Theorems

* `perm_flatMap_filter`: A list is its classes.
* `filter_flatten_class`: One class of a list put together by class.
* `filterMap_eq_flatMap_range`: A list by position.
* `subperm_filterMap`, `subperm_map`: Part of a list, and a function on both.
-/

namespace LcmBridge

variable {α K : Type} [DecidableEq K] {cls : α → K} {c : Nat → K}

-- Induction on the number of classes, taking the last one out.
theorem perm_flatMap_filter {n : Nat} {l : List α}
    (hinj : ∀ i < n, ∀ j < n, c i = c j → i = j) (hmem : ∀ x ∈ l, ∃ k < n, cls x = c k) :
    l.Perm ((List.range n).flatMap (fun k => l.filter (fun x => cls x = c k))) := by
  induction n generalizing l with
  | zero =>
      cases l with
      | nil => exact List.Perm.refl _
      | cons x l =>
          rcases hmem x List.mem_cons_self with ⟨k, hk, _⟩
          exact absurd hk (Nat.not_lt_zero k)
  | succ n ih =>
      have hrest : ∀ x ∈ l.filter (fun x => !decide (cls x = c n)), ∃ k < n, cls x = c k := by
        intro x hx
        rcases List.mem_filter.mp hx with ⟨hx, hne⟩
        rcases hmem x hx with ⟨k, hk, hcls⟩
        refine ⟨k, ?_, hcls⟩
        have hkn : k ≠ n := by
          intro hkn
          rw [hkn] at hcls
          simp only [hcls, decide_true, Bool.not_true, Bool.false_eq_true] at hne
        omega
      have hparts := ih (fun i hi j hj => hinj i (by omega) j (by omega)) hrest
      -- The elements of the other classes are not in the last one.
      have hsame : ∀ k ∈ List.range n,
          (l.filter (fun x => !decide (cls x = c n))).filter (fun x => decide (cls x = c k))
            = l.filter (fun x => decide (cls x = c k)) := by
        intro k hk
        have hkn := List.mem_range.mp hk
        rw [List.filter_filter]
        refine List.filter_congr (fun x _ => ?_)
        by_cases hx : cls x = c k
        · have hne : ¬ c k = c n := fun h => absurd (hinj k (by omega) n (by omega) h) (by omega)
          simp only [hx, decide_true, hne, decide_false, Bool.not_false, Bool.and_self]
        · simp only [hx, decide_false, Bool.false_and]
      rw [List.flatMap_congr hsame] at hparts
      rw [List.range_succ, List.flatMap_append, List.flatMap_singleton]
      exact (List.filter_append_perm (fun x => decide (cls x = c n)) l).symm.trans
        ((hparts.append_left _).trans List.perm_append_comm)

theorem filter_flatten_class {parts : List (List α)} {k : Nat} {part : List α}
    (hinj : ∀ i < parts.length, ∀ j < parts.length, c i = c j → i = j)
    (hcls : ∀ j part, parts[j]? = some part → ∀ x ∈ part, cls x = c j)
    (hk : parts[k]? = some part) :
    parts.flatten.filter (fun x => cls x = c k) = part := by
  have hlt : k < parts.length := (List.getElem?_eq_some_iff.mp hk).1
  -- The parts before and after contribute nothing.
  have hother : ∀ ps : List (List α),
      (∀ p ∈ ps, ∃ j < parts.length, j ≠ k ∧ parts[j]? = some p) →
      ps.flatten.filter (fun x => cls x = c k) = [] := by
    intro ps hps
    rw [List.filter_eq_nil_iff]
    intro x hx heq
    rcases List.mem_flatten.mp hx with ⟨p, hp, hxp⟩
    rcases hps p hp with ⟨j, hj, hne, hpart⟩
    have hclass := of_decide_eq_true heq
    rw [hcls j p hpart x hxp] at hclass
    exact hne (hinj j hj k hlt hclass)
  have hown : part.filter (fun x => cls x = c k) = part := by
    rw [List.filter_eq_self]
    intro x hx
    exact decide_eq_true (hcls k part hk x hx)
  have hsplit : parts = parts.take k ++ part :: parts.drop (k + 1) := by
    rw [← (List.getElem?_eq_some_iff.mp hk).2, ← List.drop_eq_getElem_cons hlt,
      List.take_append_drop]
  rw [hsplit, List.flatten_append, List.flatten_cons, List.filter_append, List.filter_append, hown,
    hother, hother, List.nil_append, List.append_nil]
  · intro p hp
    rcases List.mem_iff_getElem?.mp hp with ⟨j, hj⟩
    rw [List.getElem?_drop] at hj
    exact ⟨k + 1 + j, (List.getElem?_eq_some_iff.mp hj).1, by omega, hj⟩
  · intro p hp
    rcases List.mem_iff_getElem?.mp hp with ⟨j, hj⟩
    have hjk := (List.getElem?_eq_some_iff.mp hj).1
    rw [List.length_take] at hjk
    rw [List.getElem?_take_of_lt (by omega)] at hj
    exact ⟨j, by omega, by omega, hj⟩

omit [DecidableEq K] in
theorem filterMap_eq_flatMap_range (f : α → Option K) (l : List α) :
    l.filterMap f = (List.range l.length).flatMap (fun k => (l[k]?.bind f).toList) := by
  induction l using List.reverseRecOn with
  | nil => rfl
  | append_singleton l x ih =>
      have hold : ∀ k ∈ List.range l.length,
          ((l ++ [x])[k]?.bind f).toList = (l[k]?.bind f).toList := by
        intro k hk
        rw [List.getElem?_append_left (List.mem_range.mp hk)]
      rw [List.length_append, List.length_singleton, List.range_succ, List.flatMap_append,
        List.flatMap_singleton, List.flatMap_congr hold, ← ih, List.filterMap_append,
        List.getElem?_concat_length, Option.bind_some]
      cases hx : f x with
      | none => rw [List.filterMap_cons_none hx, List.filterMap_nil, Option.toList_none]
      | some y => rw [List.filterMap_cons_some hx, List.filterMap_nil, Option.toList_some]

omit [DecidableEq K] in
theorem subperm_filterMap (f : α → Option K) {l l' : List α} (h : l.Subperm l') :
    (l.filterMap f).Subperm (l'.filterMap f) := by
  rcases h with ⟨m, hperm, hsub⟩
  exact ⟨m.filterMap f, hperm.filterMap f, hsub.filterMap f⟩

omit [DecidableEq K] in
theorem subperm_map (f : α → K) {l l' : List α} (h : l.Subperm l') :
    (l.map f).Subperm (l'.map f) := by
  rcases h with ⟨m, hperm, hsub⟩
  exact ⟨m.map f, hperm.map f, hsub.map f⟩

end LcmBridge
