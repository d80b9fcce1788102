import Mathlib.Data.List.Basic
import Mathlib.Data.List.Induction

/-!
# Machines with Outputs

Runs of a step function that consumes one input, produces one output, and may
refuse.

`runAll` is the whole run: the final state and the outputs, one for each
input. A refusal anywhere refuses the run. `runAll_append` splits a run at
any point, and the invariant rules (`runAll_invariant`, `runAll_invariant_mem`,
`runAll_invariant_outputs`) lift a fact about one step to every run, so that no
development has to induct over a list of inputs for it again.

Safety claims speak about one output in the middle of a run.
`runAll_getElem?` connects it with the step that produced it: the state
before that step is the one the earlier inputs lead to.

## Main definitions

* `runAll`: The run of a step function over a list of inputs.

## Theorems

* `runAll_append`, `runAll_eq_ok_append`, `runAll_split`: A run splits at any
  point, of its inputs or of its outputs.
* `runAll_length`: One output for each input.
* `runAll_invariant`, `runAll_invariant_mem`: What every step preserves, every
  run preserves.
* `runAll_invariant_outputs`: The same, of the state and the outputs so far.
* `runAll_getElem?`, `runAll_step_at`: The step behind an output.
* `exists_step_of_error`: The step that refuses a run.
* `runAll_project`: A run seen by one component.
* `runAll_simulate`: Two machines in lockstep.
-/

namespace LcmBridge

namespace Machine

variable {S A B ε : Type}

/-- Feed the inputs to the step function in order, collecting the outputs. -/
def runAll (step : S → A → Except ε (S × B)) : S → List A → Except ε (S × List B)
  | s, [] => .ok (s, [])
  | s, a :: as =>
      match step s a with
      | .error e => .error e
      | .ok (s', b) =>
          match runAll step s' as with
          | .error e => .error e
          | .ok (t, bs) => .ok (t, b :: bs)

variable {step : S → A → Except ε (S × B)}

@[simp] theorem runAll_nil (s : S) : runAll step s [] = .ok (s, []) := rfl

theorem runAll_cons_eq_ok {s t : S} {a : A} {as : List A} {bs : List B} :
    runAll step s (a :: as) = .ok (t, bs) ↔
      ∃ s' b bs', step s a = .ok (s', b) ∧ runAll step s' as = .ok (t, bs') ∧ bs = b :: bs' := by
  rw [runAll]
  constructor
  · intro h
    split at h
    · simp only [reduceCtorEq] at h
    · next s' b hstep =>
        split at h
        · simp only [reduceCtorEq] at h
        · next t' bs' hrest =>
            simp only [Except.ok.injEq, Prod.mk.injEq] at h
            rcases h with ⟨rfl, rfl⟩
            exact ⟨s', b, bs', hstep, hrest, rfl⟩
  · intro h
    rcases h with ⟨s', b, bs', hstep, hrest, rfl⟩
    simp only [hstep, hrest]

-- Induction on the first part, peeling one step off both runs.
theorem runAll_append {s t : S} {as as' : List A} {bs : List B} :
    runAll step s (as ++ as') = .ok (t, bs) ↔
      ∃ u bs₁ bs₂, runAll step s as = .ok (u, bs₁) ∧ runAll step u as' = .ok (t, bs₂) ∧
        bs = bs₁ ++ bs₂ := by
  induction as generalizing s bs with
  | nil =>
      simp only [List.nil_append, runAll_nil, Except.ok.injEq, Prod.mk.injEq]
      constructor
      · intro h
        exact ⟨s, [], bs, ⟨rfl, rfl⟩, h, rfl⟩
      · intro h
        rcases h with ⟨_, _, _, ⟨rfl, rfl⟩, h, rfl⟩
        exact h
  | cons a as ih =>
      rw [List.cons_append, runAll_cons_eq_ok]
      constructor
      · intro h
        rcases h with ⟨s', b, bs', hstep, hrest, rfl⟩
        rcases ih.mp hrest with ⟨u, bs₁, bs₂, h1, h2, rfl⟩
        exact ⟨u, b :: bs₁, bs₂, runAll_cons_eq_ok.mpr ⟨s', b, bs₁, hstep, h1, rfl⟩, h2, rfl⟩
      · intro h
        rcases h with ⟨u, bs₁, bs₂, h1, h2, rfl⟩
        rcases runAll_cons_eq_ok.mp h1 with ⟨s', b, bs', hstep, hrest, rfl⟩
        exact ⟨s', b, bs' ++ bs₂, hstep, ih.mpr ⟨u, bs', bs₂, hrest, h2, rfl⟩, rfl⟩

/-- A run splits at any point of its outputs. -/
theorem runAll_eq_ok_append {s t : S} {as : List A} {bs₁ bs₂ : List B} :
    runAll step s as = .ok (t, bs₁ ++ bs₂) ↔
      ∃ as₁ as₂ u, as = as₁ ++ as₂ ∧ runAll step s as₁ = .ok (u, bs₁) ∧
        runAll step u as₂ = .ok (t, bs₂) := by
  constructor
  · induction bs₁ generalizing s as with
    | nil =>
        intro h
        exact ⟨[], as, s, rfl, rfl, h⟩
    | cons b bs₁ ih =>
        intro h
        cases as with
        | nil => simp only [runAll_nil, List.cons_append, Except.ok.injEq, Prod.mk.injEq,
            reduceCtorEq, and_false] at h
        | cons a as =>
            rcases runAll_cons_eq_ok.mp h with ⟨s', b', bs', hfirst, hrest, hbs⟩
            rw [List.cons_append, List.cons.injEq] at hbs
            rcases hbs with ⟨rfl, rfl⟩
            rcases ih hrest with ⟨as₁, as₂, u, rfl, h1, h2⟩
            exact ⟨a :: as₁, as₂, u, rfl, runAll_cons_eq_ok.mpr ⟨s', b, bs₁, hfirst, h1, rfl⟩, h2⟩
  · intro h
    rcases h with ⟨as₁, as₂, u, rfl, h1, h2⟩
    exact runAll_append.mpr ⟨u, bs₁, bs₂, h1, h2, rfl⟩

/-- A run splits around any of its outputs, at the step behind it. -/
theorem runAll_split {s t : S} {as : List A} {pre post : List B} {b : B}
    (h : runAll step s as = .ok (t, pre ++ b :: post)) :
    ∃ as₁ a as₂ u u', as = as₁ ++ a :: as₂ ∧ runAll step s as₁ = .ok (u, pre) ∧
      step u a = .ok (u', b) ∧ runAll step u' as₂ = .ok (t, post) := by
  rcases runAll_eq_ok_append.mp h with ⟨as₁, rest, u, rfl, hpre, hrest⟩
  cases rest with
  | nil => simp only [runAll_nil, Except.ok.injEq, Prod.mk.injEq, reduceCtorEq, and_false] at hrest
  | cons a as₂ =>
      rcases runAll_cons_eq_ok.mp hrest with ⟨u', b', post', hstep, hpost, heq⟩
      rw [List.cons.injEq] at heq
      rcases heq with ⟨rfl, rfl⟩
      exact ⟨as₁, a, as₂, u, u', rfl, hpre, hstep, hpost⟩

theorem runAll_singleton {s t : S} {a : A} {bs : List B} :
    runAll step s [a] = .ok (t, bs) ↔ ∃ b, step s a = .ok (t, b) ∧ bs = [b] := by
  rw [runAll_cons_eq_ok]
  constructor
  · intro h
    rcases h with ⟨s', b, bs', hstep, hnil, rfl⟩
    simp only [runAll_nil, Except.ok.injEq, Prod.mk.injEq] at hnil
    rcases hnil with ⟨rfl, rfl⟩
    exact ⟨b, hstep, rfl⟩
  · intro h
    rcases h with ⟨b, hstep, rfl⟩
    exact ⟨t, b, [], hstep, rfl, rfl⟩

/-- Extending a run by one step, the form an induction over the end of the
    input list needs. -/
theorem runAll_concat {s t : S} {as : List A} {a : A} {bs : List B} :
    runAll step s (as ++ [a]) = .ok (t, bs) ↔
      ∃ u bs' b, runAll step s as = .ok (u, bs') ∧ step u a = .ok (t, b) ∧ bs = bs' ++ [b] := by
  rw [runAll_append]
  constructor
  · intro h
    rcases h with ⟨u, bs₁, bs₂, h1, h2, rfl⟩
    rcases runAll_singleton.mp h2 with ⟨b, hstep, rfl⟩
    exact ⟨u, bs₁, b, h1, hstep, rfl⟩
  · intro h
    rcases h with ⟨u, bs', b, h1, hstep, rfl⟩
    exact ⟨u, bs', [b], h1, runAll_singleton.mpr ⟨b, hstep, rfl⟩, rfl⟩

theorem runAll_length {s t : S} {as : List A} {bs : List B}
    (h : runAll step s as = .ok (t, bs)) : bs.length = as.length := by
  induction as generalizing s bs with
  | nil =>
      simp only [runAll_nil, Except.ok.injEq, Prod.mk.injEq] at h
      rw [← h.2]
      rfl
  | cons a as ih =>
      rcases runAll_cons_eq_ok.mp h with ⟨s', b, bs', _, hrest, rfl⟩
      simp only [List.length_cons, ih hrest]

/-- What every step on one of the inputs preserves, a run over them preserves. -/
theorem runAll_invariant_mem (Inv : S → Prop) {as : List A}
    (hstep : ∀ s, ∀ a ∈ as, ∀ s' b, Inv s → step s a = .ok (s', b) → Inv s')
    {s t : S} {bs : List B} (hs : Inv s) (h : runAll step s as = .ok (t, bs)) : Inv t := by
  induction as generalizing s bs with
  | nil =>
      simp only [runAll_nil, Except.ok.injEq, Prod.mk.injEq] at h
      rw [← h.1]
      exact hs
  | cons a as ih =>
      rcases runAll_cons_eq_ok.mp h with ⟨s', b, bs', hfirst, hrest, _⟩
      exact ih (fun u x hx => hstep u x (List.mem_cons_of_mem a hx))
        (hstep s a List.mem_cons_self s' b hs hfirst) hrest

/-- What every step preserves, every run preserves. -/
theorem runAll_invariant (Inv : S → Prop)
    (hstep : ∀ s a s' b, Inv s → step s a = .ok (s', b) → Inv s')
    {s t : S} {as : List A} {bs : List B} (hs : Inv s) (h : runAll step s as = .ok (t, bs)) :
    Inv t :=
  runAll_invariant_mem Inv (fun u a _ => hstep u a) hs h

/-- What every step preserves of the state and the outputs so far, every run
    preserves. -/
theorem runAll_invariant_outputs (Inv : S → List B → Prop)
    (hstep : ∀ s out a s' b, Inv s out → step s a = .ok (s', b) → Inv s' (out ++ [b]))
    {s t : S} {as : List A} {bs : List B} (hs : Inv s []) (h : runAll step s as = .ok (t, bs)) :
    Inv t bs := by
  -- Induction on the end of the input list, where the outputs grow.
  induction as using List.reverseRecOn generalizing t bs with
  | nil =>
      simp only [runAll_nil, Except.ok.injEq, Prod.mk.injEq] at h
      rw [← h.1, ← h.2]
      exact hs
  | append_singleton as a ih =>
      rcases runAll_concat.mp h with ⟨u, out, b, hrun, hlast, rfl⟩
      exact hstep u out a t b (ih hrun) hlast

/-- The step behind an output: its input stands at the same position, and the
    state before it is the one the earlier inputs lead to. -/
theorem runAll_getElem? {s t : S} {as : List A} {bs : List B}
    (h : runAll step s as = .ok (t, bs)) (i : Nat) (b : B) :
    bs[i]? = some b ↔
      ∃ pre a post u u' bs', as = pre ++ a :: post ∧ pre.length = i ∧
        runAll step s pre = .ok (u, bs') ∧ step u a = .ok (u', b) := by
  constructor
  · intro hb
    have hlen := runAll_length h
    have hi : i < as.length := by
      rw [← hlen]
      exact (List.getElem?_eq_some_iff.mp hb).1
    have hsplit : as = as.take i ++ as[i] :: as.drop (i + 1) := by
      rw [← List.drop_eq_getElem_cons hi, List.take_append_drop]
    have hrun := h
    rw [hsplit] at hrun
    rcases runAll_append.mp hrun with ⟨u, bs₁, bs₂, h1, h2, rfl⟩
    rcases runAll_cons_eq_ok.mp h2 with ⟨u', b', bs', hstep, _, rfl⟩
    have hlen1 : bs₁.length = i := by
      rw [runAll_length h1, List.length_take]
      omega
    rw [List.getElem?_append_right (by omega), hlen1, Nat.sub_self, List.getElem?_cons_zero,
      Option.some.injEq] at hb
    refine ⟨as.take i, as[i], as.drop (i + 1), u, u', bs₁, hsplit, ?_, h1, ?_⟩
    · rw [List.length_take]
      omega
    · rw [hstep, hb]
  · intro h
    rcases h with ⟨pre, a, post, u, u', bs', rfl, rfl, h1, hstep⟩
    rcases runAll_append.mp h with ⟨v, bs₁, bs₂, h1', h2, rfl⟩
    rw [h1, Except.ok.injEq, Prod.mk.injEq] at h1'
    rcases h1' with ⟨rfl, rfl⟩
    rcases runAll_cons_eq_ok.mp h2 with ⟨u'', b'', bs'', hstep', _, rfl⟩
    rw [hstep, Except.ok.injEq, Prod.mk.injEq] at hstep'
    rw [List.getElem?_append_right (Nat.le_of_eq (runAll_length h1)), runAll_length h1, Nat.sub_self,
      List.getElem?_cons_zero, hstep'.2]

/-- The step at a position of a run, with what comes before and after it on
    both sides. -/
theorem runAll_step_at {s t : S} {as : List A} {bs : List B}
    (h : runAll step s as = .ok (t, bs)) {i : Nat} {a : A} {b : B} (ha : as[i]? = some a)
    (hb : bs[i]? = some b) :
    ∃ pre post u u' out rest, as = pre ++ a :: post ∧ bs = out ++ b :: rest ∧ pre.length = i ∧
      runAll step s pre = .ok (u, out) ∧ step u a = .ok (u', b) := by
  rcases (runAll_getElem? h i b).mp hb with ⟨pre, a', post, u, u', out, rfl, rfl, hpre, hstep⟩
  rw [List.getElem?_append_right (Nat.le_refl _), Nat.sub_self, List.getElem?_cons_zero,
    Option.some.injEq] at ha
  rcases runAll_append.mp h with ⟨v, out', rest, hpre', hpost, rfl⟩
  rw [hpre, Except.ok.injEq, Prod.mk.injEq] at hpre'
  rcases runAll_cons_eq_ok.mp hpost with ⟨v', b', rest', hstep', _, rfl⟩
  rw [← hpre'.1, hstep, Except.ok.injEq, Prod.mk.injEq] at hstep'
  refine ⟨pre, post, u, u', out, rest', ?_, ?_, rfl, hpre, ?_⟩
  · rw [ha]
  · rw [hpre'.2, hstep'.2]
  · rw [← ha]
    exact hstep

/-- A run is refused by one of its steps, in the state the earlier inputs lead
    to. -/
theorem exists_step_of_error {s : S} {as : List A} {e : ε} (h : runAll step s as = .error e) :
    ∃ pre a post u bs, as = pre ++ a :: post ∧ runAll step s pre = .ok (u, bs) ∧
      step u a = .error e := by
  induction as generalizing s with
  | nil => exact absurd h (by simp only [runAll_nil, reduceCtorEq, not_false_eq_true])
  | cons a as ih =>
      rw [runAll] at h
      split at h
      · next e' hfirst =>
          rw [Except.error.inj h] at hfirst
          exact ⟨[], a, as, s, [], rfl, rfl, hfirst⟩
      · next s' b hfirst =>
          split at h
          · next e' hrest =>
              rw [Except.error.inj h] at hrest
              rcases ih hrest with ⟨pre, a', post, u, bs, rfl, hpre, hstep⟩
              exact ⟨a :: pre, a', post, u, b :: bs, rfl,
                runAll_cons_eq_ok.mpr ⟨s', b, bs, hfirst, hpre, rfl⟩, hstep⟩
          · exact absurd h (by simp only [reduceCtorEq, not_false_eq_true])

/-- When every step is a step of a component, or none of its business, a run is
    a run of the component on the inputs that concern it. -/
theorem runAll_project {S' A' B' ε' : Type} {step' : S' → A' → Except ε' (S' × B')}
    (Inv : S → Prop) (view : S → S') (input : A → Option A') (output : B → Option B')
    (hstep : ∀ s a s' b, Inv s → step s a = .ok (s', b) → Inv s' ∧
      ((∃ a' b', input a = some a' ∧ output b = some b' ∧ step' (view s) a' = .ok (view s', b')) ∨
        (input a = none ∧ output b = none ∧ view s' = view s)))
    {s t : S} {as : List A} {bs : List B} (hs : Inv s) (h : runAll step s as = .ok (t, bs)) :
    runAll step' (view s) (as.filterMap input) = .ok (view t, bs.filterMap output) := by
  induction as generalizing s bs with
  | nil =>
      simp only [runAll_nil, Except.ok.injEq, Prod.mk.injEq] at h
      rw [← h.1, ← h.2]
      rfl
  | cons a as ih =>
      rcases runAll_cons_eq_ok.mp h with ⟨s', b, bs', hfirst, hrest, rfl⟩
      rcases hstep s a s' b hs hfirst with ⟨hs', ⟨a', b', ha, hb, hown⟩ | ⟨ha, hb, hsame⟩⟩
      · rw [List.filterMap_cons_some ha, List.filterMap_cons_some hb]
        exact runAll_cons_eq_ok.mpr ⟨_, _, _, hown, ih hs' hrest, rfl⟩
      · rw [List.filterMap_cons_none ha, List.filterMap_cons_none hb, ← hsame]
        exact ih hs' hrest

/-- Two machines in lockstep. What relates them may say something of the
    outputs so far, and needs to be kept only by steps whose outputs are good;
    a good sequence of outputs is good up to any point. -/
theorem runAll_simulate {S' ε' : Type} {step' : S' → A → Except ε' (S' × B)}
    (R : List B → S → S' → Prop) (Good : List B → Prop)
    (hgood : ∀ out b, Good (out ++ [b]) → Good out)
    (hstep : ∀ out s s' a t b, R out s s' → Good (out ++ [b]) → step s a = .ok (t, b) →
      ∃ t', step' s' a = .ok (t', b) ∧ R (out ++ [b]) t t')
    {s t : S} {s' : S'} {as : List A} {bs : List B} (hs : R [] s s') (hbs : Good bs)
    (h : runAll step s as = .ok (t, bs)) :
    ∃ t', runAll step' s' as = .ok (t', bs) ∧ R bs t t' := by
  -- Induction on the end of the input list, where the outputs grow.
  induction as using List.reverseRecOn generalizing t bs with
  | nil =>
      simp only [runAll_nil, Except.ok.injEq, Prod.mk.injEq] at h
      rcases h with ⟨rfl, rfl⟩
      exact ⟨s', rfl, hs⟩
  | append_singleton as a ih =>
      rcases runAll_concat.mp h with ⟨u, out, b, hrun, hlast, rfl⟩
      rcases ih (hgood out b hbs) hrun with ⟨u', hrun', hu⟩
      rcases hstep out u u' a t b hu hbs hlast with ⟨t', hlast', ht⟩
      exact ⟨t', runAll_concat.mpr ⟨u', out, b, hrun', hlast', rfl⟩, ht⟩

end Machine

end LcmBridge
