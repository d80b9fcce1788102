import LcmBridge.Library.ExpiringStore

/-!
# Expiring Stores with History

An entry of a store is the work of the accesses made to it since it was
created. `withHistory` keeps these accesses with the entry, and hands them out
with each answer. It changes nothing else: forgetting the histories gives back
the store (`forget_run`).

What the histories add is that every answer can be computed from one of them
alone. `replay` runs a list of accesses on an empty slot, without sweeps and
without other keys, and `run_answer` says that an answer is what the access
makes of the replay of its history. An invariant of entries is then an
induction over a list of accesses to one slot.

## Main definitions

* `withHistory`: The store that keeps histories.
* `forget`: The entries without their histories.
* `replay`: What a history makes of an empty slot.
* `Recorded`: Every entry is the replay of its history.

## Theorems

* `forget_step`, `forget_run`: Histories change nothing.
* `recorded_step`: One access keeps the histories true.
* `run_answer`: An answer comes from the replay of its history.
-/

namespace LcmBridge

namespace ExpiringStore

variable {K V E R : Type} (S : ExpiringStore K V E R)

/-- The store that keeps with each entry the accesses made to it since it was
    created. -/
def withHistory : ExpiringStore K (V × List E) E (R × List E) where
  key := S.key
  expired e entry := S.expired e entry.1
  act e slot :=
    let out := S.act e (slot.map Prod.fst)
    let history := (slot.map Prod.snd).getD [] ++ [e]
    (out.1.map (fun v => (v, history)), (out.2, history))

/-- The entries without their histories. -/
def forget (m : K → Option (V × List E)) : K → Option V := fun k => (m k).map Prod.fst

/-- What these accesses, one after the other, make of an empty slot. -/
def replay (history : List E) : Option V :=
  history.foldl (fun slot e => (S.act e slot).1) none

theorem replay_concat (history : List E) (e : E) :
    S.replay (history ++ [e]) = (S.act e (S.replay history)).1 := by
  simp only [replay, List.foldl_append, List.foldl_cons, List.foldl_nil]

theorem forget_sweep (e : E) (m : K → Option (V × List E)) :
    forget (S.withHistory.sweep e m) = S.sweep e (forget m) := by
  funext k
  simp only [forget, sweep, withHistory]
  cases m k with
  | none => rfl
  | some entry => by_cases h : S.expired e entry.1 = true <;> simp [Option.filter_some, h]

/-- Every entry is what its history makes of an empty slot, and the history is
    made of accesses under the entry's key that satisfy `P`. -/
def Recorded (P : E → Prop) (m : K → Option (V × List E)) : Prop :=
  ∀ k v history, m k = some (v, history) →
    S.replay history = some v ∧ ∀ e ∈ history, S.key e = k ∧ P e

/-- The slot an access finds, after its sweep, is the replay of its history. -/
theorem exists_history {P : E → Prop} {m : K → Option (V × List E)} (h : S.Recorded P m)
    (e : E) :
    ∃ pre, ((S.withHistory.sweep e m (S.key e)).map Prod.snd).getD [] = pre ∧
      (S.withHistory.sweep e m (S.key e)).map Prod.fst = S.replay pre ∧
      ∀ d ∈ pre, S.key d = S.key e ∧ P d := by
  cases hslot : S.withHistory.sweep e m (S.key e) with
  | none => exact ⟨[], rfl, rfl, fun d hd => absurd hd List.not_mem_nil⟩
  | some entry =>
      rcases h _ _ _ (Option.eq_some_of_filter_eq_some hslot) with ⟨hreplay, hmem⟩
      exact ⟨entry.2, rfl, hreplay.symm, hmem⟩

variable [DecidableEq K]

/-- Histories change nothing in one access. -/
theorem forget_step (m : K → Option (V × List E)) (e : E) :
    (forget (S.withHistory.step m e).1, (S.withHistory.step m e).2.1) = S.step (forget m) e := by
  have hslot : (S.withHistory.sweep e m (S.key e)).map Prod.fst
      = S.sweep e (forget m) (S.key e) := congrFun (S.forget_sweep e m) (S.key e)
  unfold step
  refine Prod.ext ?_ ?_
  · funext k
    by_cases hk : k = S.key e
    · simp only [forget, withHistory, hk, Function.update_self, Option.map_map] at hslot ⊢
      rw [hslot]
      cases (S.act e _).1 with
      | none => rfl
      | some v => rfl
    · have hother := congrFun (S.forget_sweep e m) k
      simp only [forget, withHistory, Function.update_of_ne hk] at hother ⊢
      exact hother
  · simp only [withHistory] at hslot ⊢
    rw [hslot]

theorem forget_run (es : List E) :
    ∀ (m : K → Option (V × List E)),
      (forget (S.withHistory.run m es).1, (S.withHistory.run m es).2.map Prod.fst)
        = S.run (forget m) es := by
  induction es with
  | nil =>
      intro m
      rfl
  | cons e es ih =>
      intro m
      have hstep := S.forget_step m e
      have hrest := ih (S.withHistory.step m e).1
      simp only [run, List.map_cons, ← hstep, ← hrest]

variable {S} {P : E → Prop} {m : K → Option (V × List E)}

/-- One access answers from the replay of its history, and keeps the histories
    true. -/
theorem recorded_step (h : S.Recorded P m) {e : E} (he : P e) :
    S.Recorded P (S.withHistory.step m e).1 ∧
      ∃ pre, (S.withHistory.step m e).2 = ((S.act e (S.replay pre)).2, pre ++ [e]) ∧
        ∀ d ∈ pre, S.key d = S.key e ∧ P d := by
  rcases S.exists_history h e with ⟨pre, hpre, hslot, hmem⟩
  have hself : S.withHistory.act e (S.withHistory.sweep e m (S.key e))
      = ((S.act e (S.replay pre)).1.map (fun v => (v, pre ++ [e])),
        ((S.act e (S.replay pre)).2, pre ++ [e])) := by
    simp only [withHistory] at hpre hslot ⊢
    rw [hpre, hslot]
  constructor
  · intro k v history hk
    by_cases hkey : k = S.key e
    · rw [hkey] at hk ⊢
      have hentry : (S.act e (S.replay pre)).1.map (fun v => (v, pre ++ [e]))
          = some (v, history) := by
        have hfst := congrArg Prod.fst hself
        dsimp only at hfst
        rw [← hfst, ← hk]
        exact (congrArg Prod.fst (S.withHistory.step_self m e)).symm
      rcases Option.map_eq_some_iff.mp hentry with ⟨v', hv', heq⟩
      rw [Prod.mk.injEq] at heq
      rw [← heq.1, ← heq.2, replay_concat]
      refine ⟨hv', fun d hd => ?_⟩
      rcases List.mem_append.mp hd with hd | hd
      · exact hmem d hd
      · rw [List.mem_singleton.mp hd]
        exact ⟨rfl, he⟩
    · -- Another key's entry was there before, with the same history.
      rw [S.withHistory.step_other m e k hkey] at hk
      exact h k v history (Option.eq_some_of_filter_eq_some hk)
  · exact ⟨pre, congrArg Prod.snd hself, hmem⟩

-- Induction on the accesses, the answer asked for being that of the first one
-- or of a later one.
theorem run_answer {es : List E} (hes : ∀ e ∈ es, P e) (h : S.Recorded P m) {i : Nat}
    {answer : R × List E} (hi : (S.withHistory.run m es).2[i]? = some answer) :
    ∃ e pre, es[i]? = some e ∧ answer = ((S.act e (S.replay pre)).2, pre ++ [e]) ∧
      ∀ d ∈ pre, S.key d = S.key e ∧ P d := by
  induction es generalizing m i with
  | nil => exact absurd hi (by simp only [run, List.getElem?_nil, reduceCtorEq, not_false_eq_true])
  | cons e es ih =>
      rcases recorded_step h (hes e List.mem_cons_self) with ⟨hrec, pre, hanswer, hmem⟩
      cases i with
      | zero =>
          simp only [run, List.getElem?_cons_zero, Option.some.injEq] at hi
          exact ⟨e, pre, List.getElem?_cons_zero, by rw [← hi, hanswer], hmem⟩
      | succ i =>
          simp only [run, List.getElem?_cons_succ] at hi
          rcases ih (fun d hd => hes d (List.mem_cons_of_mem e hd)) hrec hi with
            ⟨d, pre', hd, hanswer', hmem'⟩
          exact ⟨d, pre', by rw [List.getElem?_cons_succ]; exact hd, hanswer', hmem'⟩

end ExpiringStore

end LcmBridge
