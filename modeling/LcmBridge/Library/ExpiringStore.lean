import Mathlib.Logic.Function.Basic
import Mathlib.Data.List.Basic

/-!
# Expiring Stores

A map whose every access first sweeps out the entries that have expired, under
all keys, and then acts on the entry of its own key only.

The keys look independent, but they share the sweep: an access under one key
removes the entries of others. `run_projection` says that this is never
observable. The answers given to the accesses of one key are those a private
slot would give to these accesses alone. What makes it true is that expiry is
monotone along the run: an entry swept by somebody else's access is an entry
the key's own next access would have swept before looking.

The proof carries a lag between the two sides. The shared slot may already be
empty while the private one still holds an entry, provided every access still
to come finds that entry expired.

## Main definitions

* `ExpiringStore`: The rules of a store: keys, expiry, and the action on a slot.
* `sweep`, `step`, `run`: One access, and a run of accesses, on the whole map.
* `slotStep`, `slotRun`: The same on a private slot.
* `Lag`: How the shared slot may fall behind the private one.
* `runOn`: A run of events of which only some are accesses.

## Theorems

* `sweep_apply`: What a sweep leaves under one key.
* `step_self`, `step_other`: What one access does to each slot.
* `run_projection_lag`: The projection with the lag made explicit.
* `run_projection`: A key's answers are those of its private slot.
* `run_filter_eq`: A key's answers do not change when the other accesses go.
* `runOn_filter_eq`: The same for any set of keys, among events that are no
  accesses.
* `runOn_of_lag`: Entries that have expired for good do not show.
-/

namespace LcmBridge

/-- The rules of an expiring store. `act` sees the slot after the sweep. -/
structure ExpiringStore (K V E R : Type) where
  key : E → K
  expired : E → V → Bool
  act : E → Option V → Option V × R

namespace ExpiringStore

variable {K V E R : Type} (S : ExpiringStore K V E R)

/-- Remove every entry that has expired at this access. -/
def sweep (e : E) (m : K → Option V) : K → Option V :=
  fun k => (m k).filter (fun v => !S.expired e v)

/-- One access to a private slot. -/
def slotStep (slot : Option V) (e : E) : Option V × R :=
  S.act e (slot.filter (fun v => !S.expired e v))

/-- A run of accesses to a private slot. -/
def slotRun : Option V → List E → Option V × List R
  | slot, [] => (slot, [])
  | slot, e :: es =>
      let out := S.slotStep slot e
      let rest := slotRun out.1 es
      (rest.1, out.2 :: rest.2)

/-- Expiry is monotone along a list of accesses: what one finds expired, every
    later one does. -/
def MonotoneExpiry (es : List E) : Prop :=
  es.Pairwise (fun e e' => ∀ v, S.expired e v = true → S.expired e' v = true)

theorem sweep_apply (e : E) (m : K → Option V) (k : K) :
    S.sweep e m k = (m k).filter (fun v => !S.expired e v) := rfl

/-- How the shared slot may fall behind the private one: it may have lost an
    entry that every access still to come would sweep anyway. -/
def Lag (es : List E) (shared priv : Option V) : Prop :=
  shared = priv ∨ (shared = none ∧ ∃ v, priv = some v ∧ ∀ e ∈ es, S.expired e v = true)

/-- A key's own access sweeps first, which removes any lag. -/
theorem filter_eq_of_lag {e : E} {es : List E} {shared priv : Option V}
    (h : S.Lag (e :: es) shared priv) :
    shared.filter (fun v => !S.expired e v) = priv.filter (fun v => !S.expired e v) := by
  rcases h with rfl | ⟨rfl, v, rfl, hv⟩
  · rfl
  · simp only [Option.filter_none, Option.filter_some, hv e List.mem_cons_self, Bool.not_true,
      Bool.false_eq_true, if_false]

/-- Somebody else's access keeps the lag: an entry it sweeps stays expired. -/
theorem lag_filter {e : E} {es : List E} {shared priv : Option V}
    (hmono : S.MonotoneExpiry (e :: es)) (h : S.Lag (e :: es) shared priv) :
    S.Lag es (shared.filter (fun v => !S.expired e v)) priv := by
  rcases h with rfl | ⟨rfl, v, rfl, hv⟩
  · cases hs : shared with
    | none => exact Or.inl rfl
    | some v =>
        by_cases hexp : S.expired e v = true
        · refine Or.inr ⟨?_, v, rfl, fun e' he' => ?_⟩
          · simp only [Option.filter_some, hexp, Bool.not_true, Bool.false_eq_true, if_false]
          · exact List.rel_of_pairwise_cons hmono he' v hexp
        · refine Or.inl ?_
          simp only [Option.filter_some, hexp, Bool.not_false, if_true]
  · exact Or.inr ⟨rfl, v, rfl, fun e' he' => hv e' (List.mem_cons_of_mem e he')⟩

variable [DecidableEq K]

/-- One access: sweep the whole map, then act on the slot of the access's key. -/
def step (m : K → Option V) (e : E) : (K → Option V) × R :=
  let swept := S.sweep e m
  let out := S.act e (swept (S.key e))
  (Function.update swept (S.key e) out.1, out.2)

/-- A run of accesses, with the answer to each. -/
def run : (K → Option V) → List E → (K → Option V) × List R
  | m, [] => (m, [])
  | m, e :: es =>
      let out := S.step m e
      let rest := run out.1 es
      (rest.1, out.2 :: rest.2)

theorem step_self (m : K → Option V) (e : E) :
    ((S.step m e).1 (S.key e), (S.step m e).2) = S.slotStep (m (S.key e)) e := by
  simp only [step, slotStep, sweep_apply, Function.update_self]

theorem step_other (m : K → Option V) (e : E) (k : K) (hk : k ≠ S.key e) :
    (S.step m e).1 k = (m k).filter (fun v => !S.expired e v) := by
  simp only [step, Function.update_of_ne hk, sweep_apply]

-- Induction on the accesses. The two slots need not agree in between; `Lag` is
-- what does survive an access under another key, and it is gone after the next
-- one under this key.
theorem run_projection_lag (k : K) (es : List E) :
    ∀ (m : K → Option V) (priv : Option V), S.MonotoneExpiry es → S.Lag es (m k) priv →
      ((es.zip (S.run m es).2).filter (fun p => S.key p.1 = k)).map Prod.snd
          = (S.slotRun priv (es.filter (fun e => S.key e = k))).2 ∧
        S.Lag [] ((S.run m es).1 k) (S.slotRun priv (es.filter (fun e => S.key e = k))).1 := by
  induction es with
  | nil =>
      intro m priv _ hlag
      exact ⟨rfl, hlag⟩
  | cons e es ih =>
      intro m priv hmono hlag
      have hmono' : S.MonotoneExpiry es := List.Pairwise.of_cons hmono
      by_cases hk : S.key e = k
      · -- The key's own access: both slots are swept alike and then agree.
        have hself := S.step_self m e
        have hslot : S.slotStep (m (S.key e)) e = S.slotStep priv e := by
          rw [slotStep, slotStep, hk, S.filter_eq_of_lag hlag]
        rw [hslot] at hself
        have hlag' : S.Lag es ((S.step m e).1 k) (S.slotStep priv e).1 := by
          rw [← hself, hk]
          exact Or.inl rfl
        rcases ih _ _ hmono' hlag' with ⟨hres, hfin⟩
        simp only [run, List.zip_cons_cons, List.filter_cons, hk, decide_true, if_true, slotRun,
          List.map_cons]
        refine ⟨?_, hfin⟩
        rw [hres, ← hself]
      · -- Somebody else's access: the shared slot may lose an expired entry.
        have hother := S.step_other m e k (fun hc => hk hc.symm)
        have hlag' : S.Lag es ((S.step m e).1 k) priv := by
          rw [hother]
          exact S.lag_filter hmono hlag
        rcases ih _ _ hmono' hlag' with ⟨hres, hfin⟩
        simp only [run, List.zip_cons_cons, List.filter_cons, hk, decide_false, Bool.false_eq_true,
          if_false]
        exact ⟨hres, hfin⟩

/-- The answers to the accesses of one key are those of a private slot. -/
theorem run_projection (k : K) (m : K → Option V) (es : List E) (hmono : S.MonotoneExpiry es) :
    ((es.zip (S.run m es).2).filter (fun p => S.key p.1 = k)).map Prod.snd
      = (S.slotRun (m k) (es.filter (fun e => S.key e = k))).2 :=
  (S.run_projection_lag k es m (m k) hmono (Or.inl rfl)).1

/-- When every access is under one key, the run is that of its private slot. -/
theorem run_of_forall_key (k : K) (es : List E) (hkey : ∀ e ∈ es, S.key e = k) :
    ∀ (m : K → Option V), ((S.run m es).1 k, (S.run m es).2) = S.slotRun (m k) es := by
  induction es with
  | nil =>
      intro m
      rfl
  | cons e es ih =>
      intro m
      have he : S.key e = k := hkey e List.mem_cons_self
      have hself := S.step_self m e
      rw [he] at hself
      have hrest := ih (fun e' he' => hkey e' (List.mem_cons_of_mem e he')) (S.step m e).1
      simp only [run, slotRun, ← hself, ← hrest]

/-- Two-run form: a key's answers do not change when all other accesses are
    taken out of the run. -/
theorem run_filter_eq (k : K) (m : K → Option V) (es : List E) (hmono : S.MonotoneExpiry es) :
    ((es.zip (S.run m es).2).filter (fun p => S.key p.1 = k)).map Prod.snd
      = (S.run m (es.filter (fun e => S.key e = k))).2 := by
  have hkeys : ∀ e ∈ es.filter (fun e => S.key e = k), S.key e = k := by
    intro e he
    exact of_decide_eq_true (List.mem_filter.mp he).2
  rw [S.run_projection k m es hmono, ← S.run_of_forall_key k _ hkeys m]

/-! ### Events that are no accesses -/

section Events

variable {X : Type} (access : X → Option E) (direct : X → R)

/-- One event: an access, or something that is answered without the store. -/
def stepOn (m : K → Option V) (x : X) : (K → Option V) × R :=
  match access x with
  | some e => S.step m e
  | none => (m, direct x)

/-- A run of events, with the answer to each. -/
def runOn : (K → Option V) → List X → (K → Option V) × List R
  | m, [] => (m, [])
  | m, x :: xs =>
      let out := S.stepOn access direct m x
      let rest := runOn out.1 xs
      (rest.1, out.2 :: rest.2)

variable {access direct} {q : K → Bool} {keep : X → Bool}

-- As for one key, with a lag for each key that is kept.
theorem runOn_filter_lag (hkeep : ∀ x e, access x = some e → keep x = q (S.key e)) (xs : List X) :
    ∀ (m m' : K → Option V), S.MonotoneExpiry (xs.filterMap access) →
      (∀ k, q k = true → S.Lag (xs.filterMap access) (m k) (m' k)) →
      ((xs.zip (S.runOn access direct m xs).2).filter (fun p => keep p.1)).map Prod.snd
        = (S.runOn access direct m' (xs.filter keep)).2 := by
  induction xs with
  | nil =>
      intro m m' _ _
      rfl
  | cons x xs ih =>
      intro m m' hmono hlag
      cases hx : access x with
      | none =>
          rw [List.filterMap_cons_none hx] at hmono hlag
          have hstep : ∀ n, S.stepOn access direct n x = (n, direct x) := by
            intro n
            rw [stepOn, hx]
          by_cases hk : keep x = true
          · simp only [runOn, hstep, List.zip_cons_cons, List.filter_cons, hk, if_true,
              List.map_cons, ih m m' hmono hlag]
          · simp only [runOn, hstep, List.zip_cons_cons, List.filter_cons, hk, if_false, ih m m' hmono hlag,
              Bool.false_eq_true]
      | some e =>
          rw [List.filterMap_cons_some hx] at hmono hlag
          have hstep : ∀ n, S.stepOn access direct n x = S.step n e := by
            intro n
            rw [stepOn, hx]
          have hmono' : S.MonotoneExpiry (xs.filterMap access) := List.Pairwise.of_cons hmono
          rcases Bool.eq_false_or_eq_true (keep x) with hk | hk
          · -- An access that is kept: the slot of its key agrees from now on.
            have hq : q (S.key e) = true := by
              rw [← hkeep x e hx]
              exact hk
            have hslot : S.slotStep (m (S.key e)) e = S.slotStep (m' (S.key e)) e := by
              rw [slotStep, slotStep, S.filter_eq_of_lag (hlag _ hq)]
            have hsame := (S.step_self m e).trans (hslot.trans (S.step_self m' e).symm)
            rw [Prod.mk.injEq] at hsame
            have hlag' : ∀ k, q k = true →
                S.Lag (xs.filterMap access) ((S.step m e).1 k) ((S.step m' e).1 k) := by
              intro k hqk
              by_cases hke : k = S.key e
              · rw [hke]
                exact Or.inl hsame.1
              · -- Both sides are swept, which removes the lag as well.
                rw [S.step_other m e k hke, S.step_other m' e k hke]
                exact Or.inl (S.filter_eq_of_lag (hlag k hqk))
            simp only [runOn, hstep, List.zip_cons_cons, List.filter_cons, hk, if_true,
              List.map_cons, hsame.2, ih _ _ hmono' hlag']
          · have hlag' : ∀ k, q k = true →
                S.Lag (xs.filterMap access) ((S.step m e).1 k) (m' k) := by
              intro k hqk
              have hne : k ≠ S.key e := by
                intro hke
                rw [hkeep x e hx, ← hke, hqk] at hk
                exact Bool.noConfusion hk
              rw [S.step_other m e k hne]
              exact S.lag_filter hmono (hlag k hqk)
            simp only [runOn, hstep, List.zip_cons_cons, List.filter_cons, hk, Bool.false_eq_true,
              if_false, ih _ _ hmono' hlag']

/-- Two-run form: the answers to the events that concern a set of keys do not
    change when all other events are taken out of the run. -/
theorem runOn_filter_eq (hkeep : ∀ x e, access x = some e → keep x = q (S.key e))
    (m : K → Option V) (xs : List X) (hmono : S.MonotoneExpiry (xs.filterMap access)) :
    ((xs.zip (S.runOn access direct m xs).2).filter (fun p => keep p.1)).map Prod.snd
      = (S.runOn access direct m (xs.filter keep)).2 :=
  S.runOn_filter_lag hkeep xs m m hmono (fun _ _ => Or.inl rfl)

theorem runOn_length (m : K → Option V) (xs : List X) :
    (S.runOn access direct m xs).2.length = xs.length := by
  induction xs generalizing m with
  | nil => rfl
  | cons x xs ih => simp only [runOn, List.length_cons, ih]

/-- Entries that every event still to come finds expired do not show. -/
theorem runOn_of_lag (hkeep : ∀ x e, access x = some e → keep x = q (S.key e)) {xs : List X}
    (hall : ∀ x ∈ xs, keep x = true) {m m' : K → Option V}
    (hmono : S.MonotoneExpiry (xs.filterMap access))
    (hlag : ∀ k, q k = true → S.Lag (xs.filterMap access) (m k) (m' k)) :
    (S.runOn access direct m xs).2 = (S.runOn access direct m' xs).2 := by
  have hzip : (xs.zip (S.runOn access direct m xs).2).filter (fun p => keep p.1)
      = xs.zip (S.runOn access direct m xs).2 :=
    List.filter_eq_self.mpr (fun p hp => hall p.1 (List.of_mem_zip hp).1)
  have hrun : ((xs.zip (S.runOn access direct m xs).2).filter (fun p => keep p.1)).map Prod.snd
      = (S.runOn access direct m' (xs.filter keep)).2 :=
    S.runOn_filter_lag hkeep xs m m' hmono hlag
  rw [List.filter_eq_self.mpr hall, hzip, List.map_snd_zip] at hrun
  · exact hrun
  · exact Nat.le_of_eq (S.runOn_length m xs)

end Events

end ExpiringStore

end LcmBridge
