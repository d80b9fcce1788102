import Mathlib.Data.Finset.Card
import Mathlib.Data.Finset.Range
import Mathlib.Data.Set.Function
import LcmBridge.Library.Machine

/-!
# Tokens

What it means that a machine takes out only what was put in.

A machine holds tokens in its state. Its outputs say when a token is put in
and when one is taken out. Putting in a token that is already there changes
nothing, and a token may also go without being taken. What is asked for is
that a token does not come from nowhere, and that taking it needs it to be
there and removes it. A machine that simulates another one has its tokens.

Nothing is said about the order of the two. Still every take can be given a
put of its own: the last put of that token before it. Between the two the
token is not taken, as it would have to be put in again, and so an earlier
take of the same token was given an earlier put.

## Main definitions

* `Tokens`: The tokens of a machine.
* `Tokens.comap`: The tokens of a machine that simulates another one.
* `positions`: Where in a list something holds.
* `LastPut`: The last put of a token before a position.

## Theorems

* `card_positions`: Counting in a list is counting positions.
* `exists_last_put`: A token that is there was put in, and not taken since.
* `exists_matching`: Takes are matched with earlier puts, one to one.
* `countP_take_le`: There are no more takes than puts.
-/

namespace LcmBridge

variable {S A B ε K : Type}

/-! ### Positions in a list -/

/-- The positions of the elements that satisfy `p`. -/
def positions (p : B → Bool) (bs : List B) : Finset Nat :=
  (Finset.range bs.length).filter (fun i => bs[i]?.any p = true)

theorem mem_positions {p : B → Bool} {bs : List B} {i : Nat} :
    i ∈ positions p bs ↔ ∃ b, bs[i]? = some b ∧ p b = true := by
  unfold positions
  rw [Finset.mem_filter, Finset.mem_range, Option.any_eq_true]
  constructor
  · intro h
    exact h.2
  · intro h
    rcases h with ⟨b, hb, hp⟩
    exact ⟨(List.getElem?_eq_some_iff.mp hb).1, b, hb, hp⟩

-- Induction on the end of the list, where a new position is the largest one.
theorem card_positions (p : B → Bool) (bs : List B) : (positions p bs).card = bs.countP p := by
  induction bs using List.reverseRecOn with
  | nil => rfl
  | append_singleton bs b ih =>
      have hold : (Finset.range bs.length).filter (fun i => (bs ++ [b])[i]?.any p = true)
          = positions p bs := by
        refine Finset.filter_congr (fun i hi => ?_)
        rw [List.getElem?_append_left (Finset.mem_range.mp hi)]
      have hnew : bs.length ∉ positions p bs := by
        intro h
        exact Finset.notMem_range_self (Finset.mem_filter.mp h).1
      rw [positions, List.length_append, List.length_singleton, Finset.range_add_one,
        Finset.filter_insert, hold, List.getElem?_concat_length, Option.any_some,
        List.countP_append, List.countP_singleton, ← ih]
      by_cases hp : p b = true
      · rw [if_pos hp, if_pos hp, Finset.card_insert_of_notMem hnew]
      · rw [if_neg hp, if_neg hp, Nat.add_zero]

/-- An injection between positions compares the counts. -/
theorem countP_le_of_injOn {p q : B → Bool} {bs : List B} {f : Nat → Nat}
    (hmaps : ∀ i ∈ positions p bs, f i ∈ positions q bs)
    (hinj : Set.InjOn f (positions p bs)) : bs.countP p ≤ bs.countP q := by
  rw [← card_positions, ← card_positions]
  exact Finset.card_le_card_of_injOn f hmaps hinj

/-! ### Last puts -/

section LastPut

variable {put take : B → Option K} {bs : List B}

/-- At `j` the token is put in, and it is not taken between there and `i`. -/
structure LastPut (put take : B → Option K) (bs : List B) (k : K) (j i : Nat) : Prop where
  lt : j < i
  put_at : ∃ c, bs[j]? = some c ∧ put c = some k
  not_taken : ∀ l c, j < l → l < i → bs[l]? = some c → take c ≠ some k

/-- A put is the last one of one token only. -/
theorem LastPut.token_eq {k k' : K} {j i i' : Nat} (h : LastPut put take bs k j i)
    (h' : LastPut put take bs k' j i') : k = k' := by
  rcases h.put_at with ⟨c, hc, hput⟩
  rcases h'.put_at with ⟨c', hc', hput'⟩
  rw [hc, Option.some.injEq] at hc'
  rw [← hc', hput, Option.some.injEq] at hput'
  exact hput'

/-- Two takes do not have the same last put: the first would lie between it and
    the second. -/
theorem LastPut.not_lt {k : K} {j i i' : Nat} {b : B} (h : LastPut put take bs k j i)
    (h' : LastPut put take bs k j i') (hb : bs[i]? = some b) (hk : take b = some k) :
    ¬ i < i' := by
  intro hlt
  exact h'.not_taken i b h.lt hlt hb hk

end LastPut

/-! ### Machines with tokens -/

/-- The tokens that are in the states of a machine, where `put` and `take` tell
    of an output which token it puts in or takes out. -/
structure Tokens (step : S → A → Except ε (S × B)) (put take : B → Option K) where
  present : S → K → Prop
  kept : ∀ {s a s' b k}, step s a = .ok (s', b) → present s' k →
    put b = some k ∨ (present s k ∧ take b ≠ some k)
  held : ∀ {s a s' b k}, step s a = .ok (s', b) → take b = some k → present s k

namespace Tokens

variable {step : S → A → Except ε (S × B)} {put take : B → Option K}

/-- A machine has the tokens of one it simulates, if the steps that are none of
    the other machine leave its state alone and take nothing. -/
def comap {S' A' ε' : Type} {step' : S' → A' → Except ε' (S' × B)} (T : Tokens step put take)
    (abs : S' → S)
    (hsim : ∀ {s a s' b}, step' s a = .ok (s', b) →
      (∃ a', step (abs s) a' = .ok (abs s', b)) ∨ (abs s' = abs s ∧ take b = none)) :
    Tokens step' put take where
  present s k := T.present (abs s) k
  kept := by
    intro s a s' b k hstep hk
    rcases hsim hstep with ⟨a', hstep'⟩ | ⟨hsame, hnone⟩
    · exact T.kept hstep' hk
    · rw [hsame] at hk
      refine Or.inr ⟨hk, ?_⟩
      rw [hnone]
      simp only [ne_eq, reduceCtorEq, not_false_eq_true]
  held := by
    intro s a s' b k hstep htake
    rcases hsim hstep with ⟨a', hstep'⟩ | ⟨_, hnone⟩
    · exact T.held hstep' htake
    · rw [hnone] at htake
      exact absurd htake (by simp only [reduceCtorEq, not_false_eq_true])

variable (T : Tokens step put take) {s t : S} {as : List A} {bs : List B} {k : K}

-- Over the outputs so far. A step either puts the token in, or it was there
-- and has its last put already.
theorem exists_last_put (hs : ∀ k, ¬ T.present s k)
    (h : Machine.runAll step s as = .ok (t, bs)) (hk : T.present t k) :
    ∃ pre b post, bs = pre ++ b :: post ∧ put b = some k ∧ ∀ c ∈ post, take c ≠ some k := by
  refine Machine.runAll_invariant_outputs
    (fun u out => ∀ k, T.present u k → ∃ pre b post, out = pre ++ b :: post ∧
      put b = some k ∧ ∀ c ∈ post, take c ≠ some k)
    (fun u out a u' b hu hstep k hk => ?_) (fun k hk => absurd hk (hs k)) h k hk
  rcases T.kept hstep hk with hput | ⟨hthere, hnot⟩
  · exact ⟨out, b, [], rfl, hput, fun c hc => absurd hc List.not_mem_nil⟩
  · rcases hu k hthere with ⟨pre, c, post, rfl, hput, hsince⟩
    refine ⟨pre, c, post ++ [b], by rw [List.append_assoc, List.cons_append], hput, ?_⟩
    intro d hd
    rcases List.mem_append.mp hd with hd | hd
    · exact hsince d hd
    · rw [List.mem_singleton.mp hd]
      exact hnot

/-- Before a take there is a put of the token with no other take of it in
    between. -/
theorem exists_put_before (hs : ∀ k, ¬ T.present s k)
    (h : Machine.runAll step s as = .ok (t, bs)) {i : Nat} {b : B} (hb : bs[i]? = some b)
    (hk : take b = some k) :
    ∃ j, LastPut put take bs k j i := by
  have hi : i < as.length := by
    rw [← Machine.runAll_length h]
    exact (List.getElem?_eq_some_iff.mp hb).1
  rcases Machine.runAll_step_at h (List.getElem?_eq_getElem hi) hb with
    ⟨before, after, u, u', out, rest, _, rfl, hlen, hrun, hstep⟩
  rcases T.exists_last_put hs hrun (T.held hstep hk) with ⟨pre, c, post, rfl, hput, hsince⟩
  have hout := Machine.runAll_length hrun
  rw [List.length_append, List.length_cons, hlen] at hout
  refine ⟨pre.length, ⟨by omega, ⟨c, ?_, hput⟩, ?_⟩⟩
  · rw [List.append_assoc, List.cons_append, List.getElem?_append_right (Nat.le_refl _),
      Nat.sub_self, List.getElem?_cons_zero]
  · intro l d hl hli hd
    -- Such a position lies in the part after the put.
    rw [List.getElem?_append_left (by rw [List.length_append, List.length_cons]; omega),
      List.getElem?_append_right (by omega), List.getElem?_cons,
      if_neg (by omega)] at hd
    exact hsince d (List.mem_of_getElem? hd)

/-- The outputs that take a token are matched with earlier ones that put it
    in, no two with the same one. -/
theorem exists_matching (hs : ∀ k, ¬ T.present s k)
    (h : Machine.runAll step s as = .ok (t, bs)) :
    ∃ f : Nat → Nat,
      (∀ i b k, bs[i]? = some b → take b = some k →
        f i < i ∧ ∃ c, bs[f i]? = some c ∧ put c = some k) ∧
      Set.InjOn f (positions (fun b => (take b).isSome) bs) := by
  have hlast : ∀ i : Nat, ∃ j, ∀ b k, bs[i]? = some b → take b = some k →
      LastPut put take bs k j i := by
    intro i
    by_cases htake : ∃ b k, bs[i]? = some b ∧ take b = some k
    · rcases htake with ⟨b, k, hb, hk⟩
      rcases T.exists_put_before hs h hb hk with ⟨j, hj⟩
      refine ⟨j, fun b' k' hb' hk' => ?_⟩
      rw [hb, Option.some.injEq] at hb'
      rw [← hb', hk, Option.some.injEq] at hk'
      rw [← hk']
      exact hj
    · exact ⟨0, fun b k hb hk => absurd ⟨b, k, hb, hk⟩ htake⟩
  choose f hf using hlast
  refine ⟨f, fun i b k hb hk => ⟨(hf i b k hb hk).lt, (hf i b k hb hk).put_at⟩, ?_⟩
  intro i hi j hj heq
  rcases mem_positions.mp hi with ⟨b, hb, hbk⟩
  rcases mem_positions.mp hj with ⟨c, hc, hck⟩
  rcases Option.isSome_iff_exists.mp hbk with ⟨k, hbk⟩
  rcases Option.isSome_iff_exists.mp hck with ⟨k', hck⟩
  have hlast := hf i b k hb hbk
  have hlast' := hf j c k' hc hck
  rw [← heq] at hlast'
  have hsame := hlast.token_eq hlast'
  rw [← hsame] at hck hlast'
  have hij := hlast.not_lt hlast' hb hbk
  have hji := hlast'.not_lt hlast hc hck
  omega

/-- There are no more takes than puts. -/
theorem countP_take_le (hs : ∀ k, ¬ T.present s k)
    (h : Machine.runAll step s as = .ok (t, bs)) :
    bs.countP (fun b => (take b).isSome) ≤ bs.countP (fun b => (put b).isSome) := by
  rcases T.exists_matching hs h with ⟨f, hf, hinj⟩
  refine countP_le_of_injOn (fun i hi => ?_) hinj
  rcases mem_positions.mp hi with ⟨b, hb, htake⟩
  rcases Option.isSome_iff_exists.mp htake with ⟨k, hk⟩
  rcases (hf i b k hb hk).2 with ⟨c, hc, hput⟩
  exact mem_positions.mpr ⟨c, hc, by rw [hput]; rfl⟩

end Tokens

end LcmBridge
