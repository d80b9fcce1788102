import Mathlib.Algebra.BigOperators.Group.Finset.Piecewise
import Mathlib.Algebra.Order.BigOperators.Group.Finset
import LcmBridge.Library.Tokens

/-!
# Charging

Accounting for the outputs of a run by earlier outputs of the same run.

That every output of one kind is charged to an earlier one of another kind, no
two to the same, says two things at once. Each has a cause, to which it is
related in some way; and there are no more of them than there are causes. Both
carry over to chains of causes, which is what makes this form worth having:
the machines of a system are each looked at alone, and the charges composed.

When the outputs of one kind fall into families, and each output of the other
kind is charged by only so many of them, the counts compare up to that factor.

## Main definitions

* `Charged`: The outputs of one kind are charged to earlier ones.

## Theorems

* `Charged.trans`: Charges compose.
* `Tokens.charged`: What takes a token is charged to what put it in.
* `Charged.countP_le`: There are no more charges than causes.
* `countP_le_sum`, `sum_countP_le`, `countP_le_add`: Counting by families.
* `sum_le_foldr`: What each key holds was paid for by an event under it.
-/

namespace LcmBridge

variable {S A B ε K : Type}

/-- Every output that satisfies `p` is charged to an earlier one it is related
    to, no two to the same one. -/
def Charged (rel : B → B → Prop) (p : B → Bool) (bs : List B) : Prop :=
  ∃ f : Nat → Nat,
    (∀ i b, bs[i]? = some b → p b = true → f i < i ∧ ∃ c, bs[f i]? = some c ∧ rel b c) ∧
    Set.InjOn f (positions p bs)

namespace Charged

variable {rel rel' : B → B → Prop} {p q : B → Bool} {bs : List B}

/-- Fewer outputs, and what is known of their causes. -/
theorem mono (h : Charged rel q bs) (hp : ∀ b, p b = true → q b = true)
    (hrel : ∀ b c, b ∈ bs → c ∈ bs → p b = true → rel b c → rel' b c) : Charged rel' p bs := by
  rcases h with ⟨f, hf, hinj⟩
  refine ⟨f, fun i b hb hpb => ?_, fun i hi j hj heq => hinj ?_ ?_ heq⟩
  · rcases hf i b hb (hp b hpb) with ⟨hlt, c, hc, hbc⟩
    exact ⟨hlt, c, hc, hrel b c (List.mem_of_getElem? hb) (List.mem_of_getElem? hc) hpb hbc⟩
  · rcases mem_positions.mp hi with ⟨b, hb, hpb⟩
    exact mem_positions.mpr ⟨b, hb, hp b hpb⟩
  · rcases mem_positions.mp hj with ⟨b, hb, hpb⟩
    exact mem_positions.mpr ⟨b, hb, hp b hpb⟩

-- The cause of a cause. Injective, because both charges are.
theorem trans (h : Charged rel p bs) (h' : Charged rel' q bs)
    (hq : ∀ b c, p b = true → rel b c → q c = true) :
    Charged (fun b d => ∃ c, rel b c ∧ rel' c d) p bs := by
  rcases h with ⟨f, hf, hfinj⟩
  rcases h' with ⟨g, hg, hginj⟩
  have hmid : ∀ i ∈ positions p bs, f i ∈ positions q bs := by
    intro i hi
    rcases mem_positions.mp hi with ⟨b, hb, hpb⟩
    rcases hf i b hb hpb with ⟨_, c, hc, hbc⟩
    exact mem_positions.mpr ⟨c, hc, hq b c hpb hbc⟩
  refine ⟨fun i => g (f i), fun i b hb hpb => ?_, fun i hi j hj heq => ?_⟩
  · rcases hf i b hb hpb with ⟨hlt, c, hc, hbc⟩
    rcases hg (f i) c hc (hq b c hpb hbc) with ⟨hlt', d, hd, hcd⟩
    exact ⟨Nat.lt_trans hlt' hlt, d, hd, c, hbc, hcd⟩
  · exact hfinj hi hj (hginj (hmid i hi) (hmid j hj) heq)

/-- There are no more charges than causes. -/
theorem countP_le (h : Charged rel p bs)
    (hq : ∀ b c, c ∈ bs → p b = true → rel b c → q c = true) : bs.countP p ≤ bs.countP q := by
  rcases h with ⟨f, hf, hinj⟩
  refine countP_le_of_injOn (fun i hi => ?_) hinj
  rcases mem_positions.mp hi with ⟨b, hb, hpb⟩
  rcases hf i b hb hpb with ⟨_, c, hc, hbc⟩
  exact mem_positions.mpr ⟨c, hc, hq b c (List.mem_of_getElem? hc) hpb hbc⟩

end Charged

/-- In a run from a state without tokens, what takes a token is charged to what
    put it in. -/
theorem Tokens.charged {step : S → A → Except ε (S × B)} {put take : B → Option K}
    (T : Tokens step put take) {s t : S} {as : List A} {bs : List B}
    (hs : ∀ k, ¬ T.present s k) (h : Machine.runAll step s as = .ok (t, bs)) :
    Charged (fun b c => ∃ k, take b = some k ∧ put c = some k) (fun b => (take b).isSome) bs := by
  rcases T.exists_matching hs h with ⟨f, hf, hinj⟩
  refine ⟨f, fun i b hb htake => ?_, hinj⟩
  rcases Option.isSome_iff_exists.mp htake with ⟨k, hk⟩
  rcases hf i b k hb hk with ⟨hlt, c, hc, hput⟩
  exact ⟨hlt, c, hc, k, hk, hput⟩

/-! ### Counting by families -/

section Families

variable {ι : Type} [Fintype ι] {p : ι → B → Bool} {q : B → Bool} {bs : List B}

-- Both by induction on the list, the sums going along.
theorem countP_le_sum (hq : ∀ b, q b = true → ∃ i, p i b = true) :
    bs.countP q ≤ ∑ i, bs.countP (p i) := by
  induction bs with
  | nil => simp only [List.countP_nil, Finset.sum_const_zero, Nat.le_refl]
  | cons b bs ih =>
      simp only [List.countP_cons, Finset.sum_add_distrib]
      refine Nat.add_le_add ih ?_
      by_cases hb : q b = true
      · rcases hq b hb with ⟨i, hi⟩
        rw [if_pos hb]
        calc 1 = (if p i b = true then 1 else 0) := by rw [if_pos hi]
          _ ≤ ∑ j, if p j b = true then 1 else 0 :=
            Finset.single_le_sum (f := fun j => if p j b = true then 1 else 0)
              (fun j _ => Nat.zero_le _) (Finset.mem_univ i)
      · rw [if_neg hb]
        exact Nat.zero_le _

/-- Each output belongs to at most `m` families, and to none if it is not
    counted. -/
theorem sum_countP_le {m : Nat}
    (hm : ∀ b, (Finset.univ.filter (fun i => p i b = true)).card ≤ if q b = true then m else 0) :
    ∑ i, bs.countP (p i) ≤ m * bs.countP q := by
  induction bs with
  | nil => simp only [List.countP_nil, Finset.sum_const_zero, Nat.mul_zero, Nat.le_refl]
  | cons b bs ih =>
      simp only [List.countP_cons, Finset.sum_add_distrib, Nat.mul_add]
      refine Nat.add_le_add ih ?_
      have hb := hm b
      rw [Finset.card_filter] at hb
      by_cases hq : q b = true
      · rw [if_pos hq] at hb
        rw [if_pos hq, Nat.mul_one]
        exact hb
      · rw [if_neg hq] at hb
        rw [if_neg hq, Nat.mul_zero]
        exact hb

end Families

-- Induction on the events. The next one pays for its own key, and the other
-- keys are left to the rest.
theorem sum_le_foldr {E : Type} [DecidableEq K] (key : E → K) {held : K → Nat} {paid : E → Nat}
    {es : List E} {ks : Finset K} (h : ∀ k ∈ ks, ∃ e ∈ es, key e = k ∧ held k ≤ paid e) :
    ∑ k ∈ ks, held k ≤ es.foldr (fun e n => paid e + n) 0 := by
  induction es generalizing ks with
  | nil =>
      have hks : ks = ∅ := Finset.eq_empty_of_forall_notMem (fun k hk => by
        rcases h k hk with ⟨e, he, _⟩
        exact absurd he List.not_mem_nil)
      rw [hks, Finset.sum_empty]
      exact Nat.zero_le _
  | cons e es ih =>
      have hothers : ∀ k ∈ ks.erase (key e), ∃ e' ∈ es, key e' = k ∧ held k ≤ paid e' := by
        intro k hk
        rcases Finset.mem_erase.mp hk with ⟨hne, hk⟩
        rcases h k hk with ⟨e', he', hkey, hle⟩
        rcases List.mem_cons.mp he' with rfl | he'
        · exact absurd hkey.symm hne
        · exact ⟨e', he', hkey, hle⟩
      have hrest := ih hothers
      rw [List.foldr_cons]
      by_cases hin : key e ∈ ks ∧ held (key e) ≤ paid e
      · rw [← Finset.add_sum_erase ks held hin.1]
        exact Nat.add_le_add hin.2 hrest
      · -- The key of this event is not held, or it is paid for by the rest.
        refine Nat.le_trans (ih (fun k hk => ?_)) (Nat.le_add_left _ _)
        rcases h k hk with ⟨e', he', hkey, hle⟩
        rcases List.mem_cons.mp he' with rfl | he'
        · rw [← hkey] at hk hle
          exact absurd ⟨hk, hle⟩ hin
        · exact ⟨e', he', hkey, hle⟩

theorem countP_le_add {p q r : B → Bool} {bs : List B}
    (h : ∀ b, p b = true → q b = true ∨ r b = true) :
    bs.countP p ≤ bs.countP q + bs.countP r := by
  induction bs with
  | nil => simp only [List.countP_nil, Nat.le_refl]
  | cons b bs ih =>
      simp only [List.countP_cons]
      by_cases hp : p b = true
      · rcases h b hp with hq | hr
        · rw [if_pos hp, if_pos hq]
          omega
        · rw [if_pos hp, if_pos hr]
          omega
      · rw [if_neg hp]
        omega

end LcmBridge
