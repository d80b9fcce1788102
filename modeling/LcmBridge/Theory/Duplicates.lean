import LcmBridge.Theory.Completeness

/-!
# Duplicated Fragments

How often a message is delivered whose fragments come more than once.

The fragments received so far are remembered in the pending set, and the call
that completes the message removes it. A copy that comes before that call is
recognised. One that comes after it starts a new set, which either lingers or,
if all numbers come again, delivers the message a second time. So the message
is delivered once, and nothing is left behind, exactly when the call that
completes it is the last one under its key.

## Main results

* `exists_first`: A property that a list gains is gained at some element.
* `exists_completing`: The call that brings the last missing number.
* `pending_none_of_run`: Calls under other keys create no entry.
* `deliversAt_or_pending`: Copies are delivered or leave a set.
* `delivered_once_iff`: When a message is delivered exactly once.
* `delivered_twice`: All fragments received twice, and two deliveries.
-/

namespace LcmBridge

open FragmentReassembler

/-- A property of lists that fails for the empty one and holds for this one is
    gained with one of its elements. -/
theorem exists_first {α : Type} {P : List α → Prop} (hnil : ¬ P []) {as : List α} (h : P as) :
    ∃ pre a post, as = pre ++ a :: post ∧ ¬ P pre ∧ P (pre ++ [a]) := by
  induction as using List.reverseRecOn with
  | nil => exact absurd h hnil
  | append_singleton as a ih =>
      by_cases hold : P as
      · rcases ih hold with ⟨pre, b, post, rfl, hpre, hb⟩
        exact ⟨pre, b, post ++ [a], by rw [List.append_assoc, List.cons_append], hpre, hb⟩
      · exact ⟨as, a, [], rfl, hold, h⟩

section Runs

variable {frag : Nat → Fragment} {sequenceNumber : UInt32} {nFragments : UInt16}
  {channel : String} {data : List UInt8} {sender : SocketAddr} {opened : Instant}
  {self self' : FragmentReassembler} {calls : List Call} {results : List (Option LcmMessage)}

/-- Once all numbers have arrived, there is a call that brought the last one,
    and its fragment had not come before. -/
theorem exists_completing {key : FragmentKey} (hn : 0 < nFragments.toNat)
    (hall : ∀ j < nFragments.toNat, Arrived key calls j) :
    ∃ pre c post, calls = pre ++ c :: post ∧
      (¬ ∀ j < nFragments.toNat, Arrived key pre j) ∧
      (∀ j < nFragments.toNat, Arrived key (pre ++ [c]) j) ∧
      c.key = key ∧ ¬ Arrived key pre c.fragment.number := by
  have hnil : ¬ ∀ j < nFragments.toNat, Arrived key [] j := by
    intro h
    rcases h 0 hn with ⟨c, hc, _⟩
    exact absurd hc List.not_mem_nil
  rcases exists_first (P := fun cs => ∀ j < nFragments.toNat, Arrived key cs j) hnil hall with
    ⟨pre, c, post, hsplit, hpre, hc⟩
  have hnew : c.key = key ∧ ¬ Arrived key pre c.fragment.number := by
    by_contra hold
    refine hpre (fun j hj => ?_)
    rcases arrived_append.mp (hc j hj) with harr | harr
    · exact harr
    · rcases arrived_singleton.mp harr with ⟨hkey, hnum⟩
      rw [not_and_not_right] at hold
      rw [← hnum]
      exact hold hkey
  exact ⟨pre, c, post, hsplit, hpre, hc, hnew.1, hnew.2⟩

/-- Calls under other keys create no entry. -/
theorem pending_none_of_run {key : FragmentKey} (hv : self.AllValid)
    (hpending : self.pending key = none) (hother : ∀ b ∈ calls, b.key ≠ key)
    (hrun : self.processAll calls = .ok (self', results)) : self'.pending key = none := by
  refine (Machine.runAll_invariant_mem (fun r => r.AllValid ∧ r.pending key = none)
    (fun r b hb r' result hr hstep => ⟨allValid_call hr.1 hstep, ?_⟩) ⟨hv, hpending⟩ hrun).2
  rw [(call_effect hr.1 hstep).other _ (Ne.symm (hother b hb))]
  unfold expireStale
  dsimp only
  rw [hr.2, Option.filter_none]

theorem not_deliversAt_of_ne {key : FragmentKey} (hother : ∀ b ∈ calls, b.key ≠ key) (i : Nat) :
    ¬ DeliversAt calls results key i := by
  intro hdel
  rcases hdel with ⟨c, m, hc, hkey, _⟩
  exact hother c (List.mem_of_getElem? hc) hkey

/-- The run up to the call that completes the message: this call delivers, the
    calls before it do not, and no entry is left. -/
theorem completing_run
    (hfrag : ValidFragmentation frag sequenceNumber nFragments channel data)
    (hv : self.AllValid) (hmax : data.length ≤ self.maxMessageSize)
    (hpending : self.pending (sender, sequenceNumber) = none) {pre post : List Call} {c : Call}
    (hcopies : Copies frag nFragments (sender, sequenceNumber) (pre ++ c :: post))
    (htime : ∀ b ∈ pre ++ c :: post,
      WithinTimeout (sender, sequenceNumber) opened self.timeout b)
    (hmissing : ¬ ∀ j < nFragments.toNat, Arrived (sender, sequenceNumber) pre j)
    (hall : ∀ j < nFragments.toNat, Arrived (sender, sequenceNumber) (pre ++ [c]) j)
    (hrun : self.processAll (pre ++ c :: post) = .ok (self', results)) :
    ∃ (mid : FragmentReassembler) (results₂ : List (Option LcmMessage)),
      mid.processAll post = .ok (self', results₂) ∧ mid.AllValid ∧
      mid.timeout = self.timeout ∧ mid.maxMessageSize = self.maxMessageSize ∧
      mid.pending (sender, sequenceNumber) = none ∧
      ∀ i, DeliversAt (pre ++ c :: post) results (sender, sequenceNumber) i ↔
        i = pre.length ∨ pre.length + 1 ≤ i ∧
          DeliversAt post results₂ (sender, sequenceNumber) (i - (pre.length + 1)) := by
  have hsplit : pre ++ c :: post = (pre ++ [c]) ++ post := by
    rw [List.append_assoc, List.singleton_append]
  rw [hsplit] at hcopies htime hrun ⊢
  rcases Machine.runAll_append.mp hrun with ⟨mid, results₁, results₂, hrun₁, hrun₂, rfl⟩
  rcases run_of_missing hfrag hv hmax hpending
      (fun b hb => hcopies b (List.mem_append_left post hb))
      (fun b hb => htime b (List.mem_append_left post hb)) hmissing hrun₁ with
    ⟨results', last, rfl, hlen, hnone, hlast⟩
  rw [if_pos hall] at hlast
  rcases hlast with ⟨hkey, rfl, hgone⟩
  rcases processAll_limits hv hrun₁ with ⟨htimeout, hmax'⟩
  refine ⟨mid, results₂, hrun₂, allValid_processAll hv hrun₁, htimeout, hmax', hgone,
    fun i => ?_⟩
  rw [deliversAt_append (Machine.runAll_length hrun₁), deliversAt_append hlen,
    deliversAt_singleton, List.length_append, List.length_singleton]
  simp only [hnone i, false_or, hkey, Option.isSome_some, and_true]
  have hindex : pre.length ≤ i ∧ i - pre.length = 0 ↔ i = pre.length := by omega
  rw [hindex]

/-- If all numbers arrive, the message is delivered. -/
theorem exists_deliversAt
    (hfrag : ValidFragmentation frag sequenceNumber nFragments channel data)
    (hv : self.AllValid) (hmax : data.length ≤ self.maxMessageSize)
    (hpending : self.pending (sender, sequenceNumber) = none)
    (hcopies : Copies frag nFragments (sender, sequenceNumber) calls)
    (htime : ∀ b ∈ calls, WithinTimeout (sender, sequenceNumber) opened self.timeout b)
    (hall : ∀ j < nFragments.toNat, Arrived (sender, sequenceNumber) calls j)
    (hrun : self.processAll calls = .ok (self', results)) :
    ∃ i, DeliversAt calls results (sender, sequenceNumber) i := by
  rcases exists_completing hfrag.count_pos hall with ⟨pre, c, post, rfl, hmissing, hdone, _⟩
  rcases completing_run hfrag hv hmax hpending hcopies htime hmissing hdone hrun with
    ⟨_, _, _, _, _, _, _, hdel⟩
  exact ⟨pre.length, (hdel pre.length).mpr (Or.inl rfl)⟩

/-- Copies that come when nothing is pending have an effect: they deliver a
    message, or they leave a set. -/
theorem deliversAt_or_pending
    (hfrag : ValidFragmentation frag sequenceNumber nFragments channel data)
    (hv : self.AllValid) (hmax : data.length ≤ self.maxMessageSize)
    (hpending : self.pending (sender, sequenceNumber) = none)
    (hcopies : Copies frag nFragments (sender, sequenceNumber) calls)
    (htime : ∀ b ∈ calls, WithinTimeout (sender, sequenceNumber) opened self.timeout b)
    {b : Call} (hb : b ∈ calls) (hbkey : b.key = (sender, sequenceNumber))
    (hrun : self.processAll calls = .ok (self', results)) :
    (∃ i, DeliversAt calls results (sender, sequenceNumber) i) ∨
      self'.pending (sender, sequenceNumber) ≠ none := by
  by_cases hall : ∀ j < nFragments.toNat, Arrived (sender, sequenceNumber) calls j
  · exact Or.inl (exists_deliversAt hfrag hv hmax hpending hcopies htime hall hrun)
  · rcases (holding_of_run hfrag hv hmax hpending hcopies htime hall hrun).2 with
      ⟨_, hno⟩ | ⟨set, parts, hset, _⟩
    · rcases hcopies b hb hbkey with ⟨j, hj, hbj⟩
      refine absurd ⟨b, hb, hbkey, ?_⟩ (hno j hj)
      rw [hbj]
      exact hfrag.number_eq j hj
    · rw [hset]
      exact Or.inr (Option.some_ne_none set)

/-- A call with a new number, and none under the key after it, is the one that
    completes the message. -/
theorem completing_of_last {pre post : List Call} {c : Call} {key : FragmentKey}
    (hfrag : ValidFragmentation frag sequenceNumber nFragments channel data)
    (hcopies : Copies frag nFragments key (pre ++ c :: post)) (hkey : c.key = key)
    (hnew : ¬ Arrived key pre c.fragment.number) (hother : ∀ b ∈ post, b.key ≠ key)
    (hall : ∀ j < nFragments.toNat, Arrived key (pre ++ c :: post) j) :
    (¬ ∀ j < nFragments.toNat, Arrived key pre j) ∧
      ∀ j < nFragments.toNat, Arrived key (pre ++ [c]) j := by
  constructor
  · intro h
    rcases hcopies c (List.mem_append_right pre List.mem_cons_self) hkey with ⟨k, hk, hck⟩
    refine hnew ?_
    rw [hck, hfrag.number_eq k hk]
    exact h k hk
  · intro j hj
    rcases hall j hj with ⟨b, hb, hbkey, hnum⟩
    refine ⟨b, ?_, hbkey, hnum⟩
    rcases List.mem_append.mp hb with hb | hb
    · exact List.mem_append_left [c] hb
    · rcases List.mem_cons.mp hb with hb | hb
      · rw [hb]
        exact List.mem_concat_self
      · exact absurd hbkey (hother b hb)

end Runs

/-- Calls that bring every fragment of a message one or more times, among calls
    under other keys, all within the timeout: the message is delivered once and
    leaves no entry exactly when the last call under the key brings a fragment
    that has not come before. -/
theorem delivered_once_iff {frag : Nat → Fragment} {sequenceNumber : UInt32}
    {nFragments : UInt16} {channel : String} {data : List UInt8}
    (hfrag : ValidFragmentation frag sequenceNumber nFragments channel data)
    {self : FragmentReassembler} (hreach : self.Reachable)
    (hmax : data.length ≤ self.maxMessageSize) (sender : SocketAddr)
    (hpending : self.pending (sender, sequenceNumber) = none) (opened : Instant)
    (calls : List Call) (hcopies : Copies frag nFragments (sender, sequenceNumber) calls)
    (htime : ∀ b ∈ calls, WithinTimeout (sender, sequenceNumber) opened self.timeout b)
    (hall : ∀ j < nFragments.toNat, Arrived (sender, sequenceNumber) calls j) :
    ∃ self' results, self.processAll calls = .ok (self', results) ∧
      (((∃! i, DeliversAt calls results (sender, sequenceNumber) i) ∧
          self'.pending (sender, sequenceNumber) = none) ↔
        ∃ pre c post, calls = pre ++ c :: post ∧ c.key = (sender, sequenceNumber) ∧
          ¬ Arrived (sender, sequenceNumber) pre c.fragment.number ∧
          ∀ b ∈ post, b.key ≠ (sender, sequenceNumber)) := by
  have hv := reachable_allValid hreach
  have hrun := processAll_eq calls hv
  refine ⟨_, _, hrun, ?_⟩
  constructor
  · intro h
    rcases h with ⟨hunique, hgone⟩
    rcases exists_completing hfrag.count_pos hall with
      ⟨pre, c, post, rfl, hmissing, hdone, hkey, hnew⟩
    rcases completing_run hfrag hv hmax hpending hcopies htime hmissing hdone hrun with
      ⟨mid, results₂, hrun₂, hv', htimeout, hmax', hnone, hdel⟩
    refine ⟨pre, c, post, rfl, hkey, hnew, fun b hb hbkey => ?_⟩
    -- A copy that follows is delivered a second time, or leaves a set.
    have hcopies' : Copies frag nFragments (sender, sequenceNumber) post :=
      fun d hd => hcopies d (List.mem_append_right pre (List.mem_cons_of_mem c hd))
    have htime' : ∀ d ∈ post, WithinTimeout (sender, sequenceNumber) opened mid.timeout d := by
      intro d hd
      rw [htimeout]
      exact htime d (List.mem_append_right pre (List.mem_cons_of_mem c hd))
    rcases deliversAt_or_pending hfrag hv' (by rw [hmax']; exact hmax) hnone hcopies' htime' hb
        hbkey hrun₂ with ⟨i, hi⟩ | hleft
    · have hsecond : pre.length + 1 + i = pre.length := by
        refine hunique.unique ((hdel _).mpr (Or.inr ⟨Nat.le_add_right _ _, ?_⟩))
          ((hdel _).mpr (Or.inl rfl))
        rw [Nat.add_sub_cancel_left]
        exact hi
      omega
    · exact hleft hgone
  · intro h
    rcases h with ⟨pre, c, post, rfl, hkey, hnew, hother⟩
    rcases completing_of_last hfrag hcopies hkey hnew hother hall with ⟨hmissing, hdone⟩
    rcases completing_run hfrag hv hmax hpending hcopies htime hmissing hdone hrun with
      ⟨mid, results₂, hrun₂, hv', _, _, hnone, hdel⟩
    refine ⟨⟨pre.length, (hdel _).mpr (Or.inl rfl), fun i hi => ?_⟩,
      pending_none_of_run hv' hnone hother hrun₂⟩
    rcases (hdel i).mp hi with heq | ⟨_, hpost⟩
    · exact heq
    · exact absurd hpost (not_deliversAt_of_ne hother _)

/-- A message of four bytes in two halves. -/
def halves : Nat → Fragment
  | 0 => ⟨1, 4, 0, 0, 2, some "A", [1, 2]⟩
  | _ => ⟨1, 4, 2, 1, 2, none, [3, 4]⟩

theorem validFragmentation_halves : ValidFragmentation halves 1 2 "A" [1, 2, 3, 4] where
  sequence_eq := by decide
  payload_eq := by decide
  count_eq := by decide
  number_eq := by decide
  channel_eq := by decide
  length_lt := by decide
  count_pos := by decide
  fits := by decide
  agrees := by decide
  covers := by decide

/-- Each half twice, the second copies before the message is complete, and a
    call of another publisher after it. -/
theorem delivered_once_early_copies :
    ∃ self' results,
      (new 10 100).processAll
          [⟨halves 1, .v4 1 5000, 0, 1, by decide⟩, ⟨halves 1, .v4 1 5000, 2, 2, by decide⟩,
            ⟨halves 0, .v4 1 5000, 5, 5, by decide⟩,
            ⟨⟨1, 2, 0, 0, 1, some "B", [5, 6]⟩, .v4 2 5000, 6, 6, by decide⟩]
        = .ok (self', results) ∧
      (∃! i, DeliversAt
          [⟨halves 1, .v4 1 5000, 0, 1, by decide⟩, ⟨halves 1, .v4 1 5000, 2, 2, by decide⟩,
            ⟨halves 0, .v4 1 5000, 5, 5, by decide⟩,
            ⟨⟨1, 2, 0, 0, 1, some "B", [5, 6]⟩, .v4 2 5000, 6, 6, by decide⟩]
        results (.v4 1 5000, 1) i) ∧
      self'.pending (.v4 1 5000, 1) = none := by
  have hreach : (new 10 100).Reachable := ⟨10, 100, [], [], by decide, rfl⟩
  rcases delivered_once_iff validFragmentation_halves hreach (by decide) (.v4 1 5000) rfl 0
      [⟨halves 1, .v4 1 5000, 0, 1, by decide⟩, ⟨halves 1, .v4 1 5000, 2, 2, by decide⟩,
        ⟨halves 0, .v4 1 5000, 5, 5, by decide⟩,
        ⟨⟨1, 2, 0, 0, 1, some "B", [5, 6]⟩, .v4 2 5000, 6, 6, by decide⟩]
      (by decide) (by decide) (by decide) with
    ⟨self', results, hrun, hiff⟩
  refine ⟨self', results, hrun, hiff.mpr ?_⟩
  exact ⟨[⟨halves 1, .v4 1 5000, 0, 1, by decide⟩, ⟨halves 1, .v4 1 5000, 2, 2, by decide⟩],
    ⟨halves 0, .v4 1 5000, 5, 5, by decide⟩,
    [⟨⟨1, 2, 0, 0, 1, some "B", [5, 6]⟩, .v4 2 5000, 6, 6, by decide⟩],
    rfl, by decide, by decide, by decide⟩

/-- Both halves twice, one copy of the message after the other: it is delivered
    twice. -/
theorem delivered_twice :
    ValidFragmentation halves 1 2 "A" [1, 2, 3, 4] ∧
    Copies halves 2 (.v4 1 5000, 1)
      [⟨halves 0, .v4 1 5000, 0, 1, by decide⟩, ⟨halves 1, .v4 1 5000, 2, 2, by decide⟩,
        ⟨halves 0, .v4 1 5000, 3, 3, by decide⟩, ⟨halves 1, .v4 1 5000, 4, 4, by decide⟩] ∧
    ∃ self',
      (new 10 100).processAll
          [⟨halves 0, .v4 1 5000, 0, 1, by decide⟩, ⟨halves 1, .v4 1 5000, 2, 2, by decide⟩,
            ⟨halves 0, .v4 1 5000, 3, 3, by decide⟩, ⟨halves 1, .v4 1 5000, 4, 4, by decide⟩]
        = .ok (self',
            [none, some ⟨"A", 1, [1, 2, 3, 4]⟩, none, some ⟨"A", 1, [1, 2, 3, 4]⟩]) ∧
      ¬ ∃! i, DeliversAt
          [⟨halves 0, .v4 1 5000, 0, 1, by decide⟩, ⟨halves 1, .v4 1 5000, 2, 2, by decide⟩,
            ⟨halves 0, .v4 1 5000, 3, 3, by decide⟩, ⟨halves 1, .v4 1 5000, 4, 4, by decide⟩]
          [none, some ⟨"A", 1, [1, 2, 3, 4]⟩, none, some ⟨"A", 1, [1, 2, 3, 4]⟩]
          (.v4 1 5000, 1) i := by
  refine ⟨validFragmentation_halves, by decide, _, rfl, fun hunique => ?_⟩
  rcases hunique with ⟨i, _, hi⟩
  have hfirst : 1 = i := hi 1 ⟨_, _, rfl, rfl, rfl⟩
  have hsecond : 3 = i := hi 3 ⟨_, _, rfl, rfl, rfl⟩
  omega

end LcmBridge
