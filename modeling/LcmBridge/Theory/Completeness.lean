import LcmBridge.Theory.Family
import LcmBridge.Theory.Soundness

/-!
# Completeness of Reassembly

A message that arrives whole is delivered, however it was cut.

Nothing here depends on how a sender chooses its chunks. A valid fragmentation
may have empty chunks and overlapping ones, and its fragments may come in any
order, any number of times, with calls under other keys in between. What
matters about the past is only which numbers have arrived.

While a number is missing, the entry of the key holds the members that have
arrived (`holding_of_run`), whatever the other publishers do: their calls
sweep, and the sweep leaves a set that is within its timeout. The call that
brings the last missing number delivers the message and leaves no entry
(`run_of_missing`).

## Main definitions

* `Arrived`: The numbers that calls under a key have brought.
* `Copies`: The calls under a key bring members of a family.
* `WithinTimeout`: The clock readings of a call, against a starting time.

## Theorems

* `holding_call`: One more call while members are missing.
* `holding_of_run`: While members are missing, nothing is delivered.
* `reassembly_complete`: The last missing member delivers the message.
-/

namespace LcmBridge

open FragmentReassembler

/-- A call under the key brings the fragment of this number. -/
def Arrived (key : FragmentKey) (calls : List Call) (i : Nat) : Prop :=
  ∃ c ∈ calls, c.key = key ∧ c.fragment.number = i

/-- The calls under the key bring members of the family. -/
def Copies (frag : Nat → Fragment) (nFragments : UInt16) (key : FragmentKey)
    (calls : List Call) : Prop :=
  ∀ c ∈ calls, c.key = key → ∃ i < nFragments.toNat, c.fragment = frag i

/-- The sweep of the call is within the timeout of `opened`, and a set that it
    creates under the key is no older. -/
def WithinTimeout (key : FragmentKey) (opened : Instant) (timeout : Duration) (c : Call) : Prop :=
  c.now ≤ opened + timeout ∧ (c.key = key → opened ≤ c.insertNow)

instance (key : FragmentKey) (opened : Instant) (timeout : Duration) (c : Call) :
    Decidable (WithinTimeout key opened timeout c) :=
  inferInstanceAs (Decidable (_ ∧ _))

instance (frag : Nat → Fragment) (nFragments : UInt16) (key : FragmentKey) (calls : List Call) :
    Decidable (Copies frag nFragments key calls) :=
  inferInstanceAs (Decidable (∀ _ ∈ _, _))

instance (key : FragmentKey) (calls : List Call) (i : Nat) : Decidable (Arrived key calls i) :=
  inferInstanceAs (Decidable (∃ _ ∈ _, _))

section Lists

variable {key : FragmentKey} {calls calls' : List Call} {c : Call}
  {results results' : List (Option LcmMessage)} {result : Option LcmMessage} {i : Nat}

theorem arrived_append :
    Arrived key (calls ++ calls') i ↔ Arrived key calls i ∨ Arrived key calls' i := by
  unfold Arrived
  simp only [List.mem_append, or_and_right, exists_or]

theorem arrived_singleton : Arrived key [c] i ↔ c.key = key ∧ c.fragment.number = i := by
  unfold Arrived
  simp only [List.mem_singleton, exists_eq_left]

/-- One more call under the key brings its number. -/
theorem arrived_concat (hkey : c.key = key) :
    Arrived key (calls ++ [c]) i ↔ Arrived key calls i ∨ i = c.fragment.number := by
  rw [arrived_append, arrived_singleton, @eq_comm _ i]
  simp only [hkey, true_and]

/-- One more call under another key brings nothing. -/
theorem arrived_concat_of_ne (hkey : c.key ≠ key) :
    Arrived key (calls ++ [c]) i ↔ Arrived key calls i := by
  rw [arrived_append, arrived_singleton]
  simp only [hkey, false_and, or_false]

/-- A delivery in two sequences of calls is one in the first or in the
    second. -/
theorem deliversAt_append (hlen : results.length = calls.length) :
    DeliversAt (calls ++ calls') (results ++ results') key i ↔
      DeliversAt calls results key i ∨
        calls.length ≤ i ∧ DeliversAt calls' results' key (i - calls.length) := by
  unfold DeliversAt
  by_cases hi : i < calls.length
  · rw [List.getElem?_append_left hi, List.getElem?_append_left (by omega)]
    simp only [Nat.not_le.mpr hi, false_and, or_false]
  · rw [List.getElem?_append_right (by omega), List.getElem?_append_right (by omega), hlen,
      List.getElem?_eq_none (l := calls) (by omega)]
    simp only [Nat.le_of_not_lt hi, true_and, reduceCtorEq, false_and, exists_false, false_or]

theorem deliversAt_singleton :
    DeliversAt [c] [result] key i ↔ i = 0 ∧ c.key = key ∧ result.isSome := by
  unfold DeliversAt
  rw [Option.isSome_iff_exists]
  by_cases h0 : i = 0
  · rw [h0]
    simp only [List.getElem?_cons_zero, Option.some.injEq, exists_and_left, exists_eq_left', true_and]
  · rw [List.getElem?_eq_none (by simp only [List.length_singleton]; omega)]
    simp only [reduceCtorEq, false_and, exists_false, h0]

end Lists

/-! ### One call -/

section Members

variable {frag : Nat → Fragment} {sequenceNumber : UInt32} {nFragments : UInt16}
  {channel : String} {data : List UInt8} {sender : SocketAddr} {opened : Instant}
  {self self' : FragmentReassembler} {calls : List Call} {c : Call} {result : Option LcmMessage}

/-- One more call while members are missing: it completes the message, or the
    entry of the key holds one more member, or the call is under another key
    and changes nothing. -/
theorem holding_call
    (hfrag : ValidFragmentation frag sequenceNumber nFragments channel data)
    (hv : self.AllValid) (hmax : data.length ≤ self.maxMessageSize)
    (hcopies : Copies frag nFragments (sender, sequenceNumber) (calls ++ [c]))
    (htime : WithinTimeout (sender, sequenceNumber) opened self.timeout c)
    (hhold : Holding frag (UInt32.ofNat data.length) nFragments channel opened
      (Arrived (sender, sequenceNumber) calls) (self.pending (sender, sequenceNumber)))
    (hmissing : ¬ ∀ j < nFragments.toNat, Arrived (sender, sequenceNumber) calls j)
    (hstep : self.call c = .ok (self', result)) :
    (c.key = (sender, sequenceNumber) ∧
      (∀ j < nFragments.toNat, Arrived (sender, sequenceNumber) (calls ++ [c]) j) ∧
      result = some ⟨channel, sequenceNumber, data⟩ ∧
      self'.pending (sender, sequenceNumber) = none) ∨
    ((¬ ∀ j < nFragments.toNat, Arrived (sender, sequenceNumber) (calls ++ [c]) j) ∧
      (c.key = (sender, sequenceNumber) → result = none) ∧
      Holding frag (UInt32.ofNat data.length) nFragments channel opened
        (Arrived (sender, sequenceNumber) (calls ++ [c]))
        (self'.pending (sender, sequenceNumber))) := by
  have heffect := call_effect hv hstep
  have hswept : (self.expireStale c.now).pending (sender, sequenceNumber)
      = self.pending (sender, sequenceNumber) := holding_filter hhold htime.1
  by_cases hkey : c.key = (sender, sequenceNumber)
  · rcases hcopies c List.mem_concat_self hkey with ⟨i, hi, hci⟩
    have hgrow : ∀ j, Arrived (sender, sequenceNumber) (calls ++ [c]) j ↔
        Arrived (sender, sequenceNumber) calls j ∨ j = i := by
      intro j
      rw [arrived_concat hkey, hci, hfrag.number_eq i hi]
    have hown := heffect.own
    have hresult := heffect.result_eq
    rw [hkey, hswept, hci] at hown hresult
    rw [hown, hresult]
    have hsize : (UInt32.ofNat data.length).toNat ≤ self.maxMessageSize := by
      rw [toNat_ofNat_length hfrag.length_lt]
      exact hmax
    have hfits : ∀ j < nFragments.toNat,
        (frag j).piece.Fits (UInt32.ofNat data.length).toNat := by
      intro j hj
      rw [toNat_ofNat_length hfrag.length_lt]
      exact hfrag.fits j hj
    rcases holding_offer hfrag.toFamily hfits hsize hi (htime.2 hkey) hhold hmissing with
      ⟨hall, set, parts, hoffer, hfrom, hparts⟩ | ⟨hsome, slot', hoffer, hhold'⟩
    · rw [hoffer, overlay_members hfrag hfrom hparts]
      exact Or.inl ⟨hkey, fun j hj => (hgrow j).mpr (hall j hj), rfl, rfl⟩
    · rw [hoffer]
      exact Or.inr ⟨fun hc => hsome (fun j hj => (hgrow j).mp (hc j hj)), fun _ => rfl,
        holding_congr hhold' (fun j _ => (hgrow j).symm)⟩
  · refine Or.inr ⟨fun hc => hmissing (fun j hj => (arrived_concat_of_ne hkey).mp (hc j hj)),
      fun hc => absurd hc hkey, ?_⟩
    rw [heffect.other _ (Ne.symm hkey), hswept]
    exact holding_congr hhold (fun j _ => (arrived_concat_of_ne hkey).symm)

/-! ### Whole runs -/

variable {results : List (Option LcmMessage)}

-- Induction on the calls made so far. What is missing now was missing before,
-- so the last call cannot have completed the message.
theorem holding_of_run
    (hfrag : ValidFragmentation frag sequenceNumber nFragments channel data)
    (hv : self.AllValid) (hmax : data.length ≤ self.maxMessageSize)
    (hpending : self.pending (sender, sequenceNumber) = none)
    (hcopies : Copies frag nFragments (sender, sequenceNumber) calls)
    (htime : ∀ b ∈ calls, WithinTimeout (sender, sequenceNumber) opened self.timeout b)
    (hmissing : ¬ ∀ j < nFragments.toNat, Arrived (sender, sequenceNumber) calls j)
    (hrun : self.processAll calls = .ok (self', results)) :
    (∀ i, ¬ DeliversAt calls results (sender, sequenceNumber) i) ∧
      Holding frag (UInt32.ofNat data.length) nFragments channel opened
        (Arrived (sender, sequenceNumber) calls) (self'.pending (sender, sequenceNumber)) := by
  induction calls using List.reverseRecOn generalizing self' results with
  | nil =>
      unfold processAll at hrun
      rw [Machine.runAll_nil, Except.ok.injEq, Prod.mk.injEq] at hrun
      rw [← hrun.1, ← hrun.2]
      constructor
      · intro i hdel
        rcases hdel with ⟨c, m, hc, _⟩
        exact absurd hc (by simp only [List.getElem?_nil, reduceCtorEq, not_false_eq_true])
      · refine Or.inl ⟨hpending, fun j _ harr => ?_⟩
        rcases harr with ⟨c, hc, _⟩
        exact absurd hc List.not_mem_nil
  | append_singleton calls c ih =>
      rcases Machine.runAll_concat.mp hrun with ⟨mid, results', result, hrun', hstep, rfl⟩
      have hmissing' : ¬ ∀ j < nFragments.toNat, Arrived (sender, sequenceNumber) calls j :=
        fun hall => hmissing (fun j hj => arrived_append.mpr (Or.inl (hall j hj)))
      rcases ih (fun b hb => hcopies b (List.mem_append_left [c] hb))
          (fun b hb => htime b (List.mem_append_left [c] hb)) hmissing' hrun' with
        ⟨hnone, hhold⟩
      have hv' := allValid_processAll hv hrun'
      rcases processAll_limits hv hrun' with ⟨htimeout, hmax'⟩
      rcases holding_call hfrag hv' (by rw [hmax']; exact hmax) hcopies
          (by rw [htimeout]; exact htime c List.mem_concat_self) hhold hmissing' hstep with
        ⟨_, hall, _⟩ | ⟨_, hresult, hhold'⟩
      · exact absurd hall hmissing
      · refine ⟨fun i hdel => ?_, hhold'⟩
        rcases (deliversAt_append (Machine.runAll_length hrun')).mp hdel with hold | ⟨_, hnew⟩
        · exact hnone i hold
        · rcases deliversAt_singleton.mp hnew with ⟨_, hkey, hsome⟩
          rw [hresult hkey] at hsome
          exact absurd hsome (by simp only [Option.isSome_none, Bool.false_eq_true,
            not_false_eq_true])

/-- One more call than those of `holding_of_run`, whether or not it brings the
    last missing number. -/
theorem run_of_missing
    (hfrag : ValidFragmentation frag sequenceNumber nFragments channel data)
    (hv : self.AllValid) (hmax : data.length ≤ self.maxMessageSize)
    (hpending : self.pending (sender, sequenceNumber) = none)
    (hcopies : Copies frag nFragments (sender, sequenceNumber) (calls ++ [c]))
    (htime : ∀ b ∈ calls ++ [c], WithinTimeout (sender, sequenceNumber) opened self.timeout b)
    (hmissing : ¬ ∀ j < nFragments.toNat, Arrived (sender, sequenceNumber) calls j)
    (hrun : self.processAll (calls ++ [c]) = .ok (self', results)) :
    ∃ results' last, results = results' ++ [last] ∧ results'.length = calls.length ∧
      (∀ i, ¬ DeliversAt calls results' (sender, sequenceNumber) i) ∧
      if ∀ j < nFragments.toNat, Arrived (sender, sequenceNumber) (calls ++ [c]) j then
        c.key = (sender, sequenceNumber) ∧ last = some ⟨channel, sequenceNumber, data⟩ ∧
          self'.pending (sender, sequenceNumber) = none
      else c.key = (sender, sequenceNumber) → last = none := by
  rcases Machine.runAll_concat.mp hrun with ⟨mid, results', last, hrun', hstep, rfl⟩
  rcases holding_of_run hfrag hv hmax hpending
      (fun b hb => hcopies b (List.mem_append_left [c] hb))
      (fun b hb => htime b (List.mem_append_left [c] hb)) hmissing hrun' with ⟨hnone, hhold⟩
  have hv' := allValid_processAll hv hrun'
  rcases processAll_limits hv hrun' with ⟨htimeout, hmax'⟩
  refine ⟨results', last, rfl, Machine.runAll_length hrun', hnone, ?_⟩
  rcases holding_call hfrag hv' (by rw [hmax']; exact hmax) hcopies
      (by rw [htimeout]; exact htime c List.mem_concat_self) hhold hmissing hstep with
    ⟨hkey, hall, hlast, hgone⟩ | ⟨hsome, hlast, _⟩
  · rw [if_pos hall]
    exact ⟨hkey, hlast, hgone⟩
  · rw [if_neg hsome]
    exact hlast

end Members

/-- Calls that bring the fragments of a message in any order and with any
    repetitions, among calls under other keys, all within the timeout: nothing
    is delivered under the key while a number is missing, and the call that
    brings the last one delivers the message and leaves no entry. -/
theorem reassembly_complete {frag : Nat → Fragment} {sequenceNumber : UInt32}
    {nFragments : UInt16} {channel : String} {data : List UInt8}
    (hfrag : ValidFragmentation frag sequenceNumber nFragments channel data)
    {self : FragmentReassembler} (hreach : self.Reachable)
    (hmax : data.length ≤ self.maxMessageSize) (sender : SocketAddr)
    (hpending : self.pending (sender, sequenceNumber) = none) (opened : Instant)
    (pre : List Call) (c : Call)
    (hcopies : Copies frag nFragments (sender, sequenceNumber) (pre ++ [c]))
    (htime : ∀ b ∈ pre ++ [c], WithinTimeout (sender, sequenceNumber) opened self.timeout b)
    (hmissing : ¬ ∀ j < nFragments.toNat, Arrived (sender, sequenceNumber) pre j) :
    ∃ self' results last, self.processAll (pre ++ [c]) = .ok (self', results ++ [last]) ∧
      results.length = pre.length ∧
      (∀ i, ¬ DeliversAt pre results (sender, sequenceNumber) i) ∧
      if ∀ j < nFragments.toNat, Arrived (sender, sequenceNumber) (pre ++ [c]) j then
        c.key = (sender, sequenceNumber) ∧ last = some ⟨channel, sequenceNumber, data⟩ ∧
          self'.pending (sender, sequenceNumber) = none
      else c.key = (sender, sequenceNumber) → last = none := by
  have hv := reachable_allValid hreach
  have hrun := processAll_eq (pre ++ [c]) hv
  rcases run_of_missing hfrag hv hmax hpending hcopies htime hmissing hrun with
    ⟨results, last, hresults, hlen, hnone, hlast⟩
  rw [hresults] at hrun
  exact ⟨_, results, last, hrun, hlen, hnone, hlast⟩

/-- Three fragments of a message of four bytes, overlapping in the middle, the
    last one empty. -/
def overlapping : Nat → Fragment
  | 0 => ⟨1, 4, 0, 0, 3, some "A", [1, 2, 3]⟩
  | 1 => ⟨1, 4, 1, 1, 3, none, [2, 3, 4]⟩
  | _ => ⟨1, 4, 2, 2, 3, none, []⟩

theorem validFragmentation_overlapping :
    ValidFragmentation overlapping 1 3 "A" [1, 2, 3, 4] where
  sequence_eq := by decide
  payload_eq := by decide
  count_eq := by decide
  number_eq := by decide
  channel_eq := by decide
  length_lt := by decide
  count_pos := by decide
  fits := by decide
  agrees := by decide
  covers := by decide

/-- The overlapping fragments in another order, one of them twice, and a call
    of another publisher among them. -/
theorem reassembly_complete_overlapping :
    ∃ self' results last,
      (new 10 100).processAll
          ([⟨overlapping 2, .v4 1 5000, 0, 1, by decide⟩,
            ⟨overlapping 1, .v4 1 5000, 2, 2, by decide⟩,
            ⟨⟨1, 2, 0, 0, 1, some "B", [5, 6]⟩, .v4 2 5000, 4, 4, by decide⟩,
            ⟨overlapping 1, .v4 1 5000, 5, 5, by decide⟩] ++
          [⟨overlapping 0, .v4 1 5000, 9, 9, by decide⟩])
        = .ok (self', results ++ [last]) ∧
      results.length = 4 ∧
      last = some ⟨"A", 1, [1, 2, 3, 4]⟩ ∧ self'.pending (.v4 1 5000, 1) = none := by
  have hreach : (new 10 100).Reachable := ⟨10, 100, [], [], by decide, rfl⟩
  rcases reassembly_complete validFragmentation_overlapping hreach (by decide) (.v4 1 5000) rfl 0
      [⟨overlapping 2, .v4 1 5000, 0, 1, by decide⟩,
        ⟨overlapping 1, .v4 1 5000, 2, 2, by decide⟩,
        ⟨⟨1, 2, 0, 0, 1, some "B", [5, 6]⟩, .v4 2 5000, 4, 4, by decide⟩,
        ⟨overlapping 1, .v4 1 5000, 5, 5, by decide⟩]
      ⟨overlapping 0, .v4 1 5000, 9, 9, by decide⟩
      (by decide) (by decide) (by decide) with
    ⟨self', results, last, hrun, hlen, _, hlast⟩
  rw [if_pos (by decide)] at hlast
  exact ⟨self', results, last, hrun, hlen, hlast.2⟩

end LcmBridge
