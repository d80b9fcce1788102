import LcmBridge.Theory.Slot

/-!
# Publishers Do Not Interfere

The reassembler serves every publisher from one map, and every call sweeps the
sets of all of them. Still the calls under one key are answered as if they
were alone.

`processAll_eq` makes a sequence of calls a run of an expiring store, so this
is the store's projection theorem. What is left to show is that expiry is
monotone along the calls, which is the clock not going backwards: a set too
old for one call is too old for every later one.

## Main definitions

* `FragmentReassembler.Reachable`: The states sequences of calls lead to.

## Theorems

* `pairwise_now`, `now_le_insertNow`: Later readings are no earlier.
* `monotoneExpiry_of_clockOrdered`: An ordered clock makes expiry monotone.
* `reachable_allValid`: Every pending set of a reachable state is valid.
* `reassembler_isolation`: The answers under one key do not depend on the
  calls under others.
-/

namespace LcmBridge

/-- Of two calls, the later one sweeps no earlier than either reading of the
    first. -/
theorem pairwise_now {calls : List Call} (h : ClockOrdered calls) :
    calls.Pairwise (fun c c' => c.now ≤ c'.now ∧ c.insertNow ≤ c'.now) := by
  unfold ClockOrdered clockReadings at h
  rw [List.pairwise_flatMap] at h
  refine h.2.imp (fun {c c'} hcc => ?_)
  exact ⟨hcc c.now List.mem_cons_self c'.now List.mem_cons_self,
    hcc c.insertNow (List.mem_cons_of_mem _ List.mem_cons_self) c'.now List.mem_cons_self⟩

/-- Within a call the sweep comes first. -/
theorem now_le_insertNow {calls : List Call} (h : ClockOrdered calls) {c : Call} (hc : c ∈ calls) :
    c.now ≤ c.insertNow := by
  unfold ClockOrdered clockReadings at h
  rw [List.pairwise_flatMap] at h
  exact List.rel_of_pairwise_cons (h.1 c hc) List.mem_cons_self

theorem monotoneExpiry_of_clockOrdered (timeout : Duration) (maxMessageSize : Nat)
    {calls : List Call} (h : ClockOrdered calls) :
    (reassemblyRules timeout maxMessageSize).MonotoneExpiry calls := by
  refine (pairwise_now h).imp (fun {c c'} hcc set hexp => ?_)
  have hnow : c.now ≤ c'.now := hcc.1
  have hold : timeout < c.now - set.createdAt := of_decide_eq_true hexp
  exact decide_eq_true (Nat.lt_of_lt_of_le hold (Nat.sub_le_sub_right hnow set.createdAt))

namespace FragmentReassembler

/-- The states that sequences of calls on an ordered clock lead to. -/
def Reachable (self : FragmentReassembler) : Prop :=
  ∃ (timeout : Duration) (maxMessageSize : Nat) (calls : List Call)
    (results : List (Option LcmMessage)),
    ClockOrdered calls ∧ (new timeout maxMessageSize).processAll calls = .ok (self, results)

theorem allValid_processAll {self self' : FragmentReassembler} {calls : List Call}
    {results : List (Option LcmMessage)} (hv : self.AllValid)
    (h : self.processAll calls = .ok (self', results)) : self'.AllValid :=
  Machine.runAll_invariant AllValid (fun _ _ _ _ hs hstep => allValid_call hs hstep) hv h

theorem reachable_allValid {self : FragmentReassembler} (h : self.Reachable) : self.AllValid := by
  rcases h with ⟨timeout, maxMessageSize, calls, results, _, hrun⟩
  exact allValid_processAll (allValid_new timeout maxMessageSize) hrun

end FragmentReassembler

/-- The calls under one key are answered, call by call, as on a reassembler
    that only ever sees them, with the same clock readings. -/
theorem reassembler_isolation (timeout : Duration) (maxMessageSize : Nat) (calls : List Call)
    (hclock : ClockOrdered calls) (k : FragmentKey) :
    ∃ (shared alone : FragmentReassembler) (results results' : List (Option LcmMessage)),
      (FragmentReassembler.new timeout maxMessageSize).processAll calls = .ok (shared, results) ∧
      (FragmentReassembler.new timeout maxMessageSize).processAll
          (calls.filter (fun c => c.key = k)) = .ok (alone, results') ∧
      results.length = calls.length ∧
      ((calls.zip results).filter (fun p => p.1.key = k)).map Prod.snd = results' := by
  have hv := FragmentReassembler.allValid_new timeout maxMessageSize
  have hfull := FragmentReassembler.processAll_eq calls hv
  have halone := FragmentReassembler.processAll_eq (calls.filter (fun c => c.key = k)) hv
  refine ⟨_, _, _, _, hfull, halone, Machine.runAll_length hfull, ?_⟩
  exact (reassemblyRules timeout maxMessageSize).run_filter_eq k _ calls
    (monotoneExpiry_of_clockOrdered timeout maxMessageSize hclock)

/-- Two publishers at work, the second one's call sweeping out the first one's
    set. -/
theorem reassembler_isolation_two_publishers :
    ∃ (shared alone : FragmentReassembler) (results results' : List (Option LcmMessage)),
      (FragmentReassembler.new 10 100).processAll
          [⟨⟨1, 4, 0, 0, 2, some "A", [1, 2]⟩, .v4 1 5000, 0, 1, by decide⟩,
            ⟨⟨1, 2, 0, 0, 1, some "B", [5, 6]⟩, .v4 2 5000, 20, 20, by decide⟩,
            ⟨⟨1, 4, 2, 1, 2, none, [3, 4]⟩, .v4 1 5000, 21, 21, by decide⟩]
        = .ok (shared, results) ∧
      (FragmentReassembler.new 10 100).processAll
          [⟨⟨1, 4, 0, 0, 2, some "A", [1, 2]⟩, .v4 1 5000, 0, 1, by decide⟩,
            ⟨⟨1, 4, 2, 1, 2, none, [3, 4]⟩, .v4 1 5000, 21, 21, by decide⟩]
        = .ok (alone, results') ∧
      results.length = 3 ∧
      (([⟨⟨1, 4, 0, 0, 2, some "A", [1, 2]⟩, .v4 1 5000, 0, 1, by decide⟩,
            ⟨⟨1, 2, 0, 0, 1, some "B", [5, 6]⟩, .v4 2 5000, 20, 20, by decide⟩,
            ⟨⟨1, 4, 2, 1, 2, none, [3, 4]⟩, .v4 1 5000, 21, 21, by decide⟩].zip
          results).filter (fun p : Call × Option LcmMessage => p.1.key = (.v4 1 5000, 1))).map
          Prod.snd = results' :=
  reassembler_isolation 10 100
    [⟨⟨1, 4, 0, 0, 2, some "A", [1, 2]⟩, .v4 1 5000, 0, 1, by decide⟩,
      ⟨⟨1, 2, 0, 0, 1, some "B", [5, 6]⟩, .v4 2 5000, 20, 20, by decide⟩,
      ⟨⟨1, 4, 2, 1, 2, none, [3, 4]⟩, .v4 1 5000, 21, 21, by decide⟩]
    (by decide) (.v4 1 5000, 1)

end LcmBridge
