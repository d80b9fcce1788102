import LcmBridge.Theory.LoopPrevention
import LcmBridge.Theory.PruneCost

/-!
# A Bridge That Never Prunes

What can be seen of the pruning of sent numbers.

The bridge is meant to remember the numbers it has sent until their copies come
back. Pruning is there to keep the set small, and should not be seen. The
bridge without it is a second machine, `stepUnpruned`, that only records
differently. Its set has a meaning that does not mention any set: a number is
in it exactly when it is outstanding, that is, it was recorded and no message
that carries it has been checked since.

The two machines are run in lockstep. The smaller set is contained in the larger
one, and it contains every number that was recorded no more than 5000 numbers
ago (`step_remembers`), so a check can only tell them apart by a number that
is outstanding for longer. As long as none is checked, the two have the same
runs, with the same events (`pruning_invisible`). This holds on both sides of
the wrap. What becomes of a message can then be read off the events before it
(`handling_iff`).

The bound is exact. The first pruning discards the number 4999 when 5001 numbers
have been issued since, and a message that carries it is then published by one
bridge and skipped by the other (`pruning_visible`).

## Main definitions

* `outstanding`: How many numbers ago a number was recorded, unless a message
  with it has been checked since.
* `InTime`: No message is checked whose number is outstanding for long.
* `stepUnpruned`, `Bridge.runUnpruned`: The bridge without pruning.
* `Event.remembered`: What a move does to its set.
* `Remembers`: What relates the sets of the two.
* `Unpruned`: The one bridge after the events of the other.
* `comesIn`: A message of another publisher.

## Theorems

* `outstanding_cases`: How a number comes to be outstanding.
* `stepUnpruned_eq`: A move of one is a move of the other.
* `step_remembers`: What a move preserves.
* `unpruned_of_run`, `run_of_unpruned`: A run of one is a run of the other.
* `pruning_invisible`: Runs that are in time are the same.
* `handling_iff`: Which messages are skipped, and which are published.
* `forwards_iff_outstanding`, `noEcho_iff_outstanding`: When loop prevention
  keeps its promises, in terms of the events.
-/

namespace LcmBridge

open Bytes Potential

/-! ### Outstanding numbers -/

/-- Whether a move leaves a number outstanding, and for how many numbers. -/
def Event.outstanding (seq : UInt32) : Event → Option Nat → Option Nat
  | .recorded s, since => if s = seq then some 0 else since
  | .handled _ msg _, since => if msg.sequenceNumber = seq then none else since
  | .sampled outcome, since =>
      if (Event.sampled outcome).issues then since.map (· + 1) else since
  | .received _, since => since

/-- How many numbers have been issued since the number was recorded, if no
    message that carries it has been checked since. -/
def outstanding (seq : UInt32) (events : List Event) : Option Nat :=
  replay (Event.outstanding seq) none events

theorem outstanding_concat (seq : UInt32) (events : List Event) (event : Event) :
    outstanding seq (events ++ [event]) = event.outstanding seq (outstanding seq events) :=
  replay_concat _ none events event

/-- How a number comes to be outstanding: it has just been recorded, or it was
    outstanding before and the event is about another number. -/
theorem outstanding_cases {seq : UInt32} {events : List Event} {event : Event} {n : Nat}
    (h : outstanding seq (events ++ [event]) = some n) :
    (event = .recorded seq ∧ n = 0) ∨
      ∃ m, outstanding seq events = some m ∧ n = m + (if event.issues then 1 else 0) ∧
        (∀ s, event = .recorded s → s ≠ seq) ∧
        ∀ src msg handling, event = .handled src msg handling → msg.sequenceNumber ≠ seq := by
  rw [outstanding_concat] at h
  cases event with
  | received msg =>
      refine Or.inr ⟨n, h, rfl, ?_, ?_⟩
      · simp only [reduceCtorEq, false_implies, implies_true]
      · simp only [reduceCtorEq, false_implies, implies_true]
  | handled src msg handling =>
      by_cases hseq : msg.sequenceNumber = seq
      · simp only [Event.outstanding, if_pos hseq, reduceCtorEq] at h
      · simp only [Event.outstanding, if_neg hseq] at h
        refine Or.inr ⟨n, h, rfl, ?_, fun _ _ _ hevent => ?_⟩
        · simp only [reduceCtorEq, false_implies, implies_true]
        · rw [Event.handled.injEq] at hevent
          rwa [← hevent.2.1]
  | recorded s =>
      by_cases hseq : s = seq
      · simp only [Event.outstanding, if_pos hseq, Option.some.injEq] at h
        exact Or.inl ⟨by rw [hseq], h.symm⟩
      · simp only [Event.outstanding, if_neg hseq] at h
        refine Or.inr ⟨n, h, rfl, fun _ hevent => ?_, ?_⟩
        · rw [Event.recorded.injEq] at hevent
          rwa [← hevent]
        · simp only [reduceCtorEq, false_implies, implies_true]
  | sampled outcome =>
      have hother : (∀ s, Event.sampled outcome = .recorded s → s ≠ seq) ∧
          ∀ src msg handling, Event.sampled outcome = .handled src msg handling →
            msg.sequenceNumber ≠ seq := by
        simp only [reduceCtorEq, false_implies, implies_true, and_self]
      by_cases hissues : (Event.sampled outcome).issues = true
      · simp only [Event.outstanding, if_pos hissues, Option.map_eq_some_iff] at h
        rcases h with ⟨m, hm, rfl⟩
        exact Or.inr ⟨m, hm, by rw [if_pos hissues], hother⟩
      · simp only [Event.outstanding, if_neg hissues] at h
        exact Or.inr ⟨n, h, by rw [if_neg hissues, Nat.add_zero], hother⟩

/-- No message is checked whose number has been outstanding for more than 5000
    numbers. -/
def InTime (events : List Event) : Prop :=
  ∀ before src msg handling rest, events = before ++ .handled src msg handling :: rest →
    ∀ n, outstanding msg.sequenceNumber before = some n → n ≤ 5000

theorem inTime_concat {events : List Event} {event : Event} :
    InTime (events ++ [event]) ↔ InTime events ∧ ∀ src msg handling,
      event = .handled src msg handling →
        ∀ n, outstanding msg.sequenceNumber events = some n → n ≤ 5000 := by
  constructor
  · intro h
    constructor
    · intro before src msg handling rest hsplit
      exact h before src msg handling (rest ++ [event]) (by
        rw [hsplit, List.append_assoc, List.cons_append])
    · intro src msg handling hevent
      exact h events src msg handling [] (by rw [hevent])
  · intro h before src msg handling rest hsplit
    rcases List.eq_nil_or_concat rest with rfl | ⟨rest', last, rfl⟩
    · -- The check is the last event.
      rcases List.append_inj' hsplit rfl with ⟨rfl, hevent⟩
      exact h.2 src msg handling (List.singleton_inj.mp hevent)
    · rw [List.concat_eq_append, ← List.cons_append, ← List.append_assoc] at hsplit
      exact h.1 before src msg handling rest' (List.append_inj' hsplit rfl).1

/-- A message that comes in and is checked. -/
theorem InTime.message {events : List Event} (h : InTime events) {src : SocketAddr}
    {msg : LcmMessage} {handling : Handling}
    (htime : ∀ n, outstanding msg.sequenceNumber events = some n → n ≤ 5000) :
    InTime (events ++ [.received (some msg), .handled src msg handling]) := by
  rw [List.append_cons]
  refine inTime_concat.mpr ⟨inTime_concat.mpr ⟨h, fun _ _ _ hevent => ?_⟩,
    fun src' msg' handling' hevent n hn => ?_⟩
  · exact absurd hevent (by simp only [reduceCtorEq, not_false_eq_true])
  · rw [Event.handled.injEq] at hevent
    rw [outstanding_concat, ← hevent.2.1] at hn
    exact htime n hn

/-! ### The bridge without pruning -/

/-- One move of one task, with a set that is never pruned. -/
def stepUnpruned (tryFrom : String → Except String KeyExpr) (b : Bridge) :
    Action → Except Stop (Bridge × Event)
  | .record =>
      match b.sender with
      | .idle => .error .disabled
      | .recording seq =>
          .ok ({ b with sentSequences := insert seq b.sentSequences, sender := .idle },
            .recorded seq)
  | .sample keyExpr payload sendTo => step tryFrom b (.sample keyExpr payload sendTo)
  | .arrive a => step tryFrom b (.arrive a)
  | .check => step tryFrom b .check

/-- A sequence of its moves. -/
def Bridge.runUnpruned (tryFrom : String → Except String KeyExpr) (b : Bridge)
    (actions : List Action) : Except Stop (Bridge × List Event) :=
  Machine.runAll (stepUnpruned tryFrom) b actions

/-- What a move does to the set that is never pruned. -/
def Event.remembered : Event → Finset UInt32 → Finset UInt32
  | .recorded seq, seqs => insert seq seqs
  | .handled _ msg _, seqs => seqs.erase msg.sequenceNumber
  | .sampled _, seqs => seqs
  | .received _, seqs => seqs

/-- Of the set, a message looks at its own number only. -/
theorem handleMessage_congr {tryFrom : String → Except String KeyExpr} {config : Config}
    {seqs seqs' : Finset UInt32} {msg : LcmMessage}
    (h : msg.sequenceNumber ∈ seqs ↔ msg.sequenceNumber ∈ seqs') :
    (handleMessage tryFrom config seqs msg).2 = (handleMessage tryFrom config seqs' msg).2 := by
  unfold handleMessage
  by_cases hseq : msg.sequenceNumber ∈ seqs
  · rw [if_pos hseq, if_pos (h.mp hseq)]
  · -- What remains is decided by the channel alone.
    rw [if_neg hseq, if_neg (fun hmem => hseq (h.mpr hmem))]
    split
    · rfl
    · split <;> rfl

section Steps

variable {tryFrom : String → Except String KeyExpr} {b b' : Bridge} {a : Action} {event : Event}
  {events : List Event} {seqs : Finset UInt32}

/-- Apart from the sets, a move of one bridge is a move of the other, unless it
    checks a message whose number only one of them has. -/
theorem stepUnpruned_eq
    (hcheck : a = .check → ∀ src msg, b.receiver = .checking src msg →
      (msg.sequenceNumber ∈ b.sentSequences ↔ msg.sequenceNumber ∈ seqs)) :
    stepUnpruned tryFrom { b with sentSequences := seqs } a
      = (step tryFrom b a).map (fun out =>
          ({ out.1 with sentSequences := out.2.remembered seqs }, out.2)) := by
  cases a with
  | sample keyExpr payload sendTo =>
      unfold stepUnpruned step
      cases hidle : b.sender with
      | recording seq => simp only [Except.map]
      | idle =>
          cases hhandle : handleSample b.config b.transport sendTo keyExpr payload with
          | error panic => simp only [hhandle, Except.map]
          | ok out => simp only [hhandle, Except.map, Event.remembered]
  | record =>
      unfold stepUnpruned step
      cases hseq : b.sender with
      | idle => simp only [Except.map]
      | recording seq => simp only [Except.map, Event.remembered]
  | arrive a =>
      unfold stepUnpruned step
      cases hwait : b.receiver with
      | checking src msg => simp only [Except.map]
      | receiving =>
          by_cases hnet : a.src = b.localAddr ∧ a.datagram ∉ b.emitted
          · simp only [if_pos hnet, Except.map]
          · cases hrecv : recvStep b.reassembler a with
            | error panic => simp only [if_neg hnet, hrecv, Except.map]
            | ok out =>
                obtain ⟨reassembler, msg⟩ := out
                cases msg with
                | none => simp only [if_neg hnet, hrecv, Except.map, Event.remembered]
                | some msg => simp only [if_neg hnet, hrecv, Except.map, Event.remembered]
  | check =>
      unfold stepUnpruned step
      cases hrecv : b.receiver with
      | receiving => simp only [Except.map]
      | checking src msg =>
          have hsame : (handleMessage tryFrom b.config seqs msg).2
              = (handleMessage tryFrom b.config b.sentSequences msg).2 :=
            handleMessage_congr (hcheck rfl src msg hrecv).symm
          simp only [Except.map, Event.remembered, hsame, handleMessage_sentSequences]

/-- What holds of a bridge, after these events, and of the set that has never
    been pruned. -/
structure Remembers (events : List Event) (b : Bridge) (seqs : Finset UInt32) : Prop where
  latest : HoldsLatest b
  counter : ∀ seq n, outstanding seq events = some n →
    b.transport.sequenceCounter = seq + UInt32.ofNat (n + 1)
  history : ∀ seq, seq ∈ seqs ↔ (outstanding seq events).isSome
  subset : b.sentSequences ⊆ seqs
  recent : ∀ seq n, outstanding seq events = some n → n ≤ 5000 → seq ∈ b.sentSequences

theorem start_remembers (config : Config) (localAddr : SocketAddr) (fragmentMtu : Nat) :
    Remembers [] (Bridge.start config localAddr fragmentMtu) ∅ where
  latest := start_holdsLatest
  counter _ _ h := absurd h (by simp only [outstanding, replay, reduceCtorEq, not_false_eq_true])
  history seq := by
    simp only [outstanding, replay, Option.isSome_none, Bool.false_eq_true, Finset.notMem_empty]
  subset := Finset.empty_subset ∅
  recent _ _ h := absurd h (by simp only [outstanding, replay, reduceCtorEq, not_false_eq_true])

/-- A number falls behind with the counter, whatever is issued, and whatever
    becomes of the others. -/
theorem counter_step (h : Remembers events b seqs) (hstep : step tryFrom b a = .ok (b', event))
    {seq : UInt32} {n : Nat} (hout : outstanding seq (events ++ [event]) = some n) :
    b'.transport.sequenceCounter = seq + UInt32.ofNat (n + 1) := by
  rw [step_sequenceCounter hstep]
  rcases outstanding_cases hout with ⟨rfl, rfl⟩ | ⟨m, hm, rfl, _⟩
  · exact (UInt32.add_zero _).trans (h.latest seq (step_eq_recorded hstep).1)
  · rw [h.counter seq m hm]
    split
    · rw [UInt32.add_assoc, UInt32.ofNat_add (m + 1) 1]
      rfl
    · rw [UInt32.add_zero, Nat.add_zero]

/-- The set that is not pruned is the set of outstanding numbers. -/
theorem history_step (h : ∀ seq, seq ∈ seqs ↔ (outstanding seq events).isSome) (event : Event)
    (seq : UInt32) :
    seq ∈ event.remembered seqs ↔ (outstanding seq (events ++ [event])).isSome := by
  rw [outstanding_concat]
  cases event with
  | received msg => exact h seq
  | handled src msg handling =>
      by_cases hseq : msg.sequenceNumber = seq
      · rw [← hseq]
        simp only [Event.remembered, Event.outstanding, if_true, Finset.mem_erase, ne_eq,
          not_true_eq_false, false_and, Option.isSome_none, Bool.false_eq_true]
      · simp only [Event.remembered, Event.outstanding, if_neg hseq, Finset.mem_erase, ne_eq,
          Ne.symm hseq, not_false_eq_true, true_and, h seq]
  | recorded s =>
      by_cases hseq : s = seq
      · rw [← hseq]
        simp only [Event.remembered, Event.outstanding, if_true, Finset.mem_insert_self,
          Option.isSome_some]
      · simp only [Event.remembered, Event.outstanding, if_neg hseq, Finset.mem_insert,
          Ne.symm hseq, false_or, h seq]
  | sampled outcome =>
      by_cases hissues : (Event.sampled outcome).issues = true
      · simp only [Event.remembered, Event.outstanding, if_pos hissues, Option.isSome_map, h seq]
      · simp only [Event.remembered, Event.outstanding, if_neg hissues, h seq]

/-- Pruning discards no number that was recorded up to 5000 numbers ago. -/
theorem recent_step (h : Remembers events b seqs) (hstep : step tryFrom b a = .ok (b', event))
    {seq : UInt32} {n : Nat} (hout : outstanding seq (events ++ [event]) = some n)
    (hn : n ≤ 5000) : seq ∈ b'.sentSequences := by
  rw [step_sentSequences hstep]
  rcases outstanding_cases hout with ⟨rfl, rfl⟩ | ⟨m, hm, rfl, hrecorded, hhandled⟩
  · refine mem_recordSent_of_behind (Finset.mem_insert_self _ _) ?_
    rw [Serial.behind_self]
    exact hn
  · have hmem := h.recent seq m hm (by omega)
    cases event with
    | received msg => exact hmem
    | sampled outcome => exact hmem
    | handled src msg handling =>
        exact Finset.mem_erase.mpr ⟨(hhandled src msg handling rfl).symm, hmem⟩
    | recorded s =>
        -- The number recorded now is ahead by what was issued in between.
        have hahead : s = seq + UInt32.ofNat m := by
          have hcounter := (h.counter seq m hm).symm.trans
            (h.latest s (step_eq_recorded hstep).1)
          rw [UInt32.ofNat_add, ← UInt32.add_assoc] at hcounter
          exact ((UInt32.add_left_inj 1).mp hcounter).symm
        refine mem_recordSent_of_behind (Finset.mem_insert_of_mem hmem) ?_
        rw [hahead, Serial.behind_add seq (by omega)]
        omega

theorem subset_step (h : b.sentSequences ⊆ seqs) (hstep : step tryFrom b a = .ok (b', event)) :
    b'.sentSequences ⊆ event.remembered seqs := by
  rw [step_sentSequences hstep]
  cases event with
  | received msg => exact h
  | sampled outcome => exact h
  | handled src msg handling => exact Finset.erase_subset_erase _ h
  | recorded s =>
      intro seq hseq
      exact Finset.insert_subset_insert s h (mem_recordSent_iff.mp hseq).1

theorem step_remembers (h : Remembers events b seqs) (hstep : step tryFrom b a = .ok (b', event)) :
    Remembers (events ++ [event]) b' (event.remembered seqs) where
  latest := step_holdsLatest h.latest hstep
  counter _ _ hout := counter_step h hstep hout
  history := history_step h.history event
  subset := subset_step h.subset hstep
  recent _ _ hout hn := recent_step h hstep hout hn

/-- A check of a message that comes in time finds the same in both sets. -/
theorem Remembers.same (h : Remembers events b seqs) {seq : UInt32}
    (htime : ∀ n, outstanding seq events = some n → n ≤ 5000) :
    seq ∈ b.sentSequences ↔ seq ∈ seqs := by
  constructor
  · exact fun hmem => h.subset hmem
  · intro hmem
    rcases Option.isSome_iff_exists.mp ((h.history seq).mp hmem) with ⟨n, hn⟩
    exact h.recent seq n hn (htime n hn)

/-- The event of a check tells which message was held. -/
theorem InTime.of_check (h : InTime (events ++ [event]))
    (hstep : step tryFrom b .check = .ok (b', event)) {src : SocketAddr} {msg : LcmMessage}
    (hrecv : b.receiver = .checking src msg) :
    ∀ n, outstanding msg.sequenceNumber events = some n → n ≤ 5000 := by
  have hevent : step tryFrom b .check = .ok (_, _) := step_of_move (Move.check hrecv)
  rw [hstep, Except.ok.injEq, Prod.mk.injEq] at hevent
  exact (inTime_concat.mp h).2 src msg _ hevent.2

end Steps

/-! ### The two bridges in lockstep -/

section Runs

variable {tryFrom : String → Except String KeyExpr} {config : Config} {localAddr : SocketAddr}
  {fragmentMtu : Nat} {actions : List Action} {events : List Event} {b u : Bridge}

theorem remembers_of_run
    (hrun : (Bridge.start config localAddr fragmentMtu).run tryFrom actions = .ok (b, events)) :
    ∃ seqs, Remembers events b seqs := by
  refine Machine.runAll_invariant_outputs (fun u out => ∃ seqs, Remembers out u seqs)
    (fun u out a u' event hu hstep => ?_) ⟨∅, start_remembers config localAddr fragmentMtu⟩ hrun
  rcases hu with ⟨seqs, h⟩
  exact ⟨event.remembered seqs, step_remembers h hstep⟩

/-- The other bridge, after the same events. -/
def Unpruned (events : List Event) (b u : Bridge) : Prop :=
  ∃ seqs, u = { b with sentSequences := seqs } ∧ Remembers events b seqs

theorem unpruned_of_run (hintime : InTime events)
    (hrun : (Bridge.start config localAddr fragmentMtu).run tryFrom actions = .ok (b, events)) :
    ∃ u, (Bridge.start config localAddr fragmentMtu).runUnpruned tryFrom actions
      = .ok (u, events) ∧ Unpruned events b u := by
  refine Machine.runAll_simulate Unpruned InTime (fun out event h => (inTime_concat.mp h).1)
    (fun out s s' a t event hs hout hstep => ?_)
    ⟨∅, rfl, start_remembers config localAddr fragmentMtu⟩ hintime hrun
  rcases hs with ⟨seqs, rfl, hs⟩
  refine ⟨_, ?_, event.remembered seqs, rfl, step_remembers hs hstep⟩
  rw [stepUnpruned_eq (fun ha src msg hrecv => hs.same (hout.of_check (ha ▸ hstep) hrecv)), hstep]
  rfl

theorem run_of_unpruned (hintime : InTime events)
    (hrun : (Bridge.start config localAddr fragmentMtu).runUnpruned tryFrom actions
      = .ok (u, events)) :
    ∃ b, (Bridge.start config localAddr fragmentMtu).run tryFrom actions = .ok (b, events) ∧
      Unpruned events b u := by
  refine Machine.runAll_simulate (fun out u b => Unpruned out b u) InTime
    (fun out event h => (inTime_concat.mp h).1) (fun out s s' a t event hs hout hstep => ?_)
    ⟨∅, rfl, start_remembers config localAddr fragmentMtu⟩ hintime hrun
  rcases hs with ⟨seqs, rfl, hs⟩
  rw [stepUnpruned_eq (fun ha src msg hrecv => hs.same (by
    rw [ha] at hstep
    exact hout.of_check (b := { s' with sentSequences := seqs }) hstep hrecv))] at hstep
  cases hmove : step tryFrom s' a with
  | error stop => simp only [hmove, Except.map, reduceCtorEq] at hstep
  | ok next =>
      simp only [hmove, Except.map, Except.ok.injEq, Prod.mk.injEq] at hstep
      rcases hstep with ⟨rfl, rfl⟩
      exact ⟨next.1, rfl, next.2.remembered seqs, rfl, step_remembers hs hmove⟩

/-- Where nothing is checked, everything is in time. -/
theorem inTime_of_run (hrun : b.run tryFrom actions = .ok (u, events)) (hcheck : .check ∉ actions) :
    InTime events := by
  intro before src msg handling rest hsplit
  have hmem : Event.handled src msg handling ∈ events := by
    rw [hsplit]
    exact List.mem_append_right _ List.mem_cons_self
  rcases (handled_mem_iff hrun).mp hmem with ⟨_, ⟨pre, post, _, hactions, _⟩, _⟩
  rw [hactions] at hcheck
  exact absurd (List.mem_append_right _ List.mem_cons_self) hcheck

end Runs

/-! ### The first pruning -/

section FirstPruning

variable {b : Bridge} {seqs : Finset UInt32}

theorem keyExpr_of_channel :
    lcmChannelToKeyExpr KeyExpr.ofValid "A" "lcm" = .ok ⟨"lcm/A", by decide⟩ := rfl

/-- A message whose number is not in the set is published. -/
theorem handleMessage_empty {seq : UInt32} (h : seq ∉ seqs) :
    handleMessage KeyExpr.ofValid Config.default seqs ⟨"A", seq, []⟩
      = (seqs, .put ⟨"lcm/A", by decide⟩ []) := by
  have hput : (handleMessage KeyExpr.ofValid Config.default seqs ⟨"A", seq, []⟩).2
      = .put ⟨"lcm/A", by decide⟩ [] :=
    handleMessage_eq_put_iff.mpr ⟨h, rfl, keyExpr_of_channel, rfl⟩
  have hseqs := handleMessage_sentSequences KeyExpr.ofValid Config.default seqs ⟨"A", seq, []⟩
  rw [Finset.erase_eq_of_notMem h] at hseqs
  exact Prod.ext hseqs hput

/-- A message of another publisher comes in and is checked. -/
def comesIn (seq : UInt32) : List Action :=
  [.arrive ⟨encodeShortMessage seq "A" [], .v4 2 7667, 0, 0⟩, .check]

theorem run_comesIn (hconfig : b.config = Config.default) (haddr : b.localAddr = .v4 1 7667)
    (hrecv : b.receiver = .receiving) (seq : UInt32) :
    ∃ b', b.run KeyExpr.ofValid (comesIn seq) = .ok (b', [.received (some ⟨"A", seq, []⟩),
      .handled (.v4 2 7667) ⟨"A", seq, []⟩
        (handleMessage KeyExpr.ofValid Config.default b.sentSequences ⟨"A", seq, []⟩).2]) := by
  have hnet : ¬ ((.v4 2 7667 : SocketAddr) = b.localAddr ∧
      encodeShortMessage seq "A" [] ∉ b.emitted) := by
    rw [haddr]
    exact fun h => absurd h.1 (by decide)
  rw [← hconfig]
  exact ⟨_, Machine.runAll_cons_eq_ok.mpr ⟨_, _, _,
    step_of_move (Move.arrive hrecv hnet (recvStep_empty b.reassembler seq (.v4 2 7667))),
    Machine.runAll_singleton.mpr ⟨_, step_of_move (Move.check rfl), rfl⟩, rfl⟩⟩

theorem check_notMem_lost : .check ∉ lost 10000 ++ [sampleOnce, .record] := by
  intro h
  rcases List.mem_append.mp h with h | h
  · rcases List.mem_flatMap.mp h with ⟨_, _, h⟩
    simp only [sampleOnce, List.mem_cons, reduceCtorEq, List.not_mem_nil, or_false] at h
  · simp only [sampleOnce, List.mem_cons, reduceCtorEq, List.not_mem_nil, or_false] at h

/-- Of so many messages without copies, each number is outstanding since it was
    recorded. -/
theorem outstanding_sentEvents (seq : UInt32) {count : Nat} (hcount : count ≤ 4294967296) :
    outstanding seq (sentEvents 0 count)
      = if seq.toNat < count then some (count - 1 - seq.toNat) else none := by
  induction count with
  | zero => rfl
  | succ count ih =>
      have hnumber : (UInt32.ofNat (0 + count)).toNat = count := by
        rw [UInt32.toNat_ofNat', Nat.zero_add, Nat.mod_eq_of_lt (by omega)]
      rw [sentEvents_succ, List.append_cons, outstanding_concat, outstanding_concat,
        ih (by omega)]
      simp only [Event.outstanding, Event.issues, if_true, ← UInt32.toNat_inj, hnumber]
      by_cases heq : count = seq.toNat
      · rw [if_pos heq, if_pos (by omega)]
        exact congrArg some (by omega)
      · rw [if_neg heq]
        by_cases hlt : seq.toNat < count
        · rw [if_pos hlt, if_pos (by omega), Option.map_some]
          exact congrArg some (by omega)
        · rw [if_neg hlt, if_neg (by omega), Option.map_none]

/-- After the first pruning every number is outstanding, and those from 5000 on
    are in the set. -/
theorem pruned_once :
    ∃ b events, (Bridge.start Config.default (.v4 1 7667) 1400).run KeyExpr.ofValid prunedRun
        = .ok (b, events) ∧
      b.receiver = .receiving ∧ ∀ seq : UInt32, seq.toNat ≤ 10000 →
        (seq ∈ b.sentSequences ↔ 5000 ≤ seq) ∧
          outstanding seq events = some (10000 - seq.toNat) := by
  rcases run_prunedRun with ⟨b, hrun, hrecv, hset⟩
  refine ⟨b, _, hrun, hrecv, fun seq hseq => ⟨hset seq hseq, ?_⟩⟩
  rw [outstanding_sentEvents seq (by decide), if_pos (by omega)]

end FirstPruning

/-! ### What can be seen -/

section Runs

variable {tryFrom : String → Except String KeyExpr} {config : Config} {localAddr : SocketAddr}
  {fragmentMtu : Nat} {actions : List Action} {events : List Event}

/-- The same sequences of moves lead to the same events, if these are in time, with and
    without pruning, and to the same states but for the set. Without pruning it
    is the set of outstanding numbers, and with it a part of this. -/
theorem pruning_invisible (hintime : InTime events) :
    (∀ b, (Bridge.start config localAddr fragmentMtu).run tryFrom actions = .ok (b, events) →
      ∃ seqs, b.sentSequences ⊆ seqs ∧ (∀ seq, seq ∈ seqs ↔ (outstanding seq events).isSome) ∧
        (Bridge.start config localAddr fragmentMtu).runUnpruned tryFrom actions
          = .ok ({ b with sentSequences := seqs }, events)) ∧
    ∀ u, (Bridge.start config localAddr fragmentMtu).runUnpruned tryFrom actions
        = .ok (u, events) →
      (∀ seq, seq ∈ u.sentSequences ↔ (outstanding seq events).isSome) ∧
        ∃ seqs ⊆ u.sentSequences,
          (Bridge.start config localAddr fragmentMtu).run tryFrom actions
            = .ok ({ u with sentSequences := seqs }, events) := by
  constructor
  · intro b hrun
    rcases unpruned_of_run hintime hrun with ⟨u, hrun', seqs, rfl, h⟩
    exact ⟨seqs, h.subset, h.history, hrun'⟩
  · intro u hrun
    rcases run_of_unpruned hintime hrun with ⟨b, hrun', seqs, rfl, h⟩
    exact ⟨h.history, b.sentSequences, h.subset, hrun'⟩

end Runs

/-- The oldest number that the first pruning leaves is 5000 numbers old. -/
theorem pruning_invisible_oldest :
    ∃ b events seqs,
      (Bridge.start Config.default (.v4 1 7667) 1400).run KeyExpr.ofValid
          (lost 10000 ++ [sampleOnce, .record] ++ comesIn 5000)
        = .ok (b, events ++ [.received (some ⟨"A", 5000, []⟩),
            .handled (.v4 2 7667) ⟨"A", 5000, []⟩ .loopback]) ∧
      outstanding 5000 events = some 5000 ∧ b.sentSequences ⊆ seqs ∧
      (Bridge.start Config.default (.v4 1 7667) 1400).runUnpruned KeyExpr.ofValid
          (lost 10000 ++ [sampleOnce, .record] ++ comesIn 5000)
        = .ok ({ b with sentSequences := seqs }, events ++ [.received (some ⟨"A", 5000, []⟩),
            .handled (.v4 2 7667) ⟨"A", 5000, []⟩ .loopback]) := by
  rcases pruned_once with ⟨b, events, hrun, hrecv, hnumbers⟩
  rcases run_comesIn (run_config hrun).1 (run_config hrun).2 hrecv 5000 with ⟨b', hrun'⟩
  rcases hnumbers 5000 (by decide) with ⟨hmem, hage⟩
  rw [handleMessage_eq_loopback_iff.mpr (hmem.mpr (UInt32.le_refl 5000))] at hrun'
  have hall := Machine.runAll_append.mpr ⟨b, _, _, hrun, hrun', rfl⟩
  have hintime : InTime (events ++ [.received (some ⟨"A", 5000, []⟩),
      .handled (.v4 2 7667) ⟨"A", 5000, []⟩ .loopback]) := by
    refine (inTime_of_run hrun check_notMem_lost).message (fun n hn => ?_)
    rw [hage, Option.some.injEq] at hn
    exact Nat.le_of_eq hn.symm
  rcases (pruning_invisible hintime).1 b' hall with ⟨seqs, hsubset, _, hunpruned⟩
  exact ⟨b', events, seqs, hall, hage, hsubset, hunpruned⟩

/-- The next one is 5001 numbers old. A message that carries it is published,
    and without pruning it is skipped. -/
theorem pruning_visible :
    ∃ b u events,
      (Bridge.start Config.default (.v4 1 7667) 1400).run KeyExpr.ofValid
          (lost 10000 ++ [sampleOnce, .record] ++ comesIn 4999)
        = .ok (b, events ++ [.received (some ⟨"A", 4999, []⟩),
            .handled (.v4 2 7667) ⟨"A", 4999, []⟩ (.put ⟨"lcm/A", by decide⟩ [])]) ∧
      (Bridge.start Config.default (.v4 1 7667) 1400).runUnpruned KeyExpr.ofValid
          (lost 10000 ++ [sampleOnce, .record] ++ comesIn 4999)
        = .ok (u, events ++ [.received (some ⟨"A", 4999, []⟩),
            .handled (.v4 2 7667) ⟨"A", 4999, []⟩ .loopback]) ∧
      outstanding 4999 events = some 5001 := by
  rcases pruned_once with ⟨b, events, hrun, hrecv, hnumbers⟩
  rcases hnumbers 4999 (by decide) with ⟨hmem, hage⟩
  rcases unpruned_of_run (inTime_of_run hrun check_notMem_lost) hrun with
    ⟨u, hrunUnpruned, seqs, rfl, h⟩
  rcases run_comesIn (run_config hrun).1 (run_config hrun).2 hrecv 4999 with ⟨b', hrun'⟩
  have hmem' : 4999 ∈ seqs := (h.history 4999).mpr (by rw [hage]; rfl)
  rcases run_comesIn (b := { b with sentSequences := seqs }) (run_config hrun).1
    (run_config hrun).2 hrecv 4999 with ⟨u', hrunUnpruned'⟩
  rw [handleMessage_empty (fun hin => absurd (hmem.mp hin) (by decide))] at hrun'
  rw [handleMessage_eq_loopback_iff.mpr hmem'] at hrunUnpruned'
  exact ⟨b', u', events, Machine.runAll_append.mpr ⟨b, _, _, hrun, hrun', rfl⟩,
    Machine.runAll_append.mpr ⟨_, _, _, hrunUnpruned, hrunUnpruned', rfl⟩, hage⟩

/-! ### What becomes of a message -/

/-- The set that a check finds has the number of the message exactly when it is
    outstanding, unless it has been so for more than 5000 numbers. -/
theorem handled_by_outstanding {tryFrom : String → Except String KeyExpr} {config : Config}
    {localAddr : SocketAddr} {fragmentMtu : Nat} {actions : List Action} {b : Bridge}
    {before rest : List Event} {src : SocketAddr} {msg : LcmMessage} {handling : Handling}
    (hrun : (Bridge.start config localAddr fragmentMtu).run tryFrom actions
      = .ok (b, before ++ .handled src msg handling :: rest))
    (htime : ∀ n, outstanding msg.sequenceNumber before = some n → n ≤ 5000) :
    ∃ seqs, handling = (handleMessage tryFrom config seqs msg).2 ∧
      (msg.sequenceNumber ∈ seqs ↔ (outstanding msg.sequenceNumber before).isSome) := by
  rcases Machine.runAll_split hrun with ⟨as₁, a, as₂, u, u', _, hpre, hstep, _⟩
  rcases step_eq_handled_iff.mp hstep with ⟨_, _, hhandling, _⟩
  rcases remembers_of_run hpre with ⟨seqs, h⟩
  rw [(run_config hpre).1] at hhandling
  exact ⟨u.sentSequences, hhandling, (h.same htime).trans (h.history _)⟩

/-- In any run from the start of the bridge, of a message whose number has not
    been outstanding for more than 5000 numbers: it is skipped exactly when its
    number is outstanding, whoever sent it. It is published exactly when its
    number is not, and its channel is allowed and has a key. -/
theorem handling_iff {tryFrom : String → Except String KeyExpr} {config : Config}
    {localAddr : SocketAddr} {fragmentMtu : Nat} {actions : List Action} {b : Bridge}
    {before rest : List Event} {src : SocketAddr} {msg : LcmMessage} {handling : Handling}
    (hrun : (Bridge.start config localAddr fragmentMtu).run tryFrom actions
      = .ok (b, before ++ .handled src msg handling :: rest))
    (htime : ∀ n, outstanding msg.sequenceNumber before = some n → n ≤ 5000) :
    (handling = .loopback ↔ (outstanding msg.sequenceNumber before).isSome) ∧
      ∀ keyExpr payload, handling = .put keyExpr payload ↔
        outstanding msg.sequenceNumber before = none ∧ isAllowed msg.channel config = true ∧
          lcmChannelToKeyExpr tryFrom msg.channel config.keyPrefix = .ok keyExpr ∧
          payload = msg.data := by
  rcases handled_by_outstanding hrun htime with ⟨seqs, hhandling, hmem⟩
  rw [hhandling]
  constructor
  · exact handleMessage_eq_loopback_iff.trans hmem
  · intro keyExpr payload
    rw [handleMessage_eq_put_iff, hmem, Option.not_isSome_iff_eq_none]

/-- A message of another publisher takes the number of one of the bridge, whose
    copy is then published. -/
theorem handling_iff_number_taken :
    ∃ b, (Bridge.start Config.default (.v4 1 7667) 1400).run KeyExpr.ofValid
        [.sample ⟨"lcm/A", by decide⟩ [1, 2] (fun _ => none), .record,
          .arrive ⟨encodeShortMessage 0 "B" [9], .v4 2 7667, 0, 0⟩, .check,
          .arrive ⟨encodeShortMessage 0 "A" [1, 2], .v4 1 7667, 1, 1⟩, .check]
      = .ok (b, [.sampled (.sent "A" 0), .recorded 0, .received (some ⟨"B", 0, [9]⟩),
          .handled (.v4 2 7667) ⟨"B", 0, [9]⟩ .loopback, .received (some ⟨"A", 0, [1, 2]⟩),
          .handled (.v4 1 7667) ⟨"A", 0, [1, 2]⟩ (.put ⟨"lcm/A", by decide⟩ [1, 2])]) ∧
      outstanding 0 [.sampled (.sent "A" 0), .recorded 0, .received (some ⟨"B", 0, [9]⟩),
          .handled (.v4 2 7667) ⟨"B", 0, [9]⟩ .loopback, .received (some ⟨"A", 0, [1, 2]⟩)]
        = none := by
  have hrun : ∃ b, (Bridge.start Config.default (.v4 1 7667) 1400).run KeyExpr.ofValid
        [.sample ⟨"lcm/A", by decide⟩ [1, 2] (fun _ => none), .record,
          .arrive ⟨encodeShortMessage 0 "B" [9], .v4 2 7667, 0, 0⟩, .check,
          .arrive ⟨encodeShortMessage 0 "A" [1, 2], .v4 1 7667, 1, 1⟩, .check]
      = .ok (b, [.sampled (.sent "A" 0), .recorded 0, .received (some ⟨"B", 0, [9]⟩),
          .handled (.v4 2 7667) ⟨"B", 0, [9]⟩ .loopback, .received (some ⟨"A", 0, [1, 2]⟩)] ++
        .handled (.v4 1 7667) ⟨"A", 0, [1, 2]⟩ (.put ⟨"lcm/A", by decide⟩ [1, 2]) :: []) :=
    ⟨_, rfl⟩
  rcases hrun with ⟨b, hrun⟩
  refine ⟨b, hrun, (((handling_iff hrun (fun n hn => ?_)).2 _ _).mp rfl).1⟩
  have hage : outstanding 0 [.sampled (.sent "A" 0), .recorded 0, .received (some ⟨"B", 0, [9]⟩),
      .handled (.v4 2 7667) ⟨"B", 0, [9]⟩ .loopback, .received (some ⟨"A", 0, [1, 2]⟩)]
    = none := rfl
  rw [hage] at hn
  exact absurd hn (by simp only [reduceCtorEq, not_false_eq_true])

section Promises

variable {tryFrom : String → Except String KeyExpr} {config : Config} {localAddr : SocketAddr}
  {fragmentMtu : Nat} {actions : List Action} {b : Bridge} {events : List Event}

/-- In a run in time, no message of another publisher is lost exactly when none
    comes whose number is outstanding. -/
theorem forwards_iff_outstanding
    (hrun : (Bridge.start config localAddr fragmentMtu).run tryFrom actions = .ok (b, events))
    (hintime : InTime events) :
    Forwards tryFrom (Bridge.start config localAddr fragmentMtu) events ↔
      ∀ before src msg handling rest, events = before ++ .handled src msg handling :: rest →
        src ≠ localAddr → isAllowed msg.channel config = true →
        (∃ keyExpr, lcmChannelToKeyExpr tryFrom msg.channel config.keyPrefix = .ok keyExpr) →
        outstanding msg.sequenceNumber before = none := by
  constructor
  · rintro h before src msg handling rest rfl hsrc hallow ⟨keyExpr, hmap⟩
    rcases handled_by_outstanding hrun (hintime _ _ _ _ _ rfl) with ⟨seqs, hhandling, hmem⟩
    have hput := h src msg handling List.mem_append_cons_self hsrc hallow keyExpr hmap
    rw [hhandling, handleMessage_eq_put_iff, hmem, Option.not_isSome_iff_eq_none] at hput
    exact hput.1
  · intro h src msg handling hhandled hsrc hallow keyExpr hmap
    rcases List.append_of_mem hhandled with ⟨before, rest, rfl⟩
    rcases handled_by_outstanding hrun (hintime _ _ _ _ _ rfl) with ⟨seqs, hhandling, hmem⟩
    rw [hhandling, handleMessage_eq_put_iff, hmem, Option.not_isSome_iff_eq_none]
    exact ⟨h before src msg handling rest rfl hsrc hallow ⟨keyExpr, hmap⟩, hallow, hmap, rfl⟩

/-- In a run in time, no message of the bridge is echoed exactly when none comes
    back whose number is not outstanding. -/
theorem noEcho_iff_outstanding
    (hrun : (Bridge.start config localAddr fragmentMtu).run tryFrom actions = .ok (b, events))
    (hintime : InTime events) :
    NoEcho (Bridge.start config localAddr fragmentMtu) events ↔
      ∀ before src msg handling rest, events = before ++ .handled src msg handling :: rest →
        src = localAddr → isAllowed msg.channel config = true →
        (∃ keyExpr, lcmChannelToKeyExpr tryFrom msg.channel config.keyPrefix = .ok keyExpr) →
        (outstanding msg.sequenceNumber before).isSome := by
  constructor
  · rintro h before src msg handling rest rfl hsrc hallow ⟨keyExpr, hmap⟩
    rcases handled_by_outstanding hrun (hintime _ _ _ _ _ rfl) with ⟨seqs, hhandling, hmem⟩
    rw [← hmem]
    by_contra hseq
    refine h src msg handling List.mem_append_cons_self hsrc keyExpr msg.data ?_
    rw [hhandling]
    exact handleMessage_eq_put_iff.mpr ⟨hseq, hallow, hmap, rfl⟩
  · intro h src msg handling hhandled hsrc keyExpr payload hput
    rcases List.append_of_mem hhandled with ⟨before, rest, rfl⟩
    rcases handled_by_outstanding hrun (hintime _ _ _ _ _ rfl) with ⟨seqs, hhandling, hmem⟩
    rw [hhandling, handleMessage_eq_put_iff] at hput
    obtain ⟨hseq, hallow, hmap, _⟩ := hput
    exact hseq (hmem.mpr (h before src msg handling rest rfl hsrc hallow ⟨keyExpr, hmap⟩))

end Promises

end LcmBridge
