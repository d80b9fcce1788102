import LcmBridge.Library.Tokens
import LcmBridge.Theory.SentWindow

/-!
# What a Send Can Suppress

How many messages of other publishers the loop prevention can cost.

A received message is skipped when its sequence number is in the set, and
nothing else about it is looked at. Two publishers count from zero, and the
counter wraps, so that the number alone says little. What limits the damage is
that a skip takes the number out of the set, and only a record step puts it
in. A number that is recorded while it is still there gives no second skip,
and pruning only ever takes skips away.

The argument needs neither the network nor the counter. `Tasks` is what is
left of the bridge without them: the set, and what the sending task is about
to record. Any number may be sent, and any message may be received. The bridge
is one such pair of tasks (`tasks_of_step`).

So the numbers are tokens, twice. The sending task passes them from its sends
to the set, and the other task takes them from the set. Each skip has a
recorded send of its own, and each recorded send has a successful send of its
own.

## Main definitions

* `Event.sentNumber`, `Event.recordedNumber`, `Event.skippedNumber`: The
  number a move sends, records or skips.
* `Tasks`, `Tasks.step`: The two tasks around the set.
* `setTokens`, `senderTokens`: The numbers in the set, and the one to record.
* `SuppressionBounded`: Skips are matched with sends.

## Theorems

* `tasks_of_step`: A move of the bridge is one of the tasks, or none.
* `suppression_bounded`: Each send suppresses at most one message.
* `bridge_suppression_bounded`: The same for the bridge.
-/

namespace LcmBridge

/-- The number of a `send` that succeeded. -/
def Event.sentNumber : Event → Option UInt32
  | .sampled (.sent _ seq) => some seq
  | _ => none

/-- The number that was recorded. -/
def Event.recordedNumber : Event → Option UInt32
  | .recorded seq => some seq
  | _ => none

/-- The number of a message that was skipped. -/
def Event.skippedNumber : Event → Option UInt32
  | .handled _ msg .loopback => some msg.sequenceNumber
  | _ => none

theorem recordedNumber_eq_some_iff {event : Event} {seq : UInt32} :
    event.recordedNumber = some seq ↔ event = .recorded seq := by
  cases event with
  | recorded seq' => simp only [Event.recordedNumber, Option.some.injEq, Event.recorded.injEq]
  | sampled outcome => simp only [Event.recordedNumber, reduceCtorEq]
  | received msg => simp only [Event.recordedNumber, reduceCtorEq]
  | handled src msg handling => simp only [Event.recordedNumber, reduceCtorEq]

theorem skippedNumber_eq_some_iff {event : Event} {seq : UInt32} :
    event.skippedNumber = some seq ↔
      ∃ src msg, event = .handled src msg .loopback ∧ msg.sequenceNumber = seq := by
  cases event with
  | handled src msg handling =>
      cases handling with
      | loopback =>
          simp only [Event.skippedNumber, Option.some.injEq, Event.handled.injEq, and_true]
          constructor
          · intro h
            exact ⟨src, msg, ⟨rfl, rfl⟩, h⟩
          · intro h
            rcases h with ⟨_, _, ⟨_, rfl⟩, hseq⟩
            exact hseq
      | notAllowed => simp only [Event.skippedNumber, reduceCtorEq, Event.handled.injEq, and_false,
          false_and, exists_false]
      | unmapped error => simp only [Event.skippedNumber, reduceCtorEq, Event.handled.injEq,
          and_false, false_and, exists_false]
      | put keyExpr payload => simp only [Event.skippedNumber, reduceCtorEq, Event.handled.injEq,
          and_false, false_and, exists_false]
  | sampled outcome => simp only [Event.skippedNumber, reduceCtorEq, false_and, exists_false]
  | received msg => simp only [Event.skippedNumber, reduceCtorEq, false_and, exists_false]
  | recorded seq' => simp only [Event.skippedNumber, reduceCtorEq, false_and, exists_false]

/-! ### The two tasks around the set -/

/-- The set of sent sequence numbers, and where the sending task waits. -/
structure Tasks where
  config : Config
  sentSequences : Finset UInt32
  sender : SenderTask

/-- What the tasks do around the set: a `send` returns a number, the number is
    recorded and the set pruned, a received message is checked. -/
inductive Access where
  | sent (channel : String) (seq : UInt32)
  | record
  | check (src : SocketAddr) (msg : LcmMessage)

namespace Tasks

/-- The tasks as they start. -/
def start (config : Config) : Tasks := ⟨config, ∅, .idle⟩

/-- One move of one task. -/
def step (tryFrom : String → Except String KeyExpr) (s : Tasks) :
    Access → Except Stop (Tasks × Event)
  | .sent channel seq =>
      match s.sender with
      | .recording _ => .error .disabled
      | .idle => .ok ({ s with sender := .recording seq }, .sampled (.sent channel seq))
  | .record =>
      match s.sender with
      | .idle => .error .disabled
      | .recording seq =>
          .ok ({ s with sentSequences := recordSent s.sentSequences seq, sender := .idle },
            .recorded seq)
  | .check src msg =>
      let out := handleMessage tryFrom s.config s.sentSequences msg
      .ok ({ s with sentSequences := out.1 }, .handled src msg out.2)

/-- A sequence of moves, in any order of the two tasks. -/
def run (tryFrom : String → Except String KeyExpr) (s : Tasks) (accesses : List Access) :
    Except Stop (Tasks × List Event) :=
  Machine.runAll (step tryFrom) s accesses

/-- One move, as a relation. -/
inductive Move (tryFrom : String → Except String KeyExpr) (s : Tasks) :
    Access → Tasks → Event → Prop where
  | sent {channel : String} {seq : UInt32} (hidle : s.sender = .idle) :
      Move tryFrom s (.sent channel seq) { s with sender := .recording seq }
        (.sampled (.sent channel seq))
  | record {seq : UInt32} (hseq : s.sender = .recording seq) :
      Move tryFrom s .record
        { s with sentSequences := recordSent s.sentSequences seq, sender := .idle }
        (.recorded seq)
  | check {src : SocketAddr} {msg : LcmMessage} :
      Move tryFrom s (.check src msg)
        { s with sentSequences := (handleMessage tryFrom s.config s.sentSequences msg).1 }
        (.handled src msg (handleMessage tryFrom s.config s.sentSequences msg).2)

variable {tryFrom : String → Except String KeyExpr} {s s' : Tasks} {a : Access} {event : Event}
  {seq : UInt32}

theorem move_of_step (h : step tryFrom s a = .ok (s', event)) : Move tryFrom s a s' event := by
  cases a with
  | sent channel seq =>
      unfold step at h
      cases hidle : s.sender with
      | recording seq => simp only [hidle, reduceCtorEq] at h
      | idle =>
          simp only [hidle, Except.ok.injEq, Prod.mk.injEq] at h
          rw [← h.1, ← h.2]
          exact Move.sent hidle
  | record =>
      unfold step at h
      cases hseq : s.sender with
      | idle => simp only [hseq, reduceCtorEq] at h
      | recording seq =>
          simp only [hseq, Except.ok.injEq, Prod.mk.injEq] at h
          rw [← h.1, ← h.2]
          exact Move.record hseq
  | check src msg =>
      unfold step at h
      simp only [Except.ok.injEq, Prod.mk.injEq] at h
      rw [← h.1, ← h.2]
      exact Move.check

theorem step_of_move (h : Move tryFrom s a s' event) : step tryFrom s a = .ok (s', event) := by
  cases h with
  | sent hidle => simp only [step, hidle]
  | record hseq => simp only [step, hseq]
  | check => rfl

/-! ### The numbers as tokens -/

/-- A number in the set after a move was recorded by it, or was there before
    and not skipped. -/
theorem mem_of_step (hstep : step tryFrom s a = .ok (s', event)) (h : seq ∈ s'.sentSequences) :
    event.recordedNumber = some seq ∨
      (seq ∈ s.sentSequences ∧ event.skippedNumber ≠ some seq) := by
  cases move_of_step hstep with
  | sent _ =>
      exact Or.inr ⟨h, by simp only [Event.skippedNumber, ne_eq, reduceCtorEq, not_false_eq_true]⟩
  | @record seq' _ =>
      rcases Finset.mem_insert.mp (mem_recordSent_iff.mp h).1 with rfl | hold
      · exact Or.inl rfl
      · exact Or.inr ⟨hold, by simp only [Event.skippedNumber, ne_eq, reduceCtorEq,
          not_false_eq_true]⟩
  | @check src msg =>
      dsimp only at h
      rw [handleMessage_sentSequences] at h
      rcases Finset.mem_erase.mp h with ⟨hne, hold⟩
      refine Or.inr ⟨hold, fun hskip => ?_⟩
      rcases skippedNumber_eq_some_iff.mp hskip with ⟨_, _, heq, hseq⟩
      rw [Event.handled.injEq] at heq
      rw [heq.2.1] at hne
      exact hne hseq.symm

/-- A message is skipped only while its number is in the set. -/
theorem mem_of_skipped (hstep : step tryFrom s a = .ok (s', event))
    (h : event.skippedNumber = some seq) : seq ∈ s.sentSequences := by
  cases move_of_step hstep with
  | sent _ => exact absurd h (by simp only [Event.skippedNumber, reduceCtorEq, not_false_eq_true])
  | record _ =>
      exact absurd h (by simp only [Event.skippedNumber, reduceCtorEq, not_false_eq_true])
  | check =>
      rcases skippedNumber_eq_some_iff.mp h with ⟨_, _, heq, hseq⟩
      rw [Event.handled.injEq] at heq
      rw [← hseq, ← heq.2.1]
      exact handleMessage_eq_loopback_iff.mp heq.2.2

/-- A number to record after a move was sent by it, or was to be recorded
    before and was not. -/
theorem recording_of_step (hstep : step tryFrom s a = .ok (s', event))
    (h : s'.sender = .recording seq) :
    event.sentNumber = some seq ∨
      (s.sender = .recording seq ∧ event.recordedNumber ≠ some seq) := by
  cases move_of_step hstep with
  | sent _ => exact Or.inl (congrArg some (SenderTask.recording.inj h))
  | record _ => exact absurd h (by simp only [reduceCtorEq, not_false_eq_true])
  | check =>
      exact Or.inr ⟨h, by simp only [Event.recordedNumber, ne_eq, reduceCtorEq, not_false_eq_true]⟩

theorem recording_of_recorded (hstep : step tryFrom s a = .ok (s', event))
    (h : event.recordedNumber = some seq) : s.sender = .recording seq := by
  rw [recordedNumber_eq_some_iff] at h
  rw [h] at hstep
  cases move_of_step hstep with
  | record hseq => exact hseq

end Tasks

/-- The numbers in the set: recording puts them in, and a skip takes them. -/
def setTokens (tryFrom : String → Except String KeyExpr) :
    Tokens (Tasks.step tryFrom) Event.recordedNumber Event.skippedNumber where
  present s seq := seq ∈ s.sentSequences
  kept := Tasks.mem_of_step
  held := Tasks.mem_of_skipped

/-- The number the sending task holds: a `send` puts it in, and recording takes
    it. -/
def senderTokens (tryFrom : String → Except String KeyExpr) :
    Tokens (Tasks.step tryFrom) Event.sentNumber Event.recordedNumber where
  present s seq := s.sender = .recording seq
  kept := Tasks.recording_of_step
  held := Tasks.recording_of_recorded

/-! ### Skips and sends -/

/-- The skipped messages are matched, one to one, with earlier record steps for
    their numbers, and there are no more of them than successful sends. -/
def SuppressionBounded (events : List Event) : Prop :=
  (∃ send : Nat → Nat,
    (∀ i src msg, events[i]? = some (.handled src msg .loopback) →
      send i < i ∧ events[send i]? = some (.recorded msg.sequenceNumber)) ∧
    Set.InjOn send {i | ∃ src msg, events[i]? = some (.handled src msg .loopback)}) ∧
  events.countP (fun event => event.skippedNumber.isSome)
    ≤ events.countP (fun event => event.sentNumber.isSome)

/-- The bound, for any machine whose numbers are tokens in the two ways. -/
theorem bounded_of_tokens {S A ε : Type} {step : S → A → Except ε (S × Event)}
    (T : Tokens step Event.recordedNumber Event.skippedNumber)
    (T' : Tokens step Event.sentNumber Event.recordedNumber) {s t : S} {as : List A}
    {events : List Event} (hs : ∀ seq, ¬ T.present s seq) (hs' : ∀ seq, ¬ T'.present s seq)
    (hrun : Machine.runAll step s as = .ok (t, events)) : SuppressionBounded events := by
  constructor
  · rcases T.exists_matching hs hrun with ⟨send, hsend, hinj⟩
    refine ⟨send, fun i src msg hi => ?_, fun i hi j hj heq => hinj ?_ ?_ heq⟩
    · rcases hsend i _ msg.sequenceNumber hi rfl with ⟨hlt, event, hevent, hput⟩
      rw [recordedNumber_eq_some_iff.mp hput] at hevent
      exact ⟨hlt, hevent⟩
    · rcases hi with ⟨src, msg, hi⟩
      exact mem_positions.mpr ⟨_, hi, rfl⟩
    · rcases hj with ⟨src, msg, hj⟩
      exact mem_positions.mpr ⟨_, hj, rfl⟩
  · calc events.countP (fun event => event.skippedNumber.isSome)
        ≤ events.countP (fun event => event.recordedNumber.isSome) := T.countP_take_le hs hrun
      _ ≤ events.countP (fun event => event.sentNumber.isSome) := T'.countP_take_le hs' hrun

section Start

variable (tryFrom : String → Except String KeyExpr) (config : Config) (seq : UInt32)

theorem setTokens_start : ¬ (setTokens tryFrom).present (Tasks.start config) seq :=
  Finset.notMem_empty seq

theorem senderTokens_start : ¬ (senderTokens tryFrom).present (Tasks.start config) seq := by
  simp only [senderTokens, Tasks.start, reduceCtorEq, not_false_eq_true]

end Start

/-- In whatever order the two tasks work on the set, and whatever numbers are
    sent and received, each send suppresses at most one message. -/
theorem suppression_bounded (tryFrom : String → Except String KeyExpr) (config : Config)
    (accesses : List Access) (s : Tasks) (events : List Event)
    (hrun : (Tasks.start config).run tryFrom accesses = .ok (s, events)) :
    SuppressionBounded events :=
  bounded_of_tokens (setTokens tryFrom) (senderTokens tryFrom) (setTokens_start tryFrom config)
    (senderTokens_start tryFrom config) hrun

/-- A number is recorded twice while it is in the set, then two messages with
    this number are received. The second one is published. -/
theorem suppression_bounded_twice :
    ∃ s events, (Tasks.start Config.default).run KeyExpr.ofValid
        [.sent "A" 7, .record, .sent "A" 7, .check (.v4 2 7667) ⟨"B", 8, [9]⟩, .record,
          .check (.v4 2 7667) ⟨"B", 7, [9]⟩, .check (.v4 2 7667) ⟨"B", 7, [9]⟩]
        = .ok (s, events) ∧
      events[5]? = some (.handled (.v4 2 7667) ⟨"B", 7, [9]⟩ .loopback) ∧
      events[6]? = some (.handled (.v4 2 7667) ⟨"B", 7, [9]⟩ (.put ⟨"lcm/B", by decide⟩ [9])) ∧
      SuppressionBounded events := by
  have hrun : ∃ s, (Tasks.start Config.default).run KeyExpr.ofValid
        [.sent "A" 7, .record, .sent "A" 7, .check (.v4 2 7667) ⟨"B", 8, [9]⟩, .record,
          .check (.v4 2 7667) ⟨"B", 7, [9]⟩, .check (.v4 2 7667) ⟨"B", 7, [9]⟩]
      = .ok (s, [.sampled (.sent "A" 7), .recorded 7, .sampled (.sent "A" 7),
          .handled (.v4 2 7667) ⟨"B", 8, [9]⟩ (.put ⟨"lcm/B", by decide⟩ [9]), .recorded 7,
          .handled (.v4 2 7667) ⟨"B", 7, [9]⟩ .loopback,
          .handled (.v4 2 7667) ⟨"B", 7, [9]⟩ (.put ⟨"lcm/B", by decide⟩ [9])]) := ⟨_, rfl⟩
  rcases hrun with ⟨s, hrun⟩
  exact ⟨s, _, hrun, rfl, rfl, suppression_bounded _ _ _ _ _ hrun⟩

/-! ### The bridge as a pair of tasks -/

/-- The bridge without the network and the counter. -/
def Bridge.tasks (b : Bridge) : Tasks := ⟨b.config, b.sentSequences, b.sender⟩

-- A sample that is not sent, and a datagram, are no move of the tasks.
theorem tasks_of_step {tryFrom : String → Except String KeyExpr} {b b' : Bridge} {a : Action}
    {event : Event} (hstep : step tryFrom b a = .ok (b', event)) :
    (∃ access, Tasks.step tryFrom b.tasks access = .ok (b'.tasks, event)) ∨
      (b'.tasks = b.tasks ∧ event.recordedNumber = none ∧ event.skippedNumber = none) := by
  cases move_of_step hstep with
  | @sample _ _ _ _ _ outcome hidle _ =>
      have hidle' : b.tasks.sender = .idle := hidle
      cases outcome with
      | sent channel seq => exact Or.inl ⟨.sent channel seq, Tasks.step_of_move (.sent hidle')⟩
      | unmapped error => exact Or.inr ⟨by rw [Bridge.tasks, Bridge.tasks, hidle]; rfl, rfl, rfl⟩
      | notAllowed channel =>
          exact Or.inr ⟨by rw [Bridge.tasks, Bridge.tasks, hidle]; rfl, rfl, rfl⟩
      | failed channel error =>
          exact Or.inr ⟨by rw [Bridge.tasks, Bridge.tasks, hidle]; rfl, rfl, rfl⟩
  | record hseq =>
      have hseq' : b.tasks.sender = _ := hseq
      exact Or.inl ⟨.record, Tasks.step_of_move (.record hseq')⟩
  | arrive _ _ _ => exact Or.inr ⟨rfl, rfl, rfl⟩
  | check _ => exact Or.inl ⟨.check _ _, Tasks.step_of_move .check⟩

/-- The tokens of the tasks, in the bridge. -/
def bridgeSetTokens (tryFrom : String → Except String KeyExpr) :
    Tokens (step tryFrom) Event.recordedNumber Event.skippedNumber :=
  (setTokens tryFrom).comap Bridge.tasks
    (fun hstep => (tasks_of_step hstep).imp_right (fun h => ⟨h.1, h.2.2⟩))

def bridgeSenderTokens (tryFrom : String → Except String KeyExpr) :
    Tokens (step tryFrom) Event.sentNumber Event.recordedNumber :=
  (senderTokens tryFrom).comap Bridge.tasks
    (fun hstep => (tasks_of_step hstep).imp_right (fun h => ⟨h.1, h.2.1⟩))

/-- In every run of the bridge from its start, each send suppresses at most one
    message. -/
theorem bridge_suppression_bounded {tryFrom : String → Except String KeyExpr} {config : Config}
    {localAddr : SocketAddr} {fragmentMtu : Nat} {actions : List Action} {b : Bridge}
    {events : List Event}
    (hrun : (Bridge.start config localAddr fragmentMtu).run tryFrom actions = .ok (b, events)) :
    SuppressionBounded events := by
  refine bounded_of_tokens (bridgeSetTokens tryFrom) (bridgeSenderTokens tryFrom) ?_ ?_ hrun
  · exact setTokens_start tryFrom config
  · exact senderTokens_start tryFrom config

end LcmBridge
