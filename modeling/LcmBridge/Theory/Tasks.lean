import LcmBridge.Theory.Runs

/-!
# The Tasks by Themselves

What the interleaving of the two tasks can change, and what it cannot.

The bridge is written as steps between the points where a task waits, the
source as two loops. The loop that receives is nested: the outer one takes a
message, the inner one datagrams until there is one. Here it is shown that the
steps are those of the loops. In any run, whatever the schedule, the datagrams
emitted and the results of the sends are those of the sending loop on its
samples alone, and the messages handled are those of the receiving loop on its
datagrams alone (`tasks_of_run`).

All that one task sees of the other are the sets that the receiving loop finds
when it takes the lock. These are handed to it from outside, so that the
equations say that nothing else comes between.

## Main definitions

* `Action.asSample`, `Action.asArrival`: What a move takes from outside.
* `Event.outcome`, `Event.handling`: What a task has done.
* `lockedSets`: The sets found at the locks of the receiving task.

## Theorems

* `sender_run`: The sending task by itself.
* `loop_cons_none`, `loop_of_recv_some`: The receiving loop, one datagram at a
  time.
* `loopFrom_run`: The receiving task by itself.
* `tasks_of_run`: Both tasks in a run.
-/

namespace LcmBridge

/-- The sample that a move takes. -/
def Action.asSample : Action → Option Sample
  | .sample keyExpr payload sendTo => some ⟨keyExpr, payload, sendTo⟩
  | _ => none

/-- The datagram that a move takes. -/
def Action.asArrival : Action → Option Arrival
  | .arrive a => some a
  | _ => none

/-- What became of a sample. -/
def Event.outcome : Event → Option SampleOutcome
  | .sampled outcome => some outcome
  | _ => none

/-- What became of a message. -/
def Event.handling : Event → Option (LcmMessage × Handling)
  | .handled _ msg handling => some (msg, handling)
  | _ => none

/-- The sets that the receiving task finds when it takes the lock. -/
def lockedSets (tryFrom : String → Except String KeyExpr) :
    Bridge → List Action → List (Finset UInt32)
  | _, [] => []
  | b, a :: actions =>
      match step tryFrom b a with
      | .error _ => []
      | .ok (b', .handled _ _ _) => b.sentSequences :: lockedSets tryFrom b' actions
      | .ok (b', _) => lockedSets tryFrom b' actions

variable {tryFrom : String → Except String KeyExpr}

/-! ### The sending task -/

section Sender

variable {b b' : Bridge} {actions : List Action} {events : List Event}

/-- The moves that take a sample are the steps of the sending loop, and no
    other move sends. -/
theorem sender_run (hrun : b.run tryFrom actions = .ok (b', events)) :
    zenohToLcmLoop b.config b.transport b.emitted (actions.filterMap Action.asSample)
      = .ok ((b'.transport, b'.emitted), events.filterMap Event.outcome) := by
  refine Machine.runAll_project (fun u => u.config = b.config)
    (fun u => (u.transport, u.emitted)) Action.asSample Event.outcome
    (fun u a u' event hconfig hstep => ?_) rfl hrun
  refine ⟨(step_config hstep).1.trans hconfig, ?_⟩
  cases move_of_step hstep with
  | sample hidle hhandle =>
      refine Or.inl ⟨_, _, rfl, rfl, ?_⟩
      rw [hconfig] at hhandle
      simp only [hhandle, Checked.ok_bind]
      rfl
  | record _ => exact Or.inr ⟨rfl, rfl, rfl⟩
  | arrive _ _ _ => exact Or.inr ⟨rfl, rfl, rfl⟩
  | check _ => exact Or.inr ⟨rfl, rfl, rfl⟩

end Sender

/-! ### The receiving task -/

section Receiver

variable {config : Config} {r r' : FragmentReassembler} {a : Arrival} {rest : List Arrival}
  {locked : List (Finset UInt32)}

theorem recv_cons_none (h : recvStep r a = .ok (r', none)) :
    recv r (a :: rest) = recv r' rest := by
  rw [recv, h, Checked.ok_bind]

theorem recv_cons_some {msg : LcmMessage} (h : recvStep r a = .ok (r', some msg)) :
    recv r (a :: rest) = .ok (r', some (msg, rest)) := by
  rw [recv, h, Checked.ok_bind]
  rfl

/-- The loop with a message in its hands. -/
def afterRecv (tryFrom : String → Except String KeyExpr) (config : Config)
    (r : FragmentReassembler) (msg : LcmMessage) (locked : List (Finset UInt32))
    (rest : List Arrival) : Exec (FragmentReassembler × List (LcmMessage × Handling)) :=
  match locked with
  | [] => .ok (r, [])
  | seqs :: locked => do
      let (r, handled) ← lcmToZenohLoop tryFrom config r locked rest
      return (r, (msg, (handleMessage tryFrom config seqs msg).2) :: handled)

theorem loop_of_recv_none {arrivals : List Arrival} (h : recv r arrivals = .ok (r', none)) :
    lcmToZenohLoop tryFrom config r locked arrivals = .ok (r', []) := by
  rw [lcmToZenohLoop]
  split
  · next panic herror => simp only [h, reduceCtorEq] at herror
  · next mid hnone =>
      rw [h, Except.ok.injEq, Prod.mk.injEq] at hnone
      rw [hnone.1]
  · next mid msg rest hsome =>
      simp only [h, Except.ok.injEq, Prod.mk.injEq, reduceCtorEq, and_false] at hsome

theorem loop_of_recv_some {arrivals : List Arrival} {msg : LcmMessage}
    (h : recv r arrivals = .ok (r', some (msg, rest))) :
    lcmToZenohLoop tryFrom config r locked arrivals
      = afterRecv tryFrom config r' msg locked rest := by
  rw [lcmToZenohLoop]
  split
  · next panic herror => simp only [h, reduceCtorEq] at herror
  · next mid hnone =>
      simp only [h, Except.ok.injEq, Prod.mk.injEq, reduceCtorEq, and_false] at hnone
  · next mid msg' rest' hsome =>
      simp only [h, Except.ok.injEq, Prod.mk.injEq, Option.some.injEq] at hsome
      rcases hsome with ⟨rfl, rfl, rfl⟩
      rfl

theorem loop_of_recv_error {arrivals : List Arrival} {panic : Panic}
    (h : recv r arrivals = .error panic) :
    lcmToZenohLoop tryFrom config r locked arrivals = .error panic := by
  rw [lcmToZenohLoop]
  split
  · next panic' herror =>
      rw [h, Except.error.injEq] at herror
      rw [herror]
  · next mid hnone => simp only [h, reduceCtorEq] at hnone
  · next mid msg rest hsome => simp only [h, reduceCtorEq] at hsome

/-- The inner loop goes on to the next datagram. -/
theorem loop_cons_none (h : recvStep r a = .ok (r', none)) :
    lcmToZenohLoop tryFrom config r locked (a :: rest)
      = lcmToZenohLoop tryFrom config r' locked rest := by
  have hrecv : recv r (a :: rest) = recv r' rest := recv_cons_none h
  cases hrest : recv r' rest with
  | error panic => rw [loop_of_recv_error hrest, loop_of_recv_error (hrecv.trans hrest)]
  | ok out =>
      obtain ⟨mid, received⟩ := out
      cases received with
      | none => rw [loop_of_recv_none hrest, loop_of_recv_none (hrecv.trans hrest)]
      | some p =>
          obtain ⟨msg, left⟩ := p
          rw [loop_of_recv_some hrest, loop_of_recv_some (hrecv.trans hrest)]

end Receiver

section Loop

variable {b b' : Bridge} {actions : List Action} {events : List Event}

/-- The loop, from where the receiving task is. -/
def loopFrom (tryFrom : String → Except String KeyExpr) (b : Bridge)
    (locked : List (Finset UInt32)) (arrivals : List Arrival) :
    Exec (FragmentReassembler × List (LcmMessage × Handling)) :=
  match b.receiver with
  | .receiving => lcmToZenohLoop tryFrom b.config b.reassembler locked arrivals
  | .checking _ msg => afterRecv tryFrom b.config b.reassembler msg locked arrivals

-- Induction on the moves. Those of the other task change nothing that the loop
-- looks at, and each move of this one is as far as the loop gets between two
-- points where it waits.
theorem loopFrom_run (hrun : b.run tryFrom actions = .ok (b', events)) :
    loopFrom tryFrom b (lockedSets tryFrom b actions) (actions.filterMap Action.asArrival)
      = .ok (b'.reassembler, events.filterMap Event.handling) := by
  induction actions generalizing b events with
  | nil =>
      simp only [Bridge.run, Machine.runAll_nil, Except.ok.injEq, Prod.mk.injEq] at hrun
      rw [← hrun.1, ← hrun.2, lockedSets, loopFrom]
      cases b.receiver with
      | receiving => exact loop_of_recv_none rfl
      | checking src msg => rfl
  | cons act actions ih =>
      rcases Machine.runAll_cons_eq_ok.mp hrun with ⟨u, event, events', hstep, hrest, rfl⟩
      have hrest := ih hrest
      rw [lockedSets, hstep]
      cases move_of_step hstep with
      | sample hidle hhandle => exact hrest
      | record hseq => exact hrest
      | @arrive a reassembler msg hwait hnet hrecv =>
          rw [loopFrom, hwait]
          cases msg with
          | none => exact (loop_cons_none hrecv).trans hrest
          | some msg => exact (loop_of_recv_some (recv_cons_some hrecv)).trans hrest
      | check hcheck =>
          rw [loopFrom] at hrest ⊢
          simp only [hcheck, afterRecv] at hrest ⊢
          exact Checked.bind_eq_ok.mpr ⟨_, hrest, rfl⟩

end Loop

/-- In any run, whatever the schedule, the tasks do what the two loops of the
    source do by themselves, on the samples and on the datagrams that the run
    takes, but for the sets that the second one finds at its locks. -/
theorem tasks_of_run {b b' : Bridge} {actions : List Action} {events : List Event}
    (hwait : b.receiver = .receiving) (hrun : b.run tryFrom actions = .ok (b', events)) :
    zenohToLcmLoop b.config b.transport b.emitted (actions.filterMap Action.asSample)
        = .ok ((b'.transport, b'.emitted), events.filterMap Event.outcome) ∧
      lcmToZenohLoop tryFrom b.config b.reassembler (lockedSets tryFrom b actions)
          (actions.filterMap Action.asArrival)
        = .ok (b'.reassembler, events.filterMap Event.handling) := by
  refine ⟨sender_run hrun, ?_⟩
  have hloop := loopFrom_run hrun
  rw [loopFrom, hwait] at hloop
  exact hloop

/-- A message is sent, and its loopback copy and a message of another publisher
    come back before and after its number is recorded. -/
theorem tasks_of_run_early_copy :
    ∃ b', (Bridge.start Config.default (.v4 1 7667) 1400).run KeyExpr.ofValid
        [.arrive ⟨[1, 2, 3], .v4 2 7667, 0, 0⟩,
          .sample ⟨"lcm/A", by decide⟩ [1, 2] (fun _ => none),
          .arrive ⟨encodeShortMessage 0 "A" [1, 2], .v4 1 7667, 1, 1⟩, .check, .record,
          .arrive ⟨encodeShortMessage 0 "B" [3], .v4 2 7667, 2, 2⟩, .check]
        = .ok (b', [.received none, .sampled (.sent "A" 0), .received (some ⟨"A", 0, [1, 2]⟩),
          .handled (.v4 1 7667) ⟨"A", 0, [1, 2]⟩ (.put ⟨"lcm/A", by decide⟩ [1, 2]), .recorded 0,
          .received (some ⟨"B", 0, [3]⟩), .handled (.v4 2 7667) ⟨"B", 0, [3]⟩ .loopback]) ∧
      lcmToZenohLoop KeyExpr.ofValid Config.default
          (FragmentReassembler.new reassemblyTimeout Config.default.maxMessageSize) [∅, {0}]
          [⟨[1, 2, 3], .v4 2 7667, 0, 0⟩, ⟨encodeShortMessage 0 "A" [1, 2], .v4 1 7667, 1, 1⟩,
            ⟨encodeShortMessage 0 "B" [3], .v4 2 7667, 2, 2⟩]
        = .ok (b'.reassembler, [(⟨"A", 0, [1, 2]⟩, .put ⟨"lcm/A", by decide⟩ [1, 2]),
          (⟨"B", 0, [3]⟩, .loopback)]) := by
  have hrun : ∃ b', (Bridge.start Config.default (.v4 1 7667) 1400).run KeyExpr.ofValid
        [.arrive ⟨[1, 2, 3], .v4 2 7667, 0, 0⟩,
          .sample ⟨"lcm/A", by decide⟩ [1, 2] (fun _ => none),
          .arrive ⟨encodeShortMessage 0 "A" [1, 2], .v4 1 7667, 1, 1⟩, .check, .record,
          .arrive ⟨encodeShortMessage 0 "B" [3], .v4 2 7667, 2, 2⟩, .check]
        = .ok (b', [.received none, .sampled (.sent "A" 0), .received (some ⟨"A", 0, [1, 2]⟩),
          .handled (.v4 1 7667) ⟨"A", 0, [1, 2]⟩ (.put ⟨"lcm/A", by decide⟩ [1, 2]), .recorded 0,
          .received (some ⟨"B", 0, [3]⟩), .handled (.v4 2 7667) ⟨"B", 0, [3]⟩ .loopback]) :=
    ⟨_, rfl⟩
  rcases hrun with ⟨b', hrun⟩
  exact ⟨b', hrun, (tasks_of_run rfl hrun).2⟩

end LcmBridge
