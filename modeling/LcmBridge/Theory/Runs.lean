import LcmBridge.Core.Bridge

/-!
# Runs of the Bridge

What one move does, and where in a run a message is handled.

`step` is a function with the guards and the failures of both tasks in it.
`Move` is the relation it computes, with one constructor for each kind of move,
so that an invariant of the bridge is proved by cases on the move rather than
on the branches of the function.

A check is located in a run by the moves before it (`Checks`), and the state it
finds is the one they lead to.

## Main definitions

* `Move`: One move, as a relation.
* `Checks`: A run checks a message in a state.

## Theorems

* `move_of_step`, `step_of_move`: The step function computes the moves.
* `step_eq_handled_iff`: The step that handles a message.
* `run_config`: The configuration and the address never change.
* `handled_mem_iff`: The messages a run handles are those it checks.
-/

namespace LcmBridge

/-- One move, from a bridge to a bridge, with what is observed of it. -/
inductive Move (tryFrom : String → Except String KeyExpr) (b : Bridge) :
    Action → Bridge → Event → Prop where
  | sample {keyExpr : KeyExpr} {payload : List UInt8} {sendTo : SendTo}
      {transport : LcmTransport} {emitted : List Datagram} {outcome : SampleOutcome}
      (hidle : b.sender = .idle)
      (hhandle : handleSample b.config b.transport sendTo keyExpr payload
        = .ok (transport, emitted, outcome)) :
      Move tryFrom b (.sample keyExpr payload sendTo)
        { b with transport, sender := outcome.next, emitted := b.emitted ++ emitted }
        (.sampled outcome)
  | record {seq : UInt32} (hseq : b.sender = .recording seq) :
      Move tryFrom b .record
        { b with sentSequences := recordSent b.sentSequences seq, sender := .idle }
        (.recorded seq)
  | arrive {a : Arrival} {reassembler : FragmentReassembler} {msg : Option LcmMessage}
      (hwait : b.receiver = .receiving) (hnet : ¬ (a.src = b.localAddr ∧ a.datagram ∉ b.emitted))
      (hrecv : recvStep b.reassembler a = .ok (reassembler, msg)) :
      Move tryFrom b (.arrive a)
        { b with reassembler, receiver := msg.elim .receiving (.checking a.src) }
        (.received msg)
  | check {src : SocketAddr} {msg : LcmMessage} (hcheck : b.receiver = .checking src msg) :
      Move tryFrom b .check
        { b with
          sentSequences := (handleMessage tryFrom b.config b.sentSequences msg).1
          receiver := .receiving }
        (.handled src msg (handleMessage tryFrom b.config b.sentSequences msg).2)

section Steps

variable {tryFrom : String → Except String KeyExpr} {b b' : Bridge} {actions : List Action}
  {events : List Event}

-- The guards of `step` are looked up branch by branch; in each branch that
-- succeeds, one constructor remains.
theorem move_of_step {a : Action} {event : Event} (h : step tryFrom b a = .ok (b', event)) :
    Move tryFrom b a b' event := by
  cases a with
  | sample keyExpr payload sendTo =>
      unfold step at h
      cases hidle : b.sender with
      | recording seq => simp only [hidle, reduceCtorEq] at h
      | idle =>
          cases hhandle : handleSample b.config b.transport sendTo keyExpr payload with
          | error panic => simp only [hidle, hhandle, reduceCtorEq] at h
          | ok out =>
              simp only [hidle, hhandle, Except.ok.injEq, Prod.mk.injEq] at h
              rw [← h.1, ← h.2]
              exact Move.sample hidle hhandle
  | record =>
      unfold step at h
      cases hseq : b.sender with
      | idle => simp only [hseq, reduceCtorEq] at h
      | recording seq =>
          simp only [hseq, Except.ok.injEq, Prod.mk.injEq] at h
          rw [← h.1, ← h.2]
          exact Move.record hseq
  | arrive a =>
      unfold step at h
      cases hwait : b.receiver with
      | checking src msg => simp only [hwait, reduceCtorEq] at h
      | receiving =>
          by_cases hnet : a.src = b.localAddr ∧ a.datagram ∉ b.emitted
          · simp only [hwait, if_pos hnet, reduceCtorEq] at h
          · cases hrecv : recvStep b.reassembler a with
            | error panic => simp only [hwait, if_neg hnet, hrecv, reduceCtorEq] at h
            | ok out =>
                obtain ⟨reassembler, msg⟩ := out
                cases msg with
                | none =>
                    simp only [hwait, if_neg hnet, hrecv, Except.ok.injEq, Prod.mk.injEq] at h
                    rw [← h.1, ← h.2]
                    exact Move.arrive hwait hnet hrecv
                | some msg =>
                    simp only [hwait, if_neg hnet, hrecv, Except.ok.injEq, Prod.mk.injEq] at h
                    rw [← h.1, ← h.2]
                    exact Move.arrive hwait hnet hrecv
  | check =>
      unfold step at h
      cases hcheck : b.receiver with
      | receiving => simp only [hcheck, reduceCtorEq] at h
      | checking src msg =>
          simp only [hcheck, Except.ok.injEq, Prod.mk.injEq] at h
          rw [← h.1, ← h.2]
          exact Move.check hcheck

-- Each guard is a hypothesis of the constructor.
theorem step_of_move {a : Action} {event : Event} (h : Move tryFrom b a b' event) :
    step tryFrom b a = .ok (b', event) := by
  cases h with
  | sample hidle hhandle => simp only [step, hidle, hhandle]
  | record hseq => simp only [step, hseq]
  | check hcheck => simp only [step, hcheck]
  | @arrive a reassembler msg hwait hnet hrecv =>
      cases msg with
      | none => simp only [step, hwait, if_neg hnet, hrecv, Option.elim_none]
      | some msg => simp only [step, hwait, if_neg hnet, hrecv, Option.elim_some]

/-- The step function computes the moves. -/
theorem step_eq_ok_iff {a : Action} {event : Event} :
    step tryFrom b a = .ok (b', event) ↔ Move tryFrom b a b' event :=
  ⟨move_of_step, step_of_move⟩

/-- Only a check handles a message, and it is the one being held. -/
theorem step_eq_handled_iff {a : Action} {src : SocketAddr} {msg : LcmMessage}
    {handling : Handling} :
    step tryFrom b a = .ok (b', .handled src msg handling) ↔
      a = .check ∧ b.receiver = .checking src msg ∧
        handling = (handleMessage tryFrom b.config b.sentSequences msg).2 ∧
        b' = { b with
          sentSequences := (handleMessage tryFrom b.config b.sentSequences msg).1
          receiver := .receiving } := by
  rw [step_eq_ok_iff]
  constructor
  · intro h
    cases h with
    | check hcheck => exact ⟨rfl, hcheck, rfl, rfl⟩
  · intro h
    rcases h with ⟨rfl, hcheck, rfl, rfl⟩
    exact Move.check hcheck

/-- A move changes neither the configuration nor the address. -/
theorem step_config {a : Action} {event : Event} (h : step tryFrom b a = .ok (b', event)) :
    b'.config = b.config ∧ b'.localAddr = b.localAddr := by
  cases move_of_step h with
  | sample _ _ => exact ⟨rfl, rfl⟩
  | record _ => exact ⟨rfl, rfl⟩
  | arrive _ _ _ => exact ⟨rfl, rfl⟩
  | check _ => exact ⟨rfl, rfl⟩

theorem run_config (h : b.run tryFrom actions = .ok (b', events)) :
    b'.config = b.config ∧ b'.localAddr = b.localAddr := by
  refine Machine.runAll_invariant (fun u => u.config = b.config ∧ u.localAddr = b.localAddr)
    (fun u a u' event hu hstep => ?_) ⟨rfl, rfl⟩ h
  have hkeep := step_config hstep
  rw [hkeep.1, hkeep.2]
  exact hu

/-- Somewhere in the run the message, from that source, is checked, and the
    moves before the check lead to the state `u`. -/
def Checks (tryFrom : String → Except String KeyExpr) (b : Bridge) (actions : List Action)
    (u : Bridge) (src : SocketAddr) (msg : LcmMessage) : Prop :=
  ∃ pre post events, actions = pre ++ .check :: post ∧ b.run tryFrom pre = .ok (u, events) ∧
    u.receiver = .checking src msg

/-- The messages a run handles are those it checks, each as the state of the
    check has it. -/
theorem handled_mem_iff (hrun : b.run tryFrom actions = .ok (b', events)) {src : SocketAddr}
    {msg : LcmMessage} {handling : Handling} :
    Event.handled src msg handling ∈ events ↔
      ∃ u, Checks tryFrom b actions u src msg ∧
        handling = (handleMessage tryFrom b.config u.sentSequences msg).2 := by
  rw [List.mem_iff_getElem?]
  constructor
  · intro h
    rcases h with ⟨i, hi⟩
    rcases (Machine.runAll_getElem? hrun i _).mp hi with
      ⟨pre, a, post, u, u', es, hsplit, _, hpre, hstep⟩
    rcases step_eq_handled_iff.mp hstep with ⟨rfl, hrecv, hhandling, _⟩
    rw [(run_config hpre).1] at hhandling
    exact ⟨u, ⟨pre, post, es, hsplit, hpre, hrecv⟩, hhandling⟩
  · intro h
    rcases h with ⟨u, ⟨pre, post, es, hsplit, hpre, hrecv⟩, hhandling⟩
    rw [← (run_config hpre).1] at hhandling
    exact ⟨pre.length, (Machine.runAll_getElem? hrun _ _).mpr
      ⟨pre, .check, post, u, _, es, hsplit, rfl, hpre,
        step_eq_handled_iff.mpr ⟨rfl, hrecv, hhandling, rfl⟩⟩⟩

end Steps

end LcmBridge
