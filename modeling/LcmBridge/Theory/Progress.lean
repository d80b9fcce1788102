import LcmBridge.Theory.Fragmentation
import LcmBridge.Theory.Publishers
import LcmBridge.Theory.Runs

/-!
# Progress of the Bridge

What can stop the bridge.

Both tasks are loops without an exit for a message that is bad in some way, so
the only thing that could end one is a panic. A panic could come from the
arithmetic of `send` or from the indices of the reassembler. The first needs a
payload longer than memory can hold. The second needs a pending set that is not
valid, and the bridge has none in any run: a set is only touched by `process`,
and `process` keeps all of them valid, whatever comes from the network
(`run_allValid`).

So in every state that a run reaches, a move is refused only when its task is
waiting for something else, or when it is a copy of a datagram that has not
been sent. Of each task, one move is always possible (`bridge_progress`).

## Main definitions

* `Action.InMemory`: The payload of a sample fits into memory.
* `Enabled`: The task waits for this move.

## Theorems

* `handleSample_total`: A sample never makes the sending task panic.
* `recvStep_total`: A datagram never makes the receiving task panic.
* `run_allValid`: The pending sets of a bridge stay valid.
* `bridge_progress`: A run is stopped by nothing but waiting.
-/

namespace LcmBridge

open Bytes Checked FragmentReassembler

/-- The key and the payload of a sample are in memory. -/
def Action.InMemory : Action → Prop
  | .sample keyExpr payload _ =>
      (asBytes keyExpr.asStr).length < 2 ^ 62 ∧ payload.length < 2 ^ 62
  | _ => True

/-- The task that makes the move waits for it, and what it takes from the
    network is there. -/
def Enabled (b : Bridge) : Action → Prop
  | .sample _ _ _ => b.sender = .idle
  | .record => b.sender ≠ .idle
  | .arrive a => b.receiver = .receiving ∧ (a.src = b.localAddr → a.datagram ∈ b.emitted)
  | .check => b.receiver ≠ .receiving

theorem length_asBytes_append (s t : String) :
    (asBytes (s ++ t)).length = (asBytes s).length + (asBytes t).length := by
  simp only [asBytes, String.toByteArray_append, ByteArray.data_append, Array.toList_append,
    List.length_append]

section Totality

variable {config : Config} {transport : LcmTransport} {sendTo : SendTo} {keyExpr : KeyExpr}
  {payload : List UInt8}

/-- A channel is part of its key, so it is no longer. -/
theorem handleSample_total (hkey : (asBytes keyExpr.asStr).length < 2 ^ 62)
    (hdata : payload.length < 2 ^ 62) :
    ∃ out, handleSample config transport sendTo keyExpr payload = .ok out := by
  unfold handleSample
  cases hchannel : keyExprToLcmChannel keyExpr config.keyPrefix with
  | error error => exact ⟨_, rfl⟩
  | ok channel =>
      by_cases hallow : isAllowed channel config = true
      · have hlen : (asBytes channel).length ≤ (asBytes keyExpr.asStr).length := by
          rw [(keyExprToLcmChannel_eq_ok_iff.mp hchannel).1, length_asBytes_append]
          exact Nat.le_add_left _ _
        simp only [if_pos hallow]
        rw [send_eq sendTo (by unfold usizeBound; omega), ok_bind]
        dsimp only
        cases (outcome transport sendTo channel payload).2 with
        | ok seq => exact ⟨_, rfl⟩
        | error error => exact ⟨_, rfl⟩
      · simp only [if_neg hallow]
        exact ⟨_, rfl⟩

end Totality

section Receiving

variable {r r' : FragmentReassembler} {a : Arrival}

/-- What the read leaves of a datagram is no longer than the buffer. -/
theorem length_take_le (d : Datagram) : (d.take maxDatagramSize).length ≤ isizeMax := by
  rw [List.length_take]
  exact Nat.le_trans (Nat.min_le_left _ _) (by decide)

theorem recvStep_total (hv : r.AllValid) (a : Arrival) : ∃ out, recvStep r a = .ok out := by
  unfold recvStep
  rw [@handleDatagram_eq ⟨a.datagram.take maxDatagramSize, a.src, a.now, a.insertNow⟩ r
    (length_take_le a.datagram)]
  split
  · next c _ => exact ⟨_, call_eq hv c⟩
  · exact ⟨_, rfl⟩

theorem allValid_recvStep (hv : r.AllValid) {result : Option LcmMessage}
    (h : recvStep r a = .ok (r', result)) : r'.AllValid :=
  @allValid_handle ⟨a.datagram.take maxDatagramSize, a.src, a.now, a.insertNow⟩ r r' hv
    (length_take_le a.datagram) result h

end Receiving

section Runs

variable {tryFrom : String → Except String KeyExpr} {b b' : Bridge} {actions : List Action}
  {events : List Event}

-- Only a datagram that arrives reaches the reassembler.
theorem run_allValid (hv : b.reassembler.AllValid) (hrun : b.run tryFrom actions = .ok (b', events)) :
    b'.reassembler.AllValid := by
  refine Machine.runAll_invariant (fun u => u.reassembler.AllValid)
    (fun u a u' event hu hstep => ?_) hv hrun
  cases move_of_step hstep with
  | sample _ _ => exact hu
  | record _ => exact hu
  | arrive _ _ hrecv => exact allValid_recvStep hu hrecv
  | check _ => exact hu

/-- A move that its task waits for is made. -/
theorem step_of_enabled (hv : b.reassembler.AllValid) {a : Action} (hmem : a.InMemory)
    (henabled : Enabled b a) : ∃ b' event, step tryFrom b a = .ok (b', event) := by
  cases a with
  | sample keyExpr payload sendTo =>
      rcases handleSample_total hmem.1 hmem.2 with ⟨⟨transport, emitted, outcome⟩, hhandle⟩
      exact ⟨_, _, step_of_move (Move.sample henabled hhandle)⟩
  | record =>
      cases hsender : b.sender with
      | idle => exact absurd hsender henabled
      | recording seq => exact ⟨_, _, step_of_move (Move.record hsender)⟩
  | arrive a =>
      rcases recvStep_total hv a with ⟨⟨reassembler, msg⟩, hrecv⟩
      refine ⟨_, _, step_of_move (Move.arrive henabled.1 (fun hnet => ?_) hrecv)⟩
      exact hnet.2 (henabled.2 hnet.1)
  | check =>
      cases hreceiver : b.receiver with
      | receiving => exact absurd hreceiver henabled
      | checking src msg => exact ⟨_, _, step_of_move (Move.check hreceiver)⟩

/-- Any other move is refused. -/
theorem step_of_not_enabled {a : Action} (h : ¬ Enabled b a) :
    step tryFrom b a = .error .disabled := by
  cases a with
  | sample keyExpr payload sendTo =>
      cases hsender : b.sender with
      | idle => exact absurd hsender h
      | recording seq => simp only [step, hsender]
  | record =>
      have hsender : b.sender = .idle := Decidable.not_not.mp h
      simp only [step, hsender]
  | arrive a =>
      cases hreceiver : b.receiver with
      | checking src msg => simp only [step, hreceiver]
      | receiving =>
          have hnet : a.src = b.localAddr ∧ a.datagram ∉ b.emitted := by
            simpa only [Enabled, hreceiver, true_and, Classical.not_imp] using h
          simp only [step, hreceiver, if_pos hnet]
  | check =>
      have hreceiver : b.receiver = .receiving := Decidable.not_not.mp h
      simp only [step, hreceiver]

end Runs

/-- A sequence of moves from the start of a bridge, with samples that fit into
    memory and whatever else from the network, is refused only by a move that
    its task does not wait for. Otherwise it ends in a state from which every
    move that is waited for is made, and one of each task is. -/
theorem bridge_progress (tryFrom : String → Except String KeyExpr) (config : Config)
    (localAddr : SocketAddr) (fragmentMtu : Nat) (actions : List Action)
    (hmem : ∀ a ∈ actions, a.InMemory) :
    (Bridge.start config localAddr fragmentMtu).run tryFrom actions = .error .disabled ∨
      ∃ b events, (Bridge.start config localAddr fragmentMtu).run tryFrom actions
          = .ok (b, events) ∧
        (∀ a : Action, a.InMemory → Enabled b a →
          ∃ b' event, step tryFrom b a = .ok (b', event)) ∧
        ((∀ keyExpr payload sendTo, Enabled b (.sample keyExpr payload sendTo)) ∨
          Enabled b .record) ∧
        ((∀ a : Arrival, a.src ≠ localAddr → Enabled b (.arrive a)) ∨ Enabled b .check) := by
  have hnew : (Bridge.start config localAddr fragmentMtu).reassembler.AllValid :=
    allValid_new _ _
  cases hrun : (Bridge.start config localAddr fragmentMtu).run tryFrom actions with
  | error stop =>
      rcases Machine.exists_step_of_error hrun with ⟨pre, a, post, u, events, hsplit, hpre, hstep⟩
      have ha : a.InMemory := hmem a (by
        rw [hsplit]
        exact List.mem_append_right _ List.mem_cons_self)
      by_cases henabled : Enabled u a
      · rcases step_of_enabled (run_allValid hnew hpre) ha henabled with ⟨u', event, hok⟩
        rw [hok] at hstep
        exact absurd hstep (by simp only [reduceCtorEq, not_false_eq_true])
      · rw [step_of_not_enabled henabled, Except.error.injEq] at hstep
        rw [hstep]
        exact Or.inl rfl
  | ok out =>
      obtain ⟨b, events⟩ := out
      refine Or.inr ⟨b, events, rfl,
        fun a ha henabled => step_of_enabled (run_allValid hnew hrun) ha henabled, ?_, ?_⟩
      · by_cases hsender : b.sender = .idle
        · exact Or.inl (fun _ _ _ => hsender)
        · exact Or.inr hsender
      · by_cases hreceiver : b.receiver = .receiving
        · refine Or.inl (fun a ha => ⟨hreceiver, fun hown => absurd hown ?_⟩)
          rw [(run_config hrun).2]
          exact ha
        · exact Or.inr hreceiver

/-- A message is sent, a datagram that is cut off is skipped, and a loopback
    copy comes back before its number is recorded. Then each of the tasks has a
    move. -/
theorem bridge_progress_early_copy :
    ∃ b events, (Bridge.start Config.default (.v4 1 7667) 1400).run KeyExpr.ofValid
        [.sample ⟨"lcm/A", by decide⟩ [1, 2] (fun _ => none),
          .arrive ⟨[1, 2, 3], .v4 2 7667, 0, 0⟩,
          .arrive ⟨encodeShortMessage 0 "A" [1, 2], .v4 1 7667, 1, 1⟩] = .ok (b, events) ∧
      (∃ b' event, step KeyExpr.ofValid b .record = .ok (b', event)) ∧
      ∃ b' event, step KeyExpr.ofValid b .check = .ok (b', event) := by
  have hrun : ∃ b events, (Bridge.start Config.default (.v4 1 7667) 1400).run KeyExpr.ofValid
      [.sample ⟨"lcm/A", by decide⟩ [1, 2] (fun _ => none),
        .arrive ⟨[1, 2, 3], .v4 2 7667, 0, 0⟩,
        .arrive ⟨encodeShortMessage 0 "A" [1, 2], .v4 1 7667, 1, 1⟩] = .ok (b, events) ∧
      b.sender = .recording 0 ∧ b.receiver = .checking (.v4 1 7667) ⟨"A", 0, [1, 2]⟩ :=
    ⟨_, _, rfl, rfl, rfl⟩
  rcases hrun with ⟨b, events, hrun, hsender, hreceiver⟩
  have hrecord : Enabled b .record := by
    rw [Enabled, hsender]
    simp only [ne_eq, reduceCtorEq, not_false_eq_true]
  have hcheck : Enabled b .check := by
    rw [Enabled, hreceiver]
    simp only [ne_eq, reduceCtorEq, not_false_eq_true]
  rcases bridge_progress KeyExpr.ofValid Config.default (.v4 1 7667) 1400
    [.sample ⟨"lcm/A", by decide⟩ [1, 2] (fun _ => none), .arrive ⟨[1, 2, 3], .v4 2 7667, 0, 0⟩,
      .arrive ⟨encodeShortMessage 0 "A" [1, 2], .v4 1 7667, 1, 1⟩]
    (fun a ha => by
      simp only [List.mem_cons, List.not_mem_nil, or_false] at ha
      rcases ha with rfl | rfl | rfl
      · exact ⟨by decide, by decide⟩
      · trivial
      · trivial) with hrefused | ⟨b₁, events₁, hrun₁, hstep, _⟩
  · rw [hrun] at hrefused
    exact absurd hrefused (by simp only [reduceCtorEq, not_false_eq_true])
  · rw [hrun, Except.ok.injEq, Prod.mk.injEq] at hrun₁
    rw [← hrun₁.1] at hstep
    exact ⟨b, events, hrun, hstep .record trivial hrecord, hstep .check trivial hcheck⟩

end LcmBridge
