import LcmBridge.Theory.Burst
import LcmBridge.Theory.Tasks

/-!
# Through the Bridge

What comes out of the bridge on one side of what went in on the other.

Both directions are a transport and a task put together. On the way to Zenoh, a
publisher's transport sends its messages, the network loses and reorders their
datagrams, the receiving task puts them together again and publishes what the
filter lets pass. The schedule of the bridge and everything else on the network
play no part in it, with one exception: a message that carries a number of the
bridge's own is taken for a loopback copy. As long as there is none, and the
messages are transmitted as a receiver needs it (`Transmitted`), what is
published of them is, up to order, one publication for each message that has
arrived, is allowed and has a key (`burst_published`).

On the way to LCM, the bridge is itself a transport. What it has emitted after
any run is what a transport emits that sends the payloads of the samples one
after another (`sendAll_of_loop`). So whatever is true of a transport's messages
on a lossy network is true of the samples (`samples_received`).

## Main definitions

* `publishedAs`: What a message is published as.
* `Event.publishedFrom`: What is published of messages from a source.
* `requestsOf`: The calls of `send` that samples lead to.

## Theorems

* `receiver_results`: The results of the receive loop in a run.
* `handled_of_run`: The messages handled are those completed.
* `handling_of_mem`: The shared set holds numbers of successful sends only.
* `published_of_run`: What is published of what was delivered.
* `burst_published`: From a publisher on LCM to Zenoh.
* `sendAll_of_loop`: The bridge as a transport.
* `samples_received`: From Zenoh to the receivers on LCM.
-/

namespace LcmBridge

open FragmentReassembler

/-- What a message is published as, if its channel is allowed and has a key. -/
def publishedAs (tryFrom : String → Except String KeyExpr) (config : Config) (msg : LcmMessage) :
    Option (KeyExpr × List UInt8) :=
  if isAllowed msg.channel config then
    match lcmChannelToKeyExpr tryFrom msg.channel config.keyPrefix with
    | .ok keyExpr => some (keyExpr, msg.data)
    | .error _ => none
  else none

/-- What is handed to the `put`. -/
def Handling.published : Handling → Option (KeyExpr × List UInt8)
  | .put keyExpr payload => some (keyExpr, payload)
  | _ => none

/-- The result of one pass of the receive loop. -/
def Event.completion : Event → Option (Option LcmMessage)
  | .received msg => some msg
  | _ => none

/-- The message that was handled, with the source of its last datagram. -/
def Event.handledMessage : Event → Option (SocketAddr × LcmMessage)
  | .handled src msg _ => some (src, msg)
  | _ => none

/-- What is published of messages from this source. -/
def Event.publishedFrom (sender : SocketAddr) : Event → Option (KeyExpr × List UInt8)
  | .handled src _ handling => if src = sender then handling.published else none
  | _ => none

/-- The message that the receiving task holds. -/
def ReceiverTask.held : ReceiverTask → List (SocketAddr × LcmMessage)
  | .receiving => []
  | .checking src msg => [(src, msg)]

variable {tryFrom : String → Except String KeyExpr}

/-! ### From LCM to Zenoh -/

theorem published_handleMessage {config : Config} {seqs : Finset UInt32} {msg : LcmMessage}
    (h : msg.sequenceNumber ∉ seqs) :
    (handleMessage tryFrom config seqs msg).2.published = publishedAs tryFrom config msg := by
  unfold handleMessage publishedAs
  rw [if_neg h]
  cases hallow : isAllowed msg.channel config with
  | false => simp only [if_true, Bool.false_eq_true, if_false, Handling.published]
  | true =>
      simp only [Bool.true_eq_false, if_false, if_true]
      cases lcmChannelToKeyExpr tryFrom msg.channel config.keyPrefix with
      | error error => rfl
      | ok keyExpr => rfl

/-- The read cuts off nothing of a datagram that fits the buffer. -/
theorem runAll_recvStep_eq {arrivals : List Arrival}
    (hsize : ∀ a ∈ arrivals, a.datagram.length ≤ maxDatagramSize) {r : FragmentReassembler} :
    Machine.runAll recvStep r arrivals = receiveAll r arrivals := by
  induction arrivals generalizing r with
  | nil => rfl
  | cons a arrivals ih =>
      have hrest : ∀ u, Machine.runAll recvStep u arrivals = receiveAll u arrivals :=
        fun u => @ih (fun a' ha' => hsize a' (List.mem_cons_of_mem a ha')) u
      unfold receiveAll at hrest ⊢
      simp only [Machine.runAll, recvStep, List.take_of_length_le (hsize a List.mem_cons_self),
        hrest]

section Runs

variable {b b' : Bridge} {actions : List Action} {events : List Event}

/-- The results of the receive loop are those of the arrivals alone. -/
theorem receiver_results (hrun : b.run tryFrom actions = .ok (b', events)) :
    Machine.runAll recvStep b.reassembler (actions.filterMap Action.asArrival)
      = .ok (b'.reassembler, events.filterMap Event.completion) := by
  refine Machine.runAll_project (fun _ => True) Bridge.reassembler Action.asArrival
    Event.completion (fun u a u' event _ hstep => ⟨trivial, ?_⟩) trivial hrun
  cases move_of_step hstep with
  | sample _ _ => exact Or.inr ⟨rfl, rfl, rfl⟩
  | record _ => exact Or.inr ⟨rfl, rfl, rfl⟩
  | arrive _ _ hrecv => exact Or.inl ⟨_, _, rfl, rfl, hrecv⟩
  | check _ => exact Or.inr ⟨rfl, rfl, rfl⟩

-- Induction on the moves: a message is held from the datagram that completes it
-- to the check, and nothing arrives in between.
theorem handled_of_run (hrun : b.run tryFrom actions = .ok (b', events)) :
    b.receiver.held ++ ((actions.filterMap Action.asArrival).zip
        (events.filterMap Event.completion)).filterMap (fun p => p.2.map (fun msg => (p.1.src, msg)))
      = events.filterMap Event.handledMessage ++ b'.receiver.held := by
  induction actions generalizing b events with
  | nil =>
      simp only [Bridge.run, Machine.runAll_nil, Except.ok.injEq, Prod.mk.injEq] at hrun
      rw [← hrun.1, ← hrun.2]
      exact List.append_nil _
  | cons act actions ih =>
      rcases Machine.runAll_cons_eq_ok.mp hrun with ⟨u, event, events', hstep, hrest, rfl⟩
      have hrest := ih hrest
      cases move_of_step hstep with
      | sample hidle hhandle => exact hrest
      | record hseq => exact hrest
      | @arrive a reassembler msg hwait hnet hrecv =>
          rw [hwait]
          cases msg with
          | none => exact hrest
          | some msg => exact hrest
      | @check src msg hcheck =>
          rw [hcheck]
          exact congrArg (List.cons (src, msg)) hrest

/-- A number is in the shared set, or about to be recorded, only because a send
    has returned it. -/
def SentOnly (b : Bridge) (events : List Event) : Prop :=
  (∀ seq ∈ b.sentSequences, ∃ channel, Event.sampled (.sent channel seq) ∈ events) ∧
    ∀ seq, b.sender = .recording seq → ∃ channel, Event.sampled (.sent channel seq) ∈ events

theorem sentOnly_step {a : Action} {event : Event} (h : SentOnly b events)
    (hstep : step tryFrom b a = .ok (b', event)) : SentOnly b' (events ++ [event]) := by
  have hold : ∀ seq, (∃ channel, Event.sampled (.sent channel seq) ∈ events) →
      ∃ channel, Event.sampled (.sent channel seq) ∈ events ++ [event] :=
    fun seq hseq => hseq.imp (fun channel hmem => List.mem_append_left _ hmem)
  cases move_of_step hstep with
  | @sample keyExpr payload sendTo transport emitted outcome hidle hhandle =>
      refine ⟨fun seq hseq => hold seq (h.1 seq hseq), fun seq hnext => ?_⟩
      cases outcome with
      | sent channel seq' =>
          rw [SampleOutcome.next, SenderTask.recording.injEq] at hnext
          rw [hnext]
          exact ⟨channel, List.mem_concat_self⟩
      | unmapped error => exact absurd hnext (by simp only [SampleOutcome.next, reduceCtorEq,
          not_false_eq_true])
      | notAllowed channel => exact absurd hnext (by simp only [SampleOutcome.next, reduceCtorEq,
          not_false_eq_true])
      | failed channel error => exact absurd hnext (by simp only [SampleOutcome.next, reduceCtorEq,
          not_false_eq_true])
  | record hseq =>
      refine ⟨fun seq hmem => ?_, fun seq hnext => absurd hnext (by
        simp only [reduceCtorEq, not_false_eq_true])⟩
      -- Pruning only takes numbers out.
      rcases Finset.mem_insert.mp (mem_recordSent_iff.mp hmem).1 with hnew | hmem
      · rw [hnew]
        exact hold _ (h.2 _ hseq)
      · exact hold seq (h.1 seq hmem)
  | arrive _ _ _ => exact ⟨fun seq hseq => hold seq (h.1 seq hseq),
      fun seq hnext => hold seq (h.2 seq hnext)⟩
  | check _ =>
      refine ⟨fun seq hmem => ?_, fun seq hnext => hold seq (h.2 seq hnext)⟩
      rw [handleMessage_sentSequences] at hmem
      exact hold seq (h.1 seq (Finset.mem_of_mem_erase hmem))

/-- What becomes of a message is decided by a set of numbers that sends have
    returned. -/
theorem handling_of_mem (hstart : SentOnly b []) (hrun : b.run tryFrom actions = .ok (b', events))
    {src : SocketAddr} {msg : LcmMessage} {handling : Handling}
    (hmem : Event.handled src msg handling ∈ events) :
    ∃ seqs, handling = (handleMessage tryFrom b.config seqs msg).2 ∧
      ∀ seq ∈ seqs, ∃ channel, Event.sampled (.sent channel seq) ∈ events := by
  rcases (handled_mem_iff hrun).mp hmem with ⟨u, ⟨pre, post, es, hsplit, hpre, _⟩, hhandling⟩
  have hsent : SentOnly u es := Machine.runAll_invariant_outputs SentOnly
    (fun _ _ _ _ _ hu hstep => sentOnly_step hu hstep) hstart hpre
  -- What was sent before the check has been sent in the run.
  rw [hsplit] at hrun
  rcases Machine.runAll_append.mp hrun with ⟨u', es', rest, hpre', _, hevents⟩
  rw [Bridge.run, hpre', Except.ok.injEq, Prod.mk.injEq] at hpre
  refine ⟨u.sentSequences, hhandling, fun seq hseq => ?_⟩
  rcases hsent.1 seq hseq with ⟨channel, hchannel⟩
  rw [hevents, hpre.2]
  exact ⟨channel, List.mem_append_left _ hchannel⟩

end Runs

/-- The messages from a source, taken from the results of the receive loop or
    from those handled. -/
theorem filter_held (sender : SocketAddr) (ps : List (Arrival × Option LcmMessage)) :
    ((ps.filterMap (fun p => p.2.map (fun msg => (p.1.src, msg)))).filter
        (fun q => q.1 = sender)).map Prod.snd
      = (ps.filter (fun p => p.1.src = sender)).filterMap Prod.snd := by
  induction ps with
  | nil => rfl
  | cons p ps ih =>
      obtain ⟨a, result⟩ := p
      by_cases hsrc : a.src = sender <;> cases result <;>
        simp only [List.filterMap_cons, List.filter_cons, Option.map_none, Option.map_some, hsrc,
          decide_true, decide_false, if_true, if_false, Bool.false_eq_true, List.map_cons, ih]

/-- What is published of messages from a source, when none of them is skipped. -/
theorem publishedFrom_eq {config : Config} {sender : SocketAddr} {events : List Event}
    (h : ∀ msg handling, Event.handled sender msg handling ∈ events →
      handling.published = publishedAs tryFrom config msg) :
    events.filterMap (Event.publishedFrom sender)
      = (((events.filterMap Event.handledMessage).filter (fun q => q.1 = sender)).map
          Prod.snd).filterMap (publishedAs tryFrom config) := by
  induction events with
  | nil => rfl
  | cons event events ih =>
      have hrest := ih (fun msg handling hmem => h msg handling (List.mem_cons_of_mem event hmem))
      cases event with
      | sampled outcome => exact hrest
      | recorded seq => exact hrest
      | received msg => exact hrest
      | handled src msg handling =>
          simp only [List.filterMap_cons, Event.publishedFrom, Event.handledMessage,
            List.filter_cons, hrest]
          by_cases hsrc : src = sender
          · rw [hsrc] at h
            simp only [hsrc, if_true, decide_true, List.map_cons, List.filterMap_cons,
              h msg handling List.mem_cons_self]
          · simp only [hsrc, if_false, decide_false, Bool.false_eq_true]

/-- A message that is expected has the number of one of the calls. -/
theorem number_of_expected {t : LcmTransport} {requests : List Request}
    {outs : List (List Datagram × Except IoError UInt32)} {sender : SocketAddr}
    {r : FragmentReassembler} {arrivals : List Arrival} {arrived : List Datagram}
    (h : Transmitted t requests outs sender r arrivals) {msg : LcmMessage}
    (hmem : msg ∈ (requests.zip outs).filterMap (fun p => expected arrived p.1 p.2)) :
    ∃ k < requests.length, msg.sequenceNumber = t.sequenceCounter + UInt32.ofNat k := by
  rcases List.mem_filterMap.mp hmem with ⟨⟨q, out⟩, hzip, hexpected⟩
  rcases List.mem_iff_getElem?.mp hzip with ⟨k, hk⟩
  rcases List.getElem?_zip_eq_some.mp hk with ⟨hq, hout⟩
  rcases h.sends with ⟨t', hsends⟩
  rcases sendAll_getElem hsends hout with ⟨q', _, houtcome, _⟩
  refine ⟨k, (List.getElem?_eq_some_iff.mp hq).1, ?_⟩
  obtain ⟨emitted, result⟩ := out
  cases result with
  | error err => exact absurd hexpected (by simp only [expected, reduceCtorEq, not_false_eq_true])
  | ok seq =>
      rw [expected] at hexpected
      dsimp only at hexpected
      split at hexpected
      · rw [← Option.some.inj hexpected]
        exact seq_of_outcome houtcome
      · exact absurd hexpected (by simp only [reduceCtorEq, not_false_eq_true])

/-- If no number of a call is sent by the bridge, no number of a message
    delivered is. -/
theorem Transmitted.numbers_ne {t : LcmTransport} {requests : List Request}
    {outs : List (List Datagram × Except IoError UInt32)} {sender : SocketAddr}
    {r : FragmentReassembler} {arrivals : List Arrival} {msgs : List LcmMessage}
    {events : List Event} (h : Transmitted t requests outs sender r arrivals)
    (hperm : msgs.Perm ((requests.zip outs).filterMap
      (fun p => expected (arrivedFrom sender arrivals) p.1 p.2)))
    (hother : ∀ channel seq, Event.sampled (.sent channel seq) ∈ events →
      ∀ k < requests.length, seq ≠ t.sequenceCounter + UInt32.ofNat k) :
    ∀ channel seq, Event.sampled (.sent channel seq) ∈ events →
      ∀ msg ∈ msgs, seq ≠ msg.sequenceNumber := by
  intro channel seq hsent msg hmsg
  rcases number_of_expected h (hperm.subset hmsg) with ⟨k, hk, hnumber⟩
  rw [hnumber]
  exact hother channel seq hsent k hk

/-- What a bridge publishes of a source's messages, in a run that ends with no
    message held: those delivered, each as it is published, if the bridge has
    sent none of their numbers itself. -/
theorem published_of_run {config : Config} {localAddr sender : SocketAddr} {fragmentMtu : Nat}
    {actions : List Action} {b : Bridge} {events : List Event}
    {results : List (Option LcmMessage)} {r : FragmentReassembler}
    (hrun : (Bridge.start config localAddr fragmentMtu).run tryFrom actions = .ok (b, events))
    (hdone : b.receiver = .receiving)
    (hsize : ∀ a ∈ actions.filterMap Action.asArrival, a.datagram.length ≤ maxDatagramSize)
    (hreceive : receiveAll (new reassemblyTimeout config.maxMessageSize)
      (actions.filterMap Action.asArrival) = .ok (r, results))
    (hother : ∀ channel seq, Event.sampled (.sent channel seq) ∈ events →
      ∀ msg ∈ (((actions.filterMap Action.asArrival).zip results).filter
        (fun p => p.1.src = sender)).filterMap Prod.snd, seq ≠ msg.sequenceNumber) :
    events.filterMap (Event.publishedFrom sender)
      = ((((actions.filterMap Action.asArrival).zip results).filter
          (fun p => p.1.src = sender)).filterMap Prod.snd).filterMap
            (publishedAs tryFrom config) := by
  -- The bridge has received what the datagrams deliver, and handled it.
  have hresults := receiver_results hrun
  rw [runAll_recvStep_eq hsize] at hresults
  have hsame := hreceive.symm.trans hresults
  rw [Except.ok.injEq, Prod.mk.injEq] at hsame
  have hhandled := handled_of_run hrun
  rw [← hsame.2, hdone] at hhandled
  have hfrom : ((events.filterMap Event.handledMessage).filter (fun q => q.1 = sender)).map Prod.snd
      = (((actions.filterMap Action.asArrival).zip results).filter
          (fun p => p.1.src = sender)).filterMap Prod.snd := by
    rw [← filter_held, ← List.append_nil (events.filterMap Event.handledMessage)]
    exact congrArg (fun ps => (ps.filter (fun q => decide (q.1 = sender))).map Prod.snd)
      hhandled.symm
  -- Their numbers are none of the bridge's own, so none of them is skipped.
  have hpublished : ∀ msg handling, Event.handled sender msg handling ∈ events →
      handling.published = publishedAs tryFrom config msg := by
    intro msg handling hevent
    have hmsg : msg ∈ ((events.filterMap Event.handledMessage).filter
        (fun q => q.1 = sender)).map Prod.snd :=
      List.mem_map.mpr ⟨(sender, msg), List.mem_filter.mpr
        ⟨List.mem_filterMap.mpr ⟨_, hevent, rfl⟩, decide_eq_true rfl⟩, rfl⟩
    rw [hfrom] at hmsg
    have hstart : SentOnly (Bridge.start config localAddr fragmentMtu) [] :=
      ⟨fun seq hseq => absurd hseq (Finset.notMem_empty seq), fun seq hnext => absurd hnext
        (by simp only [Bridge.start, reduceCtorEq, not_false_eq_true])⟩
    rcases handling_of_mem hstart hrun hevent with ⟨seqs, rfl, hseqs⟩
    refine published_handleMessage (fun hmem => ?_)
    rcases hseqs _ hmem with ⟨channel, hchannel⟩
    exact hother channel _ hchannel msg hmsg rfl
  rw [publishedFrom_eq hpublished, hfrom]

/-- A publisher's messages, in any run of a bridge that they are transmitted to,
    that ends with no message held and that has sent none of their numbers
    itself: what the bridge publishes of them is one publication for each
    message that was sent, that has arrived, and whose channel is allowed and has
    a key, in some order. -/
theorem burst_published {config : Config} {localAddr sender : SocketAddr} {fragmentMtu : Nat}
    {actions : List Action} {b : Bridge} {events : List Event} {t : LcmTransport}
    {requests : List Request} {outs : List (List Datagram × Except IoError UInt32)}
    (hrun : (Bridge.start config localAddr fragmentMtu).run tryFrom actions = .ok (b, events))
    (hdone : b.receiver = .receiving)
    (hsize : ∀ a ∈ actions.filterMap Action.asArrival, a.datagram.length ≤ maxDatagramSize)
    (hclock : ArrivalsOrdered (actions.filterMap Action.asArrival))
    (hsent : Transmitted t requests outs sender (new reassemblyTimeout config.maxMessageSize)
      (actions.filterMap Action.asArrival))
    (hother : ∀ channel seq, Event.sampled (.sent channel seq) ∈ events →
      ∀ k < requests.length, seq ≠ t.sequenceCounter + UInt32.ofNat k) :
    (events.filterMap (Event.publishedFrom sender)).Perm
      ((requests.zip outs).filterMap (fun p =>
        (expected (arrivedFrom sender (actions.filterMap Action.asArrival)) p.1 p.2).bind
          (publishedAs tryFrom config))) := by
  have hmem : ∀ a ∈ actions.filterMap Action.asArrival, a.datagram.length ≤ isizeMax :=
    fun a ha => Nat.le_trans (hsize a ha) (by decide)
  have hreach := reachable_new reassemblyTimeout config.maxMessageSize
  have hreceive := receiveAll_eq (reachable_allValid hreach) hmem
  have hperm := hsent.delivered_perm hreach hmem hclock hreceive
  rw [published_of_run hrun hdone hsize hreceive (hsent.numbers_ne hperm hother)]
  refine (hperm.filterMap _).trans (List.Perm.of_eq ?_)
  rw [List.filterMap_filterMap]

/-- The arrivals of a burst at a bridge that has a sample of its own to send. -/
def burstActions : List Action :=
  [.arrive ⟨encodeShortMessage 10 "C" [], .v4 1 7667, 0, 0⟩,
    .sample ⟨"lcm/X", by decide⟩ [8] (fun _ => none), .check, .record,
    .arrive ⟨burstTail 7, .v4 1 7667, 1, 1⟩,
    .arrive ⟨encodeShortMessage 7 "A" [6], .v4 2 5000, 1, 1⟩, .check,
    .arrive ⟨encodeShortMessage 0 "X" [8], .v4 9 7667, 1, 1⟩, .check,
    .arrive ⟨burstHalf 7, .v4 1 7667, 2, 3⟩,
    .arrive ⟨burstHead 7, .v4 1 7667, 4, 4⟩, .check]

theorem burst_published_one_lost :
    ∃ b events, (Bridge.start Config.default (.v4 9 7667) 1400).run KeyExpr.ofValid burstActions
        = .ok (b, events) ∧
      (events.filterMap (Event.publishedFrom (.v4 1 7667))).Perm
        [(⟨"lcm/P", by decide⟩, (List.range 24).map UInt8.ofNat), (⟨"lcm/C", by decide⟩, [])] := by
  have hrun : ∃ b, (Bridge.start Config.default (.v4 9 7667) 1400).run KeyExpr.ofValid burstActions
        = .ok (b, [.received (some ⟨"C", 10, []⟩), .sampled (.sent "X" 0),
          .handled (.v4 1 7667) ⟨"C", 10, []⟩ (.put ⟨"lcm/C", by decide⟩ []), .recorded 0,
          .received none, .received (some ⟨"A", 7, [6]⟩),
          .handled (.v4 2 5000) ⟨"A", 7, [6]⟩ (.put ⟨"lcm/A", by decide⟩ [6]),
          .received (some ⟨"X", 0, [8]⟩), .handled (.v4 9 7667) ⟨"X", 0, [8]⟩ .loopback,
          .received none, .received (some ⟨"P", 7, (List.range 24).map UInt8.ofNat⟩),
          .handled (.v4 1 7667) ⟨"P", 7, (List.range 24).map UInt8.ofNat⟩
            (.put ⟨"lcm/P", by decide⟩ ((List.range 24).map UInt8.ofNat))]) ∧
      b.receiver = .receiving := ⟨_, rfl, rfl⟩
  have hsent : Transmitted (LcmTransport.mk 33 7) burstRequests (burstOuts 7) (.v4 1 7667)
      (new reassemblyTimeout Config.default.maxMessageSize)
      (burstActions.filterMap Action.asArrival) :=
    burst_transmitted (Or.inr rfl) (by decide) (by decide) (fun _ => rfl)
  rcases hrun with ⟨b, hrun, hdone⟩
  refine ⟨b, _, hrun, burst_published hrun hdone ?_ ?_ hsent ?_⟩
  · decide
  · decide
  · intro channel seq hmem k hk
    simp only [List.mem_cons, Event.sampled.injEq, SampleOutcome.sent.injEq, reduceCtorEq,
      List.not_mem_nil, or_false, false_or] at hmem
    rw [hmem.2]
    exact (by decide : ∀ k < 4, (0 : UInt32) ≠ 7 + UInt32.ofNat k) k hk

/-! ### From Zenoh to LCM -/

/-- The call of `send` that a sample leads to. -/
def requestOf (config : Config) (sample : Sample) : Option Request :=
  match keyExprToLcmChannel sample.keyExpr config.keyPrefix with
  | .ok channel =>
      if isAllowed channel config then some ⟨channel, sample.payload, sample.sendTo⟩ else none
  | .error _ => none

/-- The calls of `send` that samples lead to. -/
def requestsOf (config : Config) (samples : List Sample) : List Request :=
  samples.filterMap (requestOf config)

/-- The result of the `send`, if there was one. -/
def SampleOutcome.result : SampleOutcome → Option (Except IoError UInt32)
  | .sent _ seq => some (.ok seq)
  | .failed _ error => some (.error error)
  | _ => none

section Samples

variable {config : Config} {t t' : LcmTransport} {emitted emitted' : List Datagram}
  {samples : List Sample} {outcomes : List SampleOutcome}

/-- A sample leads to a call of `send`, or to nothing. -/
theorem request_of_sample {sample : Sample} {outcome : SampleOutcome}
    (h : handleSample config t sample.sendTo sample.keyExpr sample.payload
      = .ok (t', emitted, outcome)) :
    (requestOf config sample = none ∧ t' = t ∧ emitted = [] ∧ outcome.result = none) ∨
      ∃ q result, requestOf config sample = some q ∧ outcome.result = some result ∧
        t.send q.sendTo q.channel q.data = .ok (t', emitted, result) := by
  unfold handleSample at h
  unfold requestOf
  cases hchannel : keyExprToLcmChannel sample.keyExpr config.keyPrefix with
  | error error =>
      simp only [hchannel, Except.ok.injEq, Prod.mk.injEq] at h
      rcases h with ⟨rfl, rfl, rfl⟩
      exact Or.inl ⟨rfl, rfl, rfl, rfl⟩
  | ok channel =>
      simp only [hchannel] at h
      by_cases hallow : isAllowed channel config = true
      · rw [if_pos hallow] at h
        rcases Checked.bind_eq_ok.mp h with ⟨⟨u, sent, result⟩, hsend, hout⟩
        cases result with
        | ok seq =>
            simp only [pure, Except.pure, Except.ok.injEq, Prod.mk.injEq] at hout
            rcases hout with ⟨rfl, rfl, rfl⟩
            exact Or.inr ⟨_, _, if_pos hallow, rfl, hsend⟩
        | error error =>
            simp only [pure, Except.pure, Except.ok.injEq, Prod.mk.injEq] at hout
            rcases hout with ⟨rfl, rfl, rfl⟩
            exact Or.inr ⟨_, _, if_pos hallow, rfl, hsend⟩
      · rw [if_neg hallow, Except.ok.injEq, Prod.mk.injEq, Prod.mk.injEq] at h
        rcases h with ⟨rfl, rfl, rfl⟩
        exact Or.inl ⟨if_neg hallow, rfl, rfl, rfl⟩

-- Induction on the samples, with the datagrams emitted before them.
theorem sendAll_of_loop (h : zenohToLcmLoop config t emitted samples = .ok ((t', emitted'), outcomes)) :
    ∃ outs, sendAll t (requestsOf config samples) = .ok (t', outs) ∧
      emitted' = emitted ++ (outs.map Prod.fst).flatten ∧
      outcomes.filterMap SampleOutcome.result = outs.map Prod.snd := by
  induction samples generalizing t emitted outcomes with
  | nil =>
      simp only [zenohToLcmLoop, Machine.runAll_nil, Except.ok.injEq, Prod.mk.injEq] at h
      rcases h with ⟨⟨rfl, rfl⟩, rfl⟩
      exact ⟨[], rfl, (List.append_nil _).symm, rfl⟩
  | cons sample samples ih =>
      rcases Machine.runAll_cons_eq_ok.mp h with ⟨⟨u, mid⟩, outcome, rest, hstep, hrest, rfl⟩
      rcases Checked.bind_eq_ok.mp hstep with ⟨⟨u', sent, outcome'⟩, hsample, hout⟩
      simp only [pure, Except.pure, Except.ok.injEq, Prod.mk.injEq] at hout
      rcases hout with ⟨⟨rfl, rfl⟩, rfl⟩
      rcases ih hrest with ⟨outs, hsends, hemitted, hresults⟩
      rcases request_of_sample hsample with ⟨hnone, rfl, rfl, hresult⟩ | ⟨q, result, hq, hresult, hsend⟩
      · rw [requestsOf, List.filterMap_cons_none hnone, List.filterMap_cons_none hresult]
        rw [List.append_nil] at hemitted
        exact ⟨outs, hsends, hemitted, hresults⟩
      · rw [requestsOf, List.filterMap_cons_some hq, List.filterMap_cons_some hresult]
        refine ⟨(sent, result) :: outs, Machine.runAll_cons_eq_ok.mpr ⟨_, _, _, hsend, hsends, rfl⟩,
          ?_, congrArg (List.cons result) hresults⟩
        rw [hemitted, List.map_cons, List.flatten_cons, List.append_assoc]

end Samples

/-- In any run from its start, the bridge is a transport that sends the payloads
    of the samples that have an allowed channel, one after another. What a
    receiver delivers from it, if these are transmitted to it on a network that
    loses and reorders datagrams, are the samples whose `send` has succeeded and
    whose datagrams have all arrived, each exactly once, in some order. -/
theorem samples_received {config : Config} {localAddr : SocketAddr} {fragmentMtu : Nat}
    {actions : List Action} {b : Bridge} {events : List Event}
    (hrun : (Bridge.start config localAddr fragmentMtu).run tryFrom actions = .ok (b, events)) :
    ∃ outs, sendAll (LcmTransport.new fragmentMtu)
          (requestsOf config (actions.filterMap Action.asSample)) = .ok (b.transport, outs) ∧
      b.emitted = (outs.map Prod.fst).flatten ∧
      (events.filterMap Event.outcome).filterMap SampleOutcome.result = outs.map Prod.snd ∧
      ∀ (r : FragmentReassembler) (arrivals : List Arrival),
        Transmitted (LcmTransport.new fragmentMtu)
          (requestsOf config (actions.filterMap Action.asSample)) outs localAddr r arrivals →
        r.Reachable → (∀ a ∈ arrivals, a.datagram.length ≤ isizeMax) → ArrivalsOrdered arrivals →
        ∃ r' results, receiveAll r arrivals = .ok (r', results) ∧
          (((arrivals.zip results).filter (fun p => p.1.src = localAddr)).filterMap Prod.snd).Perm
            (((requestsOf config (actions.filterMap Action.asSample)).zip outs).filterMap
              (fun p => expected (arrivedFrom localAddr arrivals) p.1 p.2)) := by
  rcases sendAll_of_loop (sender_run hrun) with ⟨outs, hsends, hemitted, hresults⟩
  refine ⟨outs, hsends, hemitted, hresults, fun r arrivals h hreach hmem hclock => ?_⟩
  have hrun := receiveAll_eq (reachable_allValid hreach) hmem
  exact ⟨_, _, hrun, h.delivered_perm hreach hmem hclock hrun⟩

/-- The samples of a burst, and one under another prefix. -/
def burstSamples : List Action :=
  [.sample ⟨"lcm/P", by decide⟩ ((List.range 24).map UInt8.ofNat) (fun _ => none), .record,
    .sample ⟨"other/B", by decide⟩ [3] (fun _ => none),
    .sample ⟨"lcm/B", by decide⟩ [3] (fun _ => none), .record,
    .sample ⟨"lcm/P", by decide⟩ (List.replicate 24 5) refuseSecond,
    .sample ⟨"lcm/C", by decide⟩ [] (fun _ => none)]

theorem samples_received_one_lost :
    ∃ b events r' results, (Bridge.start Config.default (.v4 1 7667) 33).run KeyExpr.ofValid
        burstSamples = .ok (b, events) ∧
      receiveAll (new 10 100) (burstArrivals 0) = .ok (r', results) ∧
      ((((burstArrivals 0).zip results).filter (fun p => p.1.src = .v4 1 7667)).filterMap
        Prod.snd).Perm [⟨"P", 0, (List.range 24).map UInt8.ofNat⟩, ⟨"C", 3, []⟩] := by
  have hrun : ∃ b, (Bridge.start Config.default (.v4 1 7667) 33).run KeyExpr.ofValid burstSamples
      = .ok (b, [.sampled (.sent "P" 0), .recorded 0,
        .sampled (.unmapped "Zenoh key 'other/B' does not start with expected prefix 'lcm/'"),
        .sampled (.sent "B" 1), .recorded 1, .sampled (.failed "P" (.os 101)),
        .sampled (.sent "C" 3)]) := ⟨_, rfl⟩
  have hsent : Transmitted (LcmTransport.mk 33 0) burstRequests (burstOuts 0) (.v4 1 7667)
      (new 10 100) (burstArrivals 0) :=
    burst_transmitted (Or.inl rfl) (by decide) (by decide) (fun _ => rfl)
  rcases hrun with ⟨b, hrun⟩
  rcases samples_received hrun with ⟨outs, hsends, _, _, hreceived⟩
  -- What the calls emit and return is determined by them.
  have houts : outs = burstOuts 0 := (Prod.mk.inj (Except.ok.inj hsends)).2.symm
  rw [houts] at hreceived
  rcases hreceived (new 10 100) (burstArrivals 0) hsent (reachable_new 10 100) (by decide)
    (by decide) with ⟨r', results, hreceive, hperm⟩
  exact ⟨b, _, r', results, hrun, hreceive, hperm⟩

end LcmBridge
