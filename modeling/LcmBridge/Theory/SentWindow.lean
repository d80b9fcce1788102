import LcmBridge.Library.Serial
import LcmBridge.Theory.Transparency

/-!
# The Window of Sent Numbers

What pruning keeps of the sequence numbers the bridge has sent.

The set is pruned against a lower end that does not wrap, by the order of the
numbers. The counter wraps. Up to the wrap the two go together, and pruning
keeps a window of recent numbers. After it, the numbers from before the wrap
are above every number that is recorded, so pruning keeps them for good
(`sent_window_iff`); until the counter is far enough from zero it discards
nothing at all.

In the other direction nothing goes wrong. A recent number is above the lower
end on both sides of the wrap, so it is only ever removed by a message that
carries it (`recent_send_kept`).

Both are statements about runs of the whole bridge. The part of its state they
concern is the counter and the set, and what a move does to these is a function
of what is observed of it (`step_sequenceCounter`, `step_sentSequences`).

## Main definitions

* `Event.issues`, `issued`: The numbers taken from the counter.
* `Event.sentSequences`: What a move does to the set.
* `returned`, `lost`: Messages whose loopback copies come back, or do not.
* `prunedRun`: So many of the latter that the set is pruned.
* `Records`: A run records a number in a state.
* `WindowKept`: Pruning leaves a window of recent numbers.

## Theorems

* `recordSent_window_iff`: When one pruning leaves a window.
* `sent_window_iff`: When every pruning in a run does.
* `sent_window_before_wrap`: They do until the counter has wrapped.
* `recent_send_kept`: Pruning never discards a recent number.
-/

namespace LcmBridge

open Bytes Checked

/-! ### One record step -/

theorem pruneSentSequences_eq (seqs : Finset UInt32) (latestSeq : UInt32) :
    pruneSentSequences seqs latestSeq = if 10000 < seqs.card then
      seqs.filter (fun s => Serial.windowStart 5000 latestSeq ≤ s) else seqs := rfl

theorem mem_recordSent_iff {seqs : Finset UInt32} {seq s : UInt32} :
    s ∈ recordSent seqs seq ↔ s ∈ insert seq seqs ∧
      (10000 < (insert seq seqs).card → Serial.windowStart 5000 seq ≤ s) := by
  rw [recordSent, pruneSentSequences_eq]
  by_cases hbig : 10000 < (insert seq seqs).card
  · rw [if_pos hbig, Finset.mem_filter]
    simp only [hbig, true_imp_iff]
  · rw [if_neg hbig]
    simp only [hbig, false_imp_iff, and_true]

/-- A small set is not pruned. -/
theorem recordSent_of_card_le {seqs : Finset UInt32} {seq : UInt32}
    (h : (insert seq seqs).card ≤ 10000) : recordSent seqs seq = insert seq seqs := by
  rw [recordSent, pruneSentSequences_eq, if_neg (Nat.not_lt_of_le h)]

/-- A number near zero prunes nothing. -/
theorem recordSent_of_windowStart_eq_zero {seqs : Finset UInt32} {seq : UInt32}
    (h : Serial.windowStart 5000 seq = 0) : recordSent seqs seq = insert seq seqs := by
  ext s
  rw [mem_recordSent_iff, h]
  simp only [UInt32.zero_le, implies_true, and_true]

/-- A number that is recent when another one is recorded stays in the set. -/
theorem mem_recordSent_of_behind {seqs : Finset UInt32} {seq s : UInt32}
    (hmem : s ∈ insert seq seqs) (h : Serial.behind seq s ≤ 5000) : s ∈ recordSent seqs seq :=
  mem_recordSent_iff.mpr ⟨hmem, fun _ => Serial.windowStart_le_of_behind h⟩

/-- A record step that prunes leaves a window of recent numbers exactly when no
    number in the set is above the one it records. -/
theorem recordSent_window_iff {seqs : Finset UInt32} {seq : UInt32} :
    ((10000 < (insert seq seqs).card →
        ∀ s ∈ recordSent seqs seq, Serial.behind seq s ≤ 5000) ∧
      (recordSent seqs seq).card ≤ 10000) ↔
      (10000 < (insert seq seqs).card → ∀ s ∈ seqs, s ≤ seq) := by
  constructor
  · intro h hbig s hs
    rcases h with ⟨hwindow, hcard⟩
    by_contra hgt
    rw [UInt32.not_le] at hgt
    -- It is kept, so it is to be recent, and then nothing has been pruned.
    have hkept : s ∈ recordSent seqs seq := by
      refine mem_recordSent_iff.mpr ⟨Finset.mem_insert_of_mem hs, fun _ => ?_⟩
      rw [UInt32.le_iff_toNat_le, Serial.toNat_windowStart]
      rw [UInt32.lt_iff_toNat_lt] at hgt
      omega
    have hzero := Serial.windowStart_eq_zero_of_behind hgt (hwindow hbig s hkept)
    rw [recordSent_of_windowStart_eq_zero hzero] at hcard
    omega
  · intro h
    by_cases hbig : 10000 < (insert seq seqs).card
    · have hwindow : ∀ s ∈ recordSent seqs seq, Serial.behind seq s ≤ 5000 := by
        intro s hs
        rcases mem_recordSent_iff.mp hs with ⟨hmem, hstart⟩
        rcases Finset.mem_insert.mp hmem with rfl | hmem
        · rw [Serial.behind_self]
          omega
        · exact Serial.behind_le_of_windowStart (h hbig s hmem) (hstart hbig)
      refine ⟨fun _ => hwindow, ?_⟩
      have hcard := Serial.card_le_of_behind hwindow
      omega
    · refine ⟨fun hbig' => absurd hbig' hbig, ?_⟩
      rw [recordSent_of_card_le (Nat.le_of_not_lt hbig)]
      exact Nat.le_of_not_lt hbig

/-! ### What a move does to the counter and the set -/

/-- The move has taken a number from the counter, whether or not its `send`
    succeeded. -/
def Event.issues : Event → Bool
  | .sampled (.sent _ _) => true
  | .sampled (.failed _ _) => true
  | _ => false

/-- How many numbers have been issued. -/
def issued (events : List Event) : Nat := events.countP Event.issues

theorem issued_concat (events : List Event) (event : Event) :
    issued (events ++ [event]) = issued events + (if event.issues then 1 else 0) := by
  unfold issued
  rw [List.countP_append, List.countP_singleton]

/-- The set of sent sequence numbers after a move. -/
def Event.sentSequences : Event → Finset UInt32 → Finset UInt32
  | .recorded seq, seqs => recordSent seqs seq
  | .handled _ msg _, seqs => seqs.erase msg.sequenceNumber
  | .sampled _, seqs => seqs
  | .received _, seqs => seqs

/-- Only a `send` that succeeded leaves a number to record. -/
theorem sent_of_next {outcome : SampleOutcome} {seq : UInt32}
    (h : outcome.next = .recording seq) : ∃ channel, outcome = .sent channel seq := by
  cases outcome with
  | sent channel seq' =>
      rw [SenderTask.recording.inj h]
      exact ⟨channel, rfl⟩
  | unmapped error =>
      exact absurd h (by simp only [SampleOutcome.next, reduceCtorEq, not_false_eq_true])
  | notAllowed channel =>
      exact absurd h (by simp only [SampleOutcome.next, reduceCtorEq, not_false_eq_true])
  | failed channel error =>
      exact absurd h (by simp only [SampleOutcome.next, reduceCtorEq, not_false_eq_true])

/-- The number a `send` returns is the one it has taken from the counter. -/
theorem seq_of_outcome {self : LcmTransport} {sendTo : SendTo} {channel : String}
    {data : List UInt8} {emitted : List Datagram} {seq : UInt32}
    (hout : (emitted, .ok seq) = outcome self sendTo channel data) :
    seq = self.sequenceCounter := by
  unfold outcome at hout
  by_cases hfits : 9 + (asBytes channel).length + data.length ≤ self.fragmentMtu
  · rw [if_pos hfits] at hout
    cases hsend : sendTo 0 with
    | some err => simp only [hsend, Prod.mk.injEq, reduceCtorEq, and_false] at hout
    | none =>
        simp only [hsend, Prod.mk.injEq, Except.ok.injEq] at hout
        exact hout.2
  · rw [if_neg hfits, Prod.mk.injEq, ok_eq_map_iff] at hout
    exact hout.2.2

/-- A sample advances the counter when it gets as far as `send`, and the number
    it was sent under is the one that was taken. -/
theorem handleSample_sequenceCounter {config : Config} {transport t : LcmTransport}
    {sendTo : SendTo} {keyExpr : KeyExpr} {payload : List UInt8} {emitted : List Datagram}
    {outcome : SampleOutcome}
    (h : handleSample config transport sendTo keyExpr payload = .ok (t, emitted, outcome)) :
    t.sequenceCounter
        = transport.sequenceCounter + (if (Event.sampled outcome).issues then 1 else 0) ∧
      ∀ channel seq, outcome = .sent channel seq → seq = transport.sequenceCounter := by
  unfold handleSample at h
  cases hkey : keyExprToLcmChannel keyExpr config.keyPrefix with
  | error error =>
      simp only [hkey, Except.ok.injEq, Prod.mk.injEq] at h
      rcases h with ⟨rfl, _, rfl⟩
      exact ⟨(UInt32.add_zero _).symm, fun _ _ hsent => absurd hsent
        (by simp only [reduceCtorEq, not_false_eq_true])⟩
  | ok channel =>
      cases hallow : isAllowed channel config with
      | false =>
          simp only [hkey, hallow, Bool.false_eq_true, if_false, Except.ok.injEq,
            Prod.mk.injEq] at h
          rcases h with ⟨rfl, _, rfl⟩
          exact ⟨(UInt32.add_zero _).symm, fun _ _ hsent => absurd hsent
            (by simp only [reduceCtorEq, not_false_eq_true])⟩
      | true =>
          simp only [hkey, hallow, if_true] at h
          rcases bind_eq_ok.mp h with ⟨⟨t', emitted', result⟩, hsend, h⟩
          rcases outcome_of_send hsend with ⟨rfl, _, hout⟩
          cases result with
          | error error =>
              simp only [pure, Except.pure, Except.ok.injEq, Prod.mk.injEq] at h
              rcases h with ⟨rfl, _, rfl⟩
              exact ⟨rfl, fun _ _ hsent => absurd hsent
                (by simp only [reduceCtorEq, not_false_eq_true])⟩
          | ok seq =>
              simp only [pure, Except.pure, Except.ok.injEq, Prod.mk.injEq] at h
              rcases h with ⟨rfl, _, rfl⟩
              refine ⟨rfl, fun channel' seq' hsent => ?_⟩
              rw [SampleOutcome.sent.injEq] at hsent
              rw [← hsent.2, seq_of_outcome hout]

section Moves

variable {tryFrom : String → Except String KeyExpr} {b b' : Bridge} {a : Action} {event : Event}

theorem step_sequenceCounter (h : step tryFrom b a = .ok (b', event)) :
    b'.transport.sequenceCounter
      = b.transport.sequenceCounter + (if event.issues then 1 else 0) := by
  cases move_of_step h with
  | sample _ hhandle => exact (handleSample_sequenceCounter hhandle).1
  | record _ => exact (UInt32.add_zero _).symm
  | arrive _ _ _ => exact (UInt32.add_zero _).symm
  | check _ => exact (UInt32.add_zero _).symm

theorem step_sentSequences (h : step tryFrom b a = .ok (b', event)) :
    b'.sentSequences = event.sentSequences b.sentSequences := by
  cases move_of_step h with
  | sample _ _ => rfl
  | record _ => rfl
  | arrive _ _ _ => rfl
  | check _ => exact handleMessage_sentSequences tryFrom b.config b.sentSequences _

/-- The number that the sending task is about to record is the one issued last. -/
def HoldsLatest (b : Bridge) : Prop :=
  ∀ seq, b.sender = .recording seq → b.transport.sequenceCounter = seq + 1

theorem step_holdsLatest (hb : HoldsLatest b) (h : step tryFrom b a = .ok (b', event)) :
    HoldsLatest b' := by
  cases move_of_step h with
  | sample _ hhandle =>
      intro seq hseq
      rcases sent_of_next hseq with ⟨channel, rfl⟩
      rcases handleSample_sequenceCounter hhandle with ⟨hcounter, hseq'⟩
      rw [hseq' channel seq rfl]
      exact hcounter
  | record _ =>
      intro seq hseq
      exact absurd hseq (by simp only [reduceCtorEq, not_false_eq_true])
  | arrive _ _ _ => exact hb
  | check _ => exact hb

/-- A record step records what the sending task holds. -/
theorem step_eq_recorded {seq : UInt32} (h : step tryFrom b a = .ok (b', .recorded seq)) :
    b.sender = .recording seq ∧ b'.sender = .idle := by
  cases move_of_step h with
  | record hseq => exact ⟨hseq, rfl⟩

end Moves

/-! ### Long runs -/

/-- Both tasks wait, the next number is `n`, and these numbers are in the set. -/
structure Waiting (b : Bridge) (n : UInt32) (seqs : Finset UInt32) : Prop where
  config : b.config = Config.default
  transport : b.transport = ⟨1400, n⟩
  sender : b.sender = .idle
  receiver : b.receiver = .receiving
  sentSequences : b.sentSequences = seqs

/-- A sample that fits into one datagram, on a socket that does not fail. -/
def sampleOnce : Action := .sample ⟨"lcm/A", by decide⟩ [] (fun _ => none)

/-- The loopback copy of the message with this number comes back and is
    checked. -/
def copyBack (seq : UInt32) : List Action :=
  [.arrive ⟨encodeShortMessage seq "A" [], .v4 1 7667, 0, 0⟩, .check]

/-- So many messages are sent, and each comes back before the next is sent. -/
def returned (n : Nat) : List Action :=
  (List.range n).flatMap (fun i => [sampleOnce, .record] ++ copyBack (UInt32.ofNat i))

/-- So many messages are sent, and none comes back. -/
def lost (n : Nat) : List Action := (List.range n).flatMap (fun _ => [sampleOnce, .record])

section LongRuns

variable {b : Bridge} {n : UInt32} {seqs : Finset UInt32}

theorem step_sampleOnce (h : Waiting b n seqs) :
    step KeyExpr.ofValid b sampleOnce
      = .ok ({ b with
          transport := ⟨1400, n + 1⟩
          sender := .recording n
          emitted := b.emitted ++ [encodeShortMessage n "A" []] }, .sampled (.sent "A" n)) := by
  have hhandle : handleSample b.config b.transport (fun _ => none) ⟨"lcm/A", by decide⟩ []
      = .ok (⟨1400, n + 1⟩, [encodeShortMessage n "A" []], .sent "A" n) := by
    rw [h.config, h.transport]
    rfl
  exact step_of_move (Move.sample h.sender hhandle)

theorem waiting_send (h : Waiting b n seqs) :
    ∃ b', b.run KeyExpr.ofValid [sampleOnce, .record]
        = .ok (b', [.sampled (.sent "A" n), .recorded n]) ∧
      Waiting b' (n + 1) (recordSent seqs n) ∧ encodeShortMessage n "A" [] ∈ b'.emitted := by
  refine ⟨_, Machine.runAll_cons_eq_ok.mpr ⟨_, _, _, step_sampleOnce h,
    Machine.runAll_singleton.mpr ⟨_, step_of_move (Move.record rfl), rfl⟩, rfl⟩, ?_, ?_⟩
  · exact ⟨h.config, rfl, rfl, h.receiver, by rw [← h.sentSequences]⟩
  · exact List.mem_concat_self

/-- A datagram with an empty message on channel `A`, whatever is pending. -/
theorem recvStep_empty (r : FragmentReassembler) (seq : UInt32) (src : SocketAddr) :
    recvStep r ⟨encodeShortMessage seq "A" [], src, 0, 0⟩ = .ok (r, some ⟨"A", seq, []⟩) := by
  unfold recvStep
  dsimp only
  rw [List.take_of_length_le (by
    rw [length_encodeShortMessage]
    decide)]
  unfold handleDatagram
  have hname : readName (asBytes "A" ++ [0]) = some ("A", []) := by rfl
  rw [parse_encodeShortMessage, hname]
  rfl

theorem waiting_copyBack (h : Waiting b n seqs) {seq : UInt32}
    (hmem : encodeShortMessage seq "A" [] ∈ b.emitted) :
    ∃ b' events, b.run KeyExpr.ofValid (copyBack seq) = .ok (b', events) ∧
      Waiting b' n (seqs.erase seq) := by
  refine ⟨_, _, Machine.runAll_cons_eq_ok.mpr ⟨_, _, _,
    step_of_move (Move.arrive h.receiver (fun hnet => hnet.2 hmem)
      (recvStep_empty b.reassembler seq (.v4 1 7667))),
    Machine.runAll_singleton.mpr ⟨_, step_of_move (Move.check rfl), rfl⟩, rfl⟩, ?_⟩
  refine ⟨h.config, h.transport, h.sender, rfl, ?_⟩
  rw [← h.sentSequences]
  exact handleMessage_sentSequences _ _ _ _

/-- As long as every copy comes back, the set is empty between messages. -/
theorem waiting_returned (n : Nat) :
    ∃ b events, (Bridge.start Config.default (.v4 1 7667) 1400).run KeyExpr.ofValid (returned n)
        = .ok (b, events) ∧ Waiting b (UInt32.ofNat n) ∅ := by
  induction n with
  | zero => exact ⟨_, _, rfl, rfl, rfl, rfl, rfl, rfl⟩
  | succ n ih =>
      rcases ih with ⟨b, events, hrun, hb⟩
      rcases waiting_send hb with ⟨b₁, hrun₁, hb₁, hmem⟩
      rcases waiting_copyBack hb₁ hmem with ⟨b₂, events₂, hrun₂, hb₂⟩
      refine ⟨b₂, events ++ ([.sampled (.sent "A" (UInt32.ofNat n)), .recorded (UInt32.ofNat n)]
        ++ events₂), ?_, ?_⟩
      · rw [returned, List.range_succ, List.flatMap_append, List.flatMap_singleton]
        exact Machine.runAll_append.mpr ⟨b, _, _, hrun,
          Machine.runAll_append.mpr ⟨b₁, _, _, hrun₁, hrun₂, rfl⟩, rfl⟩
      · -- The number was recorded alone, and its copy has removed it.
        have hone : (insert (UInt32.ofNat n) ∅ : Finset UInt32).card ≤ 10000 := by
          rw [Finset.card_insert_of_notMem (Finset.notMem_empty _), Finset.card_empty]
          omega
        rw [recordSent_of_card_le hone, Finset.erase_insert (Finset.notMem_empty _)] at hb₂
        rw [UInt32.ofNat_add]
        exact hb₂

/-- The numbers of so many messages, from a first one on. -/
def numbersFrom (first count : Nat) : Finset UInt32 :=
  (Finset.range count).image (fun i => UInt32.ofNat (first + i))

theorem card_numbersFrom (first : Nat) {count : Nat} (h : count ≤ 4294967296) :
    (numbersFrom first count).card = count := by
  unfold numbersFrom
  rw [Finset.card_image_of_injOn, Finset.card_range]
  intro i hi j hj heq
  have hi' := Finset.mem_range.mp (Finset.mem_coe.mp hi)
  have hj' := Finset.mem_range.mp (Finset.mem_coe.mp hj)
  have hnat := congrArg UInt32.toNat heq
  simp only [UInt32.toNat_ofNat'] at hnat
  omega

theorem numbersFrom_succ (first count : Nat) :
    numbersFrom first (count + 1)
      = insert (UInt32.ofNat (first + count)) (numbersFrom first count) := by
  rw [numbersFrom, Finset.range_add_one, Finset.image_insert, numbersFrom]

theorem mem_numbersFrom {seq : UInt32} {count : Nat} (hseq : seq.toNat < count) :
    seq ∈ numbersFrom 0 count := by
  refine Finset.mem_image.mpr ⟨seq.toNat, Finset.mem_range.mpr hseq, ?_⟩
  rw [Nat.zero_add, UInt32.ofNat_toNat]

/-- The events of so many messages, if none comes back. -/
def sentEvents (first count : Nat) : List Event :=
  (List.range count).flatMap (fun i =>
    [.sampled (.sent "A" (UInt32.ofNat (first + i))), .recorded (UInt32.ofNat (first + i))])

theorem sentEvents_succ (first count : Nat) :
    sentEvents first (count + 1) = sentEvents first count ++
      [.sampled (.sent "A" (UInt32.ofNat (first + count))),
        .recorded (UInt32.ofNat (first + count))] := by
  rw [sentEvents, List.range_succ, List.flatMap_append, List.flatMap_singleton, sentEvents]

theorem sentEvents_add (first m n : Nat) :
    sentEvents first (m + n) = sentEvents first m ++ sentEvents (first + m) n := by
  simp only [sentEvents, List.range_add, List.flatMap_append, List.flatMap_map, Nat.add_assoc]

theorem issued_sentEvents (first count : Nat) : issued (sentEvents first count) = count := by
  induction count with
  | zero => rfl
  | succ count ih =>
      rw [sentEvents_succ, issued, List.countP_append]
      exact congrArg (· + 1) ih

theorem handled_notMem_sentEvents (first count : Nat) (src : SocketAddr) (msg : LcmMessage)
    (handling : Handling) : .handled src msg handling ∉ sentEvents first count := by
  intro h
  rcases List.mem_flatMap.mp h with ⟨_, _, h⟩
  simp only [List.mem_cons, reduceCtorEq, List.not_mem_nil, or_false] at h

/-- Without copies the numbers stay, as long as nothing is pruned. -/
theorem waiting_lost {first : Nat} (hb : Waiting b (UInt32.ofNat first) ∅) {count : Nat}
    (hcount : count ≤ 10000) :
    ∃ b', b.run KeyExpr.ofValid (lost count) = .ok (b', sentEvents first count) ∧
      Waiting b' (UInt32.ofNat (first + count)) (numbersFrom first count) := by
  induction count with
  | zero => exact ⟨b, rfl, hb⟩
  | succ count ih =>
      rcases ih (by omega) with ⟨b₁, hrun₁, hb₁⟩
      rcases waiting_send hb₁ with ⟨b₂, hrun₂, hb₂, _⟩
      refine ⟨b₂, ?_, ?_⟩
      · rw [lost, List.range_succ, List.flatMap_append, List.flatMap_singleton, sentEvents_succ]
        exact Machine.runAll_append.mpr ⟨b₁, _, _, hrun₁, hrun₂, rfl⟩
      · rw [recordSent_of_card_le (by
          rw [← numbersFrom_succ, card_numbersFrom first (by omega)]
          exact hcount), ← numbersFrom_succ] at hb₂
        rw [← Nat.add_assoc, UInt32.ofNat_add]
        exact hb₂

/-- The first pruning leaves the last 5000 numbers and the one just recorded. -/
theorem mem_first_pruning {seq : UInt32} (hseq : seq.toNat ≤ 10000) :
    seq ∈ recordSent (numbersFrom 0 10000) 10000 ↔ 5000 ≤ seq := by
  have hall : insert 10000 (numbersFrom 0 10000) = numbersFrom 0 10001 :=
    (numbersFrom_succ 0 10000).symm
  rw [mem_recordSent_iff, hall, card_numbersFrom 0 (by decide)]
  constructor
  · exact fun h => h.2 (by decide)
  · exact fun h => ⟨mem_numbersFrom (by omega), fun _ => h⟩

/-- The last of these messages prunes the set, for the first time. -/
def prunedRun : List Action := lost 10000 ++ [sampleOnce, .record]

theorem run_prunedRun :
    ∃ b, (Bridge.start Config.default (.v4 1 7667) 1400).run KeyExpr.ofValid prunedRun
        = .ok (b, sentEvents 0 10001) ∧
      b.receiver = .receiving ∧
      ∀ seq : UInt32, seq.toNat ≤ 10000 → (seq ∈ b.sentSequences ↔ 5000 ≤ seq) := by
  have hb : Waiting (Bridge.start Config.default (.v4 1 7667) 1400) (UInt32.ofNat 0) ∅ :=
    ⟨rfl, rfl, rfl, rfl, rfl⟩
  rcases waiting_lost hb (Nat.le_refl 10000) with ⟨b₁, hrun₁, hb₁⟩
  rcases waiting_send hb₁ with ⟨b₂, hrun₂, hb₂, _⟩
  refine ⟨b₂, ?_, hb₂.receiver, fun seq hseq => ?_⟩
  · rw [sentEvents_succ]
    exact Machine.runAll_append.mpr ⟨b₁, _, _, hrun₁, hrun₂, rfl⟩
  · rw [hb₂.sentSequences]
    exact mem_first_pruning hseq

end LongRuns

/-! ### The window over a run -/

/-- Somewhere in the run the number is recorded, and the moves before that lead
    to the state `u`. -/
def Records (tryFrom : String → Except String KeyExpr) (b : Bridge) (actions : List Action)
    (u : Bridge) (seq : UInt32) : Prop :=
  ∃ pre post events, actions = pre ++ .record :: post ∧ b.run tryFrom pre = .ok (u, events) ∧
    u.sender = .recording seq

/-- Whenever the recording of a number prunes the set, what is left are the
    numbers issued most recently, up to 5000 before it, and no recording leaves
    more than 10000 numbers. -/
def WindowKept (tryFrom : String → Except String KeyExpr) (b : Bridge) (actions : List Action) :
    Prop :=
  ∀ u seq, Records tryFrom b actions u seq →
    (10000 < (insert seq u.sentSequences).card →
        ∀ s ∈ recordSent u.sentSequences seq, Serial.behind seq s ≤ 5000) ∧
      (recordSent u.sentSequences seq).card ≤ 10000

/-- In a run from the start of the bridge, pruning leaves the window every time
    exactly when, every time it is triggered, no number in the set is above the
    one being recorded. -/
theorem sent_window_iff (tryFrom : String → Except String KeyExpr) (config : Config)
    (localAddr : SocketAddr) (fragmentMtu : Nat) (actions : List Action) :
    WindowKept tryFrom (Bridge.start config localAddr fragmentMtu) actions ↔
      ∀ u seq, Records tryFrom (Bridge.start config localAddr fragmentMtu) actions u seq →
        10000 < (insert seq u.sentSequences).card → ∀ s ∈ u.sentSequences, s ≤ seq := by
  constructor
  · intro h u seq hrecords
    exact recordSent_window_iff.mp (h u seq hrecords)
  · intro h u seq hrecords
    exact recordSent_window_iff.mpr (h u seq hrecords)

/-- The copies of almost 2^32 messages come back, those of the next 10001 do
    not. -/
def wrappingRun : List Action := returned 4294962295 ++ lost 10000 ++ [sampleOnce, .record]

/-- The last number recorded in this run is 4999. It prunes nothing, so that a
    number from before the wrap is still there, 10000 numbers later. -/
theorem old_numbers_kept :
    (∃ b events, (Bridge.start Config.default (.v4 1 7667) 1400).run KeyExpr.ofValid wrappingRun
      = .ok (b, events)) ∧
    (∃ u, Records KeyExpr.ofValid (Bridge.start Config.default (.v4 1 7667) 1400) wrappingRun u
        4999 ∧
      (insert 4999 u.sentSequences).card = 10001 ∧
      4294962295 ∈ recordSent u.sentSequences 4999 ∧
      Serial.behind 4999 4294962295 = 10000 ∧
      (recordSent u.sentSequences 4999).card = 10001) ∧
    ¬ WindowKept KeyExpr.ofValid (Bridge.start Config.default (.v4 1 7667) 1400) wrappingRun := by
  rcases waiting_returned 4294962295 with ⟨b₁, events₁, hrun₁, hb₁⟩
  rcases waiting_lost hb₁ (Nat.le_refl 10000) with ⟨b₂, hrun₂, hb₂⟩
  have hnumber : UInt32.ofNat (4294962295 + 10000) = 4999 := by decide
  rw [hnumber] at hb₂
  rcases waiting_send hb₂ with ⟨b₃, hrun₃, _⟩
  have hrun := Machine.runAll_append.mpr ⟨b₁, _, _, hrun₁, hrun₂, rfl⟩
  have hpre := Machine.runAll_concat.mpr ⟨b₂, _, _, hrun, step_sampleOnce hb₂, rfl⟩
  have hrecords : Records KeyExpr.ofValid (Bridge.start Config.default (.v4 1 7667) 1400)
      wrappingRun _ 4999 :=
    ⟨returned 4294962295 ++ lost 10000 ++ [sampleOnce], [], _,
      (List.append_assoc _ [sampleOnce] [.record]).symm, hpre, rfl⟩
  -- The number recorded last is the first that is not among the others.
  have hset : insert 4999 b₂.sentSequences = numbersFrom 4294962295 10001 := by
    rw [hb₂.sentSequences, numbersFrom_succ 4294962295 10000, hnumber]
  have hcard : (insert 4999 b₂.sentSequences).card = 10001 := by
    rw [hset]
    exact card_numbersFrom _ (by decide)
  have hkeep : recordSent b₂.sentSequences 4999 = insert 4999 b₂.sentSequences :=
    recordSent_of_windowStart_eq_zero rfl
  have hold : 4294962295 ∈ recordSent b₂.sentSequences 4999 := by
    rw [hkeep, hset]
    exact Finset.mem_image.mpr ⟨0, Finset.mem_range.mpr (by decide), rfl⟩
  have hcard' : (recordSent b₂.sentSequences 4999).card = 10001 := by
    rw [hkeep]
    exact hcard
  refine ⟨⟨b₃, _, Machine.runAll_append.mpr ⟨b₂, _, _, hrun, hrun₃, rfl⟩⟩,
    ⟨_, hrecords, hcard, hold, rfl, hcard'⟩, fun h => ?_⟩
  have hbound : (recordSent b₂.sentSequences 4999).card ≤ 10000 := (h _ _ hrecords).2
  omega

section Runs

variable {tryFrom : String → Except String KeyExpr} {b b' : Bridge} {actions : List Action}
  {events : List Event} {config : Config} {localAddr : SocketAddr} {fragmentMtu : Nat}

theorem start_holdsLatest : HoldsLatest (Bridge.start config localAddr fragmentMtu) := by
  intro seq hseq
  exact absurd hseq (by simp only [Bridge.start, reduceCtorEq, not_false_eq_true])

theorem run_holdsLatest (hb : HoldsLatest b) (h : b.run tryFrom actions = .ok (b', events)) :
    HoldsLatest b' :=
  Machine.runAll_invariant HoldsLatest (fun _ _ _ _ hu hstep => step_holdsLatest hu hstep) hb h

/-- What holds of a bridge that has issued these numbers since its start: the
    counter is their count, and until it wraps the recorded ones are below it. -/
structure Counted (b : Bridge) (events : List Event) : Prop where
  counter : b.transport.sequenceCounter = UInt32.ofNat (issued events)
  latest : HoldsLatest b
  positive : ∀ seq, b.sender = .recording seq → 0 < issued events
  below : issued events ≤ 4294967296 → ∀ s ∈ b.sentSequences, s.toNat < issued events

/-- Until the counter wraps, the number to record is one below the count. -/
theorem Counted.toNat_held (h : Counted b events) (hissued : issued events ≤ 4294967296)
    {seq : UInt32} (hseq : b.sender = .recording seq) : seq.toNat + 1 = issued events := by
  have hcounter := congrArg UInt32.toNat (h.counter.symm.trans (h.latest seq hseq))
  have hpos := h.positive seq hseq
  have hlt := seq.toNat_lt
  rw [UInt32.toNat_ofNat', UInt32.toNat_add, UInt32.toNat_one] at hcounter
  omega

theorem start_counted : Counted (Bridge.start config localAddr fragmentMtu) [] where
  counter := rfl
  latest := start_holdsLatest
  positive seq hseq :=
    absurd hseq (by simp only [Bridge.start, reduceCtorEq, not_false_eq_true])
  below _ s hs := absurd hs (Finset.notMem_empty s)

theorem step_counted {a : Action} {event : Event} (h : Counted b events)
    (hstep : step tryFrom b a = .ok (b', event)) : Counted b' (events ++ [event]) where
  counter := by
    rw [step_sequenceCounter hstep, h.counter, issued_concat]
    split
    · rw [UInt32.ofNat_add]
      rfl
    · rw [Nat.add_zero, UInt32.add_zero]
  latest := step_holdsLatest h.latest hstep
  positive := by
    intro seq hseq
    rw [issued_concat]
    cases move_of_step hstep with
    | @sample _ _ _ _ _ outcome _ _ =>
        rcases sent_of_next hseq with ⟨channel, rfl⟩
        exact Nat.succ_pos _
    | record _ => exact absurd hseq (by simp only [reduceCtorEq, not_false_eq_true])
    | arrive _ _ _ => exact Nat.add_pos_left (h.positive seq hseq) _
    | check _ => exact Nat.add_pos_left (h.positive seq hseq) _
  below := by
    intro hissued s hs
    rw [step_sentSequences hstep] at hs
    rw [issued_concat] at hissued ⊢
    have hbefore : issued events ≤ 4294967296 := by omega
    cases event with
    | sampled outcome => exact Nat.lt_add_right _ (h.below hbefore s hs)
    | received msg => exact Nat.lt_add_right _ (h.below hbefore s hs)
    | handled src msg handling =>
        exact Nat.lt_add_right _ (h.below hbefore s (Finset.mem_of_mem_erase hs))
    | recorded seq =>
        rcases Finset.mem_insert.mp (mem_recordSent_iff.mp hs).1 with rfl | hold
        · have hheld := h.toNat_held hbefore (step_eq_recorded hstep).1
          omega
        · exact Nat.lt_add_right _ (h.below hbefore s hold)

theorem run_counted
    (h : (Bridge.start config localAddr fragmentMtu).run tryFrom actions = .ok (b, events)) :
    Counted b events :=
  Machine.runAll_invariant_outputs Counted (fun _ _ _ _ _ hu hstep => step_counted hu hstep)
    start_counted h

/-- Until the counter has gone round, pruning leaves the window every time. -/
theorem sent_window_before_wrap
    (hrun : (Bridge.start config localAddr fragmentMtu).run tryFrom actions = .ok (b, events))
    (hissued : issued events ≤ 4294967296) :
    WindowKept tryFrom (Bridge.start config localAddr fragmentMtu) actions := by
  intro u seq hrecords
  rcases hrecords with ⟨pre, post, before, rfl, hpre, hseq⟩
  rcases Machine.runAll_append.mp hrun with ⟨u', before', since, hpre', _, rfl⟩
  unfold Bridge.run at hpre
  rw [hpre, Except.ok.injEq, Prod.mk.injEq] at hpre'
  rcases hpre' with ⟨rfl, rfl⟩
  have hcounted := run_counted hpre
  have hbefore : issued before ≤ 4294967296 := by
    unfold issued at hissued ⊢
    rw [List.countP_append] at hissued
    omega
  refine recordSent_window_iff.mpr (fun _ s hs => ?_)
  have hheld := hcounted.toNat_held hbefore hseq
  have hbelow := hcounted.below hbefore s hs
  rw [UInt32.le_iff_toNat_le]
  omega

/-! ### Recent numbers -/

/-- What holds of a bridge after a number was recorded: the counter has moved
    on by the numbers issued since, and until there are 5000 of them, or a
    message with the number was handled, it is in the set. -/
structure KeptSince (seq : UInt32) (b : Bridge) (since : List Event) : Prop where
  counter : b.transport.sequenceCounter = seq + UInt32.ofNat (issued since + 1)
  latest : HoldsLatest b
  kept : issued since < 5000 →
    (∀ src msg handling, .handled src msg handling ∈ since → msg.sequenceNumber ≠ seq) →
    seq ∈ b.sentSequences

theorem step_keptSince {seq : UInt32} {a : Action} {event : Event} {since : List Event}
    (h : KeptSince seq b since) (hstep : step tryFrom b a = .ok (b', event)) :
    KeptSince seq b' (since ++ [event]) where
  counter := by
    rw [step_sequenceCounter hstep, h.counter, issued_concat]
    split
    · rw [UInt32.add_assoc, UInt32.ofNat_add (issued since + 1) 1]
      rfl
    · rw [UInt32.add_zero, Nat.add_zero]
  latest := step_holdsLatest h.latest hstep
  kept := by
    intro hissued hchecked
    rw [issued_concat] at hissued
    have hbefore : issued since < 5000 := by omega
    have hmem := h.kept hbefore (fun src msg handling hm =>
      hchecked src msg handling (List.mem_append_left _ hm))
    rw [step_sentSequences hstep]
    cases event with
    | sampled outcome => exact hmem
    | received msg => exact hmem
    | handled src msg handling =>
        have hne := hchecked src msg handling List.mem_concat_self
        exact Finset.mem_erase.mpr ⟨hne.symm, hmem⟩
    | recorded seq' =>
        -- The number recorded now is ahead by what was issued in between.
        have hahead : seq' = seq + UInt32.ofNat (issued since) := by
          have hcounter := h.counter.symm.trans (h.latest seq' (step_eq_recorded hstep).1)
          rw [UInt32.ofNat_add, ← UInt32.add_assoc] at hcounter
          exact ((UInt32.add_left_inj 1).mp hcounter).symm
        refine mem_recordSent_of_behind (Finset.mem_insert_of_mem hmem) ?_
        rw [hahead, Serial.behind_add seq (by omega)]
        omega

/-- In a run from the start of the bridge, a number that was recorded, with
    fewer than 5000 numbers issued since, and no message with this number
    handled since, is still in the set, wherever the counter has wrapped and
    whichever sends have failed. -/
theorem recent_send_kept {before since : List Event} {seq : UInt32}
    (hrun : (Bridge.start config localAddr fragmentMtu).run tryFrom actions
      = .ok (b, before ++ .recorded seq :: since))
    (hissued : issued since < 5000)
    (hchecked : ∀ src msg handling, .handled src msg handling ∈ since →
      msg.sequenceNumber ≠ seq) : seq ∈ b.sentSequences := by
  rcases Machine.runAll_eq_ok_append.mp hrun with ⟨pre, rest, u, rfl, hpre, hrest⟩
  cases rest with
  | nil => exact absurd hrest (by
      simp only [Machine.runAll_nil, Except.ok.injEq, Prod.mk.injEq, reduceCtorEq, and_false,
        not_false_eq_true])
  | cons a post =>
      rcases Machine.runAll_cons_eq_ok.mp hrest with ⟨u', event, since', hstep, hpost, hevents⟩
      rw [List.cons.injEq] at hevents
      rcases hevents with ⟨rfl, rfl⟩
      have hlatest := run_holdsLatest start_holdsLatest hpre
      have hheld := (step_eq_recorded hstep).1
      have hstart : KeptSince seq u' [] := by
        refine ⟨?_, step_holdsLatest hlatest hstep, fun _ _ => ?_⟩
        · rw [step_sequenceCounter hstep, hlatest seq hheld]
          exact UInt32.add_zero _
        · rw [step_sentSequences hstep]
          refine mem_recordSent_of_behind (Finset.mem_insert_self _ _) ?_
          rw [Serial.behind_self]
          omega
      have hkept := Machine.runAll_invariant_outputs (KeptSince seq)
        (fun _ _ _ _ _ hv hnext => step_keptSince hv hnext) hstart hpost
      exact hkept.kept hissued hchecked

end Runs

/-- After 10001 messages the set has been pruned. A number recorded 4999 numbers
    ago is still there, an older one is not. -/
theorem recent_send_kept_pruned :
    ∃ b, (Bridge.start Config.default (.v4 1 7667) 1400).run KeyExpr.ofValid prunedRun
        = .ok (b, sentEvents 0 5001 ++ [.sampled (.sent "A" 5001)]
            ++ .recorded 5001 :: sentEvents 5002 4999) ∧
      issued (sentEvents 5002 4999) = 4999 ∧ 5001 ∈ b.sentSequences ∧ 4999 ∉ b.sentSequences := by
  rcases run_prunedRun with ⟨b, hrun, _, hset⟩
  have hsplit : sentEvents 0 10001 = sentEvents 0 5001 ++ [.sampled (.sent "A" 5001)]
      ++ .recorded 5001 :: sentEvents 5002 4999 := by
    have hsum : sentEvents 0 10001 = sentEvents 0 5002 ++ sentEvents 5002 4999 :=
      sentEvents_add 0 5002 4999
    have hnumber : UInt32.ofNat (0 + 5001) = 5001 := by rfl
    rw [hsum, sentEvents_succ 0 5001, hnumber]
    simp only [List.append_assoc, List.cons_append, List.nil_append]
  rw [hsplit] at hrun
  have hissued := issued_sentEvents 5002 4999
  refine ⟨b, hrun, hissued, recent_send_kept hrun (by omega) ?_, ?_⟩
  · exact fun src msg handling hmem =>
      absurd hmem (handled_notMem_sentEvents 5002 4999 src msg handling)
  · rw [hset 4999 (by decide)]
    decide

end LcmBridge
