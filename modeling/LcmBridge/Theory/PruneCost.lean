import LcmBridge.Library.Potential
import LcmBridge.Theory.SentWindow

/-!
# What Pruning Costs

How much work the pruning of sent numbers is over a run.

A pruning looks at every number in the set, while the other task waits for the
lock. It is said to happen once in five thousand recordings, so that it costs
each of them little. Up to the wrap of the counter this is so. A pruning starts
from 10001 numbers and leaves at most 5001, so there are 5000 recordings from
one to the next; what the set holds beyond 5001 numbers is what has been saved
up for the next pruning (`prune_cost`). Loopback copies that come back only
make it later.

After the wrap it is not so: a set that holds old numbers is above its limit
with every recording.

## Main definitions

* `Event.prunings`, `Event.scanned`: What a move costs.
* `Event.isRecord`: A move records a number.

## Theorems

* `recordSent_card`: The size of the set after a recording.
* `run_card_le`: The size of the set in a run.
* `prune_cost`: What all prunings of a run cost.
-/

namespace LcmBridge

open Potential

/-- Whether a move prunes the set. -/
def Event.prunings : Event → Finset UInt32 → Nat
  | .recorded seq, seqs => if 10000 < (insert seq seqs).card then 1 else 0
  | _, _ => 0

/-- How many numbers a move looks at to prune the set. -/
def Event.scanned : Event → Finset UInt32 → Nat
  | .recorded seq, seqs =>
      if 10000 < (insert seq seqs).card then (insert seq seqs).card else 0
  | _, _ => 0

/-- The move records a number. -/
def Event.isRecord : Event → Bool
  | .recorded _ => true
  | _ => false

/-- A recording prunes a set that was full, or adds at most one number. -/
theorem recordSent_card {seqs : Finset UInt32} {seq : UInt32} (hcard : seqs.card ≤ 10000)
    (hle : ∀ s ∈ seqs, s ≤ seq) :
    (seqs.card = 10000 ∧ (insert seq seqs).card = 10001 ∧ (recordSent seqs seq).card ≤ 5001) ∨
      ((insert seq seqs).card ≤ 10000 ∧ (recordSent seqs seq).card ≤ seqs.card + 1) := by
  have hinsert := Finset.card_insert_le seq seqs
  by_cases hbig : 10000 < (insert seq seqs).card
  · have hwindow := (recordSent_window_iff.mpr (fun _ => hle)).1 hbig
    exact Or.inl ⟨by omega, by omega, Serial.card_le_of_behind hwindow⟩
  · refine Or.inr ⟨Nat.le_of_not_lt hbig, ?_⟩
    rw [recordSent_of_card_le (Nat.le_of_not_lt hbig)]
    exact hinsert

section Moves

variable {event : Event} {seqs : Finset UInt32} (hcard : seqs.card ≤ 10000)
  (hle : ∀ seq, event = .recorded seq → ∀ s ∈ seqs, s ≤ seq)

include hcard hle

/-- Each recording saves a five thousandth of a pruning. -/
theorem prunings_covered :
    5000 * event.prunings seqs + ((event.sentSequences seqs).card - 5001)
      ≤ (seqs.card - 5001) + (if event.isRecord then 1 else 0) := by
  cases event with
  | sampled outcome =>
      simp only [Event.prunings, Event.sentSequences]
      omega
  | received msg =>
      simp only [Event.prunings, Event.sentSequences]
      omega
  | handled src msg handling =>
      have herase : (seqs.erase msg.sequenceNumber).card ≤ seqs.card := Finset.card_erase_le
      simp only [Event.prunings, Event.sentSequences]
      omega
  | recorded seq =>
      simp only [Event.prunings, Event.sentSequences, Event.isRecord, if_true]
      rcases recordSent_card hcard (hle seq rfl) with ⟨hfull, hbig, hnew⟩ | ⟨hsmall, hnew⟩
      · rw [if_pos (by omega)]
        omega
      · rw [if_neg (by omega)]
        omega

/-- Each recording pays for three numbers to be looked at. -/
theorem scanned_covered :
    event.scanned seqs + 2 * ((event.sentSequences seqs).card - 5001)
      ≤ 2 * (seqs.card - 5001) + (if event.isRecord then 3 else 0) := by
  cases event with
  | sampled outcome =>
      simp only [Event.scanned, Event.sentSequences]
      omega
  | received msg =>
      simp only [Event.scanned, Event.sentSequences]
      omega
  | handled src msg handling =>
      have herase : (seqs.erase msg.sequenceNumber).card ≤ seqs.card := Finset.card_erase_le
      simp only [Event.scanned, Event.sentSequences]
      omega
  | recorded seq =>
      simp only [Event.scanned, Event.sentSequences, Event.isRecord, if_true]
      rcases recordSent_card hcard (hle seq rfl) with ⟨hfull, hbig, hnew⟩ | ⟨hsmall, hnew⟩
      · rw [if_pos (by omega)]
        omega
      · rw [if_neg (by omega)]
        omega

end Moves

section Runs

variable {tryFrom : String → Except String KeyExpr} {b b' : Bridge} {actions : List Action}
  {events : List Event} {config : Config} {localAddr : SocketAddr} {fragmentMtu : Nat}

/-- Until the counter wraps, no number in the set is above the one to record. -/
theorem Counted.le_held (h : Counted b events) (hissued : issued events ≤ 4294967296)
    {seq : UInt32} (hseq : b.sender = .recording seq) : ∀ s ∈ b.sentSequences, s ≤ seq := by
  intro s hs
  have hheld := h.toNat_held hissued hseq
  have hbelow := h.below hissued s hs
  rw [UInt32.le_iff_toNat_le]
  omega

theorem issued_append_le {before since : List Event} {n : Nat} (h : issued (before ++ since) ≤ n) :
    issued before ≤ n := by
  unfold issued at h ⊢
  rw [List.countP_append] at h
  omega

/-- Until the counter wraps, the set is never larger than its limit. -/
theorem run_card_le
    (hrun : (Bridge.start config localAddr fragmentMtu).run tryFrom actions = .ok (b, events))
    (hissued : issued events ≤ 4294967296) : b.sentSequences.card ≤ 10000 := by
  refine (Machine.runAll_invariant_outputs
    (fun u out => Counted u out ∧ (issued out ≤ 4294967296 → u.sentSequences.card ≤ 10000))
    (fun u out a u' event hu hstep => ⟨step_counted hu.1 hstep, fun hout => ?_⟩)
    ⟨start_counted, fun _ => Nat.zero_le _⟩ hrun).2 hissued
  have hbefore := issued_append_le hout
  have hcard := hu.2 hbefore
  rw [step_sentSequences hstep]
  cases event with
  | sampled outcome => exact hcard
  | received msg => exact hcard
  | handled src msg handling => exact Nat.le_trans (Finset.card_erase_le) hcard
  | recorded seq =>
      have hle := hu.1.le_held hbefore (step_eq_recorded hstep).1
      rcases recordSent_card hcard hle with ⟨_, _, hnew⟩ | ⟨hsmall, _⟩
      · exact Nat.le_trans hnew (by decide)
      · rw [Event.sentSequences, recordSent_of_card_le hsmall]
        exact hsmall

/-- The set after a run is what the events make of it. -/
theorem replay_of_run (hrun : b.run tryFrom actions = .ok (b', events)) :
    b'.sentSequences = replay Event.sentSequences b.sentSequences events := by
  refine Machine.runAll_invariant_outputs
    (fun u out => u.sentSequences = replay Event.sentSequences b.sentSequences out)
    (fun u out a u' event hu hstep => ?_) rfl hrun
  rw [replay_concat, ← hu, step_sentSequences hstep]

/-- In a run from the start of the bridge in which the counter does not go
    round, there are no more prunings than one for 5000 numbers recorded, and
    they look at no more than three numbers for each one recorded. -/
theorem prune_cost
    (hrun : (Bridge.start config localAddr fragmentMtu).run tryFrom actions = .ok (b, events))
    (hissued : issued events ≤ 4294967296) :
    5000 * totalCost Event.sentSequences Event.prunings ∅ events ≤ events.countP Event.isRecord ∧
      totalCost Event.sentSequences Event.scanned ∅ events
        ≤ 3 * events.countP Event.isRecord := by
  -- Before each move the set is within its limit, and a recording is of the
  -- number issued last.
  have hbefore : ∀ pre event post, events = pre ++ event :: post →
      (replay Event.sentSequences ∅ pre).card ≤ 10000 ∧
        ∀ seq, event = .recorded seq → ∀ s ∈ replay Event.sentSequences ∅ pre, s ≤ seq := by
    intro pre event post hsplit
    rw [hsplit] at hrun hissued
    have hissued := issued_append_le hissued
    rcases Machine.runAll_split hrun with ⟨as₁, a, as₂, u, u', _, hpre, hstep, _⟩
    have hset : u.sentSequences = replay Event.sentSequences ∅ pre := replay_of_run hpre
    rw [← hset]
    refine ⟨run_card_le hpre hissued, fun seq hevent => ?_⟩
    rw [hevent] at hstep
    exact (run_counted hpre).le_held hissued (step_eq_recorded hstep).1
  constructor
  · have hcover : totalCost Event.sentSequences (fun event seqs => 5000 * event.prunings seqs) ∅
          events + ((replay Event.sentSequences ∅ events).card - 5001)
        ≤ ((∅ : Finset UInt32).card - 5001) + 1 * events.countP Event.isRecord :=
      totalCost_le (fun seqs : Finset UInt32 => seqs.card - 5001) Event.isRecord 1
        (fun pre event post hsplit => prunings_covered (hbefore pre event post hsplit).1
          (hbefore pre event post hsplit).2)
    rw [totalCost_mul, Finset.card_empty] at hcover
    omega
  · have hcover : totalCost Event.sentSequences Event.scanned ∅ events
          + 2 * ((replay Event.sentSequences ∅ events).card - 5001)
        ≤ 2 * ((∅ : Finset UInt32).card - 5001) + 3 * events.countP Event.isRecord :=
      totalCost_le (fun seqs : Finset UInt32 => 2 * (seqs.card - 5001)) Event.isRecord 3
        (fun pre event post hsplit => scanned_covered (hbefore pre event post hsplit).1
          (hbefore pre event post hsplit).2)
    rw [Finset.card_empty] at hcover
    omega

end Runs

/-- Of so many messages none comes back, and the last one prunes the set. -/
theorem prune_cost_full :
    ∃ b events, (Bridge.start Config.default (.v4 1 7667) 1400).run KeyExpr.ofValid
        (lost 10000 ++ [sampleOnce, .record]) = .ok (b, events) ∧
      5000 * totalCost Event.sentSequences Event.prunings ∅ events
        ≤ events.countP Event.isRecord ∧
      totalCost Event.sentSequences Event.scanned ∅ events
        ≤ 3 * events.countP Event.isRecord := by
  rcases run_prunedRun with ⟨b, hrun, _⟩
  refine ⟨b, _, hrun, prune_cost hrun ?_⟩
  rw [issued_sentEvents]
  decide

end LcmBridge
