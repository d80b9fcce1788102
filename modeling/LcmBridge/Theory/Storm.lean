import LcmBridge.Theory.Traffic
import LcmBridge.Theory.Unpruned

/-!
# A Message That Never Stops

What happens between two sites when loopback copies come back too early.

The number of a message is recorded in a move of its own, after the send. A copy
that is checked between the two is published, and goes to the other site. If
the same happens there, it comes back. Nothing in the bridge ends this. Each
round is sent under a new number, so what has been recorded before does not
help.

The two sites take turns. Between the turns both of them wait, the last
publication is for the site whose turn it is, and every number in its set is
below its counter (`Echoing`). A turn ends in the same situation with the
sites exchanged, as long as the counters have not wrapped. So from one message
of another publisher there are as many sends as one likes, up to the number of
sequence numbers, and the bound of `sends_bounded` does not hold without its
hypothesis.

## Main definitions

* `echo`: The moves of a site whose copy comes back before it is recorded.
* `Echoing`: The two sites between two turns.

## Theorems

* `run_moves`: The moves of one site in a network.
* `echoing_round`: One turn.
* `storm`: As many sends as one likes, of one message.
-/

namespace LcmBridge

open Bytes

/-! ### The moves of one site -/

section Moves

variable {ι : Type} [DecidableEq ι] {tryFrom : String → Except String KeyExpr}

-- Induction on the moves; each is one of the network, with the site updated.
theorem run_moves {i : ι} {acts : List Action} (hown : ∀ a ∈ acts, a.takesSample = false) :
    ∀ {s : Network ι} {b : Bridge} {events : List Event},
      (s.site i).run tryFrom acts = .ok (b, events) →
      ∃ obs, s.run tryFrom (acts.map (.move i))
          = .ok ({ s with
              site := Function.update s.site i b
              publications := s.publications ++ events.filterMap (Event.publication i) }, obs) ∧
        ∀ o ∈ obs, ∃ a ∈ acts, ∃ event index, o = .moved i a event index := by
  induction acts with
  | nil =>
      intro s b events h
      have h' : (Except.ok (s.site i, []) : Except Stop _) = .ok (b, events) := h
      rw [Except.ok.injEq, Prod.mk.injEq] at h'
      refine ⟨[], ?_, fun o ho => absurd ho List.not_mem_nil⟩
      rw [← h'.1, ← h'.2, Function.update_eq_self, List.filterMap_nil, List.append_nil]
      rfl
  | cons a acts ih =>
      intro s b events h
      rcases Machine.runAll_cons_eq_ok.mp h with ⟨b₁, event, events₁, hstep, hrest, rfl⟩
      have hmove := Network.step_of_move (Network.Move.move (hown a List.mem_cons_self) hstep)
      have hsite : (Function.update s.site i b₁) i = b₁ := Function.update_self i b₁ s.site
      rcases ih (fun x hx => hown x (List.mem_cons_of_mem a hx))
        (s := { s with
          site := Function.update s.site i b₁
          publications := s.publications ++ (event.publication i).toList })
        (by dsimp only; rw [hsite]; exact hrest) with ⟨obs, hrun, hobs⟩
      refine ⟨_, Machine.runAll_cons_eq_ok.mpr ⟨_, _, obs, hmove, ?_, rfl⟩, fun o ho => ?_⟩
      · have hlog : (event :: events₁).filterMap (Event.publication i)
            = (event.publication i).toList ++ events₁.filterMap (Event.publication i) := by
          rw [List.filterMap_cons]
          cases event.publication i <;> rfl
        rw [hlog, ← List.append_assoc]
        simp only [Function.update_idem] at hrun
        exact hrun
      · rcases List.mem_cons.mp ho with rfl | ho
        · exact ⟨a, List.mem_cons_self, event, _, rfl⟩
        · rcases hobs o ho with ⟨x, hx, event', index, rfl⟩
          exact ⟨x, List.mem_cons_of_mem a hx, event', index, rfl⟩

end Moves

/-! ### One bridge -/

/-- The message is sent, its copy comes back and is checked, and then its number
    is recorded. -/
def echo (localAddr : SocketAddr) (seq : UInt32) : List Action :=
  [.arrive ⟨encodeShortMessage seq "A" [], localAddr, 0, 0⟩, .check, .record]

section Bridge

variable {b : Bridge} {n : UInt32} {seqs : Finset UInt32}

/-- A bridge that waits, and whose next number is not in the set, publishes its
    own message. -/
theorem waiting_echo (h : Waiting b n seqs) (hseq : n ∉ seqs) :
    ∃ b₁ b₂, step KeyExpr.ofValid b sampleOnce = .ok (b₁, .sampled (.sent "A" n)) ∧
      b₁.run KeyExpr.ofValid (echo b.localAddr n)
        = .ok (b₂, [.received (some ⟨"A", n, []⟩),
            .handled b.localAddr ⟨"A", n, []⟩ (.put ⟨"lcm/A", by decide⟩ []), .recorded n]) ∧
      Waiting b₂ (n + 1) (recordSent seqs n) ∧ b₂.localAddr = b.localAddr := by
  have hhandle : handleMessage KeyExpr.ofValid b.config b.sentSequences ⟨"A", n, []⟩
      = (b.sentSequences, .put ⟨"lcm/A", by decide⟩ []) := by
    rw [h.config]
    exact handleMessage_empty (by rw [h.sentSequences]; exact hseq)
  let b₁ : Bridge := { b with
    transport := ⟨1400, n + 1⟩
    sender := .recording n
    emitted := b.emitted ++ [encodeShortMessage n "A" []] }
  let b₂ : Bridge := { b₁ with receiver := .checking b.localAddr ⟨"A", n, []⟩ }
  let b₃ : Bridge := { b₂ with receiver := .receiving }
  -- What was just emitted may come back at once.
  have harrive : step KeyExpr.ofValid b₁ (.arrive ⟨encodeShortMessage n "A" [], b.localAddr, 0, 0⟩)
      = .ok (b₂, .received (some ⟨"A", n, []⟩)) :=
    step_of_move (Move.arrive (b := b₁) h.receiver (fun hnet => hnet.2 List.mem_concat_self)
      (recvStep_empty b.reassembler n b.localAddr))
  have hcheck : step KeyExpr.ofValid b₂ .check
      = .ok (b₃, .handled b.localAddr ⟨"A", n, []⟩ (.put ⟨"lcm/A", by decide⟩ [])) := by
    refine step_eq_handled_iff.mpr ⟨rfl, rfl, ?_, ?_⟩
    · exact (congrArg Prod.snd hhandle).symm
    · have hseqs : (handleMessage KeyExpr.ofValid b.config b.sentSequences ⟨"A", n, []⟩).1
          = b.sentSequences := congrArg Prod.fst hhandle
      show b₃ = { b₂ with
        sentSequences := (handleMessage KeyExpr.ofValid b.config b.sentSequences ⟨"A", n, []⟩).1
        receiver := .receiving }
      rw [hseqs]
  have hrecord : step KeyExpr.ofValid b₃ .record
      = .ok ({ b₃ with sentSequences := recordSent b.sentSequences n, sender := .idle },
          .recorded n) := step_of_move (Move.record rfl)
  refine ⟨b₁, _, step_sampleOnce h, Machine.runAll_cons_eq_ok.mpr ⟨b₂, _, _, harrive,
    Machine.runAll_cons_eq_ok.mpr ⟨b₃, _, _, hcheck,
      Machine.runAll_singleton.mpr ⟨_, hrecord, rfl⟩, rfl⟩, rfl⟩, ?_, rfl⟩
  exact ⟨h.config, rfl, rfl, rfl, by rw [← h.sentSequences]⟩

end Bridge

/-! ### The two sites -/

/-- So many sends have been made. The last publication is for the site `i`, and
    the numbers in the sets are below the counters. -/
structure Echoing (s : Network Bool) (i : Bool) (n : Nat) : Prop where
  log : s.publications.length = n + 1
  last : s.publications[n]? = some ⟨some (!i), ⟨"lcm/A", by decide⟩, []⟩
  fresh : ∀ d ∈ s.delivered, d.2 < n
  addr : ∀ j, (s.site j).localAddr = twoAddrs j
  waiting : ∀ j, ∃ c ≤ n, ∃ seqs, Waiting (s.site j) (UInt32.ofNat c) seqs ∧
    ∀ x ∈ seqs, x.toNat < c

section Turns

variable {s : Network Bool} {i : Bool} {n : Nat}

/-- A datagram from the site's own address is not foreign. -/
theorem foreign_moved {ι : Type} {localAddr : ι → SocketAddr} {i : ι} {a : Action} {event : Event}
    {index : Nat} (h : ∀ x, a = .arrive x → x.src = localAddr i) :
    (Observation.moved i a event index).foreign localAddr = false := by
  unfold Observation.foreign Observation.completed
  split
  · next x msg _ heq =>
      rw [Observation.moved.injEq] at heq
      rw [Option.any_some, ← heq.1]
      exact decide_eq_false (fun hne => hne (h x heq.2.1))
  · rfl

/-- One turn: the site sends the message, and publishes it again. -/
theorem echoing_round (hn : n < 4294967296) (h : Echoing s i n) :
    ∃ actions s' obs, s.run KeyExpr.ofValid actions = .ok (s', obs) ∧ Echoing s' (!i) (n + 1) ∧
      obs.countP Observation.isSend = 1 ∧
      obs.countP (Observation.foreign twoAddrs) = 0 ∧
      obs.countP Observation.isExternal = 0 := by
  rcases h.waiting i with ⟨c, hc, seqs, hw, hbelow⟩
  have hnumber : (UInt32.ofNat c).toNat = c := by
    rw [UInt32.toNat_ofNat']
    omega
  have hseq : UInt32.ofNat c ∉ seqs := by
    intro hmem
    have := hbelow _ hmem
    omega
  rcases waiting_echo hw hseq with ⟨b₁, b₂, hsample, hecho, hw', haddr⟩
  rw [h.addr i] at hecho
  have hdeliver := Network.step_of_move (Network.Move.deliver h.last
    (by cases i <;> simp only [ne_eq, Option.some.injEq, Bool.not_true, Bool.not_false,
      reduceCtorEq, not_false_eq_true])
    (fun hmem => Nat.lt_irrefl n (h.fresh _ hmem)) hsample)
  have hown : ∀ a ∈ echo (twoAddrs i) (UInt32.ofNat c), a.takesSample = false := by
    intro a ha
    simp only [echo, List.mem_cons, List.not_mem_nil, or_false] at ha
    rcases ha with rfl | rfl | rfl <;> rfl
  rcases run_moves hown (i := i) (s := { s with
      site := Function.update s.site i b₁
      delivered := insert (i, n) s.delivered })
    (by dsimp only; rw [Function.update_self]; exact hecho) with ⟨obs, hrun, hobs⟩
  refine ⟨_, _, _, Machine.runAll_cons_eq_ok.mpr ⟨_, _, obs, hdeliver, hrun, rfl⟩,
    ⟨?_, ?_, ?_, ?_, ?_⟩, ?_, ?_, ?_⟩
  · simp only [List.length_append, h.log]
    rfl
  · rw [List.getElem?_append_right (Nat.le_of_eq h.log), h.log, Nat.sub_self, Bool.not_not]
    rfl
  · intro d hd
    rcases Finset.mem_insert.mp hd with rfl | hd
    · exact Nat.lt_succ_self n
    · exact Nat.lt_succ_of_lt (h.fresh d hd)
  · intro j
    simp only [Function.update_idem]
    by_cases hj : j = i
    · rw [hj, Function.update_self, haddr]
      exact h.addr i
    · rw [Function.update_of_ne hj]
      exact h.addr j
  · intro j
    simp only [Function.update_idem]
    by_cases hj : j = i
    · -- The site that has sent: its number is in its set now, and below its counter.
      rw [hj, Function.update_self]
      refine ⟨c + 1, Nat.succ_le_succ hc, _, by rw [UInt32.ofNat_add]; exact hw', fun x hx => ?_⟩
      rcases Finset.mem_insert.mp (mem_recordSent_iff.mp hx).1 with rfl | hx
      · omega
      · exact Nat.lt_succ_of_lt (hbelow x hx)
    · rw [Function.update_of_ne hj]
      rcases h.waiting j with ⟨c', hc', rest⟩
      exact ⟨c', Nat.le_succ_of_le hc', rest⟩
  · rw [List.countP_cons, List.countP_eq_zero.mpr (fun o ho => ?_)]
    · rfl
    · rcases hobs o ho with ⟨a, _, event, index, rfl⟩
      exact Bool.false_ne_true
  · refine List.countP_eq_zero.mpr (fun o ho => ?_)
    rcases List.mem_cons.mp ho with rfl | ho
    · exact Bool.false_ne_true
    · rcases hobs o ho with ⟨a, ha, event, index, rfl⟩
      rw [foreign_moved]
      · exact Bool.false_ne_true
      · intro x hx
        simp only [echo, hx, List.mem_cons, Action.arrive.injEq, reduceCtorEq, List.not_mem_nil,
          or_false] at ha
        rw [ha]
  · refine List.countP_eq_zero.mpr (fun o ho => ?_)
    rcases List.mem_cons.mp ho with rfl | ho
    · exact Bool.false_ne_true
    · rcases hobs o ho with ⟨a, _, event, index, rfl⟩
      exact Bool.false_ne_true

/-- One message of another publisher, at one of two sites, is received and
    published. -/
theorem echoing_start :
    ∃ s obs, twoSites.run KeyExpr.ofValid
        [.move false (.arrive ⟨encodeShortMessage 5 "A" [], .v4 2 7667, 0, 0⟩),
          .move false .check] = .ok (s, obs) ∧ Echoing s true 0 ∧
      obs.countP Observation.isSend = 0 ∧
      obs.countP (Observation.foreign twoAddrs) = 1 ∧
      obs.countP Observation.isExternal = 0 := by
  refine ⟨_, _, rfl, ⟨rfl, rfl, fun d hd => absurd hd (Finset.notMem_empty d), ?_, ?_⟩,
    rfl, rfl, rfl⟩
  · intro j
    cases j <;> rfl
  · intro j
    refine ⟨0, Nat.le_refl 0, ∅, ?_, fun x hx => absurd hx (Finset.notMem_empty x)⟩
    cases j with
    | false => exact ⟨rfl, rfl, rfl, rfl, rfl⟩
    | true => exact ⟨rfl, rfl, rfl, rfl, rfl⟩

end Turns

-- Induction on the number of sends; each turn adds one.
theorem storm_from_start (n : Nat) (hn : n ≤ 4294967296) :
    ∃ actions s obs i, twoSites.run KeyExpr.ofValid actions = .ok (s, obs) ∧ Echoing s i n ∧
      obs.countP Observation.isSend = n ∧
      obs.countP (Observation.foreign twoAddrs) = 1 ∧
      obs.countP Observation.isExternal = 0 := by
  induction n with
  | zero =>
      rcases echoing_start with ⟨s, obs, hrun, h⟩
      exact ⟨_, s, obs, true, hrun, h⟩
  | succ n ih =>
      rcases ih (by omega) with ⟨actions, s, obs, i, hrun, hecho, hsend, hforeign, hext⟩
      rcases echoing_round (by omega) hecho with
        ⟨actions', s', obs', hrun', hecho', hsend', hforeign', hext'⟩
      refine ⟨actions ++ actions', s', obs ++ obs', !i,
        Machine.runAll_append.mpr ⟨s, obs, obs', hrun, hrun', rfl⟩, hecho', ?_, ?_, ?_⟩
      · rw [List.countP_append, hsend, hsend']
      · rw [List.countP_append, hforeign, hforeign']
      · rw [List.countP_append, hext, hext']

/-- Two sites with the same settings, and one message of another publisher at
    one of them: for any number up to the number of sequence numbers, there is
    a run in which the sites send so many messages, with no other publication. -/
theorem storm (n : Nat) (hn : n ≤ 4294967296) :
    ∃ actions s obs, twoSites.run KeyExpr.ofValid actions = .ok (s, obs) ∧
      obs.countP Observation.isSend = n ∧
      obs.countP (Observation.foreign twoAddrs) = 1 ∧
      obs.countP Observation.isExternal = 0 := by
  rcases storm_from_start n hn with ⟨actions, s, obs, i, hrun, _, h⟩
  exact ⟨actions, s, obs, hrun, h⟩

/-- A million sends. -/
theorem storm_million :
    ∃ actions s obs, twoSites.run KeyExpr.ofValid actions = .ok (s, obs) ∧
      obs.countP Observation.isSend = 1000000 ∧
      obs.countP (Observation.foreign twoAddrs) = 1 ∧
      obs.countP Observation.isExternal = 0 := storm 1000000 (by decide)

end LcmBridge
