import LcmBridge.Theory.Filled
import LcmBridge.Theory.Isolation
import LcmBridge.Theory.Rejection

/-!
# Soundness of Reassembly

Every message the reassembler delivers was put together from fragments that
belong together, each used once.

`Filled` ties a set to the fragments it accepted. Here the fragments are tied
to the calls that brought them. `Provenance` is the log entry of a pending
set: the positions of its calls in the sequence, all under one key, in order,
and all within the timeout of the set's creation. `Unspent` says that these
calls came after the last message delivered under the key, and it is why no
fragment goes into two messages.

A set is not always created by the first fragment in it. A rejected fragment
creates one too, so the window of the timeout may open before the first
accepted fragment, but never after it.

## Main definitions

* `DeliversAt`: A call under a key that returns a message.
* `Provenance`: The calls whose fragments a pending set holds.
* `Unspent`: The calls come after every earlier delivery under the key.
* `Accounted`: Every pending set has its provenance.
* `Assembled`: What a delivered message is made of.

## Theorems

* `slot_provenance`: The set a call works on has its provenance.
* `accounted_step`: One call keeps the log in order.
* `assembled_of_step`: What a call that delivers delivers.
* `accounted_of_run`: The log is in order in every reachable state.
* `reassembly_sound`: Every delivered message is assembled from its own calls.
-/

namespace LcmBridge

open FragmentReassembler

/-- The call at position `i` is under the key and returns a message. -/
def DeliversAt (calls : List Call) (results : List (Option LcmMessage)) (key : FragmentKey)
    (i : Nat) : Prop :=
  ∃ c m, calls[i]? = some c ∧ c.key = key ∧ results[i]? = some (some m)

/-- The set holds exactly the fragments of these calls, all made before
    position `k`. The set is dated by the first call under its key, or by one
    that brought no data; either way every call falls in the window that this
    date opens. -/
structure Provenance (timeout : Duration) (calls : List Call) (key : FragmentKey) (k : Nat)
    (set : FragmentSet) (parts : List (Nat × Call)) : Prop where
  filled : set.Filled (parts.map (fun p => p.2.fragment))
  taken : ∀ p ∈ parts, calls[p.1]? = some p.2
  key_eq : ∀ p ∈ parts, p.2.key = key
  ordered : (parts.map Prod.fst).Pairwise (· < ·)
  before : ∀ p ∈ parts, p.1 < k
  window : ∀ p ∈ parts, p.2.now ≤ set.createdAt + timeout ∧
    (set.createdAt ≤ p.2.now ∨ set.createdAt = p.2.insertNow)

/-- Every delivery under the key before position `k` came before these
    calls. -/
def Unspent (calls : List Call) (results : List (Option LcmMessage)) (key : FragmentKey)
    (k : Nat) (parts : List (Nat × Call)) : Prop :=
  ∀ j < k, DeliversAt calls results key j → ∀ p ∈ parts, j < p.1

/-- What the message `m`, delivered by the call `c` at position `i`, is made
    of. -/
structure Assembled (timeout : Duration) (maxMessageSize : Nat) (calls : List Call) (i : Nat)
    (c : Call) (m : LcmMessage) (parts : List (Nat × Call)) : Prop where
  /-- There is at least one fragment. -/
  count_pos : 1 ≤ c.fragment.nFragments.toNat
  /-- The fragments are those of this call and of earlier ones. -/
  taken : ∀ p ∈ parts, calls[p.1]? = some p.2 ∧ p.1 ≤ i
  own : (i, c) ∈ parts
  /-- They are listed in order of arrival. -/
  ordered : (parts.map Prod.fst).Pairwise (· < ·)
  /-- Each number below the count occurs once. -/
  numbers : (parts.map (fun p => p.2.fragment.number)).Perm
    (List.range c.fragment.nFragments.toNat)
  /-- They agree in sender, sequence number, payload size and count. -/
  same : ∀ p ∈ parts, p.2.sender = c.sender ∧
    p.2.fragment.sequenceNumber = c.fragment.sequenceNumber ∧
    p.2.fragment.payloadSize = c.fragment.payloadSize ∧
    p.2.fragment.nFragments = c.fragment.nFragments
  /-- They were processed within the timeout of one another. -/
  window : ∃ start, ∀ p ∈ parts, p.2.now ≤ start + timeout ∧
    (start ≤ p.2.now ∨ start = p.2.insertNow)
  sequence_eq : m.sequenceNumber = c.fragment.sequenceNumber
  length_eq : m.data.length = c.fragment.payloadSize.toNat
  length_le : m.data.length ≤ maxMessageSize
  /-- The data is what their chunks make over zeros, in order of arrival. -/
  data_eq : m.data = Overlay.overlay (List.replicate c.fragment.payloadSize.toNat 0)
    (parts.map (fun p => p.2.fragment.piece))

/-! ### The log of one set -/

section Log

variable {timeout : Duration} {calls : List Call} {results : List (Option LcmMessage)}
  {key : FragmentKey} {k : Nat} {set : FragmentSet} {parts : List (Nat × Call)} {c : Call}

theorem provenance_succ (h : Provenance timeout calls key k set parts) :
    Provenance timeout calls key (k + 1) set parts :=
  ⟨h.filled, h.taken, h.key_eq, h.ordered, fun p hp => Nat.lt_succ_of_lt (h.before p hp),
    h.window⟩

theorem provenance_storeChannel (h : Provenance timeout calls key k set parts)
    (fragment : Fragment) : Provenance timeout calls key k (set.storeChannel fragment) parts := by
  refine ⟨filled_storeChannel h.filled fragment, h.taken, h.key_eq, h.ordered, h.before, ?_⟩
  rw [storeChannel_createdAt]
  exact h.window

/-- Accepting a fragment adds its call at the end of the log. -/
theorem provenance_place (hv : set.Valid) (h : Provenance timeout calls key k set parts)
    (hacc : set.Accepts c.fragment) (hc : calls[k]? = some c) (hkey : c.key = key)
    (hwin : c.now ≤ set.createdAt + timeout ∧
      (set.createdAt ≤ c.now ∨ set.createdAt = c.insertNow)) :
    Provenance timeout calls key (k + 1) (set.place c.fragment) (parts ++ [(k, c)]) := by
  constructor
  · rw [List.map_append]
    exact filled_place hv h.filled hacc
  · exact forall_mem_concat h.taken hc
  · exact forall_mem_concat h.key_eq hkey
  · rw [List.map_append, List.pairwise_append]
    refine ⟨h.ordered, List.pairwise_singleton _ _, fun a ha b hb => ?_⟩
    rcases List.mem_map.mp ha with ⟨p, hp, rfl⟩
    rw [List.map_singleton, List.mem_singleton] at hb
    rw [hb]
    exact h.before p hp
  · exact forall_mem_concat (fun p hp => Nat.lt_succ_of_lt (h.before p hp)) (Nat.lt_succ_self k)
  · exact forall_mem_concat h.window hwin

/-- A complete set with its log, the call `c` at position `k` in it, makes a
    message assembled as it should be. -/
theorem assembled_of_provenance {maxMessageSize : Nat} (hv : set.Valid)
    (h : Provenance timeout calls key (k + 1) set parts) (hown : (k, c) ∈ parts)
    (hfull : set.fragmentsReceived = set.nFragments)
    (hmax : set.payloadSize.toNat ≤ maxMessageSize) :
    Assembled timeout maxMessageSize calls k c
      ⟨set.channel, c.fragment.sequenceNumber, set.buffer⟩ parts := by
  have hmem : ∀ p ∈ parts, p.2.fragment ∈ parts.map (fun p => p.2.fragment) :=
    fun p hp => List.mem_map_of_mem hp
  -- The agreement is with the set's metadata, which are also those of `c`.
  have hcount : c.fragment.nFragments = set.nFragments := h.filled.count_eq _ (hmem _ hown)
  have hpayload : c.fragment.payloadSize = set.payloadSize := h.filled.payload_eq _ (hmem _ hown)
  have hkey : c.key = key := h.key_eq _ hown
  constructor
  · have hlt := h.filled.numbers_lt _ (hmem _ hown)
    rw [← hcount] at hlt
    omega
  · intro p hp
    exact ⟨h.taken p hp, Nat.le_of_lt_succ (h.before p hp)⟩
  · exact hown
  · exact h.ordered
  · have hperm := numbers_perm h.filled ((complete_iff hv h.filled).mp hfull)
    rw [List.map_map, ← hcount] at hperm
    exact hperm
  · intro p hp
    have hsame : p.2.key = c.key := by rw [h.key_eq p hp, hkey]
    refine ⟨congrArg Prod.fst hsame, congrArg Prod.snd hsame, ?_, ?_⟩
    · rw [hpayload]
      exact h.filled.payload_eq _ (hmem p hp)
    · rw [hcount]
      exact h.filled.count_eq _ (hmem p hp)
  · exact ⟨set.createdAt, h.window⟩
  · rfl
  · dsimp only
    rw [hv.buffer_length, hpayload]
  · dsimp only
    rw [hv.buffer_length]
    exact hmax
  · have hbuf := h.filled.buffer_eq
    rw [List.map_map, ← hpayload] at hbuf
    exact hbuf

theorem unspent_place (h : Unspent calls results key k parts) :
    Unspent calls results key k (parts ++ [(k, c)]) := by
  intro j hj hdel
  exact forall_mem_concat (h j hj hdel) hj

/-- A call that delivers nothing under the key spends nothing. -/
theorem unspent_succ (h : Unspent calls results key k parts)
    (hno : ¬ DeliversAt calls results key k) : Unspent calls results key (k + 1) parts := by
  intro j hj hdel
  by_cases hjk : j = k
  · rw [hjk] at hdel
    exact absurd hdel hno
  · exact h j (by omega) hdel

end Log

/-! ### The log of the reassembler -/

/-- Every pending set, `k` calls into the sequence, has its provenance. -/
def Accounted (calls : List Call) (results : List (Option LcmMessage)) (k : Nat)
    (self : FragmentReassembler) : Prop :=
  ∀ key set, self.pending key = some set →
    set.payloadSize.toNat ≤ self.maxMessageSize ∧
    (∀ j c, k ≤ j → calls[j]? = some c → set.createdAt ≤ c.now) ∧
    ∃ parts, Provenance self.timeout calls key k set parts ∧ Unspent calls results key k parts

section Steps

variable {calls : List Call} {results : List (Option LcmMessage)} {k : Nat}
  {self : FragmentReassembler} {c : Call}

/-- The set a call works on has its provenance, and the call falls in its
    window. A set that is found is fresh enough, since the sweep has just left
    it; one that is created now holds nothing. -/
theorem slot_provenance (hclock : ClockOrdered calls) (h : Accounted calls results k self)
    (hc : calls[k]? = some c) (hsize : c.fragment.payloadSize.toNat ≤ self.maxMessageSize) :
    (self.slotOf c).payloadSize.toNat ≤ self.maxMessageSize ∧
    (∀ j c', k + 1 ≤ j → calls[j]? = some c' → (self.slotOf c).createdAt ≤ c'.now) ∧
    (c.now ≤ (self.slotOf c).createdAt + self.timeout ∧
      ((self.slotOf c).createdAt ≤ c.now ∨ (self.slotOf c).createdAt = c.insertNow)) ∧
    ∃ parts, Provenance self.timeout calls c.key k (self.slotOf c) parts ∧
      Unspent calls results c.key k parts := by
  unfold slotOf
  cases hslot : (self.expireStale c.now).pending c.key with
  | some set =>
      rcases expireStale_eq_some_iff.mp hslot with ⟨hpending, hlive⟩
      rcases h c.key set hpending with ⟨hmax, hold, hparts⟩
      have hnow := hold k c (Nat.le_refl k) hc
      refine ⟨hmax, fun j c' hj => hold j c' (by omega), ⟨?_, Or.inl hnow⟩, hparts⟩
      exact Nat.sub_le_iff_le_add'.mp hlive
  | none =>
      have hmem : c ∈ calls := List.mem_of_getElem? hc
      refine ⟨hsize, fun j c' hj hc' => ?_, ⟨?_, Or.inr rfl⟩, [], ?_, ?_⟩
      · rcases List.getElem?_eq_some_iff.mp hc with ⟨hk, rfl⟩
        rcases List.getElem?_eq_some_iff.mp hc' with ⟨hj', rfl⟩
        exact (List.pairwise_iff_getElem.mp (pairwise_now hclock) k j hk hj' hj).2
      · exact Nat.le_add_right_of_le (now_le_insertNow hclock hmem)
      · exact ⟨filled_fresh _ _, fun p hp => absurd hp List.not_mem_nil,
          fun p hp => absurd hp List.not_mem_nil, List.Pairwise.nil,
          fun p hp => absurd hp List.not_mem_nil, fun p hp => absurd hp List.not_mem_nil⟩
      · exact fun j _ _ p hp => absurd hp List.not_mem_nil

/-- Sets under other keys, and all sets under a call that only sweeps, keep
    their log. -/
theorem accounted_swept (h : Accounted calls results k self) {key : FragmentKey}
    {set : FragmentSet} (hset : (self.expireStale c.now).pending key = some set)
    (hno : ¬ DeliversAt calls results key k) :
    set.payloadSize.toNat ≤ self.maxMessageSize ∧
    (∀ j c, k + 1 ≤ j → calls[j]? = some c → set.createdAt ≤ c.now) ∧
    ∃ parts, Provenance self.timeout calls key (k + 1) set parts ∧
      Unspent calls results key (k + 1) parts := by
  rcases h key set (expireStale_eq_some_iff.mp hset).1 with ⟨hmax, hold, parts, hp, hu⟩
  exact ⟨hmax, fun j c hj => hold j c (by omega), parts, provenance_succ hp, unspent_succ hu hno⟩

theorem accounted_step (hclock : ClockOrdered calls) (hv : self.AllValid)
    (h : Accounted calls results k self) (hc : calls[k]? = some c)
    {self' : FragmentReassembler} {result : Option LcmMessage}
    (hstep : self.call c = .ok (self', result)) (hres : results[k]? = some result) :
    Accounted calls results (k + 1) self' := by
  have heffect := call_effect hv hstep
  have hresult := heffect.result_eq
  rw [Accounted, heffect.timeout_eq, heffect.maxMessageSize_eq]
  intro key set hset
  have hother : key ≠ c.key → ¬ DeliversAt calls results key k := by
    rintro hne ⟨c', m, hc', hkey, _⟩
    rw [hc, Option.some.injEq] at hc'
    rw [hc'] at hne
    exact hne hkey.symm
  by_cases hkey : key = c.key
  · rw [hkey] at hset ⊢
    rw [heffect.own] at hset
    -- A call that leaves a set behind under its key has delivered nothing.
    have hnone : result = none → ¬ DeliversAt calls results c.key k := by
      rintro hr ⟨_, m, _, _, hm⟩
      rw [hres, hr] at hm
      exact absurd hm (by simp only [Option.some.injEq, reduceCtorEq, not_false_eq_true])
    by_cases hsize : c.fragment.payloadSize.toNat > self.maxMessageSize
    · rw [offer_of_too_large hsize] at hset hresult
      exact accounted_swept h hset (hnone hresult)
    · rcases slot_provenance hclock h hc (Nat.le_of_not_lt hsize) with
        ⟨hmax, hold, hwin, parts, hp, hu⟩
      have hpc := provenance_storeChannel hp c.fragment
      have hvalid := valid_storeChannel (slotOf_valid hv c) c.fragment
      rcases offer_cases hsize with ⟨_, hoffer⟩ | ⟨hacc, _, hoffer⟩ | ⟨_, _, hoffer⟩
      · -- Dropped: the log is as it was.
        rw [hoffer] at hset hresult
        rw [← Option.some.inj hset]
        exact ⟨by rw [storeChannel_payloadSize]; exact hmax,
          by rw [storeChannel_createdAt]; exact hold, parts, provenance_succ hpc,
          unspent_succ hu (hnone hresult)⟩
      · -- Kept: the log grows by this call.
        rw [hoffer] at hset hresult
        rw [← Option.some.inj hset]
        refine ⟨?_, ?_, parts ++ [(k, c)], ?_, unspent_succ (unspent_place hu)
          (hnone hresult)⟩
        · simp only [FragmentSet.place, storeChannel_payloadSize]
          exact hmax
        · simp only [FragmentSet.place, storeChannel_createdAt]
          exact hold
        · refine provenance_place hvalid hpc hacc hc rfl ?_
          rw [storeChannel_createdAt]
          exact hwin
      · rw [hoffer] at hset
        exact absurd hset (by simp only [reduceCtorEq, not_false_eq_true])
  · rw [heffect.other key hkey] at hset
    exact accounted_swept h hset (hother hkey)

/-- A call that delivers found all the fragments of its message in the log, its
    own last. -/
theorem assembled_of_step (hclock : ClockOrdered calls) (hv : self.AllValid)
    (h : Accounted calls results k self) (hc : calls[k]? = some c)
    {self' : FragmentReassembler} {m : LcmMessage}
    (hstep : self.call c = .ok (self', some m)) :
    ∃ parts, Assembled self.timeout self.maxMessageSize calls k c m parts ∧
      Unspent calls results c.key k parts := by
  have hresult := (call_effect hv hstep).result_eq
  by_cases hsize : c.fragment.payloadSize.toNat > self.maxMessageSize
  · rw [offer_of_too_large hsize] at hresult
    exact absurd hresult (by simp only [reduceCtorEq, not_false_eq_true])
  · rcases slot_provenance hclock h hc (Nat.le_of_not_lt hsize) with
      ⟨hmax, _, hwin, parts, hp, hu⟩
    have hvalid := valid_storeChannel (slotOf_valid hv c) c.fragment
    rcases offer_cases hsize with ⟨_, hoffer⟩ | ⟨_, _, hoffer⟩ | ⟨hacc, hfull, hoffer⟩
    · rw [hoffer] at hresult
      exact absurd hresult (by simp only [reduceCtorEq, not_false_eq_true])
    · rw [hoffer] at hresult
      exact absurd hresult (by simp only [reduceCtorEq, not_false_eq_true])
    · rw [hoffer, Option.some.injEq] at hresult
      rw [hresult]
      -- The log with this call added is that of the complete set.
      have hlog := provenance_place hvalid (provenance_storeChannel hp c.fragment) hacc hc rfl
        (by rw [storeChannel_createdAt]; exact hwin)
      refine ⟨parts ++ [(k, c)], assembled_of_provenance (valid_place hvalid hacc) hlog
        (List.mem_append_right _ List.mem_cons_self) hfull ?_, unspent_place hu⟩
      simp only [FragmentSet.place, storeChannel_payloadSize]
      exact hmax

end Steps

/-! ### Whole runs -/

section Runs

variable {timeout : Duration} {maxMessageSize : Nat} {calls : List Call}
  {results : List (Option LcmMessage)}

/-- The log is in order in every state of the run. The induction is on the
    calls made so far, and the answers given so far are the first ones of the
    whole run. -/
theorem accounted_of_run (hclock : ClockOrdered calls) :
    ∀ {pre : List Call} {rs : List (Option LcmMessage)} {self : FragmentReassembler},
      pre <+: calls → rs <+: results →
      (new timeout maxMessageSize).processAll pre = .ok (self, rs) →
      Accounted calls results pre.length self := by
  intro pre
  induction pre using List.reverseRecOn with
  | nil =>
      intro rs self _ _ hrun key set hset
      unfold processAll at hrun
      rw [Machine.runAll_nil, Except.ok.injEq, Prod.mk.injEq] at hrun
      rw [← hrun.1] at hset
      exact absurd hset (by simp only [new, reduceCtorEq, not_false_eq_true])
  | append_singleton pre c ih =>
      intro rs self hpre hrs hrun
      rcases Machine.runAll_concat.mp hrun with ⟨u, rs', result, hrun', hstep, rfl⟩
      have hlen : rs'.length = pre.length := Machine.runAll_length hrun'
      have hacc := ih ((List.prefix_append pre [c]).trans hpre)
        ((List.prefix_append rs' [result]).trans hrs) hrun'
      -- The call made next, and the answer to it, are those of the whole run.
      have hc : calls[pre.length]? = some c := by
        rcases hpre with ⟨post, rfl⟩
        rw [List.append_assoc, List.getElem?_append_right (Nat.le_refl _), Nat.sub_self]
        rfl
      have hres : results[pre.length]? = some result := by
        rcases hrs with ⟨post, rfl⟩
        rw [List.append_assoc, List.getElem?_append_right (by omega), hlen, Nat.sub_self]
        rfl
      have hv := allValid_processAll (allValid_new timeout maxMessageSize) hrun'
      rw [List.length_append, List.length_singleton]
      exact accounted_step hclock hv hacc hc hstep hres

/-- The message delivered at a position is assembled from its own calls, all
    later than the previous delivery under the key. -/
theorem assembled_of_run (hclock : ClockOrdered calls) {self : FragmentReassembler}
    (hrun : (new timeout maxMessageSize).processAll calls = .ok (self, results)) {i : Nat}
    {c : Call} {m : LcmMessage} (hc : calls[i]? = some c) (hm : results[i]? = some (some m)) :
    ∃ parts, Assembled timeout maxMessageSize calls i c m parts ∧
      Unspent calls results c.key i parts := by
  rcases Machine.runAll_step_at hrun hc hm with
    ⟨pre, post, u, u', rs, rest, hsplit, hresults, rfl, hpre, hstep⟩
  -- The answers up to the delivery are the first ones of the run.
  have hacc := accounted_of_run hclock ⟨c :: post, hsplit.symm⟩ ⟨some m :: rest, hresults.symm⟩ hpre
  have hv := allValid_processAll (allValid_new timeout maxMessageSize) hpre
  have hlimits : u.timeout = timeout ∧ u.maxMessageSize = maxMessageSize :=
    processAll_limits (allValid_new timeout maxMessageSize) hpre
  rw [← hlimits.1, ← hlimits.2]
  exact assembled_of_step hclock hv hacc hc hstep

/-- Of two messages under one key, the later one is made of later calls. -/
theorem parts_disjoint {i j : Nat} {c c' : Call} {m m' : LcmMessage}
    {parts parts' : List (Nat × Call)} (hij : i < j) (hc : calls[i]? = some c)
    (hm : results[i]? = some (some m))
    (h : Assembled timeout maxMessageSize calls i c m parts)
    (h' : Assembled timeout maxMessageSize calls j c' m' parts')
    (hu : Unspent calls results c'.key j parts') : ∀ p ∈ parts, ∀ q ∈ parts', p.1 ≠ q.1 := by
  intro p hp q hq hpq
  -- One call in both messages would be under both keys.
  have hcall : p.2 = q.2 := by
    have hget := (h.taken p hp).1
    rw [hpq, (h'.taken q hq).1, Option.some.injEq] at hget
    exact hget.symm
  have hsame := h.same p hp
  have hsame' := h'.same q hq
  have hkey : c.key = c'.key := by
    unfold Call.key
    rw [← hsame.1, ← hsame.2.1, ← hsame'.1, ← hsame'.2.1, hcall]
  have hlate := hu i hij ⟨c, m, hc, hkey, hm⟩ q hq
  have hearly := (h.taken p hp).2
  omega

end Runs

/-- Every message the reassembler delivers is assembled from fragments that
    belong together, and no fragment goes into two messages. -/
theorem reassembly_sound (timeout : Duration) (maxMessageSize : Nat) (calls : List Call)
    (hclock : ClockOrdered calls) :
    ∃ (self : FragmentReassembler) (results : List (Option LcmMessage))
      (parts : Nat → List (Nat × Call)),
      (new timeout maxMessageSize).processAll calls = .ok (self, results) ∧
      (∀ i c m, calls[i]? = some c → results[i]? = some (some m) →
        Assembled timeout maxMessageSize calls i c m (parts i)) ∧
      (∀ i j m m', i ≠ j → results[i]? = some (some m) → results[j]? = some (some m') →
        ∀ p ∈ parts i, ∀ q ∈ parts j, p.1 ≠ q.1) := by
  have hrun := processAll_eq calls (allValid_new timeout maxMessageSize)
  set results := ((new timeout maxMessageSize).rules.run
    (new timeout maxMessageSize).pending calls).2 with hresults
  have hex : ∀ i, ∃ parts, ∀ c m, calls[i]? = some c → results[i]? = some (some m) →
      Assembled timeout maxMessageSize calls i c m parts ∧
        Unspent calls results c.key i parts := by
    intro i
    by_cases hdel : ∃ c m, calls[i]? = some c ∧ results[i]? = some (some m)
    · rcases hdel with ⟨c, m, hc, hm⟩
      rcases assembled_of_run hclock hrun hc hm with ⟨parts, hparts⟩
      refine ⟨parts, fun c' m' hc' hm' => ?_⟩
      rw [hc, Option.some.injEq] at hc'
      rw [hm, Option.some.injEq, Option.some.injEq] at hm'
      rw [← hc', ← hm']
      exact hparts
    · exact ⟨[], fun c m hc hm => absurd ⟨c, m, hc, hm⟩ hdel⟩
  -- One log for each position, whether or not something is delivered there.
  choose parts hparts using hex
  have hcall : ∀ (i : Nat) (m : LcmMessage), results[i]? = some (some m) →
      ∃ c, calls[i]? = some c := by
    intro i m hm
    have hlt := (List.getElem?_eq_some_iff.mp hm).1
    rw [Machine.runAll_length hrun] at hlt
    exact ⟨calls[i], List.getElem?_eq_getElem hlt⟩
  refine ⟨_, results, parts, hrun, fun i c m hc hm => (hparts i c m hc hm).1, ?_⟩
  intro i j m m' hij hm hm' p hp q hq
  rcases hcall i m hm with ⟨c, hc⟩
  rcases hcall j m' hm' with ⟨c', hc'⟩
  rcases hparts i c m hc hm with ⟨ha, hu⟩
  rcases hparts j c' m' hc' hm' with ⟨ha', hu'⟩
  rcases Nat.lt_or_gt_of_ne hij with hlt | hgt
  · exact parts_disjoint hlt hc hm ha ha' hu' p hp q hq
  · exact (parts_disjoint hgt hc' hm' ha' ha hu q hq p hp).symm

/-- Two fragments in reverse order, then the sequence number used again. -/
theorem reassembly_sound_reused_sequence :
    ∃ (self : FragmentReassembler) (results : List (Option LcmMessage))
      (parts : Nat → List (Nat × Call)),
      (new 10 100).processAll
          [⟨⟨1, 4, 2, 1, 2, none, [3, 4]⟩, .v4 1 5000, 0, 1, by decide⟩,
            ⟨⟨1, 4, 0, 0, 2, some "A", [1, 2]⟩, .v4 1 5000, 5, 5, by decide⟩,
            ⟨⟨1, 1, 0, 0, 1, some "A", [9]⟩, .v4 1 5000, 6, 6, by decide⟩] = .ok (self, results) ∧
      results = [none, some ⟨"A", 1, [1, 2, 3, 4]⟩, some ⟨"A", 1, [9]⟩] ∧
      Assembled 10 100
          [⟨⟨1, 4, 2, 1, 2, none, [3, 4]⟩, .v4 1 5000, 0, 1, by decide⟩,
            ⟨⟨1, 4, 0, 0, 2, some "A", [1, 2]⟩, .v4 1 5000, 5, 5, by decide⟩,
            ⟨⟨1, 1, 0, 0, 1, some "A", [9]⟩, .v4 1 5000, 6, 6, by decide⟩]
        1 ⟨⟨1, 4, 0, 0, 2, some "A", [1, 2]⟩, .v4 1 5000, 5, 5, by decide⟩
        ⟨"A", 1, [1, 2, 3, 4]⟩ (parts 1) ∧
      ∀ p ∈ parts 1, ∀ q ∈ parts 2, p.1 ≠ q.1 := by
  rcases reassembly_sound 10 100
      [⟨⟨1, 4, 2, 1, 2, none, [3, 4]⟩, .v4 1 5000, 0, 1, by decide⟩,
        ⟨⟨1, 4, 0, 0, 2, some "A", [1, 2]⟩, .v4 1 5000, 5, 5, by decide⟩,
        ⟨⟨1, 1, 0, 0, 1, some "A", [9]⟩, .v4 1 5000, 6, 6, by decide⟩] (by decide) with
    ⟨self, results, parts, hrun, hsound, hdisjoint⟩
  have hresults : results = [none, some ⟨"A", 1, [1, 2, 3, 4]⟩, some ⟨"A", 1, [9]⟩] :=
    (congrArg (Except.map Prod.snd) hrun.symm).trans rfl |> Except.ok.inj
  refine ⟨self, results, parts, hrun, hresults, ?_, ?_⟩
  · exact hsound 1 _ _ rfl (by rw [hresults]; rfl)
  · exact hdisjoint 1 2 _ _ (by decide) (by rw [hresults]; rfl) (by rw [hresults]; rfl)

end LcmBridge
