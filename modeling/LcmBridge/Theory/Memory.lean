import LcmBridge.Library.Charging
import LcmBridge.Theory.Publishers
import LcmBridge.Theory.Representation

/-!
# What the Reassembler Remembers

How much the reassembler keeps, and for how long.

Every pending set has been opened by a call, which has given it its date and
its sizes (`opened_of_run`). The sweep of each later call discards it when the
date is too old, so what is left after a call was opened within the timeout
before it. One fragment is enough to open a set, and a set takes as much
memory as the fragment announces. So what can be said about the memory is a
bound by the announcements of the last second, not by the data that have
arrived (`memory_bounded`).

The other side of forgetting is that numbers can be used again. A publisher
that starts anew counts from zero, and the fragments of its new messages come
under keys that it has used before. When it has been silent for longer than the
timeout, it is received as if it had never sent anything, whatever the others
did in the meantime (`forgotten_after_silence`).

## Main definitions

* `Opened`: Every pending set has been opened by one of these calls.
* `recent`: The calls that may have opened a set that is still pending.
* `announced`: The memory that calls ask for.
* `FragmentReassembler.footprint`: The memory that is in use under a key.

## Theorems

* `offer_opened`, `opened_of_run`: Where pending sets come from.
* `processAll_of_receiveAll`: The calls among a sequence of arrivals.
* `memory_bounded`: A bound on the number of sets and their memory.
* `forgotten_after_silence`: A publisher that starts anew after a pause.
-/

namespace LcmBridge

open FragmentReassembler

/-! ### Where pending sets come from -/

/-- The call has opened the set. -/
structure OpenedBy (maxMessageSize : Nat) (c : Call) (key : FragmentKey) (set : FragmentSet) :
    Prop where
  key_eq : c.key = key
  date_eq : set.createdAt = c.insertNow
  size_eq : set.payloadSize = c.fragment.payloadSize
  count_eq : set.nFragments = c.fragment.nFragments
  size_le : c.fragment.payloadSize.toNat ≤ maxMessageSize

/-- Every pending set has been opened by one of these calls. -/
def Opened (r : FragmentReassembler) (calls : List Call) : Prop :=
  ∀ key set, r.pending key = some set → ∃ c ∈ calls, OpenedBy r.maxMessageSize c key set

/-- An offer leaves the date and the sizes of the set it finds, or it opens one. -/
theorem offer_opened {maxMessageSize : Nat} {fragment : Fragment} {insertNow : Instant}
    {slot : Option FragmentSet} {set : FragmentSet}
    (h : (offer maxMessageSize fragment insertNow slot).1 = some set) :
    (∃ found, slot = some found ∧ set.createdAt = found.createdAt ∧
        set.payloadSize = found.payloadSize ∧ set.nFragments = found.nFragments) ∨
      (set.createdAt = insertNow ∧ set.payloadSize = fragment.payloadSize ∧
        set.nFragments = fragment.nFragments ∧ fragment.payloadSize.toNat ≤ maxMessageSize) := by
  by_cases hsize : fragment.payloadSize.toNat > maxMessageSize
  · rw [offer_of_too_large hsize] at h
    exact Or.inl ⟨set, h, rfl, rfl, rfl⟩
  · -- Storing a name and placing data keep the three fields.
    have hkeep : set.createdAt = (slot.getD (FragmentSet.fresh fragment insertNow)).createdAt ∧
        set.payloadSize = (slot.getD (FragmentSet.fresh fragment insertNow)).payloadSize ∧
        set.nFragments = (slot.getD (FragmentSet.fresh fragment insertNow)).nFragments := by
      rcases offer_cases hsize with ⟨_, hoffer⟩ | ⟨_, _, hoffer⟩ | ⟨_, _, hoffer⟩
      · rw [hoffer] at h
        rw [← Option.some.inj h]
        exact ⟨storeChannel_createdAt _ _, storeChannel_payloadSize _ _, storeChannel_nFragments _ _⟩
      · rw [hoffer] at h
        rw [← Option.some.inj h]
        exact ⟨storeChannel_createdAt _ _, storeChannel_payloadSize _ _, storeChannel_nFragments _ _⟩
      · rw [hoffer] at h
        exact absurd h (by simp only [reduceCtorEq, not_false_eq_true])
    cases hs : slot with
    | some found =>
        rw [hs] at hkeep
        exact Or.inl ⟨found, rfl, hkeep⟩
    | none =>
        rw [hs] at hkeep
        exact Or.inr ⟨hkeep.1, hkeep.2.1, hkeep.2.2, Nat.le_of_not_lt hsize⟩

section Runs

variable {r r' : FragmentReassembler} {calls : List Call} {c : Call}

-- A set under another key has only been swept, one under the key of the call
-- has been offered a fragment.
theorem opened_call (hv : r.AllValid) (h : Opened r calls) {result : Option LcmMessage}
    (hstep : r.call c = .ok (r', result)) : Opened r' (calls ++ [c]) := by
  intro key set hset
  have heffect := call_effect hv hstep
  rw [heffect.maxMessageSize_eq]
  have hold : ∀ found, (r.expireStale c.now).pending key = some found →
      ∃ c' ∈ calls ++ [c], OpenedBy r.maxMessageSize c' key found := by
    intro found hfound
    rcases h key found (expireStale_eq_some_iff.mp hfound).1 with ⟨c', hc', hopened⟩
    exact ⟨c', List.mem_append_left _ hc', hopened⟩
  by_cases hkey : key = c.key
  · rw [hkey, heffect.own] at hset
    rcases offer_opened hset with ⟨found, hfound, hdate, hsize, hcount⟩ | ⟨hdate, hsize, hcount, hle⟩
    · rw [← hkey] at hfound
      rcases hold found hfound with ⟨c', hc', hopened⟩
      exact ⟨c', hc', hopened.key_eq, hdate.trans hopened.date_eq, hsize.trans hopened.size_eq,
        hcount.trans hopened.count_eq, hopened.size_le⟩
    · exact ⟨c, List.mem_concat_self, hkey.symm, hdate, hsize, hcount, hle⟩
  · rw [heffect.other key hkey] at hset
    exact hold set hset

theorem opened_of_run {timeout : Duration} {maxMessageSize : Nat}
    {results : List (Option LcmMessage)}
    (hrun : (new timeout maxMessageSize).processAll calls = .ok (r, results)) :
    Opened r calls := by
  induction calls using List.reverseRecOn generalizing r results with
  | nil =>
      simp only [processAll, Machine.runAll_nil, Except.ok.injEq, Prod.mk.injEq] at hrun
      intro key set hset
      rw [← hrun.1] at hset
      exact absurd hset (by simp only [new, reduceCtorEq, not_false_eq_true])
  | append_singleton calls c ih =>
      rcases Machine.runAll_concat.mp hrun with ⟨mid, results', result, hpre, hstep, _⟩
      exact opened_call (allValid_processAll (allValid_new timeout maxMessageSize) hpre) (ih hpre)
        hstep

end Runs

/-! ### How much is kept -/

/-- The calls that may have opened a set that a sweep at `now` leaves. -/
def recent (timeout : Duration) (maxMessageSize : Nat) (now : Instant) (calls : List Call) :
    List Call :=
  calls.filter (fun c =>
    now - c.insertNow ≤ timeout ∧ c.fragment.payloadSize.toNat ≤ maxMessageSize)

/-- The memory that calls ask for: a byte for every byte of the payload and one
    for every fragment. -/
def announced (calls : List Call) : Nat :=
  calls.foldr (fun c n => c.fragment.payloadSize.toNat + c.fragment.nFragments.toNat + n) 0

/-- The memory in use under a key: the buffer and the mask. -/
def FragmentReassembler.footprint (r : FragmentReassembler) (key : FragmentKey) : Nat :=
  ((r.pending key).map (fun set => set.buffer.length + set.receivedMask.length)).getD 0

/-- After any sequence of calls, on a clock that does not go back, there are
    only finitely many pending sets. They are no more than the calls of the last
    timeout whose fragments announce a size within the limit, and they take no
    more memory than these announce. -/
theorem memory_bounded (timeout : Duration) (maxMessageSize : Nat) (calls : List Call)
    (last : Call) (hclock : ClockOrdered (calls ++ [last])) :
    ∃ r results, (new timeout maxMessageSize).processAll (calls ++ [last]) = .ok (r, results) ∧
      ∃ keys : Finset FragmentKey, (∀ key, key ∈ keys ↔ (r.pending key).isSome) ∧
        keys.card ≤ (recent timeout maxMessageSize last.now (calls ++ [last])).length ∧
        ∑ key ∈ keys, r.footprint key
          ≤ announced (recent timeout maxMessageSize last.now (calls ++ [last])) := by
  have hnew := allWellFormed_new timeout maxMessageSize
  have hrun := processAll_eq (calls ++ [last]) hnew.allValid
  refine ⟨_, _, hrun, ?_⟩
  generalize (new timeout maxMessageSize).withPending _ = r at hrun
  have hmax := (processAll_limits hnew.allValid hrun).2
  have hlive := processAll_live hnew (fun c hc => now_le_insertNow hclock hc) hrun
  -- What is pending was opened by one of the recent calls.
  have hopener : ∀ key set, r.pending key = some set →
      ∃ c ∈ recent timeout maxMessageSize last.now (calls ++ [last]),
        OpenedBy maxMessageSize c key set := by
    intro key set hset
    rcases opened_of_run hrun key set hset with ⟨c, hc, hopened⟩
    rw [hmax] at hopened
    refine ⟨c, List.mem_filter.mpr ⟨hc, decide_eq_true ⟨?_, hopened.size_le⟩⟩, hopened⟩
    rw [← hopened.date_eq]
    exact (hlive key set hset).age_le
  have hmem : ∀ key, key ∈ ((recent timeout maxMessageSize last.now (calls ++ [last])).map
      Call.key).toFinset.filter (fun key => (r.pending key).isSome) ↔ (r.pending key).isSome := by
    intro key
    rw [Finset.mem_filter, List.mem_toFinset]
    refine ⟨And.right, fun hsome => ⟨?_, hsome⟩⟩
    rcases Option.isSome_iff_exists.mp hsome with ⟨set, hset⟩
    rcases hopener key set hset with ⟨c, hc, hopened⟩
    exact List.mem_map.mpr ⟨c, hc, hopened.key_eq⟩
  refine ⟨_, hmem, ?_, sum_le_foldr Call.key (fun key hkey => ?_)⟩
  · calc _ ≤ ((recent timeout maxMessageSize last.now (calls ++ [last])).map
          Call.key).toFinset.card := Finset.card_filter_le _ _
      _ ≤ ((recent timeout maxMessageSize last.now (calls ++ [last])).map Call.key).length :=
        List.toFinset_card_le _
      _ = _ := List.length_map Call.key
  · rcases Option.isSome_iff_exists.mp ((hmem key).mp hkey) with ⟨set, hset⟩
    rcases hopener key set hset with ⟨c, hc, hopened⟩
    have hvalid := (hlive key set hset).toWellFormed.toValid
    refine ⟨c, hc, hopened.key_eq, Nat.le_of_eq ?_⟩
    rw [footprint, hset, Option.map_some, Option.getD_some, hvalid.buffer_length,
      hvalid.mask_length, hopened.size_eq, hopened.count_eq]

/-- Two fragments that carry two bytes between them take up to a hundred and
    seven, and a third one that came too long ago takes none. -/
theorem memory_bounded_stray :
    ∃ r results, (new 10 100).processAll
        ([⟨⟨1, 50, 0, 0, 3, some "A", [1, 2]⟩, .v4 1 5000, 0, 1, by decide⟩,
          ⟨⟨2, 60, 0, 0, 3, some "A", [1, 2]⟩, .v4 1 5000, 15, 15, by decide⟩]
          ++ [⟨⟨1, 40, 0, 0, 4, none, []⟩, .v4 2 5000, 20, 21, by decide⟩]) = .ok (r, results) ∧
      ∃ keys : Finset FragmentKey, (∀ key, key ∈ keys ↔ (r.pending key).isSome) ∧
        keys.card ≤ 2 ∧ ∑ key ∈ keys, r.footprint key ≤ 107 :=
  memory_bounded 10 100
    [⟨⟨1, 50, 0, 0, 3, some "A", [1, 2]⟩, .v4 1 5000, 0, 1, by decide⟩,
      ⟨⟨2, 60, 0, 0, 3, some "A", [1, 2]⟩, .v4 1 5000, 15, 15, by decide⟩]
    ⟨⟨1, 40, 0, 0, 4, none, []⟩, .v4 2 5000, 20, 21, by decide⟩ (by decide)

/-! ### How long it is kept -/

/-- The calls among a sequence of arrivals leave the reassembler in the same
    state. -/
theorem processAll_of_receiveAll {r r' : FragmentReassembler} {arrivals : List Arrival}
    {results : List (Option LcmMessage)} (hmem : ∀ a ∈ arrivals, a.datagram.length ≤ isizeMax)
    (h : receiveAll r arrivals = .ok (r', results)) :
    ∃ answers, r.processAll (arrivals.filterMap Arrival.call) = .ok (r', answers) := by
  induction arrivals generalizing r results with
  | nil =>
      simp only [receiveAll, Machine.runAll_nil, Except.ok.injEq, Prod.mk.injEq] at h
      rw [← h.1]
      exact ⟨[], rfl⟩
  | cons a arrivals ih =>
      rcases Machine.runAll_cons_eq_ok.mp h with ⟨mid, result, rest, hstep, hrest, _⟩
      rcases ih (fun b hb => hmem b (List.mem_cons_of_mem a hb)) hrest with ⟨answers, hcalls⟩
      rw [handleDatagram_eq (hmem a List.mem_cons_self)] at hstep
      cases hc : a.call with
      | none =>
          simp only [hc, Except.ok.injEq, Prod.mk.injEq] at hstep
          rw [List.filterMap_cons_none hc, hstep.1]
          exact ⟨answers, hcalls⟩
      | some c =>
          simp only [hc] at hstep
          rw [List.filterMap_cons_some hc]
          exact ⟨result :: answers, Machine.runAll_cons_eq_ok.mpr ⟨_, _, _, hstep, hcalls, rfl⟩⟩

theorem arrivalsOrdered_filter {arrivals : List Arrival} (h : ArrivalsOrdered arrivals)
    (p : Arrival → Bool) : ArrivalsOrdered (arrivals.filter p) :=
  List.Pairwise.sublist (List.filter_sublist.flatMap _) h

/-- When a publisher sends nothing for longer than the timeout, what is received
    from it afterwards is what a new receiver would receive that hears nobody
    else. A publisher is any set of keys. -/
theorem forgotten_after_silence {timeout : Duration} {maxMessageSize : Nat}
    {before after : List Arrival}
    (hmem : ∀ a ∈ before ++ after, a.datagram.length ≤ isizeMax)
    (hclock : ArrivalsOrdered after) (q : FragmentKey → Bool)
    (hsilence : ∀ a ∈ before, ∀ a' ∈ after, a.key.any q = true → a'.key.any q = true →
      a.insertNow + timeout < a'.now) :
    ∃ (r r' alone : FragmentReassembler) (old results results' : List (Option LcmMessage)),
      receiveAll (new timeout maxMessageSize) before = .ok (r, old) ∧
      receiveAll r after = .ok (r', results) ∧
      receiveAll (new timeout maxMessageSize) (after.filter (fun a => a.key.any q))
        = .ok (alone, results') ∧
      results.length = after.length ∧
      ((after.zip results).filter (fun p => p.1.key.any q)).map Prod.snd = results' := by
  have hmemBefore : ∀ a ∈ before, a.datagram.length ≤ isizeMax :=
    fun a ha => hmem a (List.mem_append_left after ha)
  have hmemAfter : ∀ a ∈ after, a.datagram.length ≤ isizeMax :=
    fun a ha => hmem a (List.mem_append_right before ha)
  have hmemAlone : ∀ a ∈ after.filter (fun a => a.key.any q), a.datagram.length ≤ isizeMax :=
    fun a ha => hmemAfter a (List.mem_filter.mp ha).1
  have hnew := allValid_new timeout maxMessageSize
  -- The state between the two parts, and who has opened its sets.
  rcases (⟨_, _, receiveAll_eq hnew hmemBefore⟩ :
    ∃ r old, receiveAll (new timeout maxMessageSize) before = .ok (r, old)) with ⟨r, old, hold⟩
  rcases processAll_of_receiveAll hmemBefore hold with ⟨answers, hcalls⟩
  have hv := allValid_processAll hnew hcalls
  have hlimits := processAll_limits hnew hcalls
  have hrules : r.rules = (new timeout maxMessageSize).rules := by
    rw [rules, rules, hlimits.1, hlimits.2]
  have hresults := receiveAll_eq hv hmemAfter
  have halone := receiveAll_eq hnew hmemAlone
  refine ⟨r, _, _, old, _, _, hold, hresults, halone, Machine.runAll_length hresults, ?_⟩
  have hkeep : ∀ (a : Arrival) (c : Call), a.call = some c →
      a.key.any q = q ((new timeout maxMessageSize).rules.key c) := by
    intro a c hc
    rw [key_of_call hc]
    rfl
  have hmono : ∀ {arrivals : List Arrival}, ArrivalsOrdered arrivals →
      (new timeout maxMessageSize).rules.MonotoneExpiry (arrivals.filterMap Arrival.call) :=
    fun h => monotoneExpiry_of_clockOrdered _ _ (clockOrdered_calls h)
  -- First without the others, and then without the old sets.
  rw [hrules, ExpiringStore.runOn_filter_eq _ hkeep _ _ (hmono hclock)]
  refine (ExpiringStore.runOn_of_lag _ hkeep (fun a ha => (List.mem_filter.mp ha).2)
    (hmono (arrivalsOrdered_filter hclock _)) (fun key hq => ?_)).symm
  cases hset : r.pending key with
  | none => exact Or.inl rfl
  | some set =>
      refine Or.inr ⟨rfl, set, rfl, fun c hc => ?_⟩
      rcases List.mem_filterMap.mp hc with ⟨a', ha', hcall'⟩
      rcases opened_of_run hcalls key set hset with ⟨c₀, hc₀, hopened⟩
      rcases List.mem_filterMap.mp hc₀ with ⟨a, ha, hcall⟩
      have hkept : a.key.any q = true := by
        rw [hkeep a c₀ hcall]
        exact (congrArg q hopened.key_eq).trans hq
      have hlate := hsilence a ha a' (List.mem_filter.mp ha').1 hkept (List.mem_filter.mp ha').2
      rcases call_eq_some hcall with ⟨_, _, _, hinsert⟩
      rcases call_eq_some hcall' with ⟨_, _, hnow, _⟩
      rw [← hinsert, ← hopened.date_eq, ← hnow] at hlate
      exact decide_eq_true (Nat.lt_sub_of_add_lt (by rwa [Nat.add_comm]))

/-- The first half of a message, and after a pause, in which somebody else is
    heard, a message in two halves under the same number. -/
theorem forgotten_after_silence_restart :
    ∃ (r r' alone : FragmentReassembler) (old results results' : List (Option LcmMessage)),
      receiveAll (new 10 100)
          [⟨encodeFragment 0 4 0 0 2 (some "A") [1, 2], .v4 1 5000, 0, 1⟩,
            ⟨encodeFragment 0 4 0 0 2 (some "B") [1, 2], .v4 2 5000, 9, 9⟩]
        = .ok (r, old) ∧
      receiveAll r
          [⟨encodeFragment 0 4 0 0 2 (some "C") [5, 6], .v4 1 5000, 12, 12⟩,
            ⟨encodeFragment 0 4 2 1 2 none [7, 8], .v4 1 5000, 13, 13⟩]
        = .ok (r', results) ∧
      receiveAll (new 10 100)
          [⟨encodeFragment 0 4 0 0 2 (some "C") [5, 6], .v4 1 5000, 12, 12⟩,
            ⟨encodeFragment 0 4 2 1 2 none [7, 8], .v4 1 5000, 13, 13⟩]
        = .ok (alone, results') ∧
      results.length = 2 ∧
      (([⟨encodeFragment 0 4 0 0 2 (some "C") [5, 6], .v4 1 5000, 12, 12⟩,
            ⟨encodeFragment 0 4 2 1 2 none [7, 8], .v4 1 5000, 13, 13⟩].zip
          results).filter
        (fun p : Arrival × Option LcmMessage => p.1.key.any (fun k => k.1 = .v4 1 5000))).map
        Prod.snd = results' :=
  forgotten_after_silence (by decide) (by decide) (fun k => k.1 = .v4 1 5000) (by decide)

end LcmBridge
