import LcmBridge.Library.History
import LcmBridge.Theory.Filled
import LcmBridge.Theory.Rejection

/-!
# The Calls Behind a Message

What a pending set, and a message made of it, owe to each of the calls that
were made under its key since the set was created.

`offeredTo` lists these calls for the set that a given call works on. It is
the history of an expiring store with history, so a set is the replay of its
list, and nothing else in the run matters: not the clock, not the sweeps, not
the calls under other keys. Two things are read off the list. `accepted` are
the calls whose fragments went into the buffer. `lastName` is the channel name
that was stored last, which need not be that of an accepted fragment, since
the name is stored before the fragment is checked.

`MadeBy` says that the set has the data of the accepted calls and, once a
fragment zero is among them, the last name.

## Main definitions

* `offeredTo`: The calls made to a set since it was created.
* `accepted`: Those whose fragments were accepted.
* `lastName`: The channel name that was stored last.
* `MadeBy`: A set as the work of the calls made to it.

## Theorems

* `accepted_concat`, `lastName_concat`: One more call.
* `madeBy_of_replay`: A set is the work of the calls made to it.
* `offeredTo_of_delivery`: A delivered message is made of the set's calls.
-/

namespace LcmBridge

open FragmentReassembler

/-- The calls made under the key of call `i` since its set was created, up to
    this call. -/
def offeredTo (timeout : Duration) (maxMessageSize : Nat) (calls : List Call) (i : Nat) :
    List Call :=
  (((reassemblyRules timeout maxMessageSize).withHistory.run (fun _ => none) calls).2[i]?.map
    Prod.snd).getD []

/-- The entry accepts the call's fragment, which is not refused for its size. -/
def Takes (maxMessageSize : Nat) (slot : Option FragmentSet) (c : Call) : Prop :=
  ¬ c.fragment.payloadSize.toNat > maxMessageSize ∧
    (slot.getD (FragmentSet.fresh c.fragment c.insertNow)).Accepts c.fragment

instance (maxMessageSize : Nat) (slot : Option FragmentSet) (c : Call) :
    Decidable (Takes maxMessageSize slot c) :=
  inferInstanceAs (Decidable (_ ∧ _))

/-- One more call to an entry whose set, if there is one, has taken these calls. -/
def takeStep (maxMessageSize : Nat) (entry : Option FragmentSet × List Call) (c : Call) :
    Option FragmentSet × List Call :=
  -- A set that is created now has taken nothing.
  let taken := if entry.1.isSome then entry.2 else []
  ((offer maxMessageSize c.fragment c.insertNow entry.1).1,
    if Takes maxMessageSize entry.1 c then taken ++ [c] else taken)

/-- The calls whose fragments were accepted, of those made to a set. -/
def accepted (maxMessageSize : Nat) (offered : List Call) : List Call :=
  (offered.foldl (takeStep maxMessageSize) (none, [])).2

/-- The channel name that the call stores, if it does. -/
def storedName (maxMessageSize : Nat) (c : Call) : Option String :=
  if c.fragment.payloadSize.toNat > maxMessageSize then none
  else if c.fragment.fragmentNumber = 0 then c.fragment.channel
  else none

/-- The channel name that was stored last by these calls. -/
def lastName (maxMessageSize : Nat) (offered : List Call) : Option String :=
  (offered.filterMap (storedName maxMessageSize)).getLast?

section Lists

variable {timeout : Duration} {maxMessageSize : Nat} {offered : List Call} {c : Call}

theorem foldl_takeStep_fst (timeout : Duration) (maxMessageSize : Nat) (offered : List Call) :
    (offered.foldl (takeStep maxMessageSize) (none, [])).1
      = (reassemblyRules timeout maxMessageSize).replay offered := by
  induction offered using List.reverseRecOn with
  | nil => rfl
  | append_singleton offered c ih =>
      rw [List.foldl_append, List.foldl_cons, List.foldl_nil, ExpiringStore.replay_concat, ← ih]
      rfl

theorem accepted_concat (timeout : Duration) (maxMessageSize : Nat) (offered : List Call)
    (c : Call) :
    accepted maxMessageSize (offered ++ [c])
      = (if ((reassemblyRules timeout maxMessageSize).replay offered).isSome then
            accepted maxMessageSize offered else []) ++
          if Takes maxMessageSize ((reassemblyRules timeout maxMessageSize).replay offered) c then
            [c] else [] := by
  rw [← foldl_takeStep_fst timeout]
  simp only [accepted, List.foldl_append, List.foldl_cons, List.foldl_nil, takeStep]
  by_cases htakes : Takes maxMessageSize
      (offered.foldl (takeStep maxMessageSize) (none, [])).1 c
  · rw [if_pos htakes, if_pos htakes]
  · rw [if_neg htakes, if_neg htakes, List.append_nil]

/-- The accepted calls are calls that were made, in their order. -/
theorem accepted_sublist (maxMessageSize : Nat) (offered : List Call) :
    (accepted maxMessageSize offered).Sublist offered := by
  induction offered using List.reverseRecOn with
  | nil => exact List.Sublist.refl []
  | append_singleton offered c ih =>
      rw [accepted_concat 0]
      refine List.Sublist.append ?_ ?_
      · split
        · exact ih
        · exact List.nil_sublist offered
      · split
        · exact List.Sublist.refl [c]
        · exact List.nil_sublist [c]

theorem lastName_concat (maxMessageSize : Nat) (offered : List Call) (c : Call) :
    lastName maxMessageSize (offered ++ [c])
      = (storedName maxMessageSize c).or (lastName maxMessageSize offered) := by
  unfold lastName
  rw [List.filterMap_append, List.getLast?_append]
  cases h : storedName maxMessageSize c with
  | none => simp only [List.filterMap_cons, h, List.filterMap_nil, List.getLast?_nil]
  | some name => simp only [List.filterMap_cons, h, List.filterMap_nil, List.getLast?_singleton]

end Lists

/-! ### A set as the work of its calls -/

/-- The set is valid, holds these parts, and is named `name` as soon as a
    fragment zero that carries a channel is among them. -/
structure MadeOf (set : FragmentSet) (parts : List Fragment) (name : Option String) : Prop where
  valid : set.Valid
  filled : set.Filled parts
  channel_eq : (∃ f ∈ parts, f.fragmentNumber = 0 ∧ f.channel.isSome) → name = some set.channel

section Sets

variable {set : FragmentSet} {parts : List Fragment} {name : Option String} {fragment : Fragment}

theorem madeOf_fresh (fragment : Fragment) (now : Instant) (name : Option String) :
    MadeOf (FragmentSet.fresh fragment now) [] name where
  valid := valid_fresh fragment now
  filled := filled_fresh fragment now
  channel_eq h := by
    rcases h with ⟨f, hf, _⟩
    exact absurd hf List.not_mem_nil

/-- Storing the name of a fragment makes it the last one. -/
theorem madeOf_storeChannel (h : MadeOf set parts name) (fragment : Fragment) :
    MadeOf (set.storeChannel fragment) parts
        ((if fragment.fragmentNumber = 0 then fragment.channel else none).or name) ∧
      (fragment.fragmentNumber = 0 → fragment.channel.isSome →
        fragment.channel = some (set.storeChannel fragment).channel) := by
  have hvalid := valid_storeChannel h.valid fragment
  have hfilled := filled_storeChannel h.filled fragment
  by_cases h0 : fragment.fragmentNumber = 0
  · cases hc : fragment.channel with
    | none =>
        have hsame : set.storeChannel fragment = set := by
          unfold FragmentSet.storeChannel
          rw [if_pos h0, hc]
        rw [hsame] at hvalid hfilled ⊢
        refine ⟨⟨hvalid, hfilled, ?_⟩, fun _ hsome => absurd hsome (by simp only [Option.isSome_none,
          Bool.false_eq_true, not_false_eq_true])⟩
        rw [ite_self, Option.none_or]
        exact h.channel_eq
    | some channel =>
        have hname : (set.storeChannel fragment).channel = channel := by
          unfold FragmentSet.storeChannel
          rw [if_pos h0, hc]
        refine ⟨⟨hvalid, hfilled, fun _ => ?_⟩, fun _ _ => ?_⟩
        · rw [if_pos h0, Option.some_or, hname]
        · rw [hname]
  · have hsame : set.storeChannel fragment = set := by
      unfold FragmentSet.storeChannel
      rw [if_neg h0]
    rw [hsame] at hvalid hfilled ⊢
    refine ⟨⟨hvalid, hfilled, ?_⟩, fun hc => absurd hc h0⟩
    rw [if_neg h0, Option.none_or]
    exact h.channel_eq

theorem madeOf_place (h : MadeOf set parts name) (hacc : set.Accepts fragment)
    (hname : fragment.fragmentNumber = 0 → fragment.channel.isSome → name = some set.channel) :
    MadeOf (set.place fragment) (parts ++ [fragment]) name where
  valid := valid_place h.valid hacc
  filled := filled_place h.valid h.filled hacc
  channel_eq hex := by
    rcases hex with ⟨f, hf, h0, hsome⟩
    rcases List.mem_append.mp hf with hf | hf
    · exact h.channel_eq ⟨f, hf, h0, hsome⟩
    · rw [List.mem_singleton.mp hf] at h0 hsome
      exact hname h0 hsome

end Sets

/-- The set is the work of the calls made to it. -/
def MadeBy (maxMessageSize : Nat) (offered : List Call) (set : FragmentSet) : Prop :=
  MadeOf set ((accepted maxMessageSize offered).map Call.fragment) (lastName maxMessageSize offered)

section Replay

variable {timeout : Duration} {maxMessageSize : Nat} {offered : List Call} {c : Call}

/-- One more call that is not refused for its size, to an entry whose set, found
    or created, has these parts and this name. -/
theorem madeOf_offer {slot : Option FragmentSet} {parts : List Fragment} {name : Option String}
    (hsize : ¬ c.fragment.payloadSize.toNat > maxMessageSize)
    (h : MadeOf (slot.getD (FragmentSet.fresh c.fragment c.insertNow)) parts name) :
    (∀ set, (offer maxMessageSize c.fragment c.insertNow slot).1 = some set →
      MadeOf set (parts ++ if Takes maxMessageSize slot c then [c.fragment] else [])
        ((storedName maxMessageSize c).or name)) ∧
    ∀ m, (offer maxMessageSize c.fragment c.insertNow slot).2 = some m →
      Takes maxMessageSize slot c ∧ ∃ set, MadeOf set (parts ++ [c.fragment])
          ((storedName maxMessageSize c).or name) ∧
        set.fragmentsReceived = set.nFragments ∧
        m = ⟨set.channel, c.fragment.sequenceNumber, set.buffer⟩ := by
  have hiff : Takes maxMessageSize slot c ↔
      ((slot.getD (FragmentSet.fresh c.fragment c.insertNow)).storeChannel c.fragment).Accepts
        c.fragment := by
    unfold Takes
    simp only [hsize, not_false_eq_true, true_and, accepts_storeChannel]
  rcases madeOf_storeChannel h c.fragment with ⟨hstored, hname⟩
  unfold storedName
  rw [if_neg hsize]
  rcases offer_cases hsize with ⟨hrej, hoffer⟩ | ⟨hacc, _, hoffer⟩ | ⟨hacc, hfull, hoffer⟩
  · rw [hoffer, if_neg (fun ht => hrej (hiff.mp ht)), List.append_nil]
    refine ⟨fun set hset => ?_, fun m hm => absurd hm (by simp only [reduceCtorEq,
      not_false_eq_true])⟩
    rw [← Option.some.inj hset]
    exact hstored
  · -- In this case and the last, the fragment is placed, and named as stored.
    have hplace := madeOf_place hstored hacc (fun h0 hsome => by
      rw [if_pos h0, hname h0 hsome, Option.some_or])
    rw [hoffer, if_pos (hiff.mpr hacc)]
    refine ⟨fun set hset => ?_, fun m hm => absurd hm (by simp only [reduceCtorEq,
      not_false_eq_true])⟩
    rw [← Option.some.inj hset]
    exact hplace
  · have hplace := madeOf_place hstored hacc (fun h0 hsome => by
      rw [if_pos h0, hname h0 hsome, Option.some_or])
    rw [hoffer, if_pos (hiff.mpr hacc)]
    refine ⟨fun set hset => absurd hset (by simp only [reduceCtorEq, not_false_eq_true]),
      fun m hm => ⟨hiff.mpr hacc, _, hplace, hfull, ?_⟩⟩
    exact (Option.some.inj hm).symm

/-- One more call to an entry whose set is the work of its calls: so is the set
    it leaves, and so is the message it delivers. -/
theorem madeBy_offer
    (h : ∀ set, (reassemblyRules timeout maxMessageSize).replay offered = some set →
      MadeBy maxMessageSize offered set) (c : Call) :
    (∀ set, (offer maxMessageSize c.fragment c.insertNow
        ((reassemblyRules timeout maxMessageSize).replay offered)).1 = some set →
      MadeBy maxMessageSize (offered ++ [c]) set) ∧
    (∀ m, (offer maxMessageSize c.fragment c.insertNow
        ((reassemblyRules timeout maxMessageSize).replay offered)).2 = some m →
      ∃ set, MadeBy maxMessageSize (offered ++ [c]) set ∧
        c ∈ accepted maxMessageSize (offered ++ [c]) ∧
        set.fragmentsReceived = set.nFragments ∧
        m = ⟨set.channel, c.fragment.sequenceNumber, set.buffer⟩) := by
  unfold MadeBy
  rw [accepted_concat timeout, lastName_concat, List.map_append]
  by_cases hsize : c.fragment.payloadSize.toNat > maxMessageSize
  · -- Refused for its size, before the entry is looked at.
    have hnot : ¬ Takes maxMessageSize
        ((reassemblyRules timeout maxMessageSize).replay offered) c := fun ht => ht.1 hsize
    have hname : storedName maxMessageSize c = none := if_pos hsize
    rw [offer_of_too_large hsize, if_neg hnot, hname, Option.none_or, List.map_nil,
      List.append_nil]
    refine ⟨fun set hset => ?_, fun m hm => absurd hm (by simp only [reduceCtorEq,
      not_false_eq_true])⟩
    dsimp only at hset
    rw [hset, Option.isSome_some, if_pos rfl]
    exact h set hset
  · -- The set that is found has taken its calls, and one that is created none.
    have hfound : MadeOf (((reassemblyRules timeout maxMessageSize).replay offered).getD
          (FragmentSet.fresh c.fragment c.insertNow))
        ((if ((reassemblyRules timeout maxMessageSize).replay offered).isSome then
          accepted maxMessageSize offered else []).map Call.fragment)
        (lastName maxMessageSize offered) := by
      cases hslot : (reassemblyRules timeout maxMessageSize).replay offered with
      | none => exact madeOf_fresh _ _ _
      | some set => exact h set hslot
    rcases madeOf_offer hsize hfound with ⟨hleft, hmsg⟩
    refine ⟨fun set hset => ?_, fun m hm => ?_⟩
    · have hmade := hleft set hset
      by_cases htakes : Takes maxMessageSize
          ((reassemblyRules timeout maxMessageSize).replay offered) c
      · rw [if_pos htakes] at hmade ⊢
        exact hmade
      · rw [if_neg htakes] at hmade ⊢
        exact hmade
    · rcases hmsg m hm with ⟨htakes, set, hmade, hfull, hmessage⟩
      rw [if_pos htakes]
      exact ⟨set, hmade, List.mem_concat_self, hfull, hmessage⟩

/-- A set is the work of the calls made to it. The induction is on these
    calls. -/
theorem madeBy_of_replay {set : FragmentSet}
    (h : (reassemblyRules timeout maxMessageSize).replay offered = some set) :
    MadeBy maxMessageSize offered set := by
  induction offered using List.reverseRecOn generalizing set with
  | nil => exact absurd h (by simp only [ExpiringStore.replay, List.foldl_nil, reduceCtorEq,
      not_false_eq_true])
  | append_singleton offered c ih =>
      rw [ExpiringStore.replay_concat] at h
      exact (madeBy_offer (fun set hset => ih hset) c).1 set h

/-- A delivered message is the work of the calls made to its set, the one that
    delivers it last among them. -/
theorem offeredTo_of_delivery {calls : List Call} {self : FragmentReassembler}
    {results : List (Option LcmMessage)} {P : Call → Prop} (hP : ∀ b ∈ calls, P b)
    (hrun : (new timeout maxMessageSize).processAll calls = .ok (self, results)) {i : Nat}
    {m : LcmMessage} (hm : results[i]? = some (some m)) :
    (∀ b ∈ offeredTo timeout maxMessageSize calls i, P b) ∧
      ∃ set c, calls[i]? = some c ∧
        MadeBy maxMessageSize (offeredTo timeout maxMessageSize calls i) set ∧
        c ∈ accepted maxMessageSize (offeredTo timeout maxMessageSize calls i) ∧
        set.fragmentsReceived = set.nFragments ∧
        m = ⟨set.channel, c.fragment.sequenceNumber, set.buffer⟩ := by
  -- The run is that of a store, and histories change none of its answers.
  rw [processAll_eq calls (allValid_new timeout maxMessageSize), Except.ok.injEq,
    Prod.mk.injEq] at hrun
  have hforget := congrArg Prod.snd
    ((reassemblyRules timeout maxMessageSize).forget_run calls (fun _ => none))
  have hanswers : results = ((reassemblyRules timeout maxMessageSize).withHistory.run
      (fun _ => none) calls).2.map Prod.fst := hrun.2.symm.trans hforget.symm
  rw [hanswers, List.getElem?_map] at hm
  rcases Option.map_eq_some_iff.mp hm with ⟨answer, hanswer, hfst⟩
  have hempty : (reassemblyRules timeout maxMessageSize).Recorded P (fun _ => none) := by
    intro k v history hk
    exact absurd hk (by simp only [reduceCtorEq, not_false_eq_true])
  rcases ExpiringStore.run_answer hP hempty hanswer with ⟨c, pre, hc, heq, hmem⟩
  have hoffered : offeredTo timeout maxMessageSize calls i = pre ++ [c] := by
    unfold offeredTo
    rw [hanswer, heq]
    rfl
  rw [hoffered]
  rw [heq] at hfst
  constructor
  · intro b hb
    rcases List.mem_append.mp hb with hb | hb
    · exact (hmem b hb).2
    · rw [List.mem_singleton.mp hb]
      exact hP c (List.mem_of_getElem? hc)
  · rcases (madeBy_offer (fun set hset => madeBy_of_replay hset) c).2 m hfst with
      ⟨set, hset, hown, hfull, hmsg⟩
    exact ⟨set, c, hc, hset, hown, hfull, hmsg⟩

end Replay

end LcmBridge
