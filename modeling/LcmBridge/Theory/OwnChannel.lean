import LcmBridge.Theory.Offered
import LcmBridge.Theory.Wire

/-!
# The Channel of a Message

On which channel a reassembled message is delivered.

The data of a message come from the fragments that were accepted. Its channel
name comes from the last fragment zero that reached the set, accepted or not.
The two agree when the last name is that of the fragment zero whose data were
accepted. A fragment zero that is dropped later, as a duplicate or for its
metadata, moves the message to the channel that it names.

## Main results

* `names_of_parse`: A fragment zero from the wire carries a channel.
* `zero_mem_accepted`: A delivered message has a fragment zero.
* `own_channel_iff`: When a message is delivered on its own channel.
* `dropped_channel_taken`: A message on the channel of a dropped fragment.
-/

namespace LcmBridge

open FragmentReassembler

theorem names_of_parse {datagram : Datagram} {fragment : Fragment}
    (h : parseDatagram datagram = some (.fragment fragment))
    (h0 : fragment.fragmentNumber = 0) : fragment.channel.isSome :=
  (encodePacket_of_parse h).1.1.mpr h0

theorem exists_datagram {calls : List Call} (h : ∀ c ∈ calls, c.fragment.WellFormed) :
    ∀ c ∈ calls, ∃ datagram, parseDatagram datagram = some (.fragment c.fragment) :=
  fun c hc => ⟨_, parse_encodePacket (p := .fragment c.fragment) (h c hc)⟩

/-- A delivered message has a fragment zero among those that were accepted. -/
theorem zero_mem_accepted {maxMessageSize : Nat} {offered : List Call} {set : FragmentSet}
    {c : Call} (hset : MadeBy maxMessageSize offered set) (hc : c ∈ accepted maxMessageSize offered)
    (hfull : set.fragmentsReceived = set.nFragments) :
    ∃ c₀ ∈ accepted maxMessageSize offered, c₀.fragment.fragmentNumber = 0 := by
  have hall := (complete_iff hset.valid hset.filled).mp hfull
  have hlt := hset.filled.numbers_lt _ (List.mem_map_of_mem hc)
  rcases List.mem_map.mp (hall 0 (by omega)) with ⟨f, hf, hnum⟩
  rcases List.mem_map.mp hf with ⟨c₀, hc₀, rfl⟩
  exact ⟨c₀, hc₀, UInt16.toNat_inj.mp hnum⟩

/-- A message is delivered on the channel of the fragment zero whose data were
    accepted exactly when the last name stored in its set is that one. -/
theorem own_channel_iff (timeout : Duration) (maxMessageSize : Nat) (calls : List Call)
    (hparsed : ∀ c ∈ calls, ∃ datagram, parseDatagram datagram = some (.fragment c.fragment)) :
    ∃ self results, (new timeout maxMessageSize).processAll calls = .ok (self, results) ∧
      ∀ i m, results[i]? = some (some m) →
        (∃ c₀ ∈ accepted maxMessageSize (offeredTo timeout maxMessageSize calls i),
          c₀.fragment.fragmentNumber = 0) ∧
        ∀ c₀ ∈ accepted maxMessageSize (offeredTo timeout maxMessageSize calls i),
          c₀.fragment.fragmentNumber = 0 →
          (c₀.fragment.channel = some m.channel ↔
            lastName maxMessageSize (offeredTo timeout maxMessageSize calls i)
              = c₀.fragment.channel) := by
  have hrun := processAll_eq calls (allValid_new timeout maxMessageSize)
  refine ⟨_, _, hrun, fun i m hm => ?_⟩
  rcases offeredTo_of_delivery hparsed hrun hm with ⟨hoffered, set, c, _, hset, hown, hfull, rfl⟩
  refine ⟨zero_mem_accepted hset hown hfull, fun c₀ hc₀ h0 => ?_⟩
  -- The set is named last by a fragment zero, since one has been accepted.
  rcases hoffered c₀ ((accepted_sublist _ _).subset hc₀) with ⟨datagram, hparse⟩
  have hname := hset.channel_eq ⟨c₀.fragment, List.mem_map_of_mem hc₀, h0, names_of_parse hparse h0⟩
  rw [hname, eq_comm]

/-- Two fragments, and a fragment zero of another sender in between. -/
theorem own_channel_iff_two_fragments :
    ∃ calls : List Call,
      calls = [⟨⟨1, 4, 0, 0, 2, some "A", [1, 2]⟩, .v4 1 5000, 0, 1, by decide⟩,
        ⟨⟨1, 2, 0, 0, 1, some "B", [5, 6]⟩, .v4 2 5000, 2, 2, by decide⟩,
        ⟨⟨1, 4, 2, 1, 2, none, [3, 4]⟩, .v4 1 5000, 3, 3, by decide⟩] ∧
      (∀ c ∈ calls, ∃ datagram, parseDatagram datagram = some (.fragment c.fragment)) ∧
      ∃ self results, (new 10 100).processAll calls = .ok (self, results) ∧
        results[2]? = some (some ⟨"A", 1, [1, 2, 3, 4]⟩) ∧
        lastName 100 (offeredTo 10 100 calls 2) = some "A" ∧
        ∃ c₀ ∈ accepted 100 (offeredTo 10 100 calls 2), c₀.fragment.fragmentNumber = 0 ∧
          c₀.fragment.channel = some "A" := by
  refine ⟨_, rfl, ?_⟩
  have hparsed := @exists_datagram
    [⟨⟨1, 4, 0, 0, 2, some "A", [1, 2]⟩, .v4 1 5000, 0, 1, by decide⟩,
      ⟨⟨1, 2, 0, 0, 1, some "B", [5, 6]⟩, .v4 2 5000, 2, 2, by decide⟩,
      ⟨⟨1, 4, 2, 1, 2, none, [3, 4]⟩, .v4 1 5000, 3, 3, by decide⟩] (by decide)
  refine ⟨hparsed, ?_⟩
  rcases own_channel_iff 10 100 _ hparsed with ⟨self, results, hrun, hown⟩
  have hresults : results = [none, some ⟨"B", 1, [5, 6]⟩, some ⟨"A", 1, [1, 2, 3, 4]⟩] :=
    (congrArg (Except.map Prod.snd) hrun.symm).trans rfl |> Except.ok.inj
  have hdelivered : results[2]? = some (some ⟨"A", 1, [1, 2, 3, 4]⟩) := by
    rw [hresults]
    rfl
  refine ⟨self, results, hrun, hdelivered, rfl, _, List.mem_cons_self, rfl, ?_⟩
  exact ((hown 2 _ hdelivered).2 _ List.mem_cons_self rfl).mpr rfl

/-- A duplicate of fragment zero with another channel name is dropped, and the
    message is delivered on the channel it names. -/
theorem dropped_channel_taken :
    ∃ calls : List Call,
      calls = [⟨⟨1, 4, 0, 0, 2, some "A", [1, 2]⟩, .v4 1 5000, 0, 1, by decide⟩,
        ⟨⟨1, 4, 0, 0, 2, some "B", [1, 2]⟩, .v4 1 5000, 2, 2, by decide⟩,
        ⟨⟨1, 4, 2, 1, 2, none, [3, 4]⟩, .v4 1 5000, 3, 3, by decide⟩] ∧
      (∀ c ∈ calls, ∃ datagram, parseDatagram datagram = some (.fragment c.fragment)) ∧
      ∃ self, (new 10 100).processAll calls
          = .ok (self, [none, none, some ⟨"B", 1, [1, 2, 3, 4]⟩]) ∧
        (accepted 100 (offeredTo 10 100 calls 2)).map (fun c => c.fragment)
          = [⟨1, 4, 0, 0, 2, some "A", [1, 2]⟩, ⟨1, 4, 2, 1, 2, none, [3, 4]⟩] :=
  ⟨_, rfl, exists_datagram (by decide), _, rfl, rfl⟩

end LcmBridge
