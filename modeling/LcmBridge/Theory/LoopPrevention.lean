import LcmBridge.Theory.Runs

/-!
# Loop Prevention

When the shared set of sequence numbers tells the bridge's own messages from
those of others.

The set is keyed by the bare sequence number, and it is written in a step of
its own after the send. Both matter. Every publisher counts from zero, so a
message of another publisher can carry a number that the bridge has recorded;
it is then skipped, and takes the record with it. And a loopback copy can come
back before the number is recorded, or after the record is gone; it is then
published.

Over a whole run, each of the two promises holds exactly when every check finds
the set in the right state.

## Main definitions

* `Forwards`: Messages of other publishers are published.
* `NoEcho`: Messages of the bridge itself are not.

## Theorems

* `forwards_iff`: When no message of another publisher is lost.
* `noEcho_iff`: When no message of the bridge is echoed.
-/

namespace LcmBridge

/-- Every message of another publisher that is received, and whose channel is
    allowed and mapped to a key, is handed to the `put`. -/
def Forwards (tryFrom : String → Except String KeyExpr) (b : Bridge) (events : List Event) : Prop :=
  ∀ src msg handling, Event.handled src msg handling ∈ events → src ≠ b.localAddr →
    isAllowed msg.channel b.config = true →
    ∀ keyExpr, lcmChannelToKeyExpr tryFrom msg.channel b.config.keyPrefix = .ok keyExpr →
      handling = .put keyExpr msg.data

/-- No message of the bridge itself is handed to the `put`. -/
def NoEcho (b : Bridge) (events : List Event) : Prop :=
  ∀ src msg handling, Event.handled src msg handling ∈ events → src = b.localAddr →
    ∀ keyExpr payload, handling ≠ .put keyExpr payload

/-- In a run, no message of another publisher is lost exactly when no check of
    one finds its sequence number among those the bridge has recorded. -/
theorem forwards_iff {tryFrom : String → Except String KeyExpr} {b b' : Bridge}
    {actions : List Action} {events : List Event}
    (hrun : b.run tryFrom actions = .ok (b', events)) :
    Forwards tryFrom b events ↔
      ∀ u src msg, Checks tryFrom b actions u src msg → src ≠ b.localAddr →
        isAllowed msg.channel b.config = true →
        (∃ keyExpr, lcmChannelToKeyExpr tryFrom msg.channel b.config.keyPrefix = .ok keyExpr) →
        msg.sequenceNumber ∉ u.sentSequences := by
  constructor
  · rintro h u src msg hcheck hsrc hallow ⟨keyExpr, hmap⟩
    have hmem := (handled_mem_iff hrun).mpr ⟨u, hcheck, rfl⟩
    exact (handleMessage_eq_put_iff.mp (h src msg _ hmem hsrc hallow keyExpr hmap)).1
  · intro h src msg handling hmem hsrc hallow keyExpr hmap
    rcases (handled_mem_iff hrun).mp hmem with ⟨u, hcheck, hhandling⟩
    rw [hhandling, handleMessage_eq_put_iff]
    exact ⟨h u src msg hcheck hsrc hallow ⟨keyExpr, hmap⟩, hallow, hmap, rfl⟩

/-- A message of another publisher whose number the bridge has not used. -/
theorem forwards_iff_other_number :
    (∃ b', (Bridge.start Config.default (.v4 1 7667) 1400).run KeyExpr.ofValid
        [.sample ⟨"lcm/A", by decide⟩ [1, 2] (fun _ => none), .record,
          .arrive ⟨encodeShortMessage 5 "B" [9], .v4 2 7667, 0, 0⟩, .check]
      = .ok (b', [.sampled (.sent "A" 0), .recorded 0, .received (some ⟨"B", 5, [9]⟩),
          .handled (.v4 2 7667) ⟨"B", 5, [9]⟩ (.put ⟨"lcm/B", by decide⟩ [9])])) ∧
      ∀ u src msg, Checks KeyExpr.ofValid (Bridge.start Config.default (.v4 1 7667) 1400)
        [.sample ⟨"lcm/A", by decide⟩ [1, 2] (fun _ => none), .record,
          .arrive ⟨encodeShortMessage 5 "B" [9], .v4 2 7667, 0, 0⟩, .check] u src msg →
        src ≠ .v4 1 7667 → isAllowed msg.channel Config.default = true →
        (∃ keyExpr, lcmChannelToKeyExpr KeyExpr.ofValid msg.channel "lcm" = .ok keyExpr) →
        msg.sequenceNumber ∉ u.sentSequences := by
  have hrun : ∃ b', (Bridge.start Config.default (.v4 1 7667) 1400).run KeyExpr.ofValid
        [.sample ⟨"lcm/A", by decide⟩ [1, 2] (fun _ => none), .record,
          .arrive ⟨encodeShortMessage 5 "B" [9], .v4 2 7667, 0, 0⟩, .check]
      = .ok (b', [.sampled (.sent "A" 0), .recorded 0, .received (some ⟨"B", 5, [9]⟩),
          .handled (.v4 2 7667) ⟨"B", 5, [9]⟩ (.put ⟨"lcm/B", by decide⟩ [9])]) := ⟨_, rfl⟩
  refine ⟨hrun, ?_⟩
  rcases hrun with ⟨b', hrun⟩
  refine (forwards_iff hrun).mp (fun src msg handling hmem _ _ keyExpr hmap => ?_)
  simp only [List.mem_cons, reduceCtorEq, Event.handled.injEq, List.not_mem_nil, or_false,
    false_or] at hmem
  rcases hmem with ⟨rfl, rfl, rfl⟩
  exact congrArg (fun ke => Handling.put ke [9]) (Except.ok.inj hmap)

/-- The bridge has sent its message number zero. So has another publisher, and
    its message is skipped. -/
theorem foreign_message_skipped :
    (∃ b', (Bridge.start Config.default (.v4 1 7667) 1400).run KeyExpr.ofValid
        [.sample ⟨"lcm/A", by decide⟩ [1, 2] (fun _ => none), .record,
          .arrive ⟨encodeShortMessage 0 "B" [9], .v4 2 7667, 0, 0⟩, .check]
      = .ok (b', [.sampled (.sent "A" 0), .recorded 0, .received (some ⟨"B", 0, [9]⟩),
          .handled (.v4 2 7667) ⟨"B", 0, [9]⟩ .loopback])) ∧
      ¬ Forwards KeyExpr.ofValid (Bridge.start Config.default (.v4 1 7667) 1400)
        [.sampled (.sent "A" 0), .recorded 0, .received (some ⟨"B", 0, [9]⟩),
          .handled (.v4 2 7667) ⟨"B", 0, [9]⟩ .loopback] := by
  refine ⟨⟨_, rfl⟩, fun h => ?_⟩
  have hput := h (.v4 2 7667) ⟨"B", 0, [9]⟩ .loopback
    (by simp only [List.mem_cons, true_or, or_true]) (by decide) rfl ⟨"lcm/B", by decide⟩ rfl
  exact absurd hput (by simp only [reduceCtorEq, not_false_eq_true])

/-- In a run, no message of the bridge is echoed exactly when every check of
    one that is allowed and mapped finds its sequence number still recorded. -/
theorem noEcho_iff {tryFrom : String → Except String KeyExpr} {b b' : Bridge}
    {actions : List Action} {events : List Event}
    (hrun : b.run tryFrom actions = .ok (b', events)) :
    NoEcho b events ↔
      ∀ u src msg, Checks tryFrom b actions u src msg → src = b.localAddr →
        isAllowed msg.channel b.config = true →
        (∃ keyExpr, lcmChannelToKeyExpr tryFrom msg.channel b.config.keyPrefix = .ok keyExpr) →
        msg.sequenceNumber ∈ u.sentSequences := by
  constructor
  · rintro h u src msg hcheck hsrc hallow ⟨keyExpr, hmap⟩
    have hmem := (handled_mem_iff hrun).mpr ⟨u, hcheck, rfl⟩
    by_contra hseq
    exact h src msg _ hmem hsrc keyExpr msg.data
      (handleMessage_eq_put_iff.mpr ⟨hseq, hallow, hmap, rfl⟩)
  · intro h src msg handling hmem hsrc keyExpr payload hput
    rcases (handled_mem_iff hrun).mp hmem with ⟨u, hcheck, hhandling⟩
    rw [hhandling, handleMessage_eq_put_iff] at hput
    obtain ⟨hseq, hallow, hmap, _⟩ := hput
    exact hseq (h u src msg hcheck hsrc hallow ⟨keyExpr, hmap⟩)

/-- A loopback copy that comes back after its number was recorded. -/
theorem noEcho_iff_recorded_first :
    (∃ b', (Bridge.start Config.default (.v4 1 7667) 1400).run KeyExpr.ofValid
        [.sample ⟨"lcm/A", by decide⟩ [1, 2] (fun _ => none), .record,
          .arrive ⟨encodeShortMessage 0 "A" [1, 2], .v4 1 7667, 0, 0⟩, .check]
      = .ok (b', [.sampled (.sent "A" 0), .recorded 0, .received (some ⟨"A", 0, [1, 2]⟩),
          .handled (.v4 1 7667) ⟨"A", 0, [1, 2]⟩ .loopback])) ∧
      ∀ u src msg, Checks KeyExpr.ofValid (Bridge.start Config.default (.v4 1 7667) 1400)
        [.sample ⟨"lcm/A", by decide⟩ [1, 2] (fun _ => none), .record,
          .arrive ⟨encodeShortMessage 0 "A" [1, 2], .v4 1 7667, 0, 0⟩, .check] u src msg →
        src = .v4 1 7667 → isAllowed msg.channel Config.default = true →
        (∃ keyExpr, lcmChannelToKeyExpr KeyExpr.ofValid msg.channel "lcm" = .ok keyExpr) →
        msg.sequenceNumber ∈ u.sentSequences := by
  have hrun : ∃ b', (Bridge.start Config.default (.v4 1 7667) 1400).run KeyExpr.ofValid
        [.sample ⟨"lcm/A", by decide⟩ [1, 2] (fun _ => none), .record,
          .arrive ⟨encodeShortMessage 0 "A" [1, 2], .v4 1 7667, 0, 0⟩, .check]
      = .ok (b', [.sampled (.sent "A" 0), .recorded 0, .received (some ⟨"A", 0, [1, 2]⟩),
          .handled (.v4 1 7667) ⟨"A", 0, [1, 2]⟩ .loopback]) := ⟨_, rfl⟩
  refine ⟨hrun, ?_⟩
  rcases hrun with ⟨b', hrun⟩
  refine (noEcho_iff hrun).mp (fun src msg handling hmem _ keyExpr payload => ?_)
  simp only [List.mem_cons, reduceCtorEq, Event.handled.injEq, List.not_mem_nil, or_false,
    false_or] at hmem
  rw [hmem.2.2]
  simp only [ne_eq, reduceCtorEq, not_false_eq_true]

/-- The loopback copy comes back before the sequence number is recorded, and is
    published. -/
theorem own_message_echoed :
    (∃ b', (Bridge.start Config.default (.v4 1 7667) 1400).run KeyExpr.ofValid
        [.sample ⟨"lcm/A", by decide⟩ [1, 2] (fun _ => none),
          .arrive ⟨encodeShortMessage 0 "A" [1, 2], .v4 1 7667, 0, 0⟩, .check]
      = .ok (b', [.sampled (.sent "A" 0), .received (some ⟨"A", 0, [1, 2]⟩),
          .handled (.v4 1 7667) ⟨"A", 0, [1, 2]⟩ (.put ⟨"lcm/A", by decide⟩ [1, 2])])) ∧
      ¬ NoEcho (Bridge.start Config.default (.v4 1 7667) 1400)
        [.sampled (.sent "A" 0), .received (some ⟨"A", 0, [1, 2]⟩),
          .handled (.v4 1 7667) ⟨"A", 0, [1, 2]⟩ (.put ⟨"lcm/A", by decide⟩ [1, 2])] := by
  refine ⟨⟨_, rfl⟩, fun h => ?_⟩
  exact h (.v4 1 7667) ⟨"A", 0, [1, 2]⟩ (.put ⟨"lcm/A", by decide⟩ [1, 2])
    (by simp only [List.mem_cons, true_or, or_true]) rfl ⟨"lcm/A", by decide⟩ [1, 2] rfl

end LcmBridge
