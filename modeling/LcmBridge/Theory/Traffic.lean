import LcmBridge.Theory.LoopPrevention
import LcmBridge.Theory.Network

/-!
# Traffic Between Sites

Where the messages that a site sends come from, and how many there are.

A send of a publication by another site is charged to the delivery of that
publication, the delivery to its `put`, the `put` to the check of the message,
and the check to the datagram that completed it. Each of these charges is one
to one for one receiving site, so their composition is
(`relayed_charged`).

Counting along the same chain bounds the traffic. The `put` of a message that
has come from another LCM publisher is paid for by that message. The `put` of
the site's own message is paid for by nobody, and this is what loop prevention
is for: as long as there is none, what is sent is bounded by what arrives
(`sends_bounded`).

## Main definitions

* `Observation.relayed`: A site sends what another one has published.
* `SameMessage`: It is what the other one has received.
* `Observation.isSend`, `Observation.foreign`, `Observation.isExternal`: What
  is counted.

## Theorems

* `relayed_charged`: What a site sends for another one is what that one received.
* `sends_bounded`: There are only so many sends.
-/

namespace LcmBridge

variable {ι : Type} [DecidableEq ι]

/-! ### What the observations say -/

section Observed

variable {tryFrom : String → Except String KeyExpr} {config : ι → Config}
  {localAddr : ι → SocketAddr} {fragmentMtu : ι → Nat} {actions : List (NetworkAction ι)}
  {s : Network ι} {obs : List (Observation ι)} {o : Observation ι}

omit [DecidableEq ι] in
/-- A publication by a site is the `put` of a message that it has checked. -/
theorem published_eq_some {p : Publication ι} {index : Nat} {i : ι} (horigin : p.origin = some i)
    (h : o.published = some (p, index)) :
    ∃ a src msg, o = .moved i a (.handled src msg (.put p.keyExpr p.payload)) index := by
  cases o with
  | delivered j k q event =>
      exact absurd h (by simp only [Observation.published, reduceCtorEq, not_false_eq_true])
  | external keyExpr payload k =>
      simp only [Observation.published, Option.some.injEq, Prod.mk.injEq] at h
      rw [← h.1] at horigin
      exact absurd horigin (by simp only [reduceCtorEq, not_false_eq_true])
  | moved j a event k =>
      simp only [Observation.published, Option.map_eq_some_iff, Prod.mk.injEq] at h
      rcases h with ⟨q, hq, rfl, rfl⟩
      rcases publication_eq_some hq with ⟨src, msg, rfl, hi⟩
      rw [hi, Option.some.injEq] at horigin
      rw [horigin]
      exact ⟨a, src, msg, rfl⟩

/-- What a site publishes is what it has received, under the key of its
    channel. -/
theorem key_of_put (hkeep : ∀ s keyExpr, tryFrom s = .ok keyExpr → keyExpr.asStr = s)
    (hrun : (Network.start config localAddr fragmentMtu).run tryFrom actions = .ok (s, obs))
    {i : ι} {a : Action} {src : SocketAddr} {msg : LcmMessage} {keyExpr : KeyExpr}
    {payload : List UInt8} {index : Nat}
    (h : .moved i a (.handled src msg (.put keyExpr payload)) index ∈ obs) :
    keyExpr.asStr = (config i).keyPrefix ++ "/" ++ msg.channel ∧
      isAllowed msg.channel (config i) = true ∧ payload = msg.data := by
  have hacts := site_run hrun i
  have hmem : Event.handled src msg (.put keyExpr payload)
      ∈ obs.filterMap (Observation.eventAt i) := by
    refine List.mem_filterMap.mpr ⟨_, h, ?_⟩
    rw [Observation.eventAt, if_pos rfl]
  rcases extract_of_published hkeep hacts hmem with ⟨hkey, hallow, hdata⟩
  exact ⟨(keyExprToLcmChannel_eq_ok_iff.mp hkey).1, hallow, hdata⟩

/-- What a site sends is a publication under the key of its channel. -/
theorem key_of_sent
    (hrun : (Network.start config localAddr fragmentMtu).run tryFrom actions = .ok (s, obs))
    {j : ι} {index : Nat} {p : Publication ι} {channel : String} {seq : UInt32}
    (h : .delivered j index p (.sampled (.sent channel seq)) ∈ obs) :
    p.keyExpr.asStr = (config j).keyPrefix ++ "/" ++ channel ∧
      isAllowed channel (config j) = true := by
  rcases List.mem_iff_getElem?.mp h with ⟨n, hn⟩
  rcases (Machine.runAll_getElem? hrun n _).mp hn with ⟨pre, a, post, u, u', out, _, _, hpre, hstep⟩
  have hconfig : (u.site j).config = config j := (site_config hpre j).1
  cases Network.move_of_step hstep with
  | deliver _ _ _ hsite =>
      cases LcmBridge.move_of_step hsite with
      | sample _ hhandle =>
          rcases handleSample_eq_sent hhandle with ⟨hkey, hallow, _⟩
          rw [hconfig] at hkey hallow
          exact ⟨(keyExprToLcmChannel_eq_ok_iff.mp hkey).1, hallow⟩

/-- Deliveries are charged to publications. -/
theorem delivery_charged
    (hrun : (Network.start config localAddr fragmentMtu).run tryFrom actions = .ok (s, obs))
    (j : ι) :
    Charged (fun b c => ∃ k, b.deliveredTo j = some k ∧ c.publishedFor j = some k)
      (fun b => (b.deliveredTo j).isSome) obs := by
  refine (deliveryTokens tryFrom j).charged (fun k h => ?_) hrun
  exact absurd h.1 (by
    simp only [Network.start, List.getElem?_nil, reduceCtorEq, not_false_eq_true])

/-- Checks are charged to the datagrams that complete the messages. -/
theorem check_charged
    (hrun : (Network.start config localAddr fragmentMtu).run tryFrom actions = .ok (s, obs)) :
    Charged (fun b c => ∃ k, b.checked = some k ∧ c.completed = some k)
      (fun b => b.checked.isSome) obs := by
  refine (receiverTokens tryFrom).charged (fun k h => ?_) hrun
  exact absurd h (by simp only [receiverTokens, Network.start, Bridge.start, reduceCtorEq,
    not_false_eq_true])

end Observed

/-! ### Relayed messages -/

/-- The site sends what another site has published. -/
def Observation.relayed (j : ι) : Observation ι → Bool
  | .delivered i _ p (.sampled (.sent _ _)) => i = j ∧ p.origin.isSome
  | _ => false

/-- A channel and a payload at one site are those of a message at another: both
    channels pass the filters and have the same key. -/
structure Relays (config : ι → Config) (i j : ι) (msg : LcmMessage) (channel : String)
    (payload : List UInt8) : Prop where
  other : i ≠ j
  payload_eq : payload = msg.data
  received : isAllowed msg.channel (config i) = true
  sent : isAllowed channel (config j) = true
  key : (config j).keyPrefix ++ "/" ++ channel = (config i).keyPrefix ++ "/" ++ msg.channel
  channel_eq : (config i).keyPrefix = (config j).keyPrefix → channel = msg.channel

/-- What the first observation sends is a publication of a site, and the message
    that the second one completes at that site. -/
def SameMessage (config : ι → Config) (j : ι) (b c : Observation ι) : Prop :=
  ∃ index p channel seq i src msg, b = .delivered j index p (.sampled (.sent channel seq)) ∧
    p.origin = some i ∧ c.completed = some (i, src, msg) ∧
    Relays config i j msg channel p.payload

theorem relayed_eq_true_iff {o : Observation ι} {j : ι} :
    o.relayed j = true ↔ ∃ index p channel seq i,
      o = .delivered j index p (.sampled (.sent channel seq)) ∧ p.origin = some i := by
  unfold Observation.relayed
  constructor
  · intro h
    split at h
    · next j' index p channel seq =>
        rcases of_decide_eq_true h with ⟨rfl, horigin⟩
        rcases Option.isSome_iff_exists.mp horigin with ⟨i, hi⟩
        exact ⟨index, p, channel, seq, i, rfl, hi⟩
    · exact absurd h (by simp only [Bool.false_eq_true, not_false_eq_true])
  · intro h
    rcases h with ⟨index, p, channel, seq, i, rfl, hi⟩
    exact decide_eq_true ⟨rfl, by rw [hi]; rfl⟩

/-- In every run, what a site sends for another one is a message that this other
    one, and no third, has received before, with the same bytes and on the
    channel with the same key, and no message is sent twice by a site. -/
theorem relayed_charged {tryFrom : String → Except String KeyExpr}
    (hkeep : ∀ s keyExpr, tryFrom s = .ok keyExpr → keyExpr.asStr = s) {config : ι → Config}
    {localAddr : ι → SocketAddr} {fragmentMtu : ι → Nat} {actions : List (NetworkAction ι)}
    {s : Network ι} {obs : List (Observation ι)}
    (hrun : (Network.start config localAddr fragmentMtu).run tryFrom actions = .ok (s, obs))
    (j : ι) : Charged (SameMessage config j) (Observation.relayed j) obs := by
  -- From the send to the publication, which is a `put` of a site.
  have hpublished : Charged
      (fun b c => c ∈ obs ∧ ∃ index p channel seq i act src msg,
        b = .delivered j index p (.sampled (.sent channel seq)) ∧ p.origin = some i ∧ i ≠ j ∧
        c = .moved i act (.handled src msg (.put p.keyExpr p.payload)) index)
      (Observation.relayed j) obs := by
    refine (delivery_charged hrun j).mono (fun b hb => ?_) (fun b c _ hc hb hbc => ⟨hc, ?_⟩)
    · rcases relayed_eq_true_iff.mp hb with ⟨index, p, channel, seq, i, rfl, _⟩
      simp only [Observation.deliveredTo, if_true, Option.isSome_some]
    · rcases relayed_eq_true_iff.mp hb with ⟨index, p, channel, seq, i, rfl, horigin⟩
      rcases hbc with ⟨k, hdeliver, hpub⟩
      simp only [Observation.deliveredTo, if_true, Option.some.injEq] at hdeliver
      rw [← hdeliver] at hpub
      rcases Option.filter_eq_some_iff.mp hpub with ⟨hpub, hne⟩
      rcases published_eq_some horigin hpub with ⟨act, src, msg, rfl⟩
      refine ⟨index, p, channel, seq, i, act, src, msg, rfl, horigin, fun h => ?_, rfl⟩
      rw [h] at horigin
      exact of_decide_eq_true hne horigin
  -- From the `put` to the datagram.
  have hcompleted := hpublished.trans (check_charged hrun) (fun b c _ hbc => by
    rcases hbc with ⟨_, index, p, channel, seq, i, act, src, msg, _, _, _, rfl⟩
    rfl)
  refine hcompleted.mono (fun b hb => hb) (fun b d hmem _ _ hbd => ?_)
  rcases hbd with
    ⟨c, ⟨hc, index, p, channel, seq, i, act, src, msg, rfl, horigin, hij, rfl⟩, k, hcheck, hd⟩
  rw [Observation.checked, Option.some.injEq] at hcheck
  rcases key_of_put hkeep hrun hc with ⟨hkey, hallow, hdata⟩
  rcases key_of_sent hrun hmem with ⟨hkey', hallow'⟩
  rw [hkey] at hkey'
  refine ⟨index, p, channel, seq, i, src, msg, rfl, horigin, by rw [hd, hcheck],
    ⟨hij, hdata, hallow, hallow', hkey'.symm, fun hpre => ?_⟩⟩
  rw [hpre] at hkey'
  exact (String.append_right_inj _).mp hkey'.symm

/-- The addresses of two sites. -/
def twoAddrs (i : Bool) : SocketAddr := if i then .v4 3 7667 else .v4 1 7667

/-- Two sites with the same settings. -/
def twoSites : Network Bool := Network.start (fun _ => Config.default) twoAddrs (fun _ => 1400)

/-- A message is received at one of two sites, published, and sent by the other
    one, which takes its loopback copy for what it is. -/
theorem twoSites_run :
    ∃ s, twoSites.run KeyExpr.ofValid
        [.move false (.arrive ⟨encodeShortMessage 5 "B" [9], .v4 2 7667, 0, 0⟩),
          .move false .check, .deliver true 0 (fun _ => none), .move true .record,
          .move true (.arrive ⟨encodeShortMessage 0 "B" [9], .v4 3 7667, 0, 0⟩),
          .move true .check]
      = .ok (s, [.moved false (.arrive ⟨encodeShortMessage 5 "B" [9], .v4 2 7667, 0, 0⟩)
            (.received (some ⟨"B", 5, [9]⟩)) 0,
          .moved false .check
            (.handled (.v4 2 7667) ⟨"B", 5, [9]⟩ (.put ⟨"lcm/B", by decide⟩ [9])) 0,
          .delivered true 0 ⟨some false, ⟨"lcm/B", by decide⟩, [9]⟩ (.sampled (.sent "B" 0)),
          .moved true .record (.recorded 0) 1,
          .moved true (.arrive ⟨encodeShortMessage 0 "B" [9], .v4 3 7667, 0, 0⟩)
            (.received (some ⟨"B", 0, [9]⟩)) 1,
          .moved true .check (.handled (.v4 3 7667) ⟨"B", 0, [9]⟩ .loopback) 1]) := ⟨_, rfl⟩

theorem asStr_of_ofValid {s : String} {keyExpr : KeyExpr} (h : KeyExpr.ofValid s = .ok keyExpr) :
    keyExpr.asStr = s := by
  unfold KeyExpr.ofValid at h
  split at h
  · rw [← Except.ok.inj h]
  · simp only [reduceCtorEq] at h

/-- The send at the third move is charged to the datagram at the first. -/
theorem relayed_charged_two_sites :
    ∃ s obs, twoSites.run KeyExpr.ofValid
        [.move false (.arrive ⟨encodeShortMessage 5 "B" [9], .v4 2 7667, 0, 0⟩),
          .move false .check, .deliver true 0 (fun _ => none), .move true .record,
          .move true (.arrive ⟨encodeShortMessage 0 "B" [9], .v4 3 7667, 0, 0⟩),
          .move true .check] = .ok (s, obs) ∧
      obs[2]?.map (Observation.relayed true) = some true ∧
      Charged (SameMessage (fun _ => Config.default) true) (Observation.relayed true) obs := by
  rcases twoSites_run with ⟨s, hrun⟩
  exact ⟨s, _, hrun, rfl, relayed_charged (fun _ _ => asStr_of_ofValid) hrun true⟩

/-! ### Counting -/

/-- Some site has sent a message. -/
def Observation.isSend : Observation ι → Bool
  | .delivered _ _ _ (.sampled (.sent _ _)) => true
  | _ => false

/-- A datagram from another address has completed a message. -/
def Observation.foreign (localAddr : ι → SocketAddr) (o : Observation ι) : Bool :=
  o.completed.any (fun k => k.2.1 ≠ localAddr k.1)

/-- Another Zenoh application has published. -/
def Observation.isExternal : Observation ι → Bool
  | .external _ _ _ => true
  | _ => false

/-- A site has published. -/
def Observation.isPut (o : Observation ι) : Bool := o.published.any (fun k => k.1.origin.isSome)

section Counting

variable {tryFrom : String → Except String KeyExpr} {config : ι → Config}
  {localAddr : ι → SocketAddr} {fragmentMtu : ι → Nat} {actions : List (NetworkAction ι)}
  {s : Network ι} {obs : List (Observation ι)}

/-- Where no site publishes its own messages, each `put` is paid for by a
    message of another publisher. -/
theorem countP_isPut_le
    (hrun : (Network.start config localAddr fragmentMtu).run tryFrom actions = .ok (s, obs))
    (hecho : ∀ i, NoEcho (Bridge.start (config i) (localAddr i) (fragmentMtu i))
      (obs.filterMap (Observation.eventAt i))) :
    obs.countP Observation.isPut ≤ obs.countP (Observation.foreign localAddr) := by
  have hput : ∀ b : Observation ι, b.isPut = true →
      ∃ i a src msg keyExpr payload index,
        b = .moved i a (.handled src msg (.put keyExpr payload)) index := by
    intro b hb
    rcases (Option.any_eq_true _ _).mp hb with ⟨⟨p, index⟩, hpub, horigin⟩
    rcases Option.isSome_iff_exists.mp horigin with ⟨i, hi⟩
    rcases published_eq_some hi hpub with ⟨a, src, msg, rfl⟩
    exact ⟨i, a, src, msg, _, _, index, rfl⟩
  have hcharge : Charged (fun _ c => c.foreign localAddr = true) Observation.isPut obs := by
    refine (check_charged hrun).mono (fun b hb => ?_) (fun b c hmem _ hb hbc => ?_)
    · rcases hput b hb with ⟨i, a, src, msg, keyExpr, payload, index, rfl⟩
      rfl
    · rcases hput b hb with ⟨i, a, src, msg, keyExpr, payload, index, rfl⟩
      rcases hbc with ⟨k, hcheck, hcompleted⟩
      rw [Observation.checked, Option.some.injEq] at hcheck
      rw [← hcheck] at hcompleted
      rw [Observation.foreign, hcompleted, Option.any_some]
      refine decide_eq_true (fun hown => ?_)
      -- Otherwise the site has published a message of its own.
      refine hecho i src msg (.put keyExpr payload) ?_ hown keyExpr payload rfl
      refine List.mem_filterMap.mpr ⟨_, hmem, ?_⟩
      rw [Observation.eventAt, if_pos rfl]
  exact hcharge.countP_le (fun b c _ _ hbc => hbc)

/-- A site sends at most what others have published. -/
theorem countP_sent_le
    (hrun : (Network.start config localAddr fragmentMtu).run tryFrom actions = .ok (s, obs))
    (j : ι) :
    obs.countP (fun o => o.isSend && (o.deliveredTo j).isSome)
      ≤ obs.countP (fun o => (o.publishedFor j).isSome) := by
  have hcharge : Charged (fun _ c => (c.publishedFor j).isSome = true)
      (fun o => o.isSend && (o.deliveredTo j).isSome) obs := by
    refine (delivery_charged hrun j).mono (fun b hb => ?_) (fun b c _ _ _ hbc => ?_)
    · exact (Bool.and_eq_true_iff.mp hb).2
    · rcases hbc with ⟨k, _, hpub⟩
      rw [hpub]
      rfl
  exact hcharge.countP_le (fun b c _ _ hbc => hbc)

end Counting

/-- In a run of a network in which no site publishes messages that it has sent
    itself, the sites send no more than the messages that other LCM publishers
    bring in, once at each of the other sites, and the publications of other
    Zenoh applications, once at each site. -/
theorem sends_bounded [Fintype ι] {tryFrom : String → Except String KeyExpr} {config : ι → Config}
    {localAddr : ι → SocketAddr} {fragmentMtu : ι → Nat} {actions : List (NetworkAction ι)}
    {s : Network ι} {obs : List (Observation ι)}
    (hrun : (Network.start config localAddr fragmentMtu).run tryFrom actions = .ok (s, obs))
    (hecho : ∀ i, NoEcho (Bridge.start (config i) (localAddr i) (fragmentMtu i))
      (obs.filterMap (Observation.eventAt i))) :
    obs.countP Observation.isSend
      ≤ (Fintype.card ι - 1) * obs.countP (Observation.foreign localAddr)
        + Fintype.card ι * obs.countP Observation.isExternal := by
  -- The sends by site, the publications by the sites they are for.
  have hsends : obs.countP Observation.isSend
      ≤ ∑ j, obs.countP (fun o => o.isSend && (o.deliveredTo j).isSome) := by
    refine countP_le_sum (fun b hb => ?_)
    cases b with
    | delivered j index p event =>
        refine ⟨j, Bool.and_eq_true_iff.mpr ⟨hb, ?_⟩⟩
        simp only [Observation.deliveredTo, if_true, Option.isSome_some]
    | moved i a event index => exact absurd hb Bool.false_ne_true
    | external keyExpr payload index => exact absurd hb Bool.false_ne_true
  have hputs : ∑ j, obs.countP (fun o => o.isPut && (o.publishedFor j).isSome)
      ≤ (Fintype.card ι - 1) * obs.countP Observation.isPut := by
    refine sum_countP_le (fun b => ?_)
    by_cases hb : b.isPut = true
    · -- Every site but the one that publishes.
      rw [if_pos hb, ← Finset.card_univ]
      rcases (Option.any_eq_true _ _).mp hb with ⟨k, hpub, horigin⟩
      rcases Option.isSome_iff_exists.mp horigin with ⟨i, hi⟩
      rw [← Finset.card_erase_of_mem (Finset.mem_univ i)]
      refine Finset.card_le_card (fun j hj => ?_)
      refine Finset.mem_erase.mpr ⟨fun hji => ?_, Finset.mem_univ j⟩
      have hfor := (Bool.and_eq_true_iff.mp (Finset.mem_filter.mp hj).2).2
      rw [Observation.publishedFor, hpub, hji, Option.filter_some, hi] at hfor
      simp only [ne_eq, not_true_eq_false, decide_false, Bool.false_eq_true, if_false,
        Option.isSome_none] at hfor
    · rw [if_neg hb, Finset.filter_false_of_mem, Finset.card_empty]
      intro j _ hj
      exact hb (Bool.and_eq_true_iff.mp hj).1
  have hexternal : ∑ j : ι, obs.countP (fun o => o.isExternal && (o.publishedFor j).isSome)
      ≤ Fintype.card ι * obs.countP Observation.isExternal := by
    refine sum_countP_le (fun b => ?_)
    by_cases hb : b.isExternal = true
    · rw [if_pos hb]
      exact Finset.card_le_univ _
    · rw [if_neg hb, Finset.filter_false_of_mem, Finset.card_empty]
      intro j _ hj
      exact hb (Bool.and_eq_true_iff.mp hj).1
  have hsplit : ∀ j, obs.countP (fun o => (o.publishedFor j).isSome)
      ≤ obs.countP (fun o => o.isPut && (o.publishedFor j).isSome)
        + obs.countP (fun o => o.isExternal && (o.publishedFor j).isSome) := by
    intro j
    refine countP_le_add (fun b hb => ?_)
    cases b with
    | delivered i index p event => exact absurd hb Bool.false_ne_true
    | external keyExpr payload index => exact Or.inr (Bool.and_eq_true_iff.mpr ⟨rfl, hb⟩)
    | moved i a event index =>
        refine Or.inl (Bool.and_eq_true_iff.mpr ⟨?_, hb⟩)
        rcases Option.isSome_iff_exists.mp hb with ⟨k, hk⟩
        have hpub := (Option.filter_eq_some_iff.mp hk).1
        rcases Option.map_eq_some_iff.mp hpub with ⟨p, hp, rfl⟩
        rcases publication_eq_some hp with ⟨_, _, _, horigin⟩
        rw [Observation.isPut, hpub, Option.any_some, horigin]
        rfl
  calc obs.countP Observation.isSend
      ≤ ∑ j, obs.countP (fun o => o.isSend && (o.deliveredTo j).isSome) := hsends
    _ ≤ ∑ j, obs.countP (fun o => (o.publishedFor j).isSome) :=
      Finset.sum_le_sum (fun j _ => countP_sent_le hrun j)
    _ ≤ ∑ j, (obs.countP (fun o => o.isPut && (o.publishedFor j).isSome)
        + obs.countP (fun o => o.isExternal && (o.publishedFor j).isSome)) :=
      Finset.sum_le_sum (fun j _ => hsplit j)
    _ ≤ (Fintype.card ι - 1) * obs.countP Observation.isPut
        + Fintype.card ι * obs.countP Observation.isExternal := by
      rw [Finset.sum_add_distrib]
      exact Nat.add_le_add hputs hexternal
    _ ≤ (Fintype.card ι - 1) * obs.countP (Observation.foreign localAddr)
        + Fintype.card ι * obs.countP Observation.isExternal :=
      Nat.add_le_add_right (Nat.mul_le_mul_left _ (countP_isPut_le hrun hecho)) _

/-- Of one message at one of two sites, one is sent. -/
theorem sends_bounded_two_sites :
    ∃ s obs, twoSites.run KeyExpr.ofValid
        [.move false (.arrive ⟨encodeShortMessage 5 "B" [9], .v4 2 7667, 0, 0⟩),
          .move false .check, .deliver true 0 (fun _ => none), .move true .record,
          .move true (.arrive ⟨encodeShortMessage 0 "B" [9], .v4 3 7667, 0, 0⟩),
          .move true .check] = .ok (s, obs) ∧
      obs.countP Observation.isSend
        ≤ (Fintype.card Bool - 1) * obs.countP (Observation.foreign twoAddrs)
          + Fintype.card Bool * obs.countP Observation.isExternal := by
  rcases twoSites_run with ⟨s, hrun⟩
  refine ⟨s, _, hrun,
    sends_bounded hrun (fun i src msg handling hmem hown keyExpr payload hput => ?_)⟩
  cases i with
  | false =>
      simp only [Observation.eventAt, List.filterMap_cons, List.filterMap_nil, if_true,
        Bool.true_eq_false, if_false, List.mem_cons, reduceCtorEq, Event.handled.injEq,
        List.not_mem_nil, or_false, false_or] at hmem
      rw [hmem.1] at hown
      exact absurd hown (by decide)
  | true =>
      simp only [Observation.eventAt, List.filterMap_cons, List.filterMap_nil, if_true,
        Bool.false_eq_true, if_false, List.mem_cons, reduceCtorEq, Event.handled.injEq,
        List.not_mem_nil, or_false, false_or] at hmem
      rw [hmem.2.2] at hput
      exact absurd hput (by simp only [reduceCtorEq, not_false_eq_true])

end LcmBridge
