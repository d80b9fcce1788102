import Mathlib.Data.List.Sigma
import LcmBridge.Theory.Relay
import LcmBridge.Theory.Traffic

/-!
# From One LCM to Another

What arrives at one site of what was sent at another one.

A message on its way between two sites passes a transport, a multicast group,
the receiving task of one bridge, Zenoh, the sending task of another bridge and
its transport, and a second multicast group. Each of these has its own theorem,
and what one leaves is what the next one takes: the publications of a site are
in the log (`log_of_run`), a publication that is delivered is a sample of the
other site (`samples_of_run`), and a sample leads to a call of `send`
(`requestsOf_content`).

So when Zenoh has delivered everything, and nothing is lost on the second
group, every message that has arrived on the first is received on the second,
on the channel with its key and with its bytes (`received_across`). No order is
promised anywhere on the way, and other traffic may come in at each of the
places.

## Main definitions

* `Network.Settled`: Everything a site has published is delivered to another.
* `Heard`: A bridge's datagrams arrive, each of them and each once.
* `sentAs`, `relayedAs`: What a publication or a message is sent as.

## Theorems

* `log_of_run`: A site's publications in the log.
* `samples_of_run`: A site's samples.
* `settled_subperm`: Everything published is among the samples.
* `received_across`: From one LCM to another.
-/

namespace LcmBridge

open FragmentReassembler

variable {ι : Type} [DecidableEq ι] {tryFrom : String → Except String KeyExpr}

/-! ### From a publication to a sample -/

/-- The key and the bytes of a sample. -/
def Sample.content (sample : Sample) : KeyExpr × List UInt8 := (sample.keyExpr, sample.payload)

/-- The key and the bytes of a publication. -/
def Publication.content (p : Publication ι) : KeyExpr × List UInt8 := (p.keyExpr, p.payload)

/-- The samples that a site takes in a run. -/
def samplesAt (j : ι) (actions : List (NetworkAction ι)) (obs : List (Observation ι)) :
    List Sample :=
  (siteActions j actions obs).filterMap Action.asSample

/-- The datagrams that a site takes in a run. -/
def arrivalsAt (i : ι) (actions : List (NetworkAction ι)) (obs : List (Observation ι)) :
    List Arrival :=
  (siteActions i actions obs).filterMap Action.asArrival

/-- Every publication of the first site is delivered to the second. -/
def Network.Settled (s : Network ι) (i j : ι) : Prop :=
  ∀ index p, s.publications[index]? = some p → p.origin = some i → (j, index) ∈ s.delivered

section Log

variable {s s' : Network ι} {actions : List (NetworkAction ι)} {obs : List (Observation ι)}
  {i j : ι}

/-- A site takes a sample exactly when it is given a publication. -/
theorem sample_of_step {a : NetworkAction ι} {o : Observation ι}
    (h : s.step tryFrom a = .ok (s', o)) :
    ((siteAction j (a, o)).bind Action.asSample).map Sample.content
      = (o.deliveredTo j).map (fun k => k.1.content) := by
  cases Network.move_of_step h with
  | @move i act b event hown _ =>
      by_cases hij : i = j
      · -- The move of a site by itself takes no sample.
        rw [siteAction, if_pos hij, Option.bind_some]
        cases act with
        | sample _ _ _ => exact absurd hown (by simp only [Action.takesSample, reduceCtorEq,
            not_false_eq_true])
        | record => rfl
        | arrive _ => rfl
        | check => rfl
      · rw [siteAction, if_neg hij]
        rfl
  | @deliver i index sendTo p b event _ _ _ _ =>
      by_cases hij : i = j
      · rw [siteAction, if_pos hij, Observation.deliveredTo, if_pos hij]
        rfl
      · rw [siteAction, if_neg hij, Observation.deliveredTo, if_neg hij]
        rfl
  | publish => rfl

/-- The samples of a site are what it is given. -/
theorem samples_of_run (h : s.run tryFrom actions = .ok (s', obs)) (j : ι) :
    (samplesAt j actions obs).map Sample.content
      = (obs.filterMap (Observation.deliveredTo j)).map (fun k => k.1.content) := by
  induction actions generalizing s obs with
  | nil =>
      simp only [Network.run, Machine.runAll_nil, Except.ok.injEq, Prod.mk.injEq] at h
      rw [← h.2]
      rfl
  | cons a actions ih =>
      rcases Machine.runAll_cons_eq_ok.mp h with ⟨u, o, obs', hstep, hrest, rfl⟩
      have hrest := ih hrest
      have hsample := sample_of_step (j := j) hstep
      unfold samplesAt siteActions at hrest ⊢
      rw [List.filterMap_filterMap, List.map_filterMap, List.map_filterMap] at hrest ⊢
      rw [List.zip_cons_cons, List.filterMap_cons, List.filterMap_cons, hsample, hrest]

/-- What a step adds to the log of a site is what the site publishes by it. -/
theorem published_of_step {a : NetworkAction ι} {o : Observation ι}
    (h : s.step tryFrom a = .ok (s', o)) (i : ι) :
    (o.published.map Prod.fst).filter (fun p => p.origin = some i)
      = (o.eventAt i).bind (Event.publication i) := by
  cases Network.move_of_step h with
  | @move j act b event _ _ =>
      rw [Observation.published, Observation.eventAt, Option.map_map]
      by_cases hij : j = i
      · rw [if_pos hij, hij, Option.bind_some]
        cases hpub : event.publication i with
        | none => rfl
        | some p =>
            rcases publication_eq_some hpub with ⟨_, _, _, horigin⟩
            exact Option.filter_some_pos (decide_eq_true horigin)
      · rw [if_neg hij, Option.bind_none]
        cases hpub : event.publication j with
        | none => rfl
        | some p =>
            rcases publication_eq_some hpub with ⟨_, _, _, horigin⟩
            exact Option.filter_some_neg (decide_eq_false (fun hi =>
              hij (Option.some.inj (horigin.symm.trans hi))))
  | @deliver j index sendTo p b event _ _ _ hsample =>
      -- A sample is sent, not published.
      rw [Observation.published, Observation.eventAt]
      by_cases hij : j = i
      · rw [if_pos hij]
        cases move_of_step hsample with
        | sample _ _ => rfl
      · rw [if_neg hij]
        rfl
  | publish => rfl

/-- What a site has published is in the log, in the same order. -/
theorem log_of_run (h : s.run tryFrom actions = .ok (s', obs)) (hs : s.publications = [])
    (i : ι) :
    s'.publications.filter (fun p => p.origin = some i)
      = (obs.filterMap (Observation.eventAt i)).filterMap (Event.publication i) := by
  rw [List.filterMap_filterMap]
  refine Machine.runAll_invariant_outputs
    (fun u out => u.publications.filter (fun p => p.origin = some i)
      = out.filterMap (fun o => (o.eventAt i).bind (Event.publication i)))
    (fun u out a u' o hu hstep => ?_) (by rw [hs]; rfl) h
  rw [(publications_of_step hstep).1, List.filter_append, hu, List.filterMap_append,
    List.append_cancel_left_eq]
  rw [← Option.toList_filter, published_of_step hstep i, List.filterMap_eq_flatMap_toList]
  exact (List.append_nil _).symm

/-- What has been delivered to a site was delivered in the run. -/
theorem delivered_of_run (h : s.run tryFrom actions = .ok (s', obs)) (hs : s.delivered = ∅)
    {index : Nat} (hmem : (j, index) ∈ s'.delivered) :
    ∃ p, (p, index) ∈ obs.filterMap (Observation.deliveredTo j) ∧
      s'.publications[index]? = some p := by
  refine Machine.runAll_invariant_outputs
    (fun u out => ∀ index, (j, index) ∈ u.delivered →
      ∃ p, (p, index) ∈ out.filterMap (Observation.deliveredTo j) ∧
        u.publications[index]? = some p)
    (fun u out a u' o hu hstep => ?_) (fun index hmem => ?_) h index hmem
  · -- The log only grows, so what was delivered before is in the same place.
    have hold : ∀ index, (j, index) ∈ u.delivered →
        ∃ p, (p, index) ∈ (out ++ [o]).filterMap (Observation.deliveredTo j) ∧
          u'.publications[index]? = some p := by
      intro index hdelivered
      rcases hu index hdelivered with ⟨p, hp, hindex⟩
      refine ⟨p, ?_, ?_⟩
      · rw [List.filterMap_append]
        exact List.mem_append_left _ hp
      · rw [(publications_of_step hstep).1, List.getElem?_append_left
          (List.getElem?_eq_some_iff.mp hindex).1]
        exact hindex
    intro index hdelivered
    cases Network.move_of_step hstep with
    | move _ _ => exact hold index hdelivered
    | @deliver i k sendTo p b event hp _ _ _ =>
        rcases Finset.mem_insert.mp hdelivered with hnew | hmem
        · rw [Prod.mk.injEq] at hnew
          rcases hnew with ⟨rfl, rfl⟩
          refine ⟨p, ?_, hp⟩
          rw [List.filterMap_append]
          refine List.mem_append_right _ (List.mem_filterMap.mpr ⟨_, List.mem_cons_self, ?_⟩)
          rw [Observation.deliveredTo, if_pos rfl]
        · exact hold index hmem
    | publish => exact hold index hdelivered
  · rw [hs] at hmem
    exact absurd hmem (Finset.notMem_empty _)

/-- When everything that a site has published is delivered to another one, it is
    all among the samples of that one. -/
theorem settled_subperm (h : s.run tryFrom actions = .ok (s', obs)) (hlog : s.publications = [])
    (hs : s.delivered = ∅) (hsettled : s'.Settled i j) :
    (((obs.filterMap (Observation.eventAt i)).filterMap (Event.publication i)).map
      Publication.content).Subperm ((samplesAt j actions obs).map Sample.content) := by
  -- The publications with their places in the log are all different.
  have hnodup : (s'.publications.zipIdx.filter (fun k => k.1.origin = some i)).Nodup :=
    (List.Nodup.of_map _ (List.nodup_zipIdx_map_snd _)).filter _
  have hsub : s'.publications.zipIdx.filter (fun k => k.1.origin = some i)
      ⊆ obs.filterMap (Observation.deliveredTo j) := by
    intro k hk
    rcases List.mem_filter.mp hk with ⟨hk, horigin⟩
    have hindex := List.mem_zipIdx_iff_getElem?.mp hk
    have hdelivered := hsettled k.2 k.1 hindex (of_decide_eq_true horigin)
    rcases delivered_of_run h hs hdelivered with ⟨p, hp, hindex'⟩
    rw [hindex, Option.some.injEq] at hindex'
    rw [← hindex'] at hp
    exact hp
  have hlogged : (s'.publications.zipIdx.filter (fun k => k.1.origin = some i)).map Prod.fst
      = s'.publications.filter (fun p => p.origin = some i) := by
    nth_rewrite 2 [← List.zipIdx_map_fst 0 s'.publications]
    rw [List.filter_map]
    rfl
  rw [← log_of_run h hlog i, ← hlogged, samples_of_run h j, List.map_map]
  exact subperm_map _ (List.subperm_of_subset hnodup hsub)

end Log

/-! ### From a sample to a receiver -/

/-- What a publication is sent as, if its key has a channel that is allowed. -/
def sentAs (config : Config) (content : KeyExpr × List UInt8) : Option (String × List UInt8) :=
  match keyExprToLcmChannel content.1 config.keyPrefix with
  | .ok channel => if isAllowed channel config then some (channel, content.2) else none
  | .error _ => none

/-- The channel and the bytes of a call of `send`. -/
def Request.content (q : Request) : String × List UInt8 := (q.channel, q.data)

/-- The channel and the bytes of a message. -/
def LcmMessage.content (msg : LcmMessage) : String × List UInt8 := (msg.channel, msg.data)

theorem requestOf_content (config : Config) (sample : Sample) :
    (requestOf config sample).map Request.content = sentAs config sample.content := by
  unfold requestOf sentAs Sample.content
  cases keyExprToLcmChannel sample.keyExpr config.keyPrefix with
  | error error => rfl
  | ok channel =>
      by_cases hallow : isAllowed channel config = true
      · simp only [hallow, if_true, Option.map_some, Request.content]
      · simp only [hallow, Bool.false_eq_true, if_false, Option.map_none]

theorem requestsOf_content (config : Config) (samples : List Sample) :
    (requestsOf config samples).map Request.content
      = (samples.map Sample.content).filterMap (sentAs config) := by
  rw [requestsOf, List.map_filterMap, List.filterMap_map]
  exact List.filterMap_congr (fun sample _ => requestOf_content config sample)

/-- When every `send` has succeeded and every datagram has arrived, every message
    is expected. -/
theorem expected_of_all {requests : List Request}
    {outs : List (List Datagram × Except IoError UInt32)} {arrived : List Datagram}
    (hlen : outs.length = requests.length) (hok : ∀ out ∈ outs, ∃ seq, out.2 = .ok seq)
    (hall : (outs.map Prod.fst).flatten ⊆ arrived) :
    ((requests.zip outs).filterMap (fun p => expected arrived p.1 p.2)).map LcmMessage.content
      = requests.map Request.content := by
  induction requests generalizing outs with
  | nil => rfl
  | cons q requests ih =>
      cases outs with
      | nil => exact absurd hlen (by simp only [List.length_nil, List.length_cons]; omega)
      | cons out outs =>
          rw [List.map_cons, List.flatten_cons, List.append_subset] at hall
          have hrest := ih (by simpa only [List.length_cons, Nat.add_right_cancel_iff] using hlen)
            (fun o ho => hok o (List.mem_cons_of_mem out ho)) hall.2
          rcases hok out List.mem_cons_self with ⟨seq, hseq⟩
          have hexpected : expected arrived q out = some ⟨q.channel, seq, q.data⟩ := by
            rw [expected, hseq]
            exact if_pos (all_contains_iff.mpr hall.1)
          simp only [List.zip_cons_cons, List.filterMap_cons, hexpected, List.map_cons, hrest]
          rfl

/-- When no sample has failed, every `send` has returned a number. -/
theorem ok_of_result {events : List Event} {result : Except IoError UInt32}
    (hok : ∀ channel error, Event.sampled (.failed channel error) ∉ events)
    (h : result ∈ (events.filterMap Event.outcome).filterMap SampleOutcome.result) :
    ∃ seq, result = .ok seq := by
  rcases List.mem_filterMap.mp h with ⟨outcome, houtcome, hresult⟩
  rcases List.mem_filterMap.mp houtcome with ⟨event, hevent, hsampled⟩
  unfold Event.outcome at hsampled
  split at hsampled
  · rw [Option.some.inj hsampled] at hevent
    unfold SampleOutcome.result at hresult
    split at hresult
    · next channel seq => exact ⟨seq, (Option.some.inj hresult).symm⟩
    · next channel error => exact absurd hevent (hok channel error)
    · exact absurd hresult (by simp only [reduceCtorEq, not_false_eq_true])
  · exact absurd hsampled (by simp only [reduceCtorEq, not_false_eq_true])

/-- The datagrams of a bridge arrive at a receiver, each of them and each once,
    in any order. They are those of messages that the wire can carry and the
    receiver has room for, and what belongs to one message arrives in time. -/
structure Heard (b : Bridge) (fragmentMtu : Nat) (requests : List Request)
    (r : FragmentReassembler) (arrivals : List Arrival) : Prop where
  count : requests.length ≤ 4294967296
  fits : ∀ q ∈ requests, NulFree q.channel ∧ q.data.length < 4294967296 ∧
    fragmentsNeeded fragmentMtu q.channel q.data.length ≤ 65535
  room : ∀ q ∈ requests, q.data.length ≤ r.maxMessageSize
  nothing_pending : ∀ seq, r.pending (b.localAddr, seq) = none
  network : (arrivedFrom b.localAddr arrivals).Perm b.emitted
  timely : ∀ k < requests.length, ∃ opened, ∀ a ∈ arrivals,
    a.key = some (b.localAddr, UInt32.ofNat k) → Timely b.localAddr opened r.timeout a

/-- What a message at one bridge is sent as by another one. -/
def relayedAs (tryFrom : String → Except String KeyExpr) (config config' : Config)
    (msg : LcmMessage) : Option (String × List UInt8) :=
  (publishedAs tryFrom config msg).bind (sentAs config')

omit [DecidableEq ι] in
/-- What is published of a source's messages is published by the site. -/
theorem publishedFrom_sublist (i : ι) (sender : SocketAddr) (events : List Event) :
    (events.filterMap (Event.publishedFrom sender)).Sublist
      ((events.filterMap (Event.publication i)).map Publication.content) := by
  induction events with
  | nil => exact List.Sublist.refl _
  | cons event events ih =>
      cases hpub : event.publishedFrom sender with
      | none =>
          rw [List.filterMap_cons_none hpub]
          cases hsite : event.publication i with
          | none =>
              rw [List.filterMap_cons_none hsite]
              exact ih
          | some p =>
              rw [List.filterMap_cons_some hsite, List.map_cons]
              exact ih.cons _
      | some content =>
          have hsite : (event.publication i).map Publication.content = some content := by
            unfold Event.publishedFrom at hpub
            split at hpub
            · next src msg handling =>
                by_cases hsrc : src = sender
                · rw [if_pos hsrc] at hpub
                  cases handling with
                  | put keyExpr payload => exact hpub
                  | loopback => exact absurd hpub (by simp only [Handling.published, reduceCtorEq,
                      not_false_eq_true])
                  | notAllowed => exact absurd hpub (by simp only [Handling.published,
                      reduceCtorEq, not_false_eq_true])
                  | unmapped error => exact absurd hpub (by simp only [Handling.published,
                      reduceCtorEq, not_false_eq_true])
                · rw [if_neg hsrc] at hpub
                  exact absurd hpub (by simp only [reduceCtorEq, not_false_eq_true])
            · exact absurd hpub (by simp only [reduceCtorEq, not_false_eq_true])
          rcases Option.map_eq_some_iff.mp hsite with ⟨p, hp, rfl⟩
          rw [List.filterMap_cons_some hpub, List.filterMap_cons_some hp, List.map_cons]
          exact ih.cons_cons _

/-- A bridge that is heard is a transport whose messages all arrive. -/
theorem Heard.transmitted {b : Bridge} {fragmentMtu : Nat} {requests : List Request}
    {outs : List (List Datagram × Except IoError UInt32)} {r : FragmentReassembler}
    {arrivals : List Arrival} (h : Heard b fragmentMtu requests r arrivals)
    (hsends : sendAll (LcmTransport.new fragmentMtu) requests = .ok (b.transport, outs))
    (hemitted : b.emitted = (outs.map Prod.fst).flatten) :
    Transmitted (LcmTransport.new fragmentMtu) requests outs b.localAddr r arrivals where
  sends := ⟨_, hsends⟩
  count := h.count
  fits := h.fits
  room := h.room
  nothing_pending := h.nothing_pending
  network := by
    rw [← hemitted]
    exact h.network.subperm
  timely k hk := by
    rcases h.timely k hk with ⟨opened, htime⟩
    refine ⟨opened, fun a ha hkey => htime a ha ?_⟩
    rw [hkey, LcmTransport.new, UInt32.zero_add]

/-- From a publisher on the LCM of one site to the receivers on the LCM of
    another, in any run of a network in which everything the first site has
    published is delivered to the second. The first site has sent none of the
    publisher's numbers itself and holds no message at the end; the sends of the
    second succeed and its datagrams arrive. Then among what is received from the
    second site is every message of the publisher that has arrived at the first,
    once for each time it was sent, if its channel is allowed and has a key at
    both. -/
theorem received_across {config : ι → Config} {localAddr : ι → SocketAddr} {fragmentMtu : ι → Nat}
    {actions : List (NetworkAction ι)} {s : Network ι} {obs : List (Observation ι)} {i j : ι}
    {sender : SocketAddr} {t : LcmTransport} {requests : List Request}
    {outs : List (List Datagram × Except IoError UInt32)} {r : FragmentReassembler}
    {arrivals : List Arrival}
    (hrun : (Network.start config localAddr fragmentMtu).run tryFrom actions = .ok (s, obs))
    (hdone : (s.site i).receiver = .receiving)
    (hsize : ∀ a ∈ arrivalsAt i actions obs, a.datagram.length ≤ maxDatagramSize)
    (hclock : ArrivalsOrdered (arrivalsAt i actions obs))
    (hsent : Transmitted t requests outs sender
      (new reassemblyTimeout (config i).maxMessageSize) (arrivalsAt i actions obs))
    (hother : ∀ channel seq,
      Event.sampled (.sent channel seq) ∈ obs.filterMap (Observation.eventAt i) →
        ∀ k < requests.length, seq ≠ t.sequenceCounter + UInt32.ofNat k)
    (hsettled : s.Settled i j)
    (hok : ∀ channel error,
      Event.sampled (.failed channel error) ∉ obs.filterMap (Observation.eventAt j))
    (hheard : Heard (s.site j) (fragmentMtu j)
      (requestsOf (config j) (samplesAt j actions obs)) r arrivals)
    (hreach : r.Reachable) (hmem : ∀ a ∈ arrivals, a.datagram.length ≤ isizeMax)
    (hclock' : ArrivalsOrdered arrivals) :
    ∃ r' results, receiveAll r arrivals = .ok (r', results) ∧
      (((requests.zip outs).filterMap
          (fun p => expected (arrivedFrom sender (arrivalsAt i actions obs)) p.1 p.2)).filterMap
            (relayedAs tryFrom (config i) (config j))).Subperm
        ((((arrivals.zip results).filter (fun p => p.1.src = localAddr j)).filterMap
          Prod.snd).map LcmMessage.content) := by
  have hlocal : (s.site j).localAddr = localAddr j := (site_config hrun j).2
  -- At the first site: what has arrived is published.
  have hmemAt : ∀ a ∈ arrivalsAt i actions obs, a.datagram.length ≤ isizeMax :=
    fun a ha => Nat.le_trans (hsize a ha) (by decide)
  have hreachAt := reachable_new reassemblyTimeout (config i).maxMessageSize
  have hreceiveAt := receiveAll_eq (reachable_allValid hreachAt) hmemAt
  have hpermAt := hsent.delivered_perm hreachAt hmemAt hclock hreceiveAt
  have hpublished := published_of_run (site_run hrun i) hdone hsize hreceiveAt
    (hsent.numbers_ne hpermAt hother)
  have hsub := (publishedFrom_sublist i sender (obs.filterMap (Observation.eventAt i))).subperm
  rw [hpublished] at hsub
  have hsub := (hpermAt.filterMap (publishedAs tryFrom (config i))).symm.subperm.trans hsub
  -- From site to site: what is published is among the samples, and is sent.
  have hsamples := hsub.trans (settled_subperm hrun rfl rfl hsettled)
  have hrequests := subperm_filterMap (sentAs (config j)) hsamples
  rw [List.filterMap_filterMap, ← requestsOf_content] at hrequests
  -- At the second site: what is sent is received.
  rcases sendAll_of_loop (sender_run (site_run hrun j)) with ⟨outs', hsends, hemitted, hresults⟩
  have hsentTo := hheard.transmitted hsends hemitted
  have hreceive := receiveAll_eq (reachable_allValid hreach) hmem
  refine ⟨_, _, hreceive, ?_⟩
  have hperm := (hsentTo.delivered_perm hreach hmem hclock' hreceive).map LcmMessage.content
  rw [hlocal] at hperm
  refine hrequests.trans (List.Perm.subperm (List.Perm.symm (hperm.trans (List.Perm.of_eq ?_))))
  refine expected_of_all hsentTo.length_eq (fun out hout => ok_of_result hok ?_) ?_
  · rw [hresults]
    exact List.mem_map_of_mem hout
  · have hflat : (s.site j).emitted = (outs'.map Prod.fst).flatten := hemitted
    rw [← hlocal, ← hflat]
    exact hheard.network.symm.subset

/-- Two messages, of which the second arrives first at the first site. They are
    delivered to the second site in their own order, and arrive in the other one
    at its receivers. -/
def twoActions : List (NetworkAction Bool) :=
  [.move false (.arrive ⟨encodeShortMessage 6 "C" [], .v4 2 7667, 0, 0⟩), .move false .check,
    .move false (.arrive ⟨encodeShortMessage 5 "B" [9], .v4 2 7667, 1, 1⟩), .move false .check,
    .deliver true 1 (fun _ => none), .move true .record, .deliver true 0 (fun _ => none)]

/-- What the receivers at the second site hear. -/
def heardFromSecond : List Arrival :=
  [⟨encodeShortMessage 1 "C" [], .v4 3 7667, 0, 0⟩,
    ⟨encodeShortMessage 0 "B" [9], .v4 3 7667, 1, 1⟩]

theorem received_across_two_sites :
    ∃ s obs r' results, twoSites.run KeyExpr.ofValid twoActions = .ok (s, obs) ∧
      receiveAll (new 10 100) heardFromSecond = .ok (r', results) ∧
      [("B", [9]), ("C", [])].Subperm
        ((((heardFromSecond.zip results).filter (fun p => p.1.src = .v4 3 7667)).filterMap
          Prod.snd).map LcmMessage.content) := by
  have hrun : ∃ s, twoSites.run KeyExpr.ofValid twoActions
      = .ok (s, [.moved false (.arrive ⟨encodeShortMessage 6 "C" [], .v4 2 7667, 0, 0⟩)
            (.received (some ⟨"C", 6, []⟩)) 0,
          .moved false .check
            (.handled (.v4 2 7667) ⟨"C", 6, []⟩ (.put ⟨"lcm/C", by decide⟩ [])) 0,
          .moved false (.arrive ⟨encodeShortMessage 5 "B" [9], .v4 2 7667, 1, 1⟩)
            (.received (some ⟨"B", 5, [9]⟩)) 1,
          .moved false .check
            (.handled (.v4 2 7667) ⟨"B", 5, [9]⟩ (.put ⟨"lcm/B", by decide⟩ [9])) 1,
          .delivered true 1 ⟨some false, ⟨"lcm/B", by decide⟩, [9]⟩ (.sampled (.sent "B" 0)),
          .moved true .record (.recorded 0) 2,
          .delivered true 0 ⟨some false, ⟨"lcm/C", by decide⟩, []⟩ (.sampled (.sent "C" 1))]) ∧
        (s.site false).receiver = .receiving ∧ s.publications.length = 2 ∧
        s.delivered = {(true, 0), (true, 1)} ∧ (s.site true).localAddr = .v4 3 7667 ∧
        (s.site true).emitted = [encodeShortMessage 0 "B" [9], encodeShortMessage 1 "C" []] :=
    ⟨_, rfl, rfl, rfl, rfl, rfl, rfl⟩
  rcases hrun with ⟨s, hrun, hdone, hlog, hdelivered, hlocal, hemitted⟩
  have htimes : ∀ a ∈ [(⟨encodeShortMessage 6 "C" [], .v4 2 7667, 0, 0⟩ : Arrival),
      ⟨encodeShortMessage 5 "B" [9], .v4 2 7667, 1, 1⟩], 0 ≤ a.now ∧ a.now ≤ reassemblyTimeout ∧
        0 ≤ a.insertNow ∧ a.insertNow ≤ reassemblyTimeout := by decide
  have hsent : Transmitted (LcmTransport.mk 1400 5)
      [⟨"B", [9], fun _ => none⟩, ⟨"C", [], fun _ => none⟩]
      [([encodeShortMessage 5 "B" [9]], .ok 5), ([encodeShortMessage 6 "C" []], .ok 6)]
      (.v4 2 7667) (new reassemblyTimeout Config.default.maxMessageSize)
      [⟨encodeShortMessage 6 "C" [], .v4 2 7667, 0, 0⟩,
        ⟨encodeShortMessage 5 "B" [9], .v4 2 7667, 1, 1⟩] := by
    exact ⟨⟨_, rfl⟩, by decide, by decide, by decide, fun _ => rfl,
      (List.Perm.swap _ _ _).subperm, fun k _ => ⟨0, fun a ha hkey =>
        ⟨src_of_key hkey, htimes a ha⟩⟩⟩
  have htimes' : ∀ a ∈ heardFromSecond,
      0 ≤ a.now ∧ a.now ≤ 10 ∧ 0 ≤ a.insertNow ∧ a.insertNow ≤ 10 := by decide
  have hheard : Heard (s.site true) 1400
      [⟨"B", [9], fun _ => none⟩, ⟨"C", [], fun _ => none⟩] (new 10 100) heardFromSecond := by
    refine ⟨by decide, by decide, by decide, fun _ => rfl, ?_,
      fun k _ => ⟨0, fun a ha hkey => ⟨src_of_key hkey, htimes' a ha⟩⟩⟩
    rw [hlocal, hemitted]
    exact List.Perm.swap _ _ _
  have hsettled : s.Settled false true := by
    intro index p hp _
    have hindex := (List.getElem?_eq_some_iff.mp hp).1
    rw [hlog] at hindex
    rw [hdelivered]
    exact (by decide : ∀ k < 2, (true, k) ∈ ({(true, 0), (true, 1)} : Finset (Bool × Nat)))
      index hindex
  rcases received_across hrun hdone (by decide) (by decide) hsent
    (fun channel seq hmem => absurd hmem (by
      simp only [List.filterMap_cons, Observation.eventAt, List.mem_cons, reduceCtorEq, if_true,
        if_false, List.filterMap_nil, List.not_mem_nil, or_self, Bool.true_eq_false,
        not_false_eq_true])) hsettled
    (fun channel error hmem => by
      simp only [List.filterMap_cons, Observation.eventAt, List.mem_cons, if_true, if_false,
        List.filterMap_nil, List.not_mem_nil, or_false, Bool.false_eq_true, Event.sampled.injEq,
        reduceCtorEq] at hmem)
    hheard (reachable_new 10 100) (by decide) (by decide) with ⟨r', results, hreceive, hsub⟩
  exact ⟨s, _, r', results, hrun, hreceive, hsub⟩

end LcmBridge
