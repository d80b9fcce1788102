import LcmBridge.Library.Classes
import LcmBridge.Theory.Publishers
import LcmBridge.Theory.SentWindow

/-!
# Many Messages on a Lossy Network

What a receiver gets of everything a transport sends.

A transport sends one message after another. Some of the sends fail, after
some of their datagrams. On the way datagrams are lost and come in any order,
those of different messages mixed with each other and with whatever other
publishers send, well formed or not. The wire must be able to carry the messages
and the receiver have room for them, and the network repeats nothing and is fast
enough (`Transmitted`). What the receiver then delivers from this sender are, up
to order, the messages whose `send` succeeded and whose datagrams have all
arrived, each once, with its channel, its number and its bytes.

The numbers are what holds a message together. The counter gives different
ones to up to 2^32 messages, so the datagrams of a message are those that are
read with its number (`numbered_of_outcome`, `filter_flatten_class`). The
isolation of publishers takes away everything else, and what is left of one
message has been dealt with: all of its datagrams deliver it
(`receive_emitted`), and those of a `send` that failed deliver nothing
(`receive_below`).

## Main definitions

* `Request`, `sendAll`: A sequence of calls of `send`.
* `expected`: What is to be delivered of one of them.
* `Transmitted`: What is asked of the messages, the network and the receiver.

## Theorems

* `sendAll_getElem`: Each call, and the transport it starts from.
* `numbered_of_outcome`: The datagrams of a message carry its number.
* `receive_part`: What some of its datagrams deliver.
* `burst_delivered`: What is delivered of all of them.
-/

namespace LcmBridge

open Bytes Checked FragmentReassembler

/-! ### A sequence of sends -/

/-- One call of `send`, with the socket's answers. -/
structure Request where
  channel : String
  data : List UInt8
  sendTo : SendTo

/-- One call of `send` after another, with what each emits and returns. -/
def sendAll (t : LcmTransport) (requests : List Request) :
    Exec (LcmTransport × List (List Datagram × Except IoError UInt32)) :=
  Machine.runAll (fun t q => t.send q.sendTo q.channel q.data) t requests

/-- The transport after so many calls. -/
def LcmTransport.after (t : LcmTransport) (k : Nat) : LcmTransport :=
  { t with sequenceCounter := t.sequenceCounter + UInt32.ofNat k }

section Requests

variable {t t' : LcmTransport} {requests : List Request}
  {outs : List (List Datagram × Except IoError UInt32)}

theorem sendAll_transport (h : sendAll t requests = .ok (t', outs)) :
    t' = t.after requests.length := by
  -- Induction on the end of the sequence, each call advancing the counter.
  induction requests using List.reverseRecOn generalizing t' outs with
  | nil =>
      simp only [sendAll, Machine.runAll_nil, Except.ok.injEq, Prod.mk.injEq] at h
      rw [← h.1, LcmTransport.after, List.length_nil]
      exact congrArg (LcmTransport.mk t.fragmentMtu) (UInt32.add_zero _).symm
  | append_singleton requests q ih =>
      rcases Machine.runAll_concat.mp h with ⟨u, outs', out, hpre, hlast, _⟩
      have hu := ih hpre
      have hadv := (outcome_of_send hlast).1
      rw [hadv, hu, List.length_append, List.length_singleton, LcmTransport.after,
        LcmTransport.after, LcmTransport.advanced, UInt32.ofNat_add, ← UInt32.add_assoc]
      rfl

/-- Each call, with the transport the earlier ones have left. -/
theorem sendAll_getElem (h : sendAll t requests = .ok (t', outs)) {k : Nat}
    {out : List Datagram × Except IoError UInt32} (hk : outs[k]? = some out) :
    ∃ q, requests[k]? = some q ∧ out = outcome (t.after k) q.sendTo q.channel q.data ∧
      (t.after k).send q.sendTo q.channel q.data = .ok ((t.after k).advanced, out) := by
  rcases (Machine.runAll_getElem? h k out).mp hk with
    ⟨pre, q, post, u, u', outs', rfl, rfl, hpre, hstep⟩
  have hu := sendAll_transport hpre
  rw [hu] at hstep
  rcases outcome_of_send hstep with ⟨hadv, _, hout⟩
  refine ⟨q, ?_, hout, by rw [← hadv]; exact hstep⟩
  rw [List.getElem?_append_right (Nat.le_refl _), Nat.sub_self, List.getElem?_cons_zero]

end Requests

/-! ### The datagrams of one message -/

section Message

variable {self : LcmTransport} {sendTo : SendTo} {channel : String} {data : List UInt8}
  {emitted : List Datagram} {result : Except IoError UInt32}

theorem numbered_fragmentDatagram {mtu : Nat} {seq : UInt32} {n : UInt16} (hnul : NulFree channel)
    (hlen : data.length < 4294967296) {i : Nat} (hi : i < n.toNat) :
    NumberedAs (fragmentDatagram mtu seq n channel data i) seq := by
  have hcar : Carriers (fragmentDatagram mtu seq n channel data)
      (cutFragment mtu seq n channel data) seq (UInt32.ofNat data.length) n channel :=
    carriers_cutFragment hnul (by unfold usizeBound; omega)
  rw [NumberedAs, hcar.parses i hi, Option.map_some, Packet.sequenceNumber,
    hcar.family.sequence_eq i hi]

/-- All datagrams of a `send` are read with the number it has taken. -/
theorem numbered_of_outcome (hout : (emitted, result) = outcome self sendTo channel data)
    (hnul : NulFree channel) (hlen : data.length < 4294967296) :
    ∀ d ∈ emitted, NumberedAs d self.sequenceCounter := by
  intro d hd
  cases result with
  | error err =>
      rcases emitted_of_error hout with ⟨n, j, hj, rfl⟩
      rcases List.mem_map.mp hd with ⟨i, hi, rfl⟩
      exact numbered_fragmentDatagram hnul hlen (Nat.lt_trans (List.mem_range.mp hi) hj)
  | ok seq =>
      have hseq := seq_of_outcome hout
      rcases emitted_cases hout with ⟨_, rfl⟩ | ⟨_, _, rfl⟩
      · rw [List.mem_singleton.mp hd, NumberedAs, parse_encodeShortMessage,
          readName_append _ _ ((nulFree_iff channel).mp hnul), hseq]
        rfl
      · rcases List.mem_map.mp hd with ⟨i, hi, rfl⟩
        rw [← hseq]
        exact numbered_fragmentDatagram hnul hlen (List.mem_range.mp hi)

/-- Members below a number complete nothing. -/
theorem receive_below {datagram : Nat → Datagram} {frag : Nat → Fragment}
    {sequenceNumber payloadSize : UInt32} {nFragments : UInt16} {sender : SocketAddr} {j : Nat}
    (hcar : Carriers datagram frag sequenceNumber payloadSize nFragments channel)
    (hj : j < nFragments.toNat) {arrivals : List Arrival} :
    ∀ {r : FragmentReassembler},
      BuiltBelow frag payloadSize nFragments channel j (r.pending (sender, sequenceNumber)) →
      (∀ a ∈ arrivals, a.src = sender ∧ a.datagram ∈ (List.range j).map datagram) →
      ∃ r', receiveAll r arrivals = .ok (r', List.replicate arrivals.length none) := by
  induction arrivals with
  | nil => exact fun _ _ => ⟨_, rfl⟩
  | cons a arrivals ih =>
      intro r hbelow harr
      rcases harr a List.mem_cons_self with ⟨hsrc, hdata⟩
      rcases List.mem_map.mp hdata with ⟨i, hi, hdata⟩
      rw [List.mem_range] at hi
      have hswept : BuiltBelow frag payloadSize nFragments channel j
          ((r.expireStale a.now).pending (sender, sequenceNumber)) := builtBelow_filter hbelow _
      have hvalid : SlotValid ((r.expireStale a.now).pending (sender, sequenceNumber)) := by
        intro set hset
        rcases hswept set hset with ⟨parts, hfrom, _⟩
        exact hfrom.valid
      have hoffer : BuiltBelow frag payloadSize nFragments channel j
            (offer r.maxMessageSize (frag i) a.insertNow
              ((r.expireStale a.now).pending (sender, sequenceNumber))).1 ∧
          (offer r.maxMessageSize (frag i) a.insertNow
            ((r.expireStale a.now).pending (sender, sequenceNumber))).2 = none :=
        offer_builtBelow hcar.family hj hi hswept
      have hstep := handle_member hcar (by omega) hdata.symm hsrc rfl hvalid
      rw [hoffer.2] at hstep
      rcases ih
          (r := ⟨Function.update (r.expireStale a.now).pending (sender, sequenceNumber)
            (offer r.maxMessageSize (frag i) a.insertNow
              ((r.expireStale a.now).pending (sender, sequenceNumber))).1,
            r.timeout, r.maxMessageSize⟩)
          (by dsimp only; rw [Function.update_self]; exact hoffer.1)
          (fun b hb => harr b (List.mem_cons_of_mem a hb)) with ⟨r', hrest⟩
      refine ⟨r', Machine.runAll_cons_eq_ok.mpr ⟨_, _, _, hstep, hrest, ?_⟩⟩
      rw [List.length_cons, List.replicate_succ]

/-- What is to be delivered of a message, if these datagrams arrive. -/
def expected (arrived : List Datagram) (q : Request)
    (out : List Datagram × Except IoError UInt32) : Option LcmMessage :=
  match out.2 with
  | .ok seq => if out.1.all arrived.contains then some ⟨q.channel, seq, q.data⟩ else none
  | .error _ => none

theorem all_contains_iff {ds arrived : List Datagram} :
    ds.all arrived.contains = true ↔ ds ⊆ arrived := by
  simp only [List.all_eq_true, List.contains_iff_mem]
  rfl

/-- Some of the datagrams of a `send`, each at most once and in time: they
    deliver the message if it was sent and they are all of them, and nothing
    otherwise. -/
theorem receive_part {q : Request} (hout : (emitted, result) = outcome self q.sendTo q.channel q.data)
    (hnul : NulFree q.channel) (hlen : q.data.length < 4294967296)
    (hcount : fragmentsNeeded self.fragmentMtu q.channel q.data.length ≤ 65535)
    {r : FragmentReassembler} (hmax : q.data.length ≤ r.maxMessageSize) {sender : SocketAddr}
    (hpending : r.pending (sender, self.sequenceCounter) = none) {opened : Instant}
    {arrivals : List Arrival} (hpart : (arrivals.map Arrival.datagram).Subperm emitted)
    (htime : ∀ a ∈ arrivals, Timely sender opened r.timeout a) :
    ∃ r' results, receiveAll r arrivals = .ok (r', results) ∧
      results.filterMap id
        = (expected (arrivals.map Arrival.datagram) q (emitted, result)).toList := by
  cases result with
  | error err =>
      rcases emitted_of_error hout with ⟨n, j, hj, rfl⟩
      have hcar : Carriers (fragmentDatagram self.fragmentMtu self.sequenceCounter n q.channel q.data)
          (cutFragment self.fragmentMtu self.sequenceCounter n q.channel q.data)
          self.sequenceCounter (UInt32.ofNat q.data.length) n q.channel :=
        carriers_cutFragment hnul (by unfold usizeBound; omega)
      have hnone : BuiltBelow
          (cutFragment self.fragmentMtu self.sequenceCounter n q.channel q.data)
          (UInt32.ofNat q.data.length) n q.channel j (r.pending (sender, self.sequenceCounter)) := by
        intro set hset
        rw [hpending] at hset
        exact absurd hset (by simp only [reduceCtorEq, not_false_eq_true])
      rcases receive_below hcar hj hnone (fun a ha =>
        ⟨(htime a ha).1, hpart.subset (List.mem_map_of_mem ha)⟩) with ⟨r', hrun⟩
      refine ⟨r', _, hrun, ?_⟩
      rw [expected, List.filterMap_replicate_of_none (by rfl)]
      rfl
  | ok seq =>
      have hseq := seq_of_outcome hout
      have hnodup := emitted_nodup hout hnul hlen hcount
      rcases List.eq_nil_or_concat' arrivals with rfl | ⟨pre, a, rfl⟩
      · refine ⟨r, [], rfl, ?_⟩
        have hnot : ¬ emitted ⊆ [] :=
          fun hall => emitted_ne_nil hout hcount (List.subset_nil.mp hall)
        rw [expected, List.map_nil]
        dsimp only
        rw [if_neg (fun hall => hnot (all_contains_iff.mp hall))]
        rfl
      · -- The last arrival is none of the others, so one was missing before it.
        have hmissing : ¬ emitted ⊆ pre.map Arrival.datagram := by
          intro hsub
          rcases hpart with ⟨l, hperm, hle⟩
          have hnodup' := hperm.nodup_iff.mp (hle.nodup hnodup)
          rw [List.map_append, List.map_singleton, List.nodup_append] at hnodup'
          have hmem : a.datagram ∈ emitted :=
            hle.subset (hperm.symm.subset (List.mem_map_of_mem List.mem_concat_self))
          exact hnodup'.2.2 _ (hsub hmem) _ List.mem_cons_self rfl
        rw [← hseq] at hpending
        rcases receive_emitted hout hnul hlen hcount hmax hpending
          (fun b hb => ⟨hpart.subset (List.mem_map_of_mem hb), htime b hb⟩) hmissing with
          ⟨r', hrun⟩
        refine ⟨r', _, hrun, ?_⟩
        rw [List.filterMap_append, List.filterMap_replicate_of_none (by rfl), List.nil_append,
          expected]
        dsimp only
        by_cases hall : emitted ⊆ (pre ++ [a]).map Arrival.datagram
        · rw [if_pos hall, if_pos (all_contains_iff.mpr hall)]
          rfl
        · rw [if_neg hall, if_neg (fun hsub => hall (all_contains_iff.mp hsub))]
          rfl

end Message

/-! ### All messages -/

/-- The number a datagram is read with. -/
def readNumber (d : Datagram) : Option UInt32 := (parseDatagram d).map Packet.sequenceNumber

/-- The key of an arrival is its sender and the number it is read with. -/
theorem key_any_eq (a : Arrival) (sender : SocketAddr) (seq : UInt32) :
    a.key.any (fun k => k = (sender, seq))
      = (decide (a.src = sender) && decide (readNumber a.datagram = some seq)) := by
  rw [Arrival.key, readNumber]
  cases parseDatagram a.datagram with
  | none => simp only [Option.map_none, Option.any_none, reduceCtorEq, decide_false, Bool.and_false]
  | some packet =>
      simp only [Option.map_some, Option.any_some, Prod.mk.injEq, Bool.decide_and,
        Option.some.injEq]

/-- Only the datagrams of a message decide whether it is expected. -/
theorem expected_congr {arrived arrived' : List Datagram} {q : Request}
    {out : List Datagram × Except IoError UInt32}
    (h : ∀ d ∈ out.1, d ∈ arrived ↔ d ∈ arrived') : expected arrived q out = expected arrived' q out := by
  unfold expected
  cases out.2 with
  | error err => rfl
  | ok seq =>
      have hiff : out.1 ⊆ arrived ↔ out.1 ⊆ arrived' := forall₂_congr h
      simp only [all_contains_iff, hiff]

/-- The numbers of up to 2^32 messages are different. -/
theorem number_inj {first : UInt32} {n : Nat} (hn : n ≤ 4294967296) :
    ∀ i < n, ∀ j < n, some (first + UInt32.ofNat i) = some (first + UInt32.ofNat j) → i = j := by
  intro i hi j hj h
  have hnat := congrArg UInt32.toNat ((UInt32.add_right_inj first).mp (Option.some.inj h))
  rw [UInt32.toNat_ofNat', UInt32.toNat_ofNat', Nat.mod_eq_of_lt (by omega),
    Nat.mod_eq_of_lt (by omega)] at hnat
  exact hnat

/-- The datagrams that arrive from a sender. -/
def arrivedFrom (sender : SocketAddr) (arrivals : List Arrival) : List Datagram :=
  (arrivals.filter (fun a => a.src = sender)).map Arrival.datagram

/-- A transport sends messages that the wire can carry and the receiver has room
    for. The network loses and reorders datagrams, but it does not repeat them,
    and it has none from the sender that was not emitted. What arrives of one
    message arrives within the timeout. -/
structure Transmitted (t : LcmTransport) (requests : List Request)
    (outs : List (List Datagram × Except IoError UInt32)) (sender : SocketAddr)
    (r : FragmentReassembler) (arrivals : List Arrival) : Prop where
  sends : ∃ t', sendAll t requests = .ok (t', outs)
  count : requests.length ≤ 4294967296
  fits : ∀ q ∈ requests, NulFree q.channel ∧ q.data.length < 4294967296 ∧
    fragmentsNeeded t.fragmentMtu q.channel q.data.length ≤ 65535
  room : ∀ q ∈ requests, q.data.length ≤ r.maxMessageSize
  nothing_pending : ∀ seq, r.pending (sender, seq) = none
  network : (arrivedFrom sender arrivals).Subperm (outs.map Prod.fst).flatten
  timely : ∀ k < requests.length, ∃ opened, ∀ a ∈ arrivals,
    a.key = some (sender, t.sequenceCounter + UInt32.ofNat k) → Timely sender opened r.timeout a

section Everything

variable {t : LcmTransport} {requests : List Request}
  {outs : List (List Datagram × Except IoError UInt32)} {sender : SocketAddr}
  {r : FragmentReassembler} {arrivals : List Arrival}

theorem Transmitted.length_eq (h : Transmitted t requests outs sender r arrivals) :
    outs.length = requests.length := by
  rcases h.sends with ⟨t', hsends⟩
  exact Machine.runAll_length hsends

/-- Each message's datagrams are read with the number of its place. -/
theorem Transmitted.numbered (h : Transmitted t requests outs sender r arrivals) (k : Nat)
    (part : List Datagram) (hk : (outs.map Prod.fst)[k]? = some part) :
    ∀ d ∈ part, readNumber d = some (t.sequenceCounter + UInt32.ofNat k) := by
  rw [List.getElem?_map, Option.map_eq_some_iff] at hk
  rcases hk with ⟨⟨emitted, result⟩, hout, rfl⟩
  rcases h.sends with ⟨t', hsends⟩
  rcases sendAll_getElem hsends hout with ⟨q, hq, houtcome, _⟩
  rcases h.fits q (List.mem_of_getElem? hq) with ⟨hnul, hlen, _⟩
  exact numbered_of_outcome houtcome hnul hlen

/-- The datagrams that arrive under the number of a message are some of its
    own. -/
theorem Transmitted.part (h : Transmitted t requests outs sender r arrivals) {k : Nat}
    {out : List Datagram × Except IoError UInt32} (hk : outs[k]? = some out) :
    ((arrivedFrom sender arrivals).filter
      (fun d => readNumber d = some (t.sequenceCounter + UInt32.ofNat k))).Subperm out.1 := by
  have hlength : (outs.map Prod.fst).length ≤ 4294967296 := by
    rw [List.length_map, h.length_eq]
    exact h.count
  have hpart : (outs.map Prod.fst)[k]? = some out.1 := by
    rw [List.getElem?_map, hk]
    rfl
  have hown : (outs.map Prod.fst).flatten.filter
      (fun d => readNumber d = some (t.sequenceCounter + UInt32.ofNat k)) = out.1 :=
    filter_flatten_class (c := fun k => some (t.sequenceCounter + UInt32.ofNat k))
      (number_inj hlength) h.numbered hpart
  have hsub := h.network.filter
    (fun d => decide (readNumber d = some (t.sequenceCounter + UInt32.ofNat k)))
  rw [hown] at hsub
  exact hsub

/-- What is delivered under the number of a message. -/
theorem Transmitted.delivered (h : Transmitted t requests outs sender r arrivals)
    (hreach : r.Reachable) (hmem : ∀ a ∈ arrivals, a.datagram.length ≤ isizeMax)
    (hclock : ArrivalsOrdered arrivals) {r' : FragmentReassembler}
    {results : List (Option LcmMessage)} (hrun : receiveAll r arrivals = .ok (r', results))
    {k : Nat} {q : Request} {out : List Datagram × Except IoError UInt32}
    (hq : requests[k]? = some q) (hk : outs[k]? = some out) :
    ((arrivals.zip results).filter (fun p => p.1.key.any
        (fun key => key = (sender, t.sequenceCounter + UInt32.ofNat k)))).filterMap Prod.snd
      = (expected (arrivedFrom sender arrivals) q out).toList := by
  rcases h.sends with ⟨t', hsends⟩
  rcases sendAll_getElem hsends hk with ⟨q', hq', hout, _⟩
  rw [hq, Option.some.injEq] at hq'
  rw [← hq'] at hout
  rcases h.fits q (List.mem_of_getElem? hq) with ⟨hnul, hlen, hcount⟩
  rcases h.timely k (List.getElem?_eq_some_iff.mp hq).1 with ⟨opened, htime⟩
  -- The arrivals under the number, and what they deliver alone.
  let own := arrivals.filter
    (fun a => a.key.any (fun key => key = (sender, t.sequenceCounter + UInt32.ofNat k)))
  have hown : own.map Arrival.datagram = (arrivedFrom sender arrivals).filter
      (fun d => readNumber d = some (t.sequenceCounter + UInt32.ofNat k)) := by
    rw [arrivedFrom, List.filter_map, List.filter_filter]
    refine congrArg (List.map Arrival.datagram) (List.filter_congr (fun a _ => ?_))
    rw [key_any_eq, Bool.and_comm]
    rfl
  have hpart := h.part hk
  rw [← hown] at hpart
  have htime' : ∀ a ∈ own, Timely sender opened r.timeout a := by
    intro a ha
    rcases List.mem_filter.mp ha with ⟨ha, hkey⟩
    rcases (Option.any_eq_true _ _).mp hkey with ⟨key, hkey, heq⟩
    rw [of_decide_eq_true heq] at hkey
    exact htime a ha hkey
  rcases receive_part hout hnul hlen hcount (h.room q (List.mem_of_getElem? hq))
    (h.nothing_pending _) hpart htime' with ⟨alone, results', halone, hresults'⟩
  -- They deliver the same among all the others.
  have hsame := filter_results (reachable_allValid hreach) hmem hclock
    (fun key => key = (sender, t.sequenceCounter + UInt32.ofNat k)) hrun halone
  have hmap : ∀ ps : List (Arrival × Option LcmMessage),
      ps.filterMap Prod.snd = (ps.map Prod.snd).filterMap id := by
    intro ps
    rw [List.filterMap_map]
    rfl
  rw [hmap, hsame, hresults']
  -- Whether it has all arrived is decided by its own datagrams.
  refine congrArg Option.toList (expected_congr (fun d hd => ?_))
  rw [hown, List.mem_filter]
  have hnumber := h.numbered k out.1 (by rw [List.getElem?_map, hk]; rfl) d hd
  simp only [hnumber, decide_true, and_true]

/-- What is delivered from the sender, message by message. -/
theorem Transmitted.delivered_perm (h : Transmitted t requests outs sender r arrivals)
    (hreach : r.Reachable) (hmem : ∀ a ∈ arrivals, a.datagram.length ≤ isizeMax)
    (hclock : ArrivalsOrdered arrivals) {r' : FragmentReassembler}
    {results : List (Option LcmMessage)} (hrun : receiveAll r arrivals = .ok (r', results)) :
    (((arrivals.zip results).filter (fun p => p.1.src = sender)).filterMap Prod.snd).Perm
      ((requests.zip outs).filterMap
        (fun p => expected (arrivedFrom sender arrivals) p.1 p.2)) := by
  -- By message: each arrival from the sender is read with a number of one.
  have hclass : ∀ p ∈ (arrivals.zip results).filter (fun p => p.1.src = sender),
      ∃ k < requests.length,
        readNumber p.1.datagram = some (t.sequenceCounter + UInt32.ofNat k) := by
    intro p hp
    rcases List.mem_filter.mp hp with ⟨hp, hsrc⟩
    have harrived : p.1.datagram ∈ arrivedFrom sender arrivals :=
      List.mem_map_of_mem (List.mem_filter.mpr ⟨(List.of_mem_zip hp).1, hsrc⟩)
    rcases List.mem_flatten.mp (h.network.subset harrived) with ⟨part, hpart, hd⟩
    rcases List.mem_iff_getElem?.mp hpart with ⟨k, hk⟩
    refine ⟨k, ?_, h.numbered k part hk _ hd⟩
    rw [← h.length_eq, ← List.length_map (f := Prod.fst)]
    exact (List.getElem?_eq_some_iff.mp hk).1
  have hsplit := (perm_flatMap_filter (c := fun k => some (t.sequenceCounter + UInt32.ofNat k))
    (number_inj h.count) hclass).filterMap Prod.snd
  refine hsplit.trans (List.Perm.of_eq ?_)
  rw [List.filterMap_flatMap, filterMap_eq_flatMap_range _ (requests.zip outs), List.length_zip,
    h.length_eq, Nat.min_self]
  refine List.flatMap_congr (fun k hk => ?_)
  have hk := List.mem_range.mp hk
  have hk' : k < outs.length := by
    rw [h.length_eq]
    exact hk
  have hq : requests[k]? = some requests[k] := List.getElem?_eq_getElem hk
  have hout : outs[k]? = some outs[k] := List.getElem?_eq_getElem hk'
  have hzip : (requests.zip outs)[k]? = some (requests[k], outs[k]) :=
    List.getElem?_zip_eq_some.mpr ⟨hq, hout⟩
  rw [hzip, Option.bind_some, ← h.delivered hreach hmem hclock hrun hq hout, List.filter_filter]
  refine congrArg (List.filterMap Prod.snd) (List.filter_congr (fun p _ => ?_))
  rw [key_any_eq, Bool.and_comm]

end Everything

/-- What a receiver in a reachable state delivers from one sender, out of
    everything that arrives, if they are transmitted like this: the messages
    whose `send` succeeded and whose datagrams have all arrived, each exactly
    once, in some order. -/
theorem burst_delivered {t : LcmTransport} {requests : List Request}
    {outs : List (List Datagram × Except IoError UInt32)} {sender : SocketAddr}
    {r : FragmentReassembler} {arrivals : List Arrival}
    (h : Transmitted t requests outs sender r arrivals) (hreach : r.Reachable)
    (hmem : ∀ a ∈ arrivals, a.datagram.length ≤ isizeMax) (hclock : ArrivalsOrdered arrivals) :
    ∃ r' results, receiveAll r arrivals = .ok (r', results) ∧
      (((arrivals.zip results).filter (fun p => p.1.src = sender)).filterMap Prod.snd).Perm
        ((requests.zip outs).filterMap
          (fun p => expected (arrivedFrom sender arrivals) p.1 p.2)) := by
  have hrun := receiveAll_eq (reachable_allValid hreach) hmem
  exact ⟨_, _, hrun, h.delivered_perm hreach hmem hclock hrun⟩

theorem src_of_key {a : Arrival} {sender : SocketAddr} {seq : UInt32}
    (h : a.key = some (sender, seq)) : a.src = sender := by
  rw [Arrival.key, Option.map_eq_some_iff] at h
  rcases h with ⟨packet, _, heq⟩
  exact congrArg Prod.fst heq

/-! ### Four messages -/

/-- A socket that refuses the second datagram. -/
def refuseSecond : SendTo := fun i => if i = 1 then some (.os 101) else none

/-- Four messages. The first and the third need two datagrams, and sending the
    third fails after one of them. -/
def burstRequests : List Request :=
  [⟨"P", (List.range 24).map UInt8.ofNat, fun _ => none⟩, ⟨"B", [3], fun _ => none⟩,
    ⟨"P", List.replicate 24 5, refuseSecond⟩, ⟨"C", [], fun _ => none⟩]

/-- The first of these datagrams. -/
def burstHead (first : UInt32) : Datagram :=
  encodeFragment first 24 0 0 2 (some "P") ((List.range 11).map UInt8.ofNat)

def burstTail (first : UInt32) : Datagram :=
  encodeFragment first 24 11 1 2 none ((List.range' 11 13).map UInt8.ofNat)

/-- What is out of the third message when sending it fails. -/
def burstHalf (first : UInt32) : Datagram :=
  encodeFragment (first + 2) 24 0 0 2 (some "P") (List.replicate 11 5)

/-- What the four calls emit and return, if the first takes this number. -/
def burstOuts (first : UInt32) : List (List Datagram × Except IoError UInt32) :=
  [([burstHead first, burstTail first], .ok first),
    ([encodeShortMessage (first + 1) "B" [3]], .ok (first + 1)),
    ([burstHalf first], .error (.os 101)),
    ([encodeShortMessage (first + 3) "C" []], .ok (first + 3))]

/-- The second message is lost, and the others come out of order. In between
    come the messages of two other publishers. -/
def burstArrivals (first : UInt32) : List Arrival :=
  [⟨encodeShortMessage (first + 3) "C" [], .v4 1 7667, 0, 0⟩, ⟨burstTail first, .v4 1 7667, 1, 1⟩,
    ⟨encodeShortMessage 7 "A" [6], .v4 2 5000, 1, 1⟩,
    ⟨encodeShortMessage 0 "X" [8], .v4 9 7667, 1, 1⟩, ⟨burstHalf first, .v4 1 7667, 2, 3⟩,
    ⟨burstHead first, .v4 1 7667, 4, 4⟩]

theorem burst_transmitted {first : UInt32} (hfirst : first = 0 ∨ first = 7)
    {r : FragmentReassembler} (hroom : 24 ≤ r.maxMessageSize) (htimeout : 4 ≤ r.timeout)
    (hpending : ∀ key, r.pending key = none) :
    Transmitted (LcmTransport.mk 33 first) burstRequests (burstOuts first) (.v4 1 7667) r
      (burstArrivals first) where
  sends := by rcases hfirst with rfl | rfl <;> exact ⟨_, rfl⟩
  count := by decide
  fits := by
    show ∀ q ∈ burstRequests, NulFree q.channel ∧ q.data.length < 4294967296 ∧
      fragmentsNeeded 33 q.channel q.data.length ≤ 65535
    decide
  room := by
    have hlength : ∀ q ∈ burstRequests, q.data.length ≤ 24 := by decide
    exact fun q hq => Nat.le_trans (hlength q hq) hroom
  nothing_pending _ := hpending _
  network := by rcases hfirst with rfl | rfl <;> decide
  timely k _ := by
    have htimes : ∀ a ∈ burstArrivals first,
        0 ≤ a.now ∧ a.now ≤ 4 ∧ 0 ≤ a.insertNow ∧ a.insertNow ≤ 4 := by
      rcases hfirst with rfl | rfl <;> decide
    refine ⟨0, fun a ha hkey => ⟨src_of_key hkey, ?_⟩⟩
    rcases htimes a ha with ⟨hnow, hnow', hinsert, hinsert'⟩
    rw [Nat.zero_add]
    exact ⟨hnow, Nat.le_trans hnow' htimeout, hinsert, Nat.le_trans hinsert' htimeout⟩

theorem burst_delivered_one_lost :
    ∃ t' r' results, sendAll (LcmTransport.mk 33 7) burstRequests = .ok (t', burstOuts 7) ∧
      receiveAll (new 10 100) (burstArrivals 7) = .ok (r', results) ∧
      ((((burstArrivals 7).zip results).filter (fun p => p.1.src = .v4 1 7667)).filterMap
        Prod.snd).Perm [⟨"P", 7, (List.range 24).map UInt8.ofNat⟩, ⟨"C", 10, []⟩] := by
  have htransmitted : Transmitted (LcmTransport.mk 33 7) burstRequests (burstOuts 7) (.v4 1 7667)
      (new 10 100) (burstArrivals 7) :=
    burst_transmitted (Or.inr rfl) (by decide) (by decide) (fun _ => rfl)
  rcases htransmitted.sends with ⟨t', hsends⟩
  rcases burst_delivered htransmitted (reachable_new 10 100) (by decide) (by decide) with
    ⟨r', results, hrun, hperm⟩
  exact ⟨t', r', results, hsends, hrun, hperm⟩

end LcmBridge
