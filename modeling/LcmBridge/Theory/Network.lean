import LcmBridge.Core.Network
import LcmBridge.Library.Charging
import LcmBridge.Theory.Transparency
import LcmBridge.Theory.WireFilter

/-!
# Runs of a Network

What the bridges of several sites do to each other, over any run.

Each site of a network is a bridge (`site_run`), so what holds of every run of
a bridge holds at every site. What is new is what passes between them. A site
sends only what has been published by somebody else, and publishes only what it
has received; each send is charged to a publication, and each publication to a
message that was completed, one to one (`deliveryTokens`, `receiverTokens`).

## Main definitions

* `Network.Move`: One move, as a relation.
* `Observation.eventAt`, `siteActions`: What happens at one site.
* `Observation.completed`, `Observation.checked`: The messages a site holds.
* `Observation.published`, `Observation.deliveredTo`: The publications.
* `receiverTokens`, `deliveryTokens`: Both as tokens.
* `Network.Checks`: A run checks a message at a site.

## Theorems

* `site_run`: A site of a network is a bridge.
* `checking_of_checked`: Before a message is handled, it is held.
* `deliverable_of_delivered`: Before a publication is delivered, it is there to be.
-/

namespace LcmBridge

variable {ι : Type} [DecidableEq ι]

namespace Network

/-- One move, from a network to a network, with what is observed of it. -/
inductive Move (tryFrom : String → Except String KeyExpr) (s : Network ι) :
    NetworkAction ι → Network ι → Observation ι → Prop where
  | move {i : ι} {a : Action} {b : Bridge} {event : Event} (hown : a.takesSample = false)
      (hstep : LcmBridge.step tryFrom (s.site i) a = .ok (b, event)) :
      Move tryFrom s (.move i a)
        { s with
          site := Function.update s.site i b
          publications := s.publications ++ (event.publication i).toList }
        (.moved i a event s.publications.length)
  | deliver {i : ι} {index : Nat} {sendTo : SendTo} {p : Publication ι} {b : Bridge}
      {event : Event} (hp : s.publications[index]? = some p) (hother : p.origin ≠ some i)
      (hnew : (i, index) ∉ s.delivered)
      (hstep : LcmBridge.step tryFrom (s.site i) (.sample p.keyExpr p.payload sendTo)
        = .ok (b, event)) :
      Move tryFrom s (.deliver i index sendTo)
        { s with
          site := Function.update s.site i b
          delivered := insert (i, index) s.delivered }
        (.delivered i index p event)
  | publish {keyExpr : KeyExpr} {payload : List UInt8} :
      Move tryFrom s (.publish keyExpr payload)
        { s with publications := s.publications ++ [⟨none, keyExpr, payload⟩] }
        (.external keyExpr payload s.publications.length)

section Steps

variable {tryFrom : String → Except String KeyExpr} {s s' : Network ι}
  {actions : List (NetworkAction ι)} {obs : List (Observation ι)} {o : Observation ι}

-- As for a bridge: in each branch that succeeds, one constructor remains.
theorem move_of_step {a : NetworkAction ι} (h : s.step tryFrom a = .ok (s', o)) :
    Move tryFrom s a s' o := by
  cases a with
  | move i a =>
      unfold step at h
      cases hown : a.takesSample with
      | true => simp only [hown, if_true, reduceCtorEq] at h
      | false =>
          cases hstep : LcmBridge.step tryFrom (s.site i) a with
          | error stop => simp only [hown, Bool.false_eq_true, if_false, hstep, reduceCtorEq] at h
          | ok out =>
              simp only [hown, Bool.false_eq_true, if_false, hstep, Except.ok.injEq,
                Prod.mk.injEq] at h
              rw [← h.1, ← h.2]
              exact Move.move hown hstep
  | deliver i index sendTo =>
      unfold step at h
      cases hp : s.publications[index]? with
      | none => simp only [hp, reduceCtorEq] at h
      | some p =>
          by_cases hnot : p.origin = some i ∨ (i, index) ∈ s.delivered
          · simp only [hp, if_pos hnot, reduceCtorEq] at h
          · cases hstep : LcmBridge.step tryFrom (s.site i) (.sample p.keyExpr p.payload sendTo) with
            | error stop => simp only [hp, if_neg hnot, hstep, reduceCtorEq] at h
            | ok out =>
                simp only [hp, if_neg hnot, hstep, Except.ok.injEq, Prod.mk.injEq] at h
                rw [← h.1, ← h.2]
                rw [not_or] at hnot
                exact Move.deliver hp hnot.1 hnot.2 hstep
  | publish keyExpr payload =>
      unfold step at h
      simp only [Except.ok.injEq, Prod.mk.injEq] at h
      rw [← h.1, ← h.2]
      exact Move.publish

theorem step_of_move {a : NetworkAction ι} (h : Move tryFrom s a s' o) :
    s.step tryFrom a = .ok (s', o) := by
  cases h with
  | move hown hstep => simp only [step, hown, Bool.false_eq_true, if_false, hstep]
  | deliver hp hother hnew hstep =>
      simp only [step, hp, hother, hnew, or_self, if_false, hstep]
  | publish => rfl

end Steps

end Network

/-! ### A site is a bridge -/

/-- What is observed at one site. -/
def Observation.eventAt (i : ι) : Observation ι → Option Event
  | .moved j _ event _ => if j = i then some event else none
  | .delivered j _ _ event => if j = i then some event else none
  | .external _ _ _ => none

/-- The move that one site makes. -/
def siteAction (i : ι) : NetworkAction ι × Observation ι → Option Action
  | (.move j a, _) => if j = i then some a else none
  | (.deliver j _ sendTo, .delivered _ _ p _) =>
      if j = i then some (.sample p.keyExpr p.payload sendTo) else none
  | _ => none

/-- The moves that one site makes in a run. -/
def siteActions (i : ι) (actions : List (NetworkAction ι)) (obs : List (Observation ι)) :
    List Action :=
  (actions.zip obs).filterMap (siteAction i)

section Sites

variable {tryFrom : String → Except String KeyExpr} {s s' : Network ι}
  {actions : List (NetworkAction ι)} {obs : List (Observation ι)} {o : Observation ι}

/-- A move of the network is a move of a site, or leaves the site alone. -/
theorem site_step {a : NetworkAction ι} (h : s.step tryFrom a = .ok (s', o)) (i : ι) :
    (∃ act event, siteAction i (a, o) = some act ∧ o.eventAt i = some event ∧
      step tryFrom (s.site i) act = .ok (s'.site i, event)) ∨
      (siteAction i (a, o) = none ∧ o.eventAt i = none ∧ s'.site i = s.site i) := by
  cases Network.move_of_step h with
  | @move j act b event _ hstep =>
      by_cases hij : j = i
      · rw [hij] at hstep
        refine Or.inl ⟨act, event, by rw [siteAction, if_pos hij],
          by rw [Observation.eventAt, if_pos hij], ?_⟩
        simp only [hij, Function.update_self, hstep]
      · exact Or.inr ⟨by rw [siteAction, if_neg hij], by rw [Observation.eventAt, if_neg hij],
          Function.update_of_ne (fun h => hij h.symm) _ _⟩
  | @deliver j index sendTo p b event _ _ _ hstep =>
      by_cases hij : j = i
      · rw [hij] at hstep
        refine Or.inl ⟨.sample p.keyExpr p.payload sendTo, event, by rw [siteAction, if_pos hij],
          by rw [Observation.eventAt, if_pos hij], ?_⟩
        simp only [hij, Function.update_self, hstep]
      · exact Or.inr ⟨by rw [siteAction, if_neg hij], by rw [Observation.eventAt, if_neg hij],
          Function.update_of_ne (fun h => hij h.symm) _ _⟩
  | publish => exact Or.inr ⟨rfl, rfl, rfl⟩

/-- What a network does at one site is a run of a bridge. -/
theorem site_run (h : s.run tryFrom actions = .ok (s', obs)) (i : ι) :
    (s.site i).run tryFrom (siteActions i actions obs)
      = .ok (s'.site i, obs.filterMap (Observation.eventAt i)) := by
  induction actions generalizing s obs with
  | nil =>
      simp only [Network.run, Machine.runAll_nil, Except.ok.injEq, Prod.mk.injEq] at h
      rw [← h.1, ← h.2]
      rfl
  | cons a actions ih =>
      rcases Machine.runAll_cons_eq_ok.mp h with ⟨u, o, obs', hstep, hrest, rfl⟩
      have hrest := ih hrest
      unfold siteActions at hrest ⊢
      rw [List.zip_cons_cons]
      rcases site_step hstep i with ⟨act, event, hact, hevent, hmove⟩ | ⟨hact, hevent, hsame⟩
      · rw [List.filterMap_cons_some hact, List.filterMap_cons_some hevent]
        exact Machine.runAll_cons_eq_ok.mpr ⟨_, _, _, hmove, hrest, rfl⟩
      · rw [List.filterMap_cons_none hact, List.filterMap_cons_none hevent, ← hsame]
        exact hrest

theorem site_config (h : s.run tryFrom actions = .ok (s', obs)) (i : ι) :
    (s'.site i).config = (s.site i).config ∧ (s'.site i).localAddr = (s.site i).localAddr := by
  exact run_config (site_run h i)

end Sites

/-! ### The messages a site holds -/

/-- The message that a datagram has completed, with its site and source. -/
def Observation.completed : Observation ι → Option (ι × SocketAddr × LcmMessage)
  | .moved i (.arrive a) (.received (some msg)) _ => some (i, a.src, msg)
  | _ => none

/-- The message that was checked, with its site and source. -/
def Observation.checked : Observation ι → Option (ι × SocketAddr × LcmMessage)
  | .moved i _ (.handled src msg _) _ => some (i, src, msg)
  | _ => none

section Messages

variable {tryFrom : String → Except String KeyExpr} {s s' : Network ι} {a : NetworkAction ι}
  {o : Observation ι}

omit [DecidableEq ι] in
theorem checked_eq_some_iff {i : ι} {src : SocketAddr} {msg : LcmMessage} :
    o.checked = some (i, src, msg) ↔
      ∃ act handling index, o = .moved i act (.handled src msg handling) index := by
  unfold Observation.checked
  constructor
  · intro h
    split at h
    · next j act src' msg' handling index =>
        simp only [Option.some.injEq, Prod.mk.injEq] at h
        rcases h with ⟨rfl, rfl, rfl⟩
        exact ⟨act, handling, index, rfl⟩
    · exact absurd h (by simp only [reduceCtorEq, not_false_eq_true])
  · intro h
    rcases h with ⟨act, handling, index, rfl⟩
    rfl

-- At another site nothing changes; at the one that moves, only a datagram leaves
-- the receiving task with a message, and only a check takes it.
theorem checking_of_step {k : ι × SocketAddr × LcmMessage}
    (hstep : s.step tryFrom a = .ok (s', o))
    (h : (s'.site k.1).receiver = .checking k.2.1 k.2.2) :
    o.completed = some k ∨
      ((s.site k.1).receiver = .checking k.2.1 k.2.2 ∧ o.checked ≠ some k) := by
  obtain ⟨i, src, msg⟩ := k
  cases Network.move_of_step hstep with
  | publish => exact Or.inr ⟨h, by simp only [Observation.checked, ne_eq, reduceCtorEq,
      not_false_eq_true]⟩
  | @deliver j index sendTo p b event _ _ _ hsite =>
      refine Or.inr ⟨?_, by simp only [Observation.checked, ne_eq, reduceCtorEq,
        not_false_eq_true]⟩
      by_cases hij : i = j
      · rw [hij] at h ⊢
        simp only [Function.update_self] at h
        cases LcmBridge.move_of_step hsite with
        | sample _ _ => exact h
      · simp only [Function.update_of_ne hij] at h
        exact h
  | @move j act b event hown hsite =>
      by_cases hij : i = j
      · rw [hij] at h ⊢
        simp only [Function.update_self] at h
        cases LcmBridge.move_of_step hsite with
        | sample _ _ => exact absurd hown (by simp only [Action.takesSample, reduceCtorEq,
            not_false_eq_true])
        | record _ => exact Or.inr ⟨h, by simp only [Observation.checked, ne_eq, reduceCtorEq,
            not_false_eq_true]⟩
        | check _ => exact absurd h (by simp only [reduceCtorEq, not_false_eq_true])
        | @arrive a reassembler msg' _ _ _ =>
            cases msg' with
            | none => exact absurd h (by simp only [Option.elim_none, reduceCtorEq,
                not_false_eq_true])
            | some msg' =>
                simp only [Option.elim_some, ReceiverTask.checking.injEq] at h
                rw [← h.1, ← h.2]
                exact Or.inl rfl
      · simp only [Function.update_of_ne hij] at h
        refine Or.inr ⟨h, fun hc => ?_⟩
        rcases checked_eq_some_iff.mp hc with ⟨_, _, _, heq⟩
        rw [Observation.moved.injEq] at heq
        exact hij heq.1.symm

theorem checking_of_checked {k : ι × SocketAddr × LcmMessage}
    (hstep : s.step tryFrom a = .ok (s', o)) (h : o.checked = some k) :
    (s.site k.1).receiver = .checking k.2.1 k.2.2 := by
  obtain ⟨i, src, msg⟩ := k
  rcases checked_eq_some_iff.mp h with ⟨act, handling, index, rfl⟩
  cases Network.move_of_step hstep with
  | move _ hsite => exact (step_eq_handled_iff.mp hsite).2.1

end Messages

/-- The message a site holds: a datagram puts it in, and a check takes it. -/
def receiverTokens (tryFrom : String → Except String KeyExpr) :
    Tokens (Network.step (ι := ι) tryFrom) Observation.completed Observation.checked where
  present s k := (s.site k.1).receiver = .checking k.2.1 k.2.2
  kept := checking_of_step
  held := checking_of_checked

/-! ### Publications and deliveries -/

/-- The publication that was made, with its place in the log. -/
def Observation.published : Observation ι → Option (Publication ι × Nat)
  | .moved i _ event index => (event.publication i).map (fun p => (p, index))
  | .external keyExpr payload index => some (⟨none, keyExpr, payload⟩, index)
  | .delivered _ _ _ _ => none

/-- A publication that a site can be given, being made by another one. -/
def Observation.publishedFor (j : ι) (o : Observation ι) : Option (Publication ι × Nat) :=
  o.published.filter (fun p => p.1.origin ≠ some j)

/-- The publication that a site was given, with its place in the log. -/
def Observation.deliveredTo (j : ι) : Observation ι → Option (Publication ι × Nat)
  | .delivered i index p _ => if i = j then some (p, index) else none
  | _ => none

/-- What a site may still be given. -/
def Network.Deliverable (s : Network ι) (j : ι) (k : Publication ι × Nat) : Prop :=
  s.publications[k.2]? = some k.1 ∧ k.1.origin ≠ some j ∧ (j, k.2) ∉ s.delivered

omit [DecidableEq ι] in
theorem publication_eq_some {event : Event} {i : ι} {p : Publication ι}
    (h : event.publication i = some p) :
    ∃ src msg, event = .handled src msg (.put p.keyExpr p.payload) ∧ p.origin = some i := by
  unfold Event.publication at h
  split at h
  · next src msg keyExpr payload =>
      rw [← Option.some.inj h]
      exact ⟨src, msg, rfl, rfl⟩
  · exact absurd h (by simp only [reduceCtorEq, not_false_eq_true])

theorem deliveredTo_eq_some_iff {o : Observation ι} {j : ι} {k : Publication ι × Nat} :
    o.deliveredTo j = some k ↔ ∃ event, o = .delivered j k.2 k.1 event := by
  constructor
  · intro h
    cases o with
    | moved i a event index =>
        exact absurd h (by simp only [Observation.deliveredTo, reduceCtorEq, not_false_eq_true])
    | external keyExpr payload index =>
        exact absurd h (by simp only [Observation.deliveredTo, reduceCtorEq, not_false_eq_true])
    | delivered i index p event =>
        simp only [Observation.deliveredTo] at h
        by_cases hij : i = j
        · rw [if_pos hij, Option.some.injEq] at h
          rw [← h, hij]
          exact ⟨event, rfl⟩
        · rw [if_neg hij] at h
          exact absurd h (by simp only [reduceCtorEq, not_false_eq_true])
  · intro h
    rcases h with ⟨event, rfl⟩
    simp only [Observation.deliveredTo, if_true]

section Publications

variable {tryFrom : String → Except String KeyExpr} {s s' : Network ι} {a : NetworkAction ι}
  {o : Observation ι} {j : ι} {k : Publication ι × Nat}

/-- The log grows by what is observed to be published. -/
theorem publications_of_step (hstep : s.step tryFrom a = .ok (s', o)) :
    s'.publications = s.publications ++ (o.published.map Prod.fst).toList ∧
      ∀ k, o.published = some k → k.2 = s.publications.length := by
  cases Network.move_of_step hstep with
  | @move i act b event _ _ =>
      simp only [Observation.published, Option.map_map, Option.map_eq_some_iff]
      refine ⟨?_, ?_⟩
      · cases event.publication i <;> rfl
      · intro k h
        rcases h with ⟨p, _, rfl⟩
        rfl
  | deliver _ _ _ _ =>
      refine ⟨(List.append_nil _).symm, fun k hk => ?_⟩
      exact absurd hk (by simp only [Observation.published, reduceCtorEq, not_false_eq_true])
  | publish =>
      refine ⟨rfl, fun k hk => ?_⟩
      rw [← Option.some.inj hk]

theorem delivered_of_step (hstep : s.step tryFrom a = .ok (s', o)) (h : (j, k.2) ∉ s'.delivered) :
    (j, k.2) ∉ s.delivered ∧ o.deliveredTo j ≠ some k := by
  cases Network.move_of_step hstep with
  | move _ _ =>
      exact ⟨h, by simp only [Observation.deliveredTo, ne_eq, reduceCtorEq, not_false_eq_true]⟩
  | publish =>
      exact ⟨h, by simp only [Observation.deliveredTo, ne_eq, reduceCtorEq, not_false_eq_true]⟩
  | deliver _ _ _ _ =>
      rw [Finset.mem_insert, not_or] at h
      refine ⟨h.2, fun hd => h.1 ?_⟩
      rcases deliveredTo_eq_some_iff.mp hd with ⟨_, heq⟩
      rw [Observation.delivered.injEq] at heq
      rw [heq.1, heq.2.1]

theorem deliverable_of_step (hstep : s.step tryFrom a = .ok (s', o)) (h : s'.Deliverable j k) :
    o.publishedFor j = some k ∨ (s.Deliverable j k ∧ o.deliveredTo j ≠ some k) := by
  rcases h with ⟨hp, horigin, hnew⟩
  rcases publications_of_step hstep with ⟨hlog, hindex⟩
  rcases delivered_of_step hstep hnew with ⟨hold, hnot⟩
  rw [hlog] at hp
  by_cases hlt : k.2 < s.publications.length
  · rw [List.getElem?_append_left hlt] at hp
    exact Or.inr ⟨⟨hp, horigin, hold⟩, hnot⟩
  · -- A new place in the log is what this move has published.
    rw [List.getElem?_append_right (Nat.le_of_not_lt hlt)] at hp
    cases hpub : o.published with
    | none =>
        rw [hpub] at hp
        exact absurd hp (by simp only [Option.map_none, Option.toList_none, List.getElem?_nil,
          reduceCtorEq, not_false_eq_true])
    | some k' =>
        rw [hpub, Option.map_some, Option.toList_some, List.getElem?_singleton] at hp
        have hk' := hindex k' hpub
        have hzero : k.2 - s.publications.length = 0 := by
          by_contra hne
          rw [if_neg hne] at hp
          exact absurd hp (by simp only [reduceCtorEq, not_false_eq_true])
        rw [if_pos hzero, Option.some.injEq] at hp
        have hkk : k' = k := Prod.ext hp (by omega)
        rw [hkk] at hpub
        refine Or.inl ?_
        rw [Observation.publishedFor, hpub, Option.filter_some, if_pos (decide_eq_true horigin)]

theorem deliverable_of_delivered (hstep : s.step tryFrom a = .ok (s', o))
    (h : o.deliveredTo j = some k) : s.Deliverable j k := by
  rcases deliveredTo_eq_some_iff.mp h with ⟨event, rfl⟩
  cases Network.move_of_step hstep with
  | deliver hp hother hnew _ => exact ⟨hp, hother, hnew⟩

end Publications

/-- The publications a site may be given: publishing puts them in, and a
    delivery takes them. -/
def deliveryTokens (tryFrom : String → Except String KeyExpr) (j : ι) :
    Tokens (Network.step tryFrom) (Observation.publishedFor j) (Observation.deliveredTo j) where
  present s k := s.Deliverable j k
  kept := deliverable_of_step
  held := deliverable_of_delivered

end LcmBridge
