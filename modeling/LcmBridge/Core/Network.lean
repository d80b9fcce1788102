import LcmBridge.Core.Bridge

/-!
# A Network of Bridges

Several sites, each with a bridge on its own multicast group, joined by Zenoh.

What a bridge hands to `put` is published to the other Zenoh nodes. Both the
publication and the subscription of a bridge are restricted to remote
localities, so a site never takes a sample it has published itself. Zenoh keeps
nothing of a publication in order: it may reach one site long before another,
or not at all. What Zenoh is trusted with is that a site is given a publication
at most once, and that what it is given has been published.

Other Zenoh applications may publish anything at any time. On the side of LCM
each site has the environment that the bridge alone has: arbitrary datagrams
from other addresses, and copies of the bridge's own.

A step is one move of one site, or a publication by another application. The
publications are a log, so that a publication is known by its place in it.

## Main definitions

* `Publication`: What is published, and by which site.
* `Network`: The sites, the log of publications and the deliveries made.
* `NetworkAction`, `Observation`: The moves, and what is observed of each.
* `Network.step`, `Network.run`: One move, and a sequence of moves.
-/

namespace LcmBridge

variable {ι : Type} [DecidableEq ι]

/-- A Zenoh publication. Its origin is the site that published it, or `none`
    for another application. -/
structure Publication (ι : Type) where
  origin : Option ι
  keyExpr : KeyExpr
  payload : List UInt8
  deriving DecidableEq

/-- The sites, everything published so far, and which site has been given which
    publication. -/
structure Network (ι : Type) where
  site : ι → Bridge
  publications : List (Publication ι)
  delivered : Finset (ι × Nat)

/-- The moves of a network: a site moves by itself, it is given the publication
    at a place of the log, or another application publishes. -/
inductive NetworkAction (ι : Type) where
  | move (i : ι) (a : Action)
  | deliver (i : ι) (index : Nat) (sendTo : SendTo)
  | publish (keyExpr : KeyExpr) (payload : List UInt8)

/-- What is observed of a move. The index is the place in the log: of the
    publication delivered, or of the next one. -/
inductive Observation (ι : Type) where
  | moved (i : ι) (a : Action) (event : Event) (index : Nat)
  | delivered (i : ι) (index : Nat) (publication : Publication ι) (event : Event)
  | external (keyExpr : KeyExpr) (payload : List UInt8) (index : Nat)

/-- The move takes a sample, which a site only does when it is given one. -/
def Action.takesSample : Action → Bool
  | .sample _ _ _ => true
  | _ => false

/-- What a site publishes by a move. -/
def Event.publication (i : ι) : Event → Option (Publication ι)
  | .handled _ _ (.put keyExpr payload) => some ⟨some i, keyExpr, payload⟩
  | _ => none

namespace Network

/-- Every site with a bridge that has just started. -/
def start (config : ι → Config) (localAddr : ι → SocketAddr) (fragmentMtu : ι → Nat) :
    Network ι where
  site i := Bridge.start (config i) (localAddr i) (fragmentMtu i)
  publications := []
  delivered := ∅

/-- One move of the network. -/
def step (tryFrom : String → Except String KeyExpr) (s : Network ι) :
    NetworkAction ι → Except Stop (Network ι × Observation ι)
  | .move i a =>
      if a.takesSample then .error .disabled
      else
        match LcmBridge.step tryFrom (s.site i) a with
        | .error stop => .error stop
        | .ok (b, event) =>
            .ok ({ s with
                site := Function.update s.site i b
                publications := s.publications ++ (event.publication i).toList },
              .moved i a event s.publications.length)
  | .deliver i index sendTo =>
      match s.publications[index]? with
      | none => .error .disabled
      | some p =>
          -- The subscription of a site only takes samples of other sessions.
          if p.origin = some i ∨ (i, index) ∈ s.delivered then .error .disabled
          else
            match LcmBridge.step tryFrom (s.site i) (.sample p.keyExpr p.payload sendTo) with
            | .error stop => .error stop
            | .ok (b, event) =>
                .ok ({ s with
                    site := Function.update s.site i b
                    delivered := insert (i, index) s.delivered },
                  .delivered i index p event)
  | .publish keyExpr payload =>
      .ok ({ s with publications := s.publications ++ [⟨none, keyExpr, payload⟩] },
        .external keyExpr payload s.publications.length)

/-- A sequence of moves, with what is observed of each. -/
def run (tryFrom : String → Except String KeyExpr) (s : Network ι)
    (actions : List (NetworkAction ι)) : Except Stop (Network ι × List (Observation ι)) :=
  Machine.runAll (step tryFrom) s actions

end Network

end LcmBridge
