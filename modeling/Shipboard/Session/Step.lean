import Shipboard.Session.Party

/-!
All the ways in which a session can go on: either side moves alone, or a value is handed over. The
rules are what is assumed of the channels and of the two threads:

* *Rendezvous.* A channel holds no value. What one side puts is handed over at the moment at which
  the other gets it, and neither goes on before. A side that puts or gets waits as long as its
  channel is whole, unless it asked to give up.
* *Disconnection.* A channel is cut for good once a side has dropped its end. Who asks for a channel
  that is cut is told that it is closed, and nobody is told so of a whole one.
* *Leaving.* The ends of a side that leaves are dropped one at a time, in any order.
* *Joining.* A wait for the core is over when the core has stopped and dropped all its ends.
* *Interleaving.* The two sides move in any order; nothing is assumed about fairness.
-/

namespace Shipboard

/-- The turns that a side holding `mine` may take alone; `whole` are the channels that carry. -/
inductive Ask.May (whole : Channel → Bool) (mine : Ends) : Ask → Turn → Prop
  | work : May whole mine .work (.hear .done)
  /-- Disconnection. -/
  | closed {a : Ask} {c : Channel} (asks : a.channel? = some c) (broken : whole c = false) :
      May whole mine a (.hear .closed)
  | stall {c : Channel} : May whole mine (.getSoon c) (.hear .stalled)
  /-- Leaving. -/
  | drop {a : Ask} {c : Channel} (leaving : a.leaves = true) (held : mine.holds c = true) :
      May whole mine a (.drop c)
  | gone (empty : mine.isEmpty = true) : May whole mine .hangUp (.hear .done)

/-- Rendezvous: one side puts `v` on `c` and the other gets from `c`. -/
inductive Ask.Meet (c : Channel) (v : Word) : Ask → Ask → Prop
  | get : Meet c v (.put c v) (.get c)
  | getSoon : Meet c v (.put c v) (.getSoon c)

inductive Event
  | core (t : Turn)
  | controller (t : Turn)
  | passed (c : Channel) (v : Word)
  | joined
  | polled (b : Bool)
  deriving DecidableEq, Repr

namespace Session

variable {κ σ : Type}

/-- One step of either side, or of both at a rendezvous. -/
inductive Step (P : Party κ) (Q : Party σ) : Session κ σ → Event → Session κ σ → Prop
  | core {s : Session κ σ} {t : Turn} (may : (P.ask s.core).May s.links.whole s.links.core t) :
      Step P Q s (.core t) (s.coreTurn P t)
  | controller {s : Session κ σ} {t : Turn}
      (may : (Q.ask s.controller).May s.links.whole s.links.controller t) :
      Step P Q s (.controller t) (s.controllerTurn Q t)
  | fromCore {s : Session κ σ} {c : Channel} {v : Word} (whole : s.links.whole c = true)
      (meet : Ask.Meet c v (P.ask s.core) (Q.ask s.controller)) :
      Step P Q s (.passed c v) (s.fromCore P Q v)
  | toCore {s : Session κ σ} {c : Channel} {v : Word} (whole : s.links.whole c = true)
      (meet : Ask.Meet c v (Q.ask s.controller) (P.ask s.core)) :
      Step P Q s (.passed c v) (s.toCore P Q v)
  /-- Joining. -/
  | joined {s : Session κ σ} (asks : Q.ask s.controller = .join) (gone : s.coreGone P = true) :
      Step P Q s .joined (s.controllerTurn Q (.hear .done))
  | polled {s : Session κ σ} {b : Bool} (asks : Q.ask s.controller = .poll)
      (gone : b = true → s.coreGone P = true) :
      Step P Q s (.polled b) (s.controllerTurn Q (.hear (.stopped b)))

inductive Steps (P : Party κ) (Q : Party σ) : Session κ σ → List Event → Session κ σ → Prop
  | refl (s : Session κ σ) : Steps P Q s [] s
  | cons {s t u : Session κ σ} {e : Event} {es : List Event} (first : Step P Q s e t)
      (rest : Steps P Q t es u) : Steps P Q s (e :: es) u

theorem Steps.append {P : Party κ} {Q : Party σ} {s t u : Session κ σ} {es fs : List Event}
    (h : Steps P Q s es t) (k : Steps P Q t fs u) : Steps P Q s (es ++ fs) u := by
  induction h with
  | refl s => exact k
  | cons first rest ih => exact .cons first (ih k)

end Session

end Shipboard
