import Shipboard.Session.Link

/-!
Parties to a session. A party asks for one thing at a time and goes on when it hears the answer.
A value is handed over only when one side puts it and the other gets it.
-/

namespace Shipboard

/-- What a party does next. -/
inductive Ask
  /-- Something of its own. -/
  | work
  | put (c : Channel) (v : Word)
  | get (c : Channel)
  /-- A `get` that may give up. -/
  | getSoon (c : Channel)
  /-- Drops every end and goes on. -/
  | hangUp
  /-- Waits until the core has stopped. -/
  | join
  /-- Looks whether the core has stopped. -/
  | poll
  /-- Drops every end for good. -/
  | stop
  deriving DecidableEq, Repr

namespace Ask

def channel? : Ask → Option Channel
  | .put c _ => some c
  | .get c => some c
  | .getSoon c => some c
  | _ => none

/-- A party that hangs up or stops lets go of its ends. -/
def leaves : Ask → Bool
  | .hangUp => true
  | .stop => true
  | _ => false

end Ask

inductive Answer
  /-- The value was taken, the work is done, all ends are dropped, the core has stopped. -/
  | done
  | value (v : Word)
  /-- The other side has let go of the channel. -/
  | closed
  /-- Nothing came. -/
  | stalled
  | stopped (b : Bool)
  deriving DecidableEq, Repr

structure Party (σ : Type) where
  ask : σ → Ask
  hear : σ → Answer → σ

/-- What a party may do without the other. -/
inductive Turn
  | hear (a : Answer)
  | drop (c : Channel)
  deriving DecidableEq, Repr

structure Session (κ σ : Type) where
  core : κ
  controller : σ
  links : Links

namespace Session

variable {κ σ : Type}

def start (p : Protocol) (core : κ) (controller : σ) : Session κ σ :=
  ⟨core, controller, .ofProtocol p⟩

def coreTurn (P : Party κ) (s : Session κ σ) : Turn → Session κ σ
  | .hear a => { s with core := P.hear s.core a }
  | .drop c => { s with links := { s.links with core := s.links.core.drop c } }

def controllerTurn (Q : Party σ) (s : Session κ σ) : Turn → Session κ σ
  | .hear a => { s with controller := Q.hear s.controller a }
  | .drop c => { s with links := { s.links with controller := s.links.controller.drop c } }

def fromCore (P : Party κ) (Q : Party σ) (s : Session κ σ) (v : Word) : Session κ σ :=
  { s with core := P.hear s.core .done, controller := Q.hear s.controller (.value v) }

def toCore (P : Party κ) (Q : Party σ) (s : Session κ σ) (v : Word) : Session κ σ :=
  { s with core := P.hear s.core (.value v), controller := Q.hear s.controller .done }

def coreGone (P : Party κ) (s : Session κ σ) : Bool :=
  P.ask s.core = .stop && s.links.core.isEmpty

def controllerGone (Q : Party σ) (s : Session κ σ) : Bool :=
  Q.ask s.controller = .stop && s.links.controller.isEmpty

def complete (P : Party κ) (Q : Party σ) (s : Session κ σ) : Bool :=
  s.coreGone P && s.controllerGone Q

end Session

end Shipboard
