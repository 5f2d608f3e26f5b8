import Shipboard.Word

/-!
The channels between a core and its controller, and who still holds an end of each. Values go to
the core, values come from it, and on an interactive link the core announces each input by a
pulse. A streaming link has no channel for pulses: nobody holds an end of it.
-/

namespace Shipboard

inductive Protocol
  | streaming
  | interactive
  deriving DecidableEq, Repr

inductive Channel
  | toCore
  | fromCore
  | ready
  deriving DecidableEq, Repr

structure Ends where
  toCore : Bool
  fromCore : Bool
  ready : Bool
  deriving DecidableEq, Repr

namespace Ends

def ofProtocol (p : Protocol) : Ends := ⟨true, true, p = .interactive⟩

def holds (e : Ends) : Channel → Bool
  | .toCore => e.toCore
  | .fromCore => e.fromCore
  | .ready => e.ready

def drop (e : Ends) : Channel → Ends
  | .toCore => { e with toCore := false }
  | .fromCore => { e with fromCore := false }
  | .ready => { e with ready := false }

def isEmpty (e : Ends) : Bool := !e.toCore && !e.fromCore && !e.ready

def first? (e : Ends) : Option Channel :=
  if e.toCore then some .toCore
  else if e.fromCore then some .fromCore
  else if e.ready then some .ready
  else none

theorem holds_drop (e : Ends) (c d : Channel) :
    (e.drop c).holds d = (e.holds d && c ≠ d) := by
  cases c <;> cases d <;> simp [drop, holds]

theorem isEmpty_iff (e : Ends) : e.isEmpty = true ↔ ∀ c, e.holds c = false := by
  constructor
  · intro h c
    cases c <;> simp_all [isEmpty, holds]
  · intro h
    have a : e.toCore = false := h .toCore
    have b : e.fromCore = false := h .fromCore
    have c : e.ready = false := h .ready
    simp [isEmpty, a, b, c]

theorem holds_of_first? {e : Ends} {c : Channel} (h : e.first? = some c) : e.holds c = true := by
  unfold first? at h
  split at h
  · cases h
    assumption
  · split at h
    · cases h
      assumption
    · split at h
      · cases h
        assumption
      · cases h

theorem first?_eq_none_iff (e : Ends) : e.first? = none ↔ e.isEmpty = true := by
  rcases e with ⟨a, b, c⟩
  cases a <;> cases b <;> cases c <;> simp [first?, isEmpty]

end Ends

structure Links where
  core : Ends
  controller : Ends
  deriving DecidableEq, Repr

namespace Links

def ofProtocol (p : Protocol) : Links := ⟨.ofProtocol p, .ofProtocol p⟩

/-- A channel carries values only while both of its ends are held. -/
def whole (l : Links) (c : Channel) : Bool := l.core.holds c && l.controller.holds c

end Links

end Shipboard
