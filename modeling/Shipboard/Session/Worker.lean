import Shipboard.Machine
import Shipboard.Session.Schedule

/-!
A machine as the core of a session. On an interactive link an input instruction announces itself
by a pulse before it takes its value. However the machine ends, it lets go of its channels.
-/

namespace Shipboard

inductive Breakdown
  | fault (f : Fault)
  | panicked
  deriving DecidableEq, Repr

namespace Breakdown

def message : Breakdown → String
  | .fault f => f.message
  | .panicked => "core thread panicked"

def ofFailure : Failure → Breakdown
  | .fault f => .fault f
  | .trap _ => .panicked

end Breakdown

/-- What is left of a machine when its session is over. -/
abbrev Ending := Except Breakdown Machine

/-- A machine at work, with the pulse of its input taken or not, or its ending. -/
inductive Worker
  | active (core : Core) (pulsed : Bool)
  | stopped (ending : Ending)

namespace Worker

def ofMachine (m : Machine) : Worker :=
  match m.state with
  | .running => .active m.core false
  | .halted => .stopped (.ok m)

def ending? : Worker → Option Ending
  | .active _ _ => none
  | .stopped e => some e

def ask (p : Protocol) : Worker → Ask
  | .stopped _ => .stop
  | .active c pulsed =>
      match c.effect with
      | .ok (.input _ _) => if p = .interactive && !pulsed then .put .ready 0 else .get .toCore
      | .ok (.output _ v) => .put .fromCore v
      | _ => .work

def fail (f : Failure) : Worker := .stopped (.error (.ofFailure f))

/-- Executes the instruction at hand, or takes note that its pulse has been taken. -/
def hear : Worker → Answer → Worker
  | .stopped e, _ => .stopped e
  | .active c pulsed, a =>
      match c.effect, a with
      | .error f, _ => fail f
      | .ok .halt, _ => .stopped (.ok ⟨c, .halted⟩)
      | .ok (.input _ _), .done => .active c true
      | .ok (.input next d), .value v =>
          match c.memory.refusal d with
          | some t => fail (.trap t)
          | none => .active (c.after (.store next d v)) false
      | .ok (.input _ _), .closed => fail (.fault (.inputClosed c.ip))
      | .ok (.output next _), .done => .active (c.after (.goto next)) false
      | .ok (.output _ _), .closed => fail (.fault (.outputClosed c.ip))
      | .ok (.store next d v), .done => .active (c.after (.store next d v)) false
      | .ok (.goto next), .done => .active (c.after (.goto next)) false
      | .ok (.rebase next b), .done => .active (c.after (.rebase next b)) false
      | .ok _, _ => .active c pulsed

def party (p : Protocol) : Party Worker := ⟨ask p, hear⟩

end Worker

/-- Runs a machine against a controller until both have let go of everything. -/
def Machine.attend {σ : Type} (fuel : Nat) (p : Protocol) (Q : Party σ) (m : Machine)
    (controller : σ) : Option (σ × Ending) := do
  let s ← (Session.start p (Worker.ofMachine m) controller).run (Worker.party p) Q fuel
  return (s.controller, ← s.core.ending?)

end Shipboard
