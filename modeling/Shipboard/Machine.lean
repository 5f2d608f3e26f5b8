import Shipboard.Core.Run

/-!
A machine is a core that remembers whether it has halted. A halted machine stays halted and runs
no more; after a failure it is still running and resumes at the same instruction.
-/

namespace Shipboard

inductive State
  | running
  | halted
  deriving DecidableEq, Repr

structure Machine where
  core : Core := {}
  state : State := .running
  deriving DecidableEq, Repr

namespace Machine

variable {σ : Type}

def ofProgram (program : List Word) : Machine :=
  { core := { memory := Memory.ofList program } }

def poke? (m : Machine) (a : Address) (v : Word) : Except Trap Machine := do
  let memory ← m.core.memory.write? a v
  return { m with core := { m.core with memory } }

structure Outcome (σ : Type) where
  result : Except Failure Unit
  machine : Machine
  device : σ

/-- Runs until halt or failure, unless more than `fuel` instructions are needed. -/
def run (D : Device σ) (fuel : Nat) (m : Machine) (io : σ) : Option (Outcome σ) :=
  match m.state with
  | .halted => some ⟨.ok (), m, io⟩
  | .running =>
      (m.core.run D fuel io).map fun stop =>
        match stop.result with
        | .ok _ => ⟨.ok (), ⟨stop.core, .halted⟩, stop.device⟩
        | .error f => ⟨.error f, ⟨stop.core, .running⟩, stop.device⟩

def runBuffered (fuel : Nat) (m : Machine) (input : List Word) :
    Option (Except Failure (List Word) × Machine) :=
  (m.run Buffer.device fuel { input }).map fun o =>
    (o.result.map fun _ => o.device.output.toList, o.machine)

end Machine

end Shipboard
