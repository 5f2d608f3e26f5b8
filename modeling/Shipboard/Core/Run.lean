import Shipboard.Core.Effect

/-!
Running a core against a device, one instruction after another, until it halts or fails. A failing
step leaves the core as it was. A device is where input instructions take values from and output
instructions put them; a buffer is one in memory, a queue of inputs and a list of outputs that may
be limited.
-/

namespace Shipboard

/-- `take` gives no value and `put` says no when the other side is gone. -/
structure Device (σ : Type) where
  take : σ → Option Word × σ
  put : σ → Word → Bool × σ

/-- Input not yet taken, output so far, and how many outputs are still accepted, if not all. -/
structure Buffer where
  input : List Word := []
  output : Array Word := #[]
  room : Option Nat := none
  deriving DecidableEq, Repr

namespace Buffer

def take (b : Buffer) : Option Word × Buffer :=
  match b.input with
  | [] => (none, b)
  | v :: rest => (some v, { b with input := rest })

def put (b : Buffer) (v : Word) : Bool × Buffer :=
  match b.room with
  | none => (true, { b with output := b.output.push v })
  | some 0 => (false, b)
  | some (n + 1) => (true, { b with output := b.output.push v, room := some n })

def device : Device Buffer := ⟨take, put⟩

end Buffer

inductive Progress
  | running
  | halted
  | failed (f : Failure)
  deriving DecidableEq, Repr

/-- Where a run stopped: the number of instructions before the halt, or the failure. -/
structure Stop (σ : Type) where
  result : Except Failure Nat
  core : Core
  device : σ

namespace Core

variable {σ : Type}

/-- Executes one instruction. A halt leaves the core on it. -/
def step (D : Device σ) (c : Core) (io : σ) : Progress × Core × σ :=
  match c.effect with
  | .error f => (.failed f, c, io)
  | .ok .halt => (.halted, c, io)
  | .ok (.input next a) =>
      match D.take io with
      | (none, io) => (.failed (.fault (.inputClosed c.ip)), c, io)
      | (some v, io) =>
          match c.memory.refusal a with
          | some t => (.failed (.trap t), c, io)
          | none => (.running, c.after (.store next a v), io)
  | .ok (.output next v) =>
      match D.put io v with
      | (false, io) => (.failed (.fault (.outputClosed c.ip)), c, io)
      | (true, io) => (.running, c.after (.goto next), io)
  | .ok e => (.running, c.after e, io)

/-- Executes at most `fuel` instructions; `count` have been executed before. -/
def runFrom (D : Device σ) (count : Nat) : (fuel : Nat) → Core → σ → Option (Stop σ)
  | 0, _, _ => none
  | fuel + 1, c, io =>
      match c.step D io with
      | (.running, c, io) => runFrom D (count + 1) fuel c io
      | (.halted, c, io) => some ⟨.ok count, c, io⟩
      | (.failed f, c, io) => some ⟨.error f, c, io⟩

def run (D : Device σ) (fuel : Nat) (c : Core) (io : σ) : Option (Stop σ) :=
  runFrom D 0 fuel c io

/-- Each step in turn until one does not leave the core running, at most `limit` of them. -/
def trace (D : Device σ) : (limit : Nat) → Core → σ → List (Progress × Core × σ)
  | 0, _, _ => []
  | limit + 1, c, io =>
      let s := c.step D io
      match s.1 with
      | .running => s :: trace D limit s.2.1 s.2.2
      | _ => [s]

end Core

end Shipboard
