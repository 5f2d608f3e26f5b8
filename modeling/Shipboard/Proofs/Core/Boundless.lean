import Mathlib.Algebra.Group.Nat.Defs
import Shipboard.Core.Run

/-!
A core whose memory has a word at every address. Its instructions are read off a table of opcodes;
numbers are integers and wrap when they are stored. All the faults of an instruction are listed, in
the order in which they count, before anything is done.
-/

namespace Shipboard

structure Boundless where
  ip : Address
  base : Word
  memory : Address → Word

namespace Boundless

inductive Row
  /-- Stores a result of two operands at the third parameter. -/
  | compute (result : Int → Int → Int)
  | input
  | output
  /-- Goes to the second operand if the first one is as required. -/
  | jump (required : Int → Bool)
  | rebase
  | halt

def row? : Nat → Option Row
  | 1 => some (.compute fun a b => a + b)
  | 2 => some (.compute fun a b => a * b)
  | 3 => some .input
  | 4 => some .output
  | 5 => some (.jump fun a => a ≠ 0)
  | 6 => some (.jump fun a => a = 0)
  | 7 => some (.compute fun a b => if a < b then 1 else 0)
  | 8 => some (.compute fun a b => if a = b then 1 else 0)
  | 9 => some .rebase
  | 99 => some .halt
  | _ => none

def wrap (n : Int) : Word := Int64.ofInt n

variable {σ : Type}

def word (r : Boundless) : Word := r.memory r.ip

def opcode? (r : Boundless) : Option Row :=
  if r.word < 0 then none else row? (r.word.toInt.toNat % 100)

def opcodeFault (r : Boundless) : Fault :=
  .unknownOpcode (if r.word < 0 then r.word.toInt else r.word.toInt % 100) r.ip

/-- The mode digit of parameter `k`: zero for a position, one for immediate, two for relative. -/
def digit (r : Boundless) (k : Nat) : Nat := r.word.toInt.toNat / 10 ^ (k + 2) % 10

def modeFault (r : Boundless) (k : Nat) : Option Fault :=
  if r.digit k ≤ 2 then none else some (.unknownMode (r.digit k) r.ip)

def parameter (r : Boundless) (k : Nat) : Word := r.memory (r.ip + 1 + UInt64.ofNat k)

def pointer (r : Boundless) (k : Nat) : Word :=
  if r.digit k = 2 then wrap ((r.parameter k).toInt + r.base.toInt) else r.parameter k

def addressFault (r : Boundless) (v : Word) : Option Fault :=
  if v < 0 then some (.negativeAddress v r.ip) else none

def operandFault (r : Boundless) (k : Nat) : Option Fault :=
  if r.digit k = 1 then none else r.addressFault (r.pointer k)

def operand (r : Boundless) (k : Nat) : Word :=
  if r.digit k = 1 then r.parameter k else r.memory (r.pointer k).toUInt64

def destinationFault (r : Boundless) (k : Nat) : Option Fault :=
  if r.digit k = 1 then some (.immediateWrite r.ip) else r.addressFault (r.pointer k)

def destination (r : Boundless) (k : Nat) : Address := (r.pointer k).toUInt64

def jumps (r : Boundless) (required : Int → Bool) : Bool := required (r.operand 0).toInt

/-- The faults of the parameters that an instruction looks at, in order. -/
def parameterFaults (r : Boundless) : Row → List (Option Fault)
  | .compute _ => [r.operandFault 0, r.operandFault 1, r.destinationFault 2]
  | .input => [r.destinationFault 0]
  | .output => [r.operandFault 0]
  | .jump required =>
      r.operandFault 0 ::
        if r.jumps required then [r.operandFault 1, r.addressFault (r.operand 1)] else []
  | .rebase => [r.operandFault 0]
  | .halt => []

def modeFaults (r : Boundless) : List (Option Fault) :=
  [r.modeFault 0, r.modeFault 1, r.modeFault 2]

def meaning (r : Boundless) : Row → Effect
  | .compute result =>
      .store (r.ip + 4) (r.destination 2) (wrap (result (r.operand 0).toInt (r.operand 1).toInt))
  | .input => .input (r.ip + 2) (r.destination 0)
  | .output => .output (r.ip + 2) (r.operand 0)
  | .jump required =>
      .goto (if r.jumps required then (r.operand 1).toUInt64 else r.ip + 3)
  | .rebase => .rebase (r.ip + 2) (wrap (r.base.toInt + (r.operand 0).toInt))
  | .halt => .halt

/-- The first fault of the next instruction, or what it does. -/
def effect (r : Boundless) : Except Fault Effect :=
  match r.opcode? with
  | none => .error r.opcodeFault
  | some row =>
      match (r.modeFaults ++ r.parameterFaults row).findSome? id with
      | some f => .error f
      | none => .ok (r.meaning row)

def store (r : Boundless) (next a : Address) (v : Word) : Boundless :=
  { r with ip := next, memory := fun b => if b = a then v else r.memory b }

/-- Executes one instruction; what it asks of the outside comes after all of its faults. -/
def step (D : Device σ) (r : Boundless) (io : σ) : Progress × Boundless × σ :=
  match r.effect with
  | .error f => (.failed (.fault f), r, io)
  | .ok (.store next a v) => (.running, r.store next a v, io)
  | .ok (.goto next) => (.running, { r with ip := next }, io)
  | .ok (.rebase next base) => (.running, { r with ip := next, base }, io)
  | .ok (.input next a) =>
      match D.take io with
      | (none, io) => (.failed (.fault (.inputClosed r.ip)), r, io)
      | (some v, io) => (.running, r.store next a v, io)
  | .ok (.output next v) =>
      match D.put io v with
      | (false, io) => (.failed (.fault (.outputClosed r.ip)), r, io)
      | (true, io) => (.running, { r with ip := next }, io)
  | .ok .halt => (.halted, r, io)

def target? (D : Device σ) (r : Boundless) (io : σ) : Option Address :=
  match r.effect with
  | .ok (.store _ a _) => some a
  | .ok (.input _ a) => if (D.take io).1.isSome then some a else none
  | _ => none

def writesBelow (D : Device σ) (bound : Nat) : (limit : Nat) → Boundless → σ → Bool
  | 0, _, _ => true
  | limit + 1, r, io =>
      (r.target? D io).all (fun a => a.toNat < bound) &&
        match r.step D io with
        | (.running, r, io) => writesBelow D bound limit r io
        | _ => true

def trace (D : Device σ) : (limit : Nat) → Boundless → σ → List (Progress × Boundless × σ)
  | 0, _, _ => []
  | limit + 1, r, io =>
      let s := r.step D io
      match s.1 with
      | .running => s :: trace D limit s.2.1 s.2.2
      | _ => [s]

def runFrom (D : Device σ) (count : Nat) :
    (fuel : Nat) → Boundless → σ → Option (Except Failure Nat × Boundless × σ)
  | 0, _, _ => none
  | fuel + 1, r, io =>
      match r.step D io with
      | (.running, r, io) => runFrom D (count + 1) fuel r io
      | (.halted, r, io) => some (.ok count, r, io)
      | (.failed f, r, io) => some (.error f, r, io)

def run (D : Device σ) (fuel : Nat) (r : Boundless) (io : σ) :
    Option (Except Failure Nat × Boundless × σ) :=
  runFrom D 0 fuel r io

theorem writesBelow_succ (D : Device σ) (bound limit : Nat) (r : Boundless) (io : σ) :
    r.writesBelow D bound (limit + 1) io =
      ((r.target? D io).all (fun a => a.toNat < bound) &&
        match r.step D io with
        | (.running, r, io) => writesBelow D bound limit r io
        | _ => true) :=
  writesBelow.eq_def D bound (limit + 1) r io

theorem trace_succ (D : Device σ) (limit : Nat) (r : Boundless) (io : σ) :
    r.trace D (limit + 1) io =
      match (r.step D io).1 with
      | .running => r.step D io :: trace D limit (r.step D io).2.1 (r.step D io).2.2
      | _ => [r.step D io] :=
  trace.eq_def D (limit + 1) r io

theorem runFrom_succ (D : Device σ) (count fuel : Nat) (r : Boundless) (io : σ) :
    runFrom D count (fuel + 1) r io =
      match r.step D io with
      | (.running, r, io) => runFrom D (count + 1) fuel r io
      | (.halted, r, io) => some (.ok count, r, io)
      | (.failed f, r, io) => some (.error f, r, io) :=
  runFrom.eq_def D count (fuel + 1) r io

end Boundless

/-- A core seen through its reads alone. -/
def Core.boundless (c : Core) : Boundless := ⟨c.ip, c.base, c.memory.read⟩

end Shipboard
