import Shipboard.Memory
import Shipboard.Core.Instruction

/-!
A core and the effect of its next instruction. The effect is read off the core without changing
it: decoding comes first, then the operands in order, then the destination. What needs the
outside (an input or an output) is left open in the effect.
-/

namespace Shipboard

structure Core where
  ip : Address := 0
  base : Word := 0
  memory : Memory := {}
  deriving DecidableEq, Repr

/-- What the next instruction does; `next` is the address of the instruction after it. -/
inductive Effect
  | store (next address : Address) (value : Word)
  | goto (next : Address)
  | rebase (next : Address) (base : Word)
  | input (next address : Address)
  | output (next : Address) (value : Word)
  | halt
  deriving DecidableEq, Repr

namespace Core

def parameter (c : Core) (n : Nat) : Except Failure Word := do
  let a ← Failure.ofTrap (c.ip.plus (1 + n))
  return c.memory.read a

def address (c : Core) (v : Word) : Except Failure Address :=
  if v < 0 then .error (.fault (.negativeAddress v c.ip)) else .ok v.toUInt64

def operand (c : Core) (mode : Mode) (n : Nat) : Except Failure Word := do
  let raw ← c.parameter n
  match mode with
  | .position => return c.memory.read (← c.address raw)
  | .immediate => return raw
  | .relative => return c.memory.read (← c.address (raw + c.base))

def destination (c : Core) (mode : Mode) (n : Nat) : Except Failure Address := do
  let raw ← c.parameter n
  match mode with
  | .position => c.address raw
  | .immediate => .error (.fault (.immediateWrite c.ip))
  | .relative => c.address (raw + c.base)

def next (c : Core) (o : Opcode) : Except Failure Address :=
  Failure.ofTrap (c.ip.plus o.width)

/-- A result of two operands, to be stored at the third parameter. -/
def storing (c : Core) (i : Instruction) (f : Word → Word → Word) : Except Failure Effect := do
  let a ← c.operand i.first 0
  let b ← c.operand i.second 1
  let d ← c.destination i.third 2
  match c.memory.refusal d with
  | some t => .error (.trap t)
  | none => return .store (← c.next i.opcode) d (f a b)

/-- The target of a jump that is not taken is never looked at. -/
def jumping (c : Core) (i : Instruction) (taken : Word → Bool) : Except Failure Effect := do
  let v ← c.operand i.first 0
  if taken v then return .goto (← c.address (← c.operand i.second 1))
  else return .goto (← c.next i.opcode)

def truth (b : Bool) : Word := if b then 1 else 0

def perform (c : Core) (i : Instruction) : Except Failure Effect :=
  match i.opcode with
  | .add => c.storing i (· + ·)
  | .mul => c.storing i (· * ·)
  | .lessThan => c.storing i fun a b => truth (a < b)
  | .equals => c.storing i fun a b => truth (a == b)
  | .jumpIfTrue => c.jumping i (· != 0)
  | .jumpIfFalse => c.jumping i (· == 0)
  | .input => do
      let d ← c.destination i.first 0
      return .input (← c.next i.opcode) d
  | .output => do
      let v ← c.operand i.first 0
      return .output (← c.next i.opcode) v
  | .adjustBase => do
      let v ← c.operand i.first 0
      return .rebase (← c.next i.opcode) (c.base + v)
  | .halt => .ok .halt

def effect (c : Core) : Except Failure Effect := do
  c.perform (← Failure.ofFault (Instruction.decode (c.memory.read c.ip) c.ip))

/-- The core after an effect that needs nothing from outside, or whose output has been taken. -/
def after (c : Core) : Effect → Core
  | .store next a v => { c with ip := next, memory := c.memory.write a v }
  | .goto next => { c with ip := next }
  | .rebase next base => { c with ip := next, base }
  | .output next _ => { c with ip := next }
  | .input _ _ => c
  | .halt => c

end Core

end Shipboard
