import Shipboard.Word

/-!
Instruction words, and the faults of a running program, each at the instruction that raised it. The
two lowest decimal digits of a word are the opcode, the next three the modes of the parameters;
digits further up mean nothing. `encode` writes the word of least value.
-/

namespace Shipboard

inductive Fault
  | unknownOpcode (opcode : Int) (ip : Address)
  | unknownMode (mode : Nat) (ip : Address)
  | immediateWrite (ip : Address)
  | negativeAddress (address : Word) (ip : Address)
  | inputClosed (ip : Address)
  | outputClosed (ip : Address)
  deriving DecidableEq, Repr

namespace Fault

def ip : Fault → Address
  | .unknownOpcode _ ip => ip
  | .unknownMode _ ip => ip
  | .immediateWrite ip => ip
  | .negativeAddress _ ip => ip
  | .inputClosed ip => ip
  | .outputClosed ip => ip

def message : Fault → String
  | .unknownOpcode opcode ip => s!"Decode error: unknown opcode {opcode} at {ip.toNat}"
  | .unknownMode mode ip => s!"Decode error: unknown parameter mode {mode} at {ip.toNat}"
  | .immediateWrite ip => s!"Write error: immediate-mode destination at {ip.toNat}"
  | .negativeAddress address ip =>
      s!"Bus error: negative address {address.toInt} at {ip.toNat}"
  | .inputClosed ip => s!"I/O error: input closed at {ip.toNat}"
  | .outputClosed ip => s!"I/O error: output closed at {ip.toNat}"

end Fault

/-- Why a core cannot go on: its program is at fault, or the core itself breaks. -/
inductive Failure
  | fault (f : Fault)
  | trap (t : Trap)
  deriving DecidableEq, Repr

namespace Failure

def ofFault {α : Type} (r : Except Fault α) : Except Failure α := r.mapError .fault

def ofTrap {α : Type} (r : Except Trap α) : Except Failure α := r.mapError .trap

end Failure

inductive Mode
  | position
  | immediate
  | relative
  deriving DecidableEq, Repr

namespace Mode

def number : Mode → Nat
  | .position => 0
  | .immediate => 1
  | .relative => 2

def ofNumber? : Nat → Option Mode
  | 0 => some .position
  | 1 => some .immediate
  | 2 => some .relative
  | _ => none

theorem ofNumber?_number (m : Mode) : ofNumber? m.number = some m := by cases m <;> rfl

theorem number_of_ofNumber? {n : Nat} {m : Mode} (h : ofNumber? n = some m) : m.number = n := by
  unfold ofNumber? at h
  split at h <;> cases h <;> rfl

theorem ofNumber?_eq_none_iff (n : Nat) : ofNumber? n = none ↔ ¬ n ≤ 2 := by
  unfold ofNumber?
  split <;> simp_all
  omega

end Mode

inductive Opcode
  | add
  | mul
  | input
  | output
  | jumpIfTrue
  | jumpIfFalse
  | lessThan
  | equals
  | adjustBase
  | halt
  deriving DecidableEq, Repr

namespace Opcode

def number : Opcode → Nat
  | .add => 1
  | .mul => 2
  | .input => 3
  | .output => 4
  | .jumpIfTrue => 5
  | .jumpIfFalse => 6
  | .lessThan => 7
  | .equals => 8
  | .adjustBase => 9
  | .halt => 99

def ofNumber? : Nat → Option Opcode
  | 1 => some .add
  | 2 => some .mul
  | 3 => some .input
  | 4 => some .output
  | 5 => some .jumpIfTrue
  | 6 => some .jumpIfFalse
  | 7 => some .lessThan
  | 8 => some .equals
  | 9 => some .adjustBase
  | 99 => some .halt
  | _ => none

/-- Distance to the next instruction when no jump is taken. -/
def width : Opcode → Nat
  | .add | .mul | .lessThan | .equals => 4
  | .jumpIfTrue | .jumpIfFalse => 3
  | .input | .output | .adjustBase => 2
  | .halt => 1

theorem ofNumber?_number (o : Opcode) : ofNumber? o.number = some o := by cases o <;> rfl

theorem number_of_ofNumber? {n : Nat} {o : Opcode} (h : ofNumber? n = some o) : o.number = n := by
  unfold ofNumber? at h
  split at h <;> cases h <;> rfl

end Opcode

structure Instruction where
  opcode : Opcode
  first : Mode := .position
  second : Mode := .position
  third : Mode := .position
  deriving DecidableEq, Repr

namespace Instruction

def modes (i : Instruction) : List Mode := [i.first, i.second, i.third]

def number (i : Instruction) : Nat :=
  i.opcode.number + 100 * i.first.number + 1000 * i.second.number + 10000 * i.third.number

def encode (i : Instruction) : Word := Int64.ofNat i.number

def decodeMode (digit : Nat) (ip : Address) : Except Fault Mode :=
  match Mode.ofNumber? digit with
  | some m => .ok m
  | none => .error (.unknownMode digit ip)

/-- Every mode digit is checked, the lowest first, also those that the opcode does not use. -/
def decodeNumber (n : Nat) (ip : Address) : Except Fault Instruction :=
  match Opcode.ofNumber? (n % 100) with
  | none => .error (.unknownOpcode (n % 100 : Nat) ip)
  | some opcode => do
      let first ← decodeMode (n / 100 % 10) ip
      let second ← decodeMode (n / 1000 % 10) ip
      let third ← decodeMode (n / 10000 % 10) ip
      return { opcode, first, second, third }

/-- A negative word is reported whole; the address only locates the fault. -/
def decode (word : Word) (ip : Address) : Except Fault Instruction :=
  if word < 0 then .error (.unknownOpcode word.toInt ip)
  else decodeNumber word.toInt.toNat ip

end Instruction

end Shipboard
