/-! Words and addresses of a core, and the ways in which a core breaks. -/

namespace Shipboard

/-- Cells hold signed words; sums and products wrap. -/
abbrev Word := Int64

/-- Addresses are unsigned; an address that would leave the range is a trap. -/
abbrev Address := UInt64

/-- A broken core stops without a fault of its program. -/
inductive Trap
  | addOverflow
  | mulOverflow
  | capacityOverflow
  | indexOutOfBounds (size index : Nat)
  deriving DecidableEq, Repr

def Trap.message : Trap → String
  | .addOverflow => "attempt to add with overflow"
  | .mulOverflow => "attempt to multiply with overflow"
  | .capacityOverflow => "capacity overflow"
  | .indexOutOfBounds size index =>
      s!"index out of bounds: the len is {size} but the index is {index}"

/-- Moves forward unless the sum leaves the address range. -/
def Address.plus (a : Address) (n : Nat) : Except Trap Address :=
  if a.toNat + n < UInt64.size then .ok (UInt64.ofNat (a.toNat + n)) else .error .addOverflow

theorem Address.plus_eq_ok {a : Address} {n : Nat} (within : a.toNat + n < UInt64.size) :
    a.plus n = .ok (a + UInt64.ofNat n) := by
  rw [plus, if_pos within, UInt64.ofNat_add, UInt64.ofNat_toNat]

/-- Coordinates and their sums stay within the range of words. -/
def inWordRange (n : Int) : Bool := Int64.minValue.toInt ≤ n && n ≤ Int64.maxValue.toInt

def addInRange (a b : Int) : Except Trap Int :=
  if inWordRange (a + b) then .ok (a + b) else .error .addOverflow

def mulInRange (a b : Int) : Except Trap Int :=
  if inWordRange (a * b) then .ok (a * b) else .error .mulOverflow

end Shipboard
