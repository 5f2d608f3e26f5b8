import Shipboard.Word

/-!
Memory of a core: cells that read as zero beyond the stored ones and grow on a write there.
Reading after a write gives the value written, and a write elsewhere changes nothing.
-/

namespace Shipboard

structure Memory where
  cells : Array Word := #[]
  deriving DecidableEq, Repr

namespace Memory

def ofList (program : List Word) : Memory := ⟨program.toArray⟩

def size (m : Memory) : Nat := m.cells.size

def isEmpty (m : Memory) : Bool := m.cells.isEmpty

def read (m : Memory) (a : Address) : Word := m.cells[a.toNat]?.getD 0

/-- Storage is at most this many bytes, eight for each cell. -/
def byteLimit : Nat := UInt64.size / 2 - 1

/-- Growing doubles the address, so that repeated growth stays rare. -/
def grownSize (a : Address) : Nat := max (min (2 * a.toNat) (UInt64.size - 1)) (a.toNat + 1)

/-- Why a write cannot be done, if it cannot. -/
def refusal (m : Memory) (a : Address) : Option Trap :=
  if a.toNat < m.size then none
  else if a.toNat + 1 = UInt64.size then some .addOverflow
  else if byteLimit < 8 * grownSize a then some .capacityOverflow
  else none

def grow (m : Memory) (a : Address) : Memory :=
  { cells := m.cells ++ Array.replicate (grownSize a - m.size) 0 }

def reaching (m : Memory) (a : Address) : Memory :=
  if a.toNat < m.size then m else m.grow a

def write (m : Memory) (a : Address) (v : Word) : Memory :=
  { cells := (m.reaching a).cells.setIfInBounds a.toNat v }

def write? (m : Memory) (a : Address) (v : Word) : Except Trap Memory :=
  match m.refusal a with
  | some t => .error t
  | none => .ok (m.write a v)

/-- Addresses and values of the stored cells that are not zero, by address. -/
def nonzero (m : Memory) : List (Nat × Word) :=
  (m.cells.toList.zipIdx.filter (·.1 ≠ 0)).map Prod.swap

/-- Addresses and new values of the cells that read differently in `after`, by address. -/
def changes (before after : Memory) : List (Nat × Word) :=
  (List.range (max before.size after.size)).filterMap fun i =>
    let v := after.cells[i]?.getD 0
    if before.cells[i]?.getD 0 = v then none else some (i, v)

theorem lt_grownSize (a : Address) : a.toNat < grownSize a := by
  unfold grownSize
  omega

theorem lt_size_reaching (m : Memory) (a : Address) : a.toNat < (m.reaching a).size := by
  unfold reaching
  split
  · assumption
  · have := lt_grownSize a
    simp [grow, size] at *
    omega

theorem read_reaching (m : Memory) (a b : Address) : (m.reaching a).read b = m.read b := by
  unfold reaching
  split
  · rfl
  · simp only [grow, read, Array.getElem?_append, Array.getElem?_replicate]
    by_cases inside : b.toNat < m.cells.size
    · simp [inside]
    · have outside : m.cells[b.toNat]? = none := Array.getElem?_eq_none (by omega)
      simp only [inside, outside, if_false]
      split <;> rfl

theorem read_write_self (m : Memory) (a : Address) (v : Word) : (m.write a v).read a = v := by
  have := lt_size_reaching m a
  simp only [size] at this
  simp [write, read, this]

theorem read_write_of_ne (m : Memory) {a b : Address} (v : Word) (h : a ≠ b) :
    (m.write a v).read b = m.read b := by
  have : a.toNat ≠ b.toNat := fun e => h (UInt64.toNat_inj.mp e)
  rw [← read_reaching m a b]
  simp [write, read, this]

theorem size_reaching (m : Memory) (a : Address) :
    (m.reaching a).size = if a.toNat < m.size then m.size else grownSize a := by
  have := lt_grownSize a
  unfold reaching
  split
  · rfl
  · simp [grow, size] at *
    omega

theorem size_write (m : Memory) (a : Address) (v : Word) :
    (m.write a v).size = if a.toNat < m.size then m.size else grownSize a := by
  rw [← size_reaching]
  simp [write, size]

end Memory

end Shipboard
