import Std.Data.ExtTreeSet
import Shipboard.Plane
import Shipboard.Session.ControllerError

/-!
Camera frames. A frame is a list of character codes in reading order: a newline ends a row, a
scaffold cell is drawn as `#` or as an arrow when the robot stands on it, and `X` is a robot that
has lost its footing. Reading a frame gives the scaffold, or the first code that means nothing.
-/

namespace Shipboard

structure Scaffold where
  cells : Std.ExtTreeSet Point := ∅
  /-- The robot's place; of several arrows the last in reading order. -/
  robot : Option Pose := none

inductive Pixel
  | rowEnd
  | empty
  | scaffold
  | robot (f : Facing)
  deriving DecidableEq, Repr

namespace Pixel

def ofChar? : Char → Option Pixel
  | '\n' => some .rowEnd
  | '.' => some .empty
  | 'X' => some .empty
  | '#' => some .scaffold
  | c => (Facing.ofArrow? c).map .robot

/-- Codes of one byte draw their character; no other code draws anything. -/
def ofCode (code : Word) : Except ControllerError Pixel :=
  let pixel := if 0 ≤ code ∧ code < 256 then ofChar? (Char.ofNat code.toInt.toNat) else none
  match pixel with
  | some p => .ok p
  | none => .error (.unexpected .cameraPixel code)

end Pixel

/-- A scaffold read so far, and the cell that the next code draws. -/
structure Sweep where
  scaffold : Scaffold := {}
  cell : Point := .origin

namespace Sweep

def right (p : Point) : Point := ⟨p.x + 1, p.y⟩

def draw (s : Sweep) : Pixel → Sweep
  | .rowEnd => { s with cell := ⟨0, s.cell.y + 1⟩ }
  | .empty => { s with cell := right s.cell }
  | .scaffold =>
      ⟨{ s.scaffold with cells := s.scaffold.cells.insert s.cell }, right s.cell⟩
  | .robot f => ⟨⟨s.scaffold.cells.insert s.cell, some ⟨s.cell, f⟩⟩, right s.cell⟩

def read (s : Sweep) (code : Word) : Except ControllerError Sweep :=
  (Pixel.ofCode code).map s.draw

end Sweep

namespace Scaffold

def ofFrame (codes : List Word) : Except ControllerError Scaffold :=
  (codes.foldlM Sweep.read {}).map (·.scaffold)

def has (s : Scaffold) (p : Point) : Bool := p ∈ s.cells

def size (s : Scaffold) : Nat := s.cells.size

def isEmpty (s : Scaffold) : Bool := s.cells.isEmpty

end Scaffold

end Shipboard
