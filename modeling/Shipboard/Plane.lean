import Std.Data.ExtTreeMap
import Shipboard.Word

/-!
The plane: cells with `y` growing downwards, and the four facings in clockwise order. Sums of
points are exact; `add?` refuses those that leave the range of words.
-/

namespace Shipboard

structure Point where
  x : Int
  y : Int
  deriving DecidableEq, Repr

namespace Point

def origin : Point := ⟨0, 0⟩

instance : Add Point := ⟨fun p q => ⟨p.x + q.x, p.y + q.y⟩⟩

theorem add_def (p q : Point) : p + q = ⟨p.x + q.x, p.y + q.y⟩ := rfl

/-- By `x`, then by `y`. -/
instance : Ord Point := ⟨compareLex (compareOn x) (compareOn y)⟩

instance : Std.TransOrd Point :=
  inferInstanceAs (Std.TransCmp (compareLex (compareOn x) (compareOn y)))

instance : Std.LawfulEqOrd Point where
  eq_of_compare {p q} h := by
    have both : compare p.x q.x = .eq ∧ compare p.y q.y = .eq := Ordering.then_eq_eq.mp h
    rcases p with ⟨a, b⟩
    rcases q with ⟨c, d⟩
    simpa [Std.LawfulEqOrd.compare_eq_iff_eq] using both

def inRange (p : Point) : Bool := inWordRange p.x && inWordRange p.y

def add? (p q : Point) : Except Trap Point :=
  if (p + q).inRange then .ok (p + q) else .error .addOverflow

end Point

inductive Facing
  | up
  | right
  | down
  | left
  deriving DecidableEq, Repr

namespace Facing

def all : List Facing := [.up, .right, .down, .left]

def turnLeft : Facing → Facing
  | .up => .left
  | .right => .up
  | .down => .right
  | .left => .down

def turnRight : Facing → Facing
  | .up => .right
  | .right => .down
  | .down => .left
  | .left => .up

def delta : Facing → Point
  | .up => ⟨0, -1⟩
  | .right => ⟨1, 0⟩
  | .down => ⟨0, 1⟩
  | .left => ⟨-1, 0⟩

def ofArrow? : Char → Option Facing
  | '^' => some .up
  | '>' => some .right
  | 'v' => some .down
  | '<' => some .left
  | _ => none

def number : Facing → Nat
  | .up => 0
  | .right => 1
  | .down => 2
  | .left => 3

theorem mem_all (f : Facing) : f ∈ all := by cases f <;> decide

theorem turnLeft_turnRight (f : Facing) : f.turnRight.turnLeft = f := by cases f <;> rfl

theorem turnRight_turnLeft (f : Facing) : f.turnLeft.turnRight = f := by cases f <;> rfl

end Facing

namespace Point

/-- The cells above, to the right, below and to the left. -/
def neighbours (p : Point) : List Point := Facing.all.map fun f => p + f.delta

def neighbours? (p : Point) : Except Trap (List Point) := Facing.all.mapM fun f => p.add? f.delta

end Point

/-- A cell and the way something on it faces. -/
structure Pose where
  cell : Point
  facing : Facing
  deriving DecidableEq, Repr

namespace Pose

def ahead (p : Pose) : Point := p.cell + p.facing.delta

def forward (p : Pose) : Pose := { p with cell := p.ahead }

def turnLeft (p : Pose) : Pose := { p with facing := p.facing.turnLeft }

def turnRight (p : Pose) : Pose := { p with facing := p.facing.turnRight }

/-- By cell, then by facing. -/
instance : Ord Pose := ⟨compareLex (compareOn cell) (compareOn (·.facing.number))⟩

instance : Std.TransOrd Pose :=
  inferInstanceAs (Std.TransCmp (compareLex (compareOn cell) (compareOn (·.facing.number))))

instance : Std.LawfulEqOrd Pose where
  eq_of_compare {p q} h := by
    have both : compare p.cell q.cell = .eq ∧
        compare p.facing.number q.facing.number = .eq := Ordering.then_eq_eq.mp h
    rcases p with ⟨a, f⟩
    rcases q with ⟨b, g⟩
    rw [Std.LawfulEqOrd.compare_eq_iff_eq, Std.LawfulEqOrd.compare_eq_iff_eq] at both
    obtain ⟨rfl, numbers⟩ := both
    cases f <;> cases g <;> simp_all [Facing.number]

end Pose

end Shipboard
