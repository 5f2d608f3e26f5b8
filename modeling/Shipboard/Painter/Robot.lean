import Shipboard.Plane
import Shipboard.Session.ControllerError

/-!
The robot that paints the hull. It remembers the last colour of every panel it has painted and
starts on the origin, facing up. A move is a colour and a turn: paint, turn, step forward. The
picture of a hull is the smallest box that holds every painted panel, row by row.
-/

namespace Shipboard

inductive Color
  | black
  | white
  deriving DecidableEq, Repr

namespace Color

def toWord : Color → Word
  | .black => 0
  | .white => 1

def ofWord (v : Word) : Except ControllerError Color :=
  if v = 0 then .ok .black
  else if v = 1 then .ok .white
  else .error (.unexpected .colour v)

theorem ofWord_toWord (c : Color) : ofWord c.toWord = .ok c := by cases c <;> rfl

end Color

/-- The painted panels. Panels that are not in it are black. -/
abbrev Hull := Std.ExtTreeMap Point Color

structure Robot where
  position : Point := .origin
  facing : Facing := .up
  hull : Hull := ∅

namespace Robot

/-- A white start counts as painted. -/
def startingOn : Color → Robot
  | .black => {}
  | .white => { hull := (∅ : Hull).insert .origin .white }

def color (r : Robot) : Color := (r.hull[r.position]?).getD .black

def painted (r : Robot) : Nat := r.hull.size

/-- Zero turns left and one turns right. -/
def turned (r : Robot) (turn : Word) : Except ControllerError Facing :=
  if turn = 0 then .ok r.facing.turnLeft
  else if turn = 1 then .ok r.facing.turnRight
  else .error (.unexpected .turn turn)

/-- The colour is looked at before the turn. -/
def apply (r : Robot) (paint turn : Word) : Except ControllerError Robot := do
  let color ← Color.ofWord paint
  let facing ← r.turned turn
  return { position := r.position + facing.delta, facing, hull := r.hull.insert r.position color }

end Robot

/-- The corners of a box of cells, both inside it. -/
structure Extent where
  low : Point
  high : Point
  deriving DecidableEq, Repr

namespace Extent

def ofPoint (p : Point) : Extent := ⟨p, p⟩

def cover (e : Extent) (p : Point) : Extent :=
  ⟨⟨min e.low.x p.x, min e.low.y p.y⟩, ⟨max e.high.x p.x, max e.high.y p.y⟩⟩

def ofPoints : List Point → Option Extent
  | [] => none
  | p :: ps => some (ps.foldl cover (ofPoint p))

def width (e : Extent) : Nat := (e.high.x - e.low.x + 1).toNat

def height (e : Extent) : Nat := (e.high.y - e.low.y + 1).toNat

end Extent

namespace Hull

def mark (h : Hull) (p : Point) : Char := if h[p]? = some .white then '#' else ' '

def row (h : Hull) (e : Extent) (y : Int) : List Char :=
  (List.range e.width).map fun (column : Nat) => h.mark ⟨e.low.x + column, y⟩

/-- The rows of the box from top to bottom, each ended by a newline. -/
def rows (h : Hull) (e : Extent) : List Char :=
  (List.range e.height).flatMap fun (line : Nat) => h.row e (e.low.y + line) ++ ['\n']

/-- The picture when the painted panels are gone through in this order. -/
def pictureOver (h : Hull) (order : List Point) : List Char :=
  match Extent.ofPoints order with
  | none => []
  | some e => h.rows e

def picture (h : Hull) : List Char := h.pictureOver h.keys

end Hull

def Robot.render (r : Robot) : String := String.ofList r.hull.picture

end Shipboard
