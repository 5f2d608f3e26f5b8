import Shipboard.Scaffold.Frame
import Shipboard.Text

/-!
Routes: lists of commands for a robot on a scaffold, as the robot reads them and as the moves they
stand for. A run of steps forward is one command. The route of a scaffold is the robot's walk over
it: straight on while it can, else by a turn to the right, else by a turn to the left, until there
is nowhere to go or a step reaches a pose for the second time.
-/

namespace Shipboard

inductive Command
  | left
  | right
  | forward (n : UInt32)
  deriving DecidableEq, Repr

abbrev Route := List Command

inductive Move
  | left
  | right
  | step
  deriving DecidableEq, Repr

namespace Command

def text : Command → List Char
  | .left => ['L']
  | .right => ['R']
  | .forward n => Text.digits n.toNat

def moves : Command → List Move
  | .left => [.left]
  | .right => [.right]
  | .forward n => List.replicate n.toNat .step

end Command

namespace Route

/-- The line that the robot accepts: the commands with commas between them. -/
def line (r : Route) : List Char := [','].intercalate (r.map Command.text)

/-- The length of the line, counted without writing it. -/
def lineLength (r : Route) : Nat :=
  r.foldl (fun n c => n + c.text.length) 0 + (r.length - 1)

def moves (r : Route) : List Move := r.flatMap Command.moves

/-- Puts a move in front; a step joins the run of steps behind it. -/
def prepend (m : Move) (r : Route) : Except Trap Route :=
  match m, r with
  | .left, r => .ok (.left :: r)
  | .right, r => .ok (.right :: r)
  | .step, .forward n :: r =>
      if n.toNat + 1 < UInt32.size then .ok (.forward (n + 1) :: r) else .error .addOverflow
  | .step, r => .ok (.forward 1 :: r)

def ofMoves (ms : List Move) : Except Trap Route := ms.foldrM prepend []

end Route

namespace Scaffold

/-- The moves to the next cell and the pose there. -/
def onward? (s : Scaffold) (p : Pose) : Option (List Move × Pose) :=
  if s.has p.ahead then some ([.step], p.forward)
  else if s.has p.turnRight.ahead then some ([.right, .step], p.turnRight.forward)
  else if s.has p.turnLeft.ahead then some ([.left, .step], p.turnLeft.forward)
  else none

/-- The walk from a pose, for at most `fuel` cells; `seen` are the poses reached before. -/
def walkFrom (s : Scaffold) : (fuel : Nat) → (seen : Std.ExtTreeSet Pose) → Pose → List Move
  | 0, _, _ => []
  | fuel + 1, seen, p =>
      match s.onward? p with
      | none => []
      | some (ms, q) =>
          if q ∈ seen then ms else ms ++ s.walkFrom fuel (seen.insert q) q

/-- Every cell can be reached with four facings, and no pose but the last comes twice. -/
def walk (s : Scaffold) (p : Pose) : List Move :=
  s.walkFrom (4 * s.size) ((∅ : Std.ExtTreeSet Pose).insert p) p

def route (s : Scaffold) : Except ControllerError Route :=
  match s.robot with
  | none => .error .noRobot
  | some p => (Route.ofMoves (s.walk p)).mapError .trap

end Scaffold

end Shipboard
