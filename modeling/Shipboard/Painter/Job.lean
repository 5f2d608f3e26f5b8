import Shipboard.Painter.Robot

/-!
The robot as a controller. Before every input the core announces it; the robot then reports the
colour under it and receives the colour to paint and the turn. It goes on until the core stops.
-/

namespace Shipboard

inductive Painter.Phase
  | waiting
  | reporting
  | receivingColour
  | receivingTurn (paint : Word)
  | finished (result : Except ControllerError Nat)

structure Painter where
  robot : Robot
  moves : Nat := 0
  phase : Painter.Phase := .waiting

namespace Painter

def ask (p : Painter) : Ask :=
  match p.phase with
  | .waiting => .get .ready
  | .reporting => .put .toCore p.robot.color.toWord
  | .receivingColour => .get .fromCore
  | .receivingTurn _ => .get .fromCore
  | .finished _ => .stop

def move (p : Painter) (paint turn : Word) : Painter :=
  match p.robot.apply paint turn with
  | .ok robot => ⟨robot, p.moves + 1, .waiting⟩
  | .error e => { p with phase := .finished (.error e) }

def lose (p : Painter) (awaited : Awaited) : Painter :=
  { p with phase := .finished (.error (.closed awaited)) }

def hear (p : Painter) (a : Answer) : Painter :=
  match p.phase, a with
  | .waiting, .value _ => { p with phase := .reporting }
  | .waiting, _ => { p with phase := .finished (.ok p.moves) }
  | .reporting, .done => { p with phase := .receivingColour }
  | .reporting, _ => p.lose .colourRequest
  | .receivingColour, .value paint => { p with phase := .receivingTurn paint }
  | .receivingColour, _ => p.lose .paintColour
  | .receivingTurn paint, .value turn => p.move paint turn
  | .receivingTurn _, _ => p.lose .turn
  | .finished _, _ => p

def party : Party Painter := ⟨ask, hear⟩

/-- The number of moves made, or what stopped the robot. -/
def result? (p : Painter) : Option (Except ControllerError Nat) :=
  match p.phase with
  | .finished r => some r
  | _ => none

end Painter

/-- The robot after a painting program has run with the robot starting on `start`. -/
def paint (fuel : Nat) (m : Machine) (start : Color) : Option (Except ControllerError Robot) := do
  let (painter, ending) ←
    m.attend fuel .interactive Painter.party { robot := Robot.startingOn start }
  let result ← painter.result?
  return ControllerError.settle (result.map fun _ => painter.robot) ending

end Shipboard
