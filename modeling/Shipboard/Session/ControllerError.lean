import Shipboard.Session.Worker

/-! What stops a controller, and which side's trouble is reported when both have some. -/

namespace Shipboard

/-- What a controller waited for when the core let go of the channel. -/
inductive Awaited
  | colourRequest
  | paintColour
  | turn
  | prompt
  | movementRoutine
  | dustReport
  deriving DecidableEq, Repr

def Awaited.text : Awaited → String
  | .colourRequest => "colour request"
  | .paintColour => "paint colour"
  | .turn => "turn"
  | .prompt => "prompt"
  | .movementRoutine => "movement routine"
  | .dustReport => "dust report"

inductive Meaning
  | colour
  | turn
  | cameraPixel
  deriving DecidableEq, Repr

def Meaning.text : Meaning → String
  | .colour => "colour"
  | .turn => "turn"
  | .cameraPixel => "camera pixel"

inductive ControllerError
  | closed (awaited : Awaited)
  | unexpected (meaning : Meaning) (value : Word)
  | noRobot
  | uncompressible (moves : Nat)
  | core (b : Breakdown)
  /-- The controller itself breaks. -/
  | trap (t : Trap)
  deriving DecidableEq, Repr

namespace ControllerError

def message : ControllerError → String
  | .closed awaited => s!"core closed the channel while waiting for {awaited.text}"
  | .unexpected meaning value => s!"unexpected {meaning.text} value {value.toInt}"
  | .noRobot => "camera frame shows no robot"
  | .uncompressible moves =>
      s!"path of {moves} moves cannot be split into three movement functions"
  | .core b => s!"core fault: {b.message}"
  | .trap t => t.message

/-- The controller's own error counts first, then the core's. -/
def settle {α : Type} (result : Except ControllerError α) (ending : Ending) :
    Except ControllerError α :=
  match result, ending with
  | .error e, _ => .error e
  | .ok _, .error b => .error (.core b)
  | .ok a, .ok _ => .ok a

end ControllerError

end Shipboard
