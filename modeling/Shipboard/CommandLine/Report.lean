import Shipboard.CommandLine.Arguments
import Shipboard.Listing
import Shipboard.Painter.Job
import Shipboard.Painter.Robot
import Shipboard.Scaffold.Rescue
import Shipboard.Scaffold.Survey

/-!
What a run of the command leaves behind: an exit code and two texts. A failed run reports its error
and, if another error lies behind it, that one too.
-/

namespace Shipboard.CommandLine

structure Report where
  code : UInt8 := 0
  stdout : String := ""
  stderr : String := ""
  deriving DecidableEq, Repr

namespace Report

def failed (message : String) (cause : Option String) : Report :=
  let behind := (cause.map fun c => s!"\nCaused by:\n    {c}\n").getD ""
  { code := 1, stderr := s!"Error: {message}\n" ++ behind }

def ofExit : Exit → Report
  | .usage page => { stdout := page.text }
  | .error e =>
      { code := 1, stderr := s!"{e.message}\nRun intcode --help for more information.\n" }

def ofTrouble (e : Listing.Trouble) : Report :=
  match e with
  | .unloadable _ cause => failed e.message (some cause.message)
  | .unreadable _ => failed e.message none

def ofControllerError (e : ControllerError) : Report :=
  match e with
  | .core b => failed e.message (some b.message)
  | _ => failed e.message none

def ofResult {α : Type} (text : α → String) : Except ControllerError α → Report
  | .ok a => { stdout := text a }
  | .error e => ofControllerError e

end Report

def Invocation.run (fuel : Nat) (i : Invocation) (m : Machine) : Option Report :=
  match i.subject, i.part with
  | .paint, .one => (paint fuel m .black).map (.ofResult fun r => s!"{r.painted}\n")
  | .paint, .two => (paint fuel m .white).map (.ofResult Robot.render)
  | .scaffold, .one => (alignment fuel m).map (.ofResult fun n => s!"{n}\n")
  | .scaffold, .two =>
      (rescue fuel m i.video).map (.ofResult fun r => s!"{r.dust.toInt}\n")

/-- Runs the command; `found` is what reading the file at a path gives. -/
def Invocation.report (fuel : Nat) (i : Invocation) (found : Except Unloadable ByteArray) :
    Option Report :=
  match Listing.load i.listing found with
  | .error e => some (.ofTrouble e)
  | .ok program => i.run fuel (Machine.ofProgram program)

end Shipboard.CommandLine
