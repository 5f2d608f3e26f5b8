import Shipboard.Scaffold.Compression

/-!
Rescue: the program is woken up, shows a frame, and asks five times for a line: the main routine,
the three functions, and whether it shall go on showing frames. The last value it writes is the
amount of dust. A frame ends at the first newline after a newline; that newline belongs neither to
the frame nor to what follows.
-/

namespace Shipboard

namespace Stream

/-- The frame with one more value, the latest first; none when the value completes the frame. -/
def extend? (gathered : List Word) (v : Word) : Option (List Word) :=
  if v = Text.newline ∧ gathered.head? = some Text.newline then none else some (v :: gathered)

/-- Reads on from a part of a frame: the frame, and the values behind it. -/
def readFrame (gathered : List Word) : List Word → List Word × List Word
  | [] => (gathered.reverse, [])
  | v :: rest =>
      match extend? gathered v with
      | none => (gathered.reverse, rest)
      | some gathered => readFrame gathered rest

/-- Discards values up to and including the next newline, and says whether there was one. -/
def skipLine : List Word → Bool × List Word
  | [] => (false, [])
  | v :: rest => if v = Text.newline then (true, rest) else skipLine rest

end Stream

/-- Written to address zero, this makes the program ask for routines. -/
def wakeUp : Word := 2

structure Rescue where
  routines : Routines
  dust : Word
  deriving DecidableEq, Repr

namespace Guide

/-- The routines for a frame and the lines that answer the five prompts. -/
def plan (video : Bool) (frame : List Word) :
    Except ControllerError (Routines × List (List Char)) := do
  let scaffold ← Scaffold.ofFrame frame
  let route ← scaffold.route
  match route.compress? with
  | none => .error (.uncompressible route.length)
  | some routines =>
      let lines ← routines.lines.mapError .trap
      return (routines, lines ++ [[if video then 'y' else 'n']])

inductive Phase
  /-- Reads the frame; the latest code comes first. -/
  | framing (gathered : List Word)
  /-- Waits for the end of a prompt; `lines` are to be sent, one for each prompt. -/
  | prompted (routines : Routines) (lines : List (List Char))
  /-- Sends the rest of a line. -/
  | answering (routines : Routines) (codes : List Word) (lines : List (List Char))
  /-- Reads to the end; `last` is the latest value. -/
  | listening (routines : Routines) (last : Option Word)
  | finished (result : Except ControllerError Rescue)

end Guide

structure Guide where
  video : Bool
  phase : Guide.Phase := .framing []

namespace Guide

def ask (g : Guide) : Ask :=
  match g.phase with
  | .framing _ => .get .fromCore
  | .prompted _ _ => .get .fromCore
  | .answering _ (c :: _) _ => .put .toCore c
  | .answering _ [] _ => .work
  | .listening _ _ => .get .fromCore
  | .finished _ => .stop

def Phase.fail (e : ControllerError) : Phase := .finished (.error e)

def Phase.proceed (routines : Routines) : List (List Char) → Phase
  | [] => .listening routines none
  | line :: lines => .prompted routines (line :: lines)

def Phase.ofFrame (video : Bool) (frame : List Word) : Phase :=
  match plan video frame with
  | .ok (routines, lines) => .proceed routines lines
  | .error e => .fail e

def hearPhase (video : Bool) : Phase → Answer → Phase
  | .framing gathered, .value v =>
      match Stream.extend? gathered v with
      | none => .ofFrame video gathered.reverse
      | some gathered => .framing gathered
  | .framing gathered, _ => .ofFrame video gathered.reverse
  | .prompted routines (line :: lines), .value v =>
      if v = Text.newline then .answering routines (Text.lineCodes line) lines
      else .prompted routines (line :: lines)
  | .prompted routines [], .value _ => .proceed routines []
  | .prompted _ _, _ => .fail (.closed .prompt)
  | .answering routines (_ :: c :: codes) lines, .done => .answering routines (c :: codes) lines
  | .answering routines _ lines, .done => .proceed routines lines
  | .answering _ _ _, _ => .fail (.closed .movementRoutine)
  | .listening routines _, .value v => .listening routines (some v)
  | .listening routines (some dust), _ => .finished (.ok ⟨routines, dust⟩)
  | .listening _ none, _ => .fail (.closed .dustReport)
  | .finished result, _ => .finished result

def hear (g : Guide) (a : Answer) : Guide := { g with phase := hearPhase g.video g.phase a }

def party : Party Guide := ⟨ask, hear⟩

def result? (g : Guide) : Option (Except ControllerError Rescue) :=
  match g.phase with
  | .finished r => some r
  | _ => none

end Guide

/-- Wakes the program up and guides the robot; the controller's error counts first. -/
def rescue (fuel : Nat) (m : Machine) (video : Bool) :
    Option (Except ControllerError Rescue) :=
  match m.poke? 0 wakeUp with
  | .error t => some (.error (.trap t))
  | .ok m => do
      let (guide, ending) ← m.attend fuel .streaming Guide.party { video }
      let result ← guide.result?
      return ControllerError.settle result ending

end Shipboard
