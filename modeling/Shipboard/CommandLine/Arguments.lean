import Shipboard.Text

/-!
Arguments of the command and the pages that explain them. Options of the command itself come first,
then the job, then the job's own options and its part. After `--` nothing is an option; a call for
help is answered when the rest of the arguments is in order.
-/

namespace Shipboard.CommandLine

inductive Page
  | all
  | paint
  | scaffold
  deriving DecidableEq, Repr

def Page.lines : Page → List String
  | .all =>
      ["Usage: intcode [-i <input>] <command> [<args>]",
        "",
        "Intcode virtual machine driving the hull painting robot or the scaffold vacuum robot.",
        "",
        "Options:",
        "  -i, --input       program listing to run, defaults to `input.txt`",
        "  --help, help      display usage information",
        "",
        "Commands:",
        "  paint             Paint the hull: `1` counts painted panels, `2` draws the",
        "                    registration.",
        "  scaffold          Survey the scaffold: `1` sums alignment parameters, `2`",
        "                    collects dust."]
  | .paint =>
      ["Usage: intcode paint [--] <part>",
        "",
        "Paint the hull: `1` counts painted panels, `2` draws the registration.",
        "",
        "Positional Arguments:",
        "  part              puzzle part, `1` or `2`",
        "",
        "Options:",
        "  --help, help      display usage information"]
  | .scaffold =>
      ["Usage: intcode scaffold [--video] [--] <part>",
        "",
        "Survey the scaffold: `1` sums alignment parameters, `2` collects dust.",
        "",
        "Positional Arguments:",
        "  part              puzzle part, `1` or `2`",
        "",
        "Options:",
        "  --video           accept the continuous video feed in part 2",
        "  --help, help      display usage information"]

/-- The page with an empty line after it. -/
def Page.text (p : Page) : String := "\n".intercalate (p.lines ++ ["", ""])

inductive Part
  | one
  | two
  deriving DecidableEq, Repr

inductive Subject
  | paint
  | scaffold
  deriving DecidableEq, Repr

structure Invocation where
  listing : String := "input.txt"
  subject : Subject
  part : Part
  /-- Only the scaffold job takes it. -/
  video : Bool := false
  deriving DecidableEq, Repr

inductive ArgumentError
  | noSubject
  | noPart
  | badPart (value : String)
  | unrecognized (argument : String)
  | noValue (option : String)
  | duplicate (option value : String)
  | afterHelp
  deriving DecidableEq, Repr

def trimmed (s : String) : String := String.ofList (Text.trim s.toList)

def ArgumentError.message : ArgumentError → String
  | .noSubject =>
      "One of the following subcommands must be present:\n    help\n    paint\n    scaffold\n"
  | .noPart => "Required positional arguments not provided:\n    part\n"
  | .badPart value =>
      s!"Error parsing positional argument 'part' with value '{value}': "
        ++ s!"invalid part `{trimmed value}`, expected 1 or 2\n"
  | .unrecognized argument => s!"Unrecognized argument: {argument}\n"
  | .noValue option => s!"No value provided for option '{option}'.\n"
  | .duplicate option value =>
      s!"Error parsing option '{option}' with value '{value}': duplicate values provided\n"
  | .afterHelp => "Trailing arguments are not allowed after `help`."

/-- Why there is nothing to run. -/
inductive Exit
  | usage (p : Page)
  | error (e : ArgumentError)
  deriving DecidableEq, Repr

namespace Part

def read (s : String) : Except Exit Part :=
  match Text.trim s.toList with
  | ['1'] => .ok .one
  | ['2'] => .ok .two
  | _ => .error (.error (.badPart s))

end Part

namespace Subject

def ofName? : String → Option Subject
  | "paint" => some .paint
  | "scaffold" => some .scaffold
  | _ => none

def page : Subject → Page
  | .paint => .paint
  | .scaffold => .scaffold

def allows (s : Subject) (option : String) : Bool := s = .scaffold && option = "--video"

end Subject

def isHelp (a : String) : Bool := a = "--help" || a = "help"

def isOption (a : String) : Bool := a.toList.head? = some '-'

structure JobArguments where
  help : Bool := false
  /-- No more options: `--` has been read. -/
  plain : Bool := false
  part : Option Part := none
  video : Bool := false

namespace JobArguments

def positional (r : JobArguments) (a : String) : Except Exit JobArguments :=
  match r.part with
  | some _ => .error (.error (.unrecognized a))
  | none => (Part.read a).map fun p => { r with part := some p }

def option (subject : Subject) (r : JobArguments) (a : String) : Except Exit JobArguments :=
  if a = "--" then .ok { r with plain := true }
  else if r.help then .error (.error .afterHelp)
  else if subject.allows a then .ok { r with video := true }
  else .error (.error (.unrecognized a))

def next (subject : Subject) (r : JobArguments) (a : String) : Except Exit JobArguments :=
  if isHelp a && !r.plain then .ok { r with help := true }
  else if isOption a && !r.plain then r.option subject a
  else r.positional a

def finish (listing : Option String) (subject : Subject) (r : JobArguments) :
    Except Exit Invocation :=
  if r.help then .error (.usage subject.page)
  else
    match r.part with
    | none => .error (.error .noPart)
    | some part => .ok ⟨listing.getD "input.txt", subject, part, r.video⟩

end JobArguments

structure CommandArguments where
  help : Bool := false
  plain : Bool := false
  listing : Option String := none

namespace CommandArguments

def read (r : CommandArguments) : List String → Except Exit Invocation
  | [] => .error (if r.help then .usage .all else .error .noSubject)
  | a :: rest =>
      if isHelp a && !r.plain then read { r with help := true } rest
      else if isOption a && !r.plain then
        if a = "--" then read { r with plain := true } rest
        else if r.help then .error (.error .afterHelp)
        else if a = "-i" || a = "--input" then
          match rest with
          | [] => .error (.error (.noValue a))
          | value :: rest =>
              if r.listing.isSome then .error (.error (.duplicate a value))
              else read { r with listing := some value } rest
        else .error (.error (.unrecognized a))
      else
        match Subject.ofName? a with
        | none => .error (.error (.unrecognized a))
        | some subject =>
            (rest.foldlM (JobArguments.next subject) { help := r.help }).bind
              (JobArguments.finish r.listing subject)

end CommandArguments

def Invocation.ofArguments (args : List String) : Except Exit Invocation :=
  CommandArguments.read {} args

end Shipboard.CommandLine
