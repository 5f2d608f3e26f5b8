import Shipboard.CommandLine.Report

/-! The command: reads a listing, runs it, and prints the report. -/

namespace Shipboard.CommandLine

/-- More steps than a run will live to take. -/
def patience : Nat := UInt64.size / 4

def unloadable (e : IO.Error) : Unloadable :=
  match e with
  | .noFileOrDirectory .. => .notFound
  | .inappropriateType _ 20 _ => .notADirectory
  | .inappropriateType .. => .isADirectory
  | .invalidArgument _ 36 _ => .nameTooLong
  | e => .other (toString e)

def readBytes (path : String) : IO (Except Unloadable ByteArray) := do
  if path.toList.contains '\x00' then return .error .nulInName
  try
    return .ok (← IO.FS.readBinFile path)
  catch e => return .error (unloadable e)

def print (r : Report) : IO UInt32 := do
  (← IO.getStdout).putStr r.stdout
  (← IO.getStderr).putStr r.stderr
  return r.code.toUInt32

def start (args : List String) : IO UInt32 := do
  match Invocation.ofArguments args with
  | .error e => print (.ofExit e)
  | .ok i =>
      match i.report patience (← readBytes i.listing) with
      | some r => print r
      | none => print { code := 1 }

end Shipboard.CommandLine

def main (args : List String) : IO UInt32 := Shipboard.CommandLine.start args
