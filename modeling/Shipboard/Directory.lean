/-!
A working directory with its files, and what happens when a path in it is read. A path is followed
name by name; only a directory can be followed further, and only a file can be read.
-/

namespace Shipboard

inductive Unloadable
  | notFound
  | notADirectory
  | isADirectory
  | nameTooLong
  | nulInName
  | notText
  | other (text : String)
  deriving DecidableEq, Repr

def Unloadable.message : Unloadable → String
  | .notFound => "No such file or directory (os error 2)"
  | .notADirectory => "Not a directory (os error 20)"
  | .isADirectory => "Is a directory (os error 21)"
  | .nameTooLong => "File name too long (os error 36)"
  | .nulInName => "file name contained an unexpected NUL byte"
  | .notText => "stream did not contain valid UTF-8"
  | .other text => text

inductive Entry
  | file (bytes : ByteArray)
  | directory

/-- What the working directory holds, by the names that lead there. -/
structure Directory where
  entries : List (List String × Entry) := []

namespace Directory

/-- Bytes in the longest name and in the longest path. -/
def nameLimit : Nat := 255

def pathLimit : Nat := 4095

/-- What a path has led to: a directory inside the working directory, one outside, or a file. -/
inductive Place
  | inside (names : List String)
  | outside
  | file (bytes : ByteArray)

def enter (d : Directory) (names : List String) : Except Unloadable Place :=
  match d.entries.lookup names with
  | some (.file bytes) => .ok (.file bytes)
  | some .directory => .ok (.inside names)
  | none =>
      if d.entries.any fun e => names.isPrefixOf e.1 then .ok (.inside names)
      else .error .notFound

def leave : List String → Place
  | [] => .outside
  | names => .inside names.dropLast

def follow (d : Directory) (place : Place) (name : String) : Except Unloadable Place :=
  match place with
  | .file _ => .error .notADirectory
  | .outside =>
      if name.isEmpty || name = "." || name = ".." then .ok .outside
      else if nameLimit < name.utf8ByteSize then .error .nameTooLong
      else .error .notFound
  | .inside names =>
      if name.isEmpty || name = "." then .ok place
      else if name = ".." then .ok (leave names)
      else if nameLimit < name.utf8ByteSize then .error .nameTooLong
      else d.enter (names ++ [name])

def read (d : Directory) (path : String) : Except Unloadable ByteArray := do
  if path.toList.contains '\x00' then .error .nulInName
  else if path.isEmpty then .error .notFound
  else if pathLimit < path.utf8ByteSize then .error .nameTooLong
  else
    let start := if path.toList.head? = some '/' then Place.outside else .inside []
    match ← (path.splitOn "/").foldlM d.follow start with
    | .file bytes => .ok bytes
    | _ => .error .isADirectory

end Directory

end Shipboard
