import Shipboard.Directory
import Shipboard.Text
import Shipboard.Text.Quoted

/-!
Program listings: words in decimal, separated by commas, with white space around each and
possibly one comma after the last. `read` gives the program or the first token that is no word.
-/

namespace Shipboard

namespace Listing

/-- A token that is no word, and its place among the tokens. -/
structure Unreadable where
  index : Nat
  token : List Char
  deriving DecidableEq, Repr

def Unreadable.message (e : Unreadable) : String :=
  s!"Parse error: token {e.index} ({String.ofList (Text.quote e.token)}) is not an integer"

/-- The listing without the white space around it and without one comma at its end. -/
def body (cs : List Char) : List Char :=
  let cs := Text.trim cs
  if cs.getLast? = some ',' then cs.dropLast else cs

def tokens (cs : List Char) : List (List Char) :=
  match body cs with
  | [] => []
  | cs => (Text.split ',' cs).map Text.trim

def readToken : List Char × Nat → Except Unreadable Word
  | (token, index) =>
      match Text.readWord? token with
      | none => .error ⟨index, token⟩
      | some v => .ok v

/-- Tokens are read in order, so the first that is no word is reported. -/
def read (text : String) : Except Unreadable (List Word) :=
  (tokens text.toList).zipIdx.mapM readToken

inductive Trouble
  | unloadable (path : String) (cause : Unloadable)
  | unreadable (e : Unreadable)
  deriving DecidableEq, Repr

def Trouble.message : Trouble → String
  | .unloadable path cause => s!"Load error: {path}: {cause.message}"
  | .unreadable e => e.message

def ofBytes (bytes : ByteArray) : Except Unloadable String :=
  match String.fromUTF8? bytes with
  | some text => .ok text
  | none => .error .notText

def load (path : String) (found : Except Unloadable ByteArray) : Except Trouble (List Word) := do
  let text ← (found.bind ofBytes).mapError (.unloadable path)
  (read text).mapError .unreadable

end Listing

end Shipboard
