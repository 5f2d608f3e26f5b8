import Shipboard.Scaffold.Route

/-!
Movement routines: functions, and a main routine that calls them by the names A, B and C. The robot
takes them as four lines. A route is split into routines from the left: at each place the search
tries to call a function it already has, the earlier ones first, then to make a new function, the
longest first. A choice that leads nowhere is taken back, so a search that fails leaves the draft
as it was.
-/

namespace Shipboard

structure Routines where
  /-- Places in `functions`, counted from zero. -/
  main : List Nat
  functions : List Route
  deriving DecidableEq, Repr

namespace Routines

def maxLine : Nat := 20

def names : List Char := ['A', 'B', 'C']

def lookUp {α : Type} (xs : List α) (i : Nat) : Except Trap α :=
  match xs[i]? with
  | some a => .ok a
  | none => .error (.indexOutOfBounds xs.length i)

def mainLine (r : Routines) : Except Trap (List Char) :=
  (r.main.mapM (lookUp names)).map fun calls => [','].intercalate (calls.map fun c => [c])

/-- The line of a function. A function that is missing repeats the first. -/
def functionLine (r : Routines) (i : Nat) : List Char :=
  ((r.functions[i]?.or r.functions.head?).map Route.line).getD []

/-- The main routine, then the functions A, B and C. -/
def lines (r : Routines) : Except Trap (List (List Char)) :=
  r.mainLine.map fun main => [main, r.functionLine 0, r.functionLine 1, r.functionLine 2]

def expand (r : Routines) : Except Trap Route :=
  (r.main.mapM (lookUp r.functions)).map List.flatten

end Routines

structure Draft where
  functions : List Route := []
  main : List Nat := []
  deriving DecidableEq, Repr

inductive Choice
  /-- Calls a function of the draft. -/
  | call (i : Nat)
  /-- Makes a function of so many commands and calls it. -/
  | introduce (k : Nat)
  deriving DecidableEq, Repr

namespace Draft

def call (d : Draft) (i : Nat) : Draft := { d with main := d.main ++ [i] }

def retract (d : Draft) : Draft := { d with main := d.main.dropLast }

def introduce (d : Draft) (f : Route) : Draft :=
  { functions := d.functions ++ [f], main := d.main ++ [d.functions.length] }

def withdraw (d : Draft) : Draft :=
  { functions := d.functions.dropLast, main := d.main.dropLast }

/-- No further call fits on the main line: `n` calls take `2 * n - 1` characters. -/
def isFull (d : Draft) : Bool := Routines.maxLine < 2 * (d.main.length + 1) - 1

/-- Lengths of the pieces at the front of `rest` whose lines fit, in ascending order. -/
def fitting (rest : Route) : List Nat :=
  ((List.range rest.length).map (· + 1)).takeWhile
    fun k => Route.lineLength (rest.take k) ≤ Routines.maxLine

def choices (d : Draft) (rest : Route) : List Choice :=
  (List.range d.functions.length).map .call ++
    if d.functions.length < Routines.names.length then (fitting rest).reverse.map .introduce
    else []

def tryEach (attempt : Choice → Draft → Bool × Draft) : List Choice → Draft → Bool × Draft
  | [], d => (false, d)
  | c :: cs, d =>
      match attempt c d with
      | (true, d) => (true, d)
      | (false, d) => tryEach attempt cs d

/-- Makes a choice, goes on with `search` behind it, and takes the choice back on failure. -/
def attempt (search : Route → Draft → Bool × Draft) (rest : Route) :
    Choice → Draft → Bool × Draft
  | .call i, d =>
      match d.functions[i]? with
      | none => (false, d)
      | some f =>
          match f.isPrefixOf? rest with
          | none => (false, d)
          | some behind =>
              match search behind (d.call i) with
              | (true, d) => (true, d)
              | (false, d) => (false, d.retract)
  | .introduce k, d =>
      match search (rest.drop k) (d.introduce (rest.take k)) with
      | (true, d) => (true, d)
      | (false, d) => (false, d.withdraw)

/-- Extends the draft so that its new calls make `rest`, if that can be done. -/
def search : (depth : Nat) → (rest : Route) → Draft → Bool × Draft
  | _, [], d => (true, d)
  | 0, _ :: _, d => (false, d)
  | depth + 1, command :: rest, d =>
      if d.isFull then (false, d)
      else tryEach (attempt (search depth) (command :: rest)) (d.choices (command :: rest)) d

end Draft

/-- At most ten calls fit on the main line, and one more level finds that out. -/
def searchDepth : Nat := 11

/-- The first routines that the search finds for a route; the empty route has none. -/
def Route.compress? (r : Route) : Option Routines :=
  if r.isEmpty then none
  else
    match Draft.search searchDepth r {} with
    | (true, d) => some ⟨d.main, d.functions⟩
    | (false, _) => none

end Shipboard
