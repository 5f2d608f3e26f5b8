import Shipboard.Scaffold.Frame

/-!
Surveying: everything that a camera program writes is taken as one frame. The alignment of the
scaffold on it is the sum of its crossings' distances from the frame's edges.
-/

namespace Shipboard

namespace Scaffold

def isCrossing (s : Scaffold) (p : Point) : Bool := s.has p && p.neighbours.all s.has

/-- The scaffold cells whose four neighbours are scaffold, by `x`, then by `y`. -/
def crossings (s : Scaffold) : List Point := s.cells.toList.filter s.isCrossing

def addAlignment (sum : Int) (p : Point) : Except Trap Int := do
  addInRange sum (← mulInRange p.x p.y)

def alignmentOf (cells : List Point) : Except Trap Int := cells.foldlM addAlignment 0

def alignment (s : Scaffold) : Except Trap Int := alignmentOf s.crossings

end Scaffold

/-- A controller that takes what comes until the stream ends, the latest first. -/
structure Collector where
  gathered : List Word := []
  ended : Bool := false
  deriving DecidableEq, Repr

namespace Collector

def ask (c : Collector) : Ask := if c.ended then .stop else .get .fromCore

def hear (c : Collector) : Answer → Collector
  | .value v => { c with gathered := v :: c.gathered }
  | _ => { c with ended := true }

def party : Party Collector := ⟨ask, hear⟩

def values (c : Collector) : List Word := c.gathered.reverse

end Collector

/-- The scaffold that a camera program shows; the core's trouble counts before the frame's. -/
def survey (fuel : Nat) (m : Machine) : Option (Except ControllerError Scaffold) := do
  let (collector, ending) ← m.attend fuel .streaming Collector.party {}
  match ending with
  | .error b => return .error (.core b)
  | .ok _ => return Scaffold.ofFrame collector.values

def alignment (fuel : Nat) (m : Machine) : Option (Except ControllerError Int) :=
  (survey fuel m).map fun found => found.bind fun s => s.alignment.mapError .trap

end Shipboard
