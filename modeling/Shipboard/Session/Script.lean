import Shipboard.Session.Party
import Shipboard.Text

/-!
Scripts: lists of operations done one after another, at either end of a session, with the replies
they got. An operation that needs several values goes on until it has them or the channel closes.
-/

namespace Shipboard

/-- A length of time in milliseconds, in the largest unit of which it holds at least one. -/
def durationText (ms : Nat) : String :=
  if ms = 0 then "0ns"
  else if ms < 1000 then s!"{ms}ms"
  else
    let thousandths := ((toString (1000 + ms % 1000)).toList.drop 1).reverse.dropWhile (· = '0')
    if thousandths.isEmpty then s!"{ms / 1000}s"
    else s!"{ms / 1000}.{String.ofList thousandths.reverse}s"

inductive Reply
  | ok
  | closed
  | value (v : Word)
  /-- The stream has ended. -/
  | ended
  | stalled (ms : Nat)
  | flag (b : Bool)
  | values (vs : List Word)
  /-- The core has stopped. -/
  | joined
  deriving DecidableEq, Repr

namespace Reply

def closedMessage : String := "channel closed"

def stalledMessage (ms : Nat) : String := s!"no value within {durationText ms}"

end Reply

inductive CoreOp
  | input
  | output (v : Word)
  | close
  deriving DecidableEq, Repr

structure CoreScript where
  todo : List CoreOp
  pulsed : Bool := false
  replies : List Reply := []

namespace CoreScript

def ask (p : Protocol) (s : CoreScript) : Ask :=
  match s.todo with
  | [] => .stop
  | .input :: _ => if p = .interactive && !s.pulsed then .put .ready 0 else .get .toCore
  | .output v :: _ => .put .fromCore v
  | .close :: _ => .hangUp

def reply (s : CoreScript) (r : Reply) : CoreScript :=
  { todo := s.todo.drop 1, pulsed := false, replies := s.replies ++ [r] }

def hear (s : CoreScript) (a : Answer) : CoreScript :=
  match s.todo, a with
  | [], _ => s
  | .input :: _, .done => { s with pulsed := true }
  | .input :: _, .value v => s.reply (.value v)
  | .output _ :: _, .done => s.reply .ok
  | .close :: _, .done => s.reply .ok
  | _ :: _, _ => s.reply .closed

def party (p : Protocol) : Party CoreScript := ⟨ask p, hear⟩

end CoreScript

inductive ControllerOp
  | send (v : Word)
  | sendAll (vs : List Word)
  | receive
  | receiveWithin (ms : Nat)
  | awaitPulse
  /-- Receives up to and including the next newline. -/
  | skipLine
  /-- Receives until the stream ends. -/
  | drain
  /-- Receives so many values, or fewer if the stream ends. -/
  | collect (n : Nat)
  | isInteractive
  | hangUp
  | join
  | isFinished
  deriving DecidableEq, Repr

namespace ControllerOp

def sendLine (line : String) : ControllerOp := .sendAll (Text.lineCodes line.toList)

end ControllerOp

structure ControllerScript where
  todo : List ControllerOp
  /-- What the operation at hand has received, the latest first. -/
  gathered : List Word := []
  replies : List Reply := []

namespace ControllerScript

def ask (s : ControllerScript) : Ask :=
  match s.todo with
  | [] => .stop
  | .send v :: _ => .put .toCore v
  | .sendAll [] :: _ => .work
  | .sendAll (v :: _) :: _ => .put .toCore v
  | .receive :: _ => .get .fromCore
  | .receiveWithin _ :: _ => .getSoon .fromCore
  | .awaitPulse :: _ => .get .ready
  | .skipLine :: _ => .get .fromCore
  | .drain :: _ => .get .fromCore
  | .collect 0 :: _ => .work
  | .collect (_ + 1) :: _ => .get .fromCore
  | .isInteractive :: _ => .work
  | .hangUp :: _ => .hangUp
  | .join :: _ => .join
  | .isFinished :: _ => .poll

def reply (s : ControllerScript) (r : Reply) : ControllerScript :=
  { todo := s.todo.drop 1, gathered := [], replies := s.replies ++ [r] }

def goOn (s : ControllerScript) (op : ControllerOp) : ControllerScript :=
  { s with todo := op :: s.todo.drop 1 }

def gather (s : ControllerScript) (v : Word) : ControllerScript :=
  { s with gathered := v :: s.gathered }

def hear (p : Protocol) (s : ControllerScript) (a : Answer) : ControllerScript :=
  match s.todo, a with
  | [], _ => s
  | .send _ :: _, .done => s.reply .ok
  | .sendAll (_ :: vs) :: _, .done => s.goOn (.sendAll vs)
  | .sendAll [] :: _, .done => s.reply .ok
  | .receive :: _, .value v => s.reply (.value v)
  | .receive :: _, .closed => s.reply .ended
  | .receiveWithin _ :: _, .value v => s.reply (.value v)
  | .receiveWithin _ :: _, .closed => s.reply .ended
  | .receiveWithin ms :: _, .stalled => s.reply (.stalled ms)
  | .awaitPulse :: _, .value _ => s.reply (.flag true)
  | .awaitPulse :: _, .closed => s.reply (.flag false)
  | .skipLine :: _, .value v => if v = Text.newline then s.reply (.flag true) else s
  | .skipLine :: _, .closed => s.reply (.flag false)
  | .drain :: _, .value v => s.gather v
  | .drain :: _, .closed => s.reply (.values s.gathered.reverse)
  | .collect (n + 1) :: _, .value v => (s.gather v).goOn (.collect n)
  | .collect _ :: _, .closed => s.reply (.values s.gathered.reverse)
  | .collect 0 :: _, .done => s.reply (.values s.gathered.reverse)
  | .isInteractive :: _, .done => s.reply (.flag (p = .interactive))
  | .hangUp :: _, .done => s.reply .ok
  | .join :: _, .done => s.reply .joined
  | .isFinished :: _, .stopped b => s.reply (.flag b)
  | _ :: _, _ => s.reply .closed

def party (p : Protocol) : Party ControllerScript := ⟨ask, hear p⟩

end ControllerScript

end Shipboard
