import Shipboard.Proofs.Core.Failing
import Shipboard.Proofs.Core.Stepping
import Shipboard.Proofs.Core.Trapping

/-!
An instruction as one statement after another. Each finds the core and the device as the one before
has left them, and where one fails, what has been done up to there stays. Where memory is not too
large, the statements come to what `Core.step` gives.
-/

namespace Shipboard

/-- Statements on a core and its device. A failure keeps what has been done. -/
abbrev Work (σ α : Type) := ExceptT Failure (StateM (Core × σ)) α

def Progress.result : Progress → Except Failure Bool
  | .running => .ok true
  | .halted => .ok false
  | .failed f => .error f

namespace Work

variable {σ α β : Type}

def look (f : Core → Except Failure α) : Work σ α := do
  let s ← get
  liftM (f s.1)

def change (f : Core → Core) : Work σ Unit := modify fun s => (f s.1, s.2)

def write (a : Address) (v : Word) : Work σ Unit := do
  let memory ← look fun c => Failure.ofTrap (c.memory.write? a v)
  change fun c => { c with memory }

def take (D : Device σ) (ip : Address) : Work σ Word := do
  let s ← get
  let (answer, io) := D.take s.2
  set (s.1, io)
  match answer with
  | some v => return v
  | none => throw (.fault (.inputClosed ip))

def put (D : Device σ) (ip : Address) (v : Word) : Work σ Unit := do
  let s ← get
  let (accepted, io) := D.put s.2 v
  set (s.1, io)
  if accepted then return () else throw (.fault (.outputClosed ip))

def store (mode : Mode) (n : Nat) (v : Word) : Work σ Unit := do
  let a ← look fun c => c.destination mode n
  write a v

def compute (i : Instruction) (f : Word → Word → Word) : Work σ Unit := do
  let a ← look fun c => c.operand i.first 0
  let b ← look fun c => c.operand i.second 1
  store i.third 2 (f a b)

def advance (n : Nat) : Work σ Unit := do
  let ip ← look fun c => Failure.ofTrap (c.ip.plus n)
  change fun c => { c with ip }

/-- Executes one instruction and says whether the core goes on. -/
def execute (D : Device σ) : Work σ Bool := do
  let ip ← look fun c => pure c.ip
  let i ← look fun c => Failure.ofFault (Instruction.decode (c.memory.read ip) ip)
  match i.opcode with
  | .add => compute i (· + ·)
  | .mul => compute i (· * ·)
  | .input =>
      let a ← look fun c => c.destination i.first 0
      let v ← take D ip
      write a v
  | .output =>
      let v ← look fun c => c.operand i.first 0
      put D ip v
  | .jumpIfTrue | .jumpIfFalse =>
      let v ← look fun c => c.operand i.first 0
      if (v != 0) == (i.opcode == .jumpIfTrue) then
        let target ← look fun c => do c.address (← c.operand i.second 1)
        change fun c => { c with ip := target }
        return true
  | .lessThan => compute i fun a b => Core.truth (a < b)
  | .equals => compute i fun a b => Core.truth (a == b)
  | .adjustBase =>
      let v ← look fun c => c.operand i.first 0
      change fun c => { c with base := c.base + v }
  | .halt => return false
  advance i.opcode.width
  return true

variable {D : Device σ} {c : Core} {io : σ}

theorem run_look (f : Core → Except Failure α) (k : α → Work σ β) (s : Core × σ) :
    (look f >>= k).run.run s =
      match f s.1 with
      | .error e => (.error e, s)
      | .ok a => (k a).run.run s := by
  rw [look, bind_assoc, run_get, run_check]
  cases f s.1 <;> rfl

/-- Once it has begun there is no fault any more. -/
def Settled (w : Work σ α) : Prop := ∀ f s s', w.run.run s ≠ (.error (.fault f), s')

/-- A fault is at the instruction, and comes before anything has been changed. Of the device at most
what it refuses has been asked. -/
def Spares (D : Device σ) (c : Core) (io : σ) (w : Work σ α) : Prop :=
  ∀ f c' io', w.run.run (c, io) = (.error (.fault f), c', io') →
    c' = c ∧ f.ip = c.ip ∧
      (io' = io ∨ D.take io = (none, io') ∨ ∃ v, D.put io v = (false, io'))

theorem settled_bind {w : Work σ α} {k : α → Work σ β} (first : Settled w)
    (rest : ∀ a, Settled (k a)) : Settled (w >>= k) := by
  intro f s s' fault
  rw [run_bind] at fault
  rcases ran : w.run.run s with ⟨r, mid⟩
  rw [ran] at fault
  cases r with
  | error e =>
      cases fault
      exact first f s s' ran
  | ok a => exact rest a f mid s' fault

theorem settled_pure (a : α) : Settled (pure a : Work σ α) := nofun

theorem settled_change (f : Core → Core) : Settled (change f : Work σ Unit) := nofun

theorem settled_trap (f : Core → Except Trap α) :
    Settled (look fun c => Failure.ofTrap (f c) : Work σ α) := by
  intro g s s' fault
  rw [← bind_pure (look _), run_look] at fault
  cases given : f s.1 <;> simp only [given] at fault <;> cases fault

theorem settled_write (a : Address) (v : Word) : Settled (write a v : Work σ Unit) :=
  settled_bind (settled_trap _) fun _ => settled_change _

theorem settled_advance (n : Nat) : Settled (advance n : Work σ Unit) :=
  settled_bind (settled_trap _) fun _ => settled_change _

theorem spares_of_settled {w : Work σ α} (settled : Settled w) : Spares D c io w := by
  intro f c' io' fault
  exact absurd fault (settled f (c, io) (c', io'))

theorem spares_look {f : Core → Except Failure α} {k : α → Work σ β}
    (found : Errs (Failure.FoundAt c.ip) (f c))
    (rest : ∀ a, f c = .ok a → Spares D c io (k a)) : Spares D c io (look f >>= k) := by
  intro g c' io' fault
  rw [run_look] at fault
  cases seen : f c with
  | error e =>
      simp only [seen] at fault
      cases fault
      have here : g.FoundAt c.ip := found _ seen
      exact ⟨rfl, here.ip_eq, .inl rfl⟩
  | ok a =>
      simp only [seen] at fault
      exact rest a seen g c' io' fault

theorem spares_bind {w : Work σ α} {k : α → Work σ β} (first : Spares D c io w)
    (rest : ∀ a, Settled (k a)) : Spares D c io (w >>= k) := by
  intro f c' io' fault
  rw [run_bind] at fault
  rcases ran : w.run.run (c, io) with ⟨r, mid⟩
  rw [ran] at fault
  cases r with
  | error e =>
      cases fault
      exact first f c' io' ran
  | ok a => exact absurd fault (rest a f mid (c', io'))

theorem spares_take : Spares D c io (take D c.ip) := by
  intro f c' io' fault
  rw [take, run_get] at fault
  rcases given : D.take io with ⟨v, rest⟩
  simp only [given] at fault
  cases v with
  | some v => cases fault
  | none =>
      cases fault
      exact ⟨rfl, rfl, .inr (.inl rfl)⟩

theorem spares_put (v : Word) : Spares D c io (put D c.ip v) := by
  intro f c' io' fault
  rw [put, run_get] at fault
  rcases given : D.put io v with ⟨accepted, rest⟩
  simp only [given] at fault
  cases accepted with
  | true => cases fault
  | false =>
      cases fault
      exact ⟨rfl, rfl, .inr (.inr ⟨v, given⟩)⟩

theorem spares_store (m : Mode) (n : Nat) (v : Word) : Spares D c io (store m n v) := by
  refine spares_look (c.errs_destination m n) ?_
  intro a _
  exact spares_of_settled (settled_write a v)

theorem spares_compute (i : Instruction) (f : Word → Word → Word) :
    Spares D c io (compute i f) := by
  refine spares_look (c.errs_operand _ _) ?_
  intro a _
  refine spares_look (c.errs_operand _ _) ?_
  intro b _
  exact spares_store i.third 2 (f a b)

/-- Of each instruction all the checks come first. -/
theorem spares_execute : Spares D c io (execute D) := by
  have goesOn : ∀ n, Settled (do advance n; return true : Work σ Bool) := fun n =>
    settled_bind (settled_advance n) fun _ => settled_pure true
  refine spares_look (errs_ok _ _) ?_
  intro ip here
  cases here
  refine spares_look (errs_ofFault (Instruction.errs_decode _ _)) ?_
  intro i _
  -- Of the two requests to the device each comes after the checks and before the first change.
  cases i.opcode with
  | add | mul | lessThan | equals =>
      exact spares_bind (spares_compute i _) fun _ => goesOn 4
  | input =>
      refine spares_look (c.errs_destination _ _) ?_
      intro a _
      refine spares_bind spares_take ?_
      intro v
      exact settled_bind (settled_write a v) fun _ => goesOn 2
  | output =>
      refine spares_look (c.errs_operand _ _) ?_
      intro v _
      exact spares_bind (spares_put v) fun _ => goesOn 2
  | jumpIfTrue | jumpIfFalse =>
      refine spares_look (c.errs_operand _ _) ?_
      intro v _
      dsimp only
      split
      · refine spares_look (errs_bind (c.errs_operand _ _) c.errs_address) ?_
        intro target _
        exact spares_of_settled (settled_bind (settled_change _) fun _ => settled_pure true)
      · exact spares_of_settled (goesOn 3)
  | adjustBase =>
      refine spares_look (c.errs_operand _ _) ?_
      intro v _
      exact spares_of_settled (settled_bind (settled_change _) fun _ => goesOn 2)
  | halt => exact spares_of_settled (settled_pure false)

theorem run_goOn {n : Nat} {next : Address} {s : Core × σ} (place : s.1.ip.plus n = .ok next) :
    (do advance n; return true : Work σ Bool).run.run s =
      (.ok true, { s.1 with ip := next }, s.2) := by
  rw [advance, bind_assoc, run_look, place]
  rfl

theorem run_write (a : Address) (v : Word) (k : Unit → Work σ β) (s : Core × σ) :
    (write a v >>= k).run.run s =
      match s.1.memory.refusal a with
      | some t => (.error (.trap t), s)
      | none => (k ()).run.run ({ s.1 with memory := s.1.memory.write a v }, s.2) := by
  rw [write, bind_assoc, run_look, Memory.write?]
  cases s.1.memory.refusal a <;> rfl

/-- If `x` is what the instruction at hand does, `w` does the same. -/
def Gives (D : Device σ) (c : Core) (io : σ) (w : Work σ Bool) (x : Except Failure Effect) : Prop :=
  c.effect = x → w.run.run (c, io) = ((c.step D io).1.result, (c.step D io).2)

theorem gives_look {f : Core → Except Failure α} {k : α → Work σ Bool}
    {h : α → Except Failure Effect} (rest : ∀ a, f c = .ok a → Gives D c io (k a) (h a)) :
    Gives D c io (look f >>= k) (f c >>= h) := by
  intro effect
  rw [run_look]
  cases seen : f c with
  | error e =>
      rw [seen] at effect
      rw [Core.step_of_error effect]
      rfl
  | ok a =>
      rw [seen] at effect
      exact rest a seen effect

variable {i : Instruction} {next : Address}

theorem gives_goto : Gives D c io (do change fun c => { c with ip := next }; return true)
    (.ok (.goto next)) := by
  intro effect
  rw [Core.step_of_silent effect rfl]
  rfl

theorem gives_goOn {n : Nat} (place : c.ip.plus n = .ok next) :
    Gives D c io (do advance n; return true) (.ok (.goto next)) := by
  intro effect
  rw [run_goOn place, Core.step_of_silent effect rfl]
  rfl

theorem gives_rebase {v : Word} {n : Nat} (place : c.ip.plus n = .ok next) :
    Gives D c io
      (do change fun c => { c with base := c.base + v }
          advance n
          return true)
      (.ok (.rebase next (c.base + v))) := by
  intro effect
  rw [change, run_modify, run_goOn place, Core.step_of_silent effect rfl]
  rfl

theorem gives_write {a : Address} {v : Word} {n : Nat} (place : c.ip.plus n = .ok next) :
    Gives D c io (do write a v; advance n; return true)
      (match c.memory.refusal a with
      | some t => .error (.trap t)
      | none => .ok (.store next a v)) := by
  intro effect
  rw [run_write]
  cases refused : c.memory.refusal a with
  | some t =>
      rw [refused] at effect
      rw [Core.step_of_error effect]
      rfl
  | none =>
      rw [refused] at effect
      dsimp only
      rw [run_goOn place, Core.step_of_silent effect rfl]
      rfl

theorem gives_compute {o : Opcode} (opcode : i.opcode = o) (place : c.next o = .ok next)
    (f : Word → Word → Word) :
    Gives D c io (do compute i f; advance o.width; return true) (c.storing i f) := by
  subst opcode
  rw [compute, bind_assoc]
  refine gives_look ?_
  intro a _
  rw [bind_assoc]
  refine gives_look ?_
  intro b _
  rw [store, bind_assoc]
  refine gives_look ?_
  intro d _
  rw [place]
  exact gives_write (ok_of_mapError place)

theorem gives_input {a : Address} {n : Nat} (place : c.ip.plus n = .ok next) :
    Gives D c io (do let v ← take D c.ip; write a v; advance n; return true)
      (.ok (.input next a)) := by
  intro effect
  rw [take, bind_assoc, run_get]
  rcases given : D.take io with ⟨v, rest⟩
  cases v with
  | none =>
      rw [Core.step_of_no_input effect given]
      rfl
  | some v =>
      change (do write a v; advance n; return true : Work σ Bool).run.run (c, rest) = _
      rw [run_write]
      cases refused : c.memory.refusal a with
      | some t =>
          rw [Core.step_of_refused_input effect given refused]
          rfl
      | none =>
          dsimp only
          rw [run_goOn place, Core.step_of_input effect given refused]
          rfl

theorem gives_output {v : Word} {n : Nat} (place : c.ip.plus n = .ok next) :
    Gives D c io (do put D c.ip v; advance n; return true) (.ok (.output next v)) := by
  intro effect
  rw [put, bind_assoc, run_get]
  rcases given : D.put io v with ⟨accepted, rest⟩
  cases accepted with
  | false =>
      rw [Core.step_of_no_output effect given]
      rfl
  | true =>
      change (do advance n; return true : Work σ Bool).run.run (c, rest) = _
      rw [run_goOn place, Core.step_of_output effect given]
      rfl

theorem gives_jump {n : Nat} (place : c.ip.plus n = .ok next) (goes : Bool) :
    Gives D c io
      (if goes = true then do
        let target ← look fun c => do c.address (← c.operand i.second 1)
        change fun c => { c with ip := target }
        return true
      else do
        advance n
        return true)
      (if goes = true then do return .goto (← c.address (← c.operand i.second 1))
      else .ok (.goto next)) := by
  split
  · rw [← bind_assoc (c.operand i.second 1)]
    refine gives_look ?_
    intro target _
    exact gives_goto
  · exact gives_goOn place

/-- Where memory is not too large, the sum that leads to the next instruction never overflows, so
that nothing is lost by its coming last. -/
theorem gives_execute (fits : c.memory.Fits) : Gives D c io (execute D) c.effect := by
  change Gives D c io _ (pure c.ip >>= fun _ => c.effect)
  refine gives_look ?_
  intro ip here
  cases here
  refine gives_look ?_
  intro i decoded
  have inside := Core.inside_of_decode fits (ok_of_mapError decoded)
  have place := Core.next_eq inside i.opcode
  unfold Core.perform
  -- The next instruction is always found, so it does not matter that its check stands elsewhere.
  cases opcode : i.opcode with
  | add | mul | lessThan | equals =>
      rw [opcode] at place
      exact gives_compute opcode place _
  | input =>
      rw [opcode] at place
      dsimp only
      rw [place]
      refine gives_look ?_
      intro a _
      exact gives_input (ok_of_mapError place)
  | output =>
      rw [opcode] at place
      dsimp only
      rw [place]
      refine gives_look ?_
      intro v _
      exact gives_output (ok_of_mapError place)
  | jumpIfTrue =>
      rw [opcode] at place
      refine gives_look ?_
      intro v _
      have test : ((v != 0) == (Opcode.jumpIfTrue == Opcode.jumpIfTrue)) = (v != 0) := by simp
      rw [opcode, place]
      dsimp only
      rw [test]
      exact gives_jump (ok_of_mapError place) _
  | jumpIfFalse =>
      rw [opcode] at place
      refine gives_look ?_
      intro v _
      have test : ((v != 0) == (Opcode.jumpIfFalse == Opcode.jumpIfTrue)) = (v == 0) := by
        cases zero : v == 0 <;> simp [bne, zero]
      rw [opcode, place]
      dsimp only
      rw [test]
      exact gives_jump (ok_of_mapError place) _
  | adjustBase =>
      rw [opcode] at place
      dsimp only
      rw [place]
      refine gives_look ?_
      intro v _
      exact gives_rebase (ok_of_mapError place)
  | halt =>
      intro effect
      rw [Core.step_of_halt effect]
      rfl

theorem run_execute (fits : c.memory.Fits) :
    (execute D).run.run (c, io) = ((c.step D io).1.result, (c.step D io).2) :=
  gives_execute fits rfl

end Work
end Shipboard
