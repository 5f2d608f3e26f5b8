import Shipboard.Core.Run

/-!
What an instruction finds wrong by itself lies at its own address, and it is never that the other
side is gone.
-/

namespace Shipboard

/-- A fault that the instruction at `ip` finds by itself. -/
def Fault.FoundAt (ip : Address) : Fault → Prop
  | .inputClosed _ => False
  | .outputClosed _ => False
  | f => f.ip = ip

def Failure.FoundAt (ip : Address) : Failure → Prop
  | .fault f => f.FoundAt ip
  | .trap _ => True

theorem Fault.FoundAt.ip_eq {ip : Address} {f : Fault} (found : f.FoundAt ip) : f.ip = ip := by
  cases f with
  | unknownOpcode opcode here => exact found
  | unknownMode mode here => exact found
  | immediateWrite here => exact found
  | negativeAddress address here => exact found
  | inputClosed here => exact found.elim
  | outputClosed here => exact found.elim

theorem ok_of_bind {ε α β : Type} {x : Except ε α} {k : α → Except ε β} {b : β}
    (h : x >>= k = .ok b) : ∃ a, x = .ok a ∧ k a = .ok b := by
  cases x with
  | error e => cases h
  | ok a => exact ⟨a, rfl, h⟩

theorem ok_of_map {ε α β : Type} {x : Except ε α} {f : α → β} {b : β} (h : x.map f = .ok b) :
    ∃ a, x = .ok a ∧ f a = b := by
  cases x with
  | error e => cases h
  | ok a =>
      cases h
      exact ⟨a, rfl, rfl⟩

theorem ok_of_mapError {ε ε' α : Type} {x : Except ε α} {g : ε → ε'} {a : α}
    (h : x.mapError g = .ok a) : x = .ok a := by
  cases x with
  | error e => cases h
  | ok b =>
      cases h
      rfl

section Stateful

variable {ε σ α β : Type}

theorem run_bind (w : ExceptT ε (StateM σ) α) (k : α → ExceptT ε (StateM σ) β) (s : σ) :
    (w >>= k).run.run s =
      match w.run.run s with
      | (.error e, s') => (.error e, s')
      | (.ok a, s') => (k a).run.run s' := by
  change ExceptT.bindCont k (w.run.run s).1 (w.run.run s).2 = _
  rcases w.run.run s with ⟨r, s'⟩
  cases r <;> rfl

theorem run_check (x : Except ε α) (k : α → ExceptT ε (StateM σ) β) (s : σ) :
    (liftM x >>= k).run.run s =
      match x with
      | .error e => (.error e, s)
      | .ok a => (k a).run.run s := by
  cases x <;> rfl

theorem run_get (k : σ → ExceptT ε (StateM σ) β) (s : σ) :
    (get >>= k).run.run s = (k s).run.run s := rfl

theorem run_modify (f : σ → σ) (k : Unit → ExceptT ε (StateM σ) β) (s : σ) :
    (modify f >>= k).run.run s = (k ()).run.run (f s) := rfl

end Stateful

def Errs {ε α : Type} (p : ε → Prop) (x : Except ε α) : Prop := ∀ e, x = .error e → p e

theorem errs_ok {ε α : Type} (p : ε → Prop) (a : α) : Errs p (.ok a : Except ε α) := by
  intro e h
  cases h

theorem errs_error {ε α : Type} {p : ε → Prop} {e : ε} (h : p e) :
    Errs p (.error e : Except ε α) := by
  intro e' same
  cases same
  exact h

theorem errs_bind {ε α β : Type} {p : ε → Prop} {x : Except ε α} {k : α → Except ε β}
    (first : Errs p x) (rest : ∀ a, Errs p (k a)) : Errs p (x >>= k) := by
  intro e h
  cases x with
  | error e' =>
      cases h
      exact first e rfl
  | ok a => exact rest a e h

theorem errs_bind_pure {ε α β : Type} {p : ε → Prop} {x : Except ε α} (first : Errs p x)
    (f : α → β) : Errs p (x >>= fun a => pure (f a)) := by
  apply errs_bind first
  intro a
  exact errs_ok p (f a)

theorem errs_map {ε α β : Type} {p : ε → Prop} {x : Except ε α} (h : Errs p x) (f : α → β) :
    Errs p (x.map f) := by
  cases x with
  | error e => exact errs_error (h e rfl)
  | ok a => exact errs_ok p (f a)

theorem errs_mapError {ε ε' α : Type} {p : ε' → Prop} {g : ε → ε'} (h : ∀ e, p (g e))
    (x : Except ε α) : Errs p (x.mapError g) := by
  cases x with
  | error e => exact errs_error (h e)
  | ok a => exact errs_ok p a

theorem errs_foldlM {ε α β : Type} {p : ε → Prop} {f : β → α → Except ε β}
    (h : ∀ b a, Errs p (f b a)) (xs : List α) (b : β) : Errs p (xs.foldlM f b) := by
  induction xs generalizing b with
  | nil => exact errs_ok p b
  | cons a xs ih =>
      rw [List.foldlM_cons]
      exact errs_bind (h b a) ih

theorem errs_ofTrap {α : Type} (ip : Address) (x : Except Trap α) :
    Errs (Failure.FoundAt ip) (Failure.ofTrap x) := by
  cases x with
  | error t => exact errs_error trivial
  | ok a => exact errs_ok _ a

theorem errs_ofFault {α : Type} {ip : Address} {x : Except Fault α}
    (h : Errs (Fault.FoundAt ip) x) : Errs (Failure.FoundAt ip) (Failure.ofFault x) := by
  cases x with
  | error f => exact errs_error (h f rfl)
  | ok a => exact errs_ok _ a

namespace Instruction

theorem errs_decodeMode (digit : Nat) (ip : Address) :
    Errs (Fault.FoundAt ip) (decodeMode digit ip) := by
  unfold decodeMode
  split
  · exact errs_ok _ _
  · exact errs_error rfl

theorem errs_decode (word : Word) (ip : Address) : Errs (Fault.FoundAt ip) (decode word ip) := by
  unfold decode decodeNumber
  split
  · exact errs_error rfl
  · split
    · exact errs_error rfl
    · apply errs_bind (errs_decodeMode _ ip)
      intro first
      apply errs_bind (errs_decodeMode _ ip)
      intro second
      exact errs_bind_pure (errs_decodeMode _ ip) _

end Instruction

namespace Core

variable (c : Core)

theorem errs_parameter (n : Nat) : Errs (Failure.FoundAt c.ip) (c.parameter n) :=
  errs_bind_pure (errs_ofTrap _ _) _

theorem errs_address (v : Word) : Errs (Failure.FoundAt c.ip) (c.address v) := by
  unfold address
  split
  · exact errs_error rfl
  · exact errs_ok _ _

theorem errs_operand (m : Mode) (n : Nat) : Errs (Failure.FoundAt c.ip) (c.operand m n) := by
  apply errs_bind (c.errs_parameter n)
  intro raw
  cases m with
  | position => exact errs_bind_pure (c.errs_address _) _
  | immediate => exact errs_ok _ _
  | relative => exact errs_bind_pure (c.errs_address _) _

theorem errs_destination (m : Mode) (n : Nat) :
    Errs (Failure.FoundAt c.ip) (c.destination m n) := by
  apply errs_bind (c.errs_parameter n)
  intro raw
  cases m with
  | position => exact c.errs_address _
  | immediate => exact errs_error rfl
  | relative => exact c.errs_address _

theorem errs_next (o : Opcode) : Errs (Failure.FoundAt c.ip) (c.next o) := errs_ofTrap _ _

theorem errs_storing (i : Instruction) (f : Word → Word → Word) :
    Errs (Failure.FoundAt c.ip) (c.storing i f) := by
  apply errs_bind (c.errs_operand _ _)
  intro a
  apply errs_bind (c.errs_operand _ _)
  intro b
  apply errs_bind (c.errs_destination _ _)
  intro d
  split
  · exact errs_error trivial
  · exact errs_bind_pure (c.errs_next _) _

theorem errs_jumping (i : Instruction) (taken : Word → Bool) :
    Errs (Failure.FoundAt c.ip) (c.jumping i taken) := by
  apply errs_bind (c.errs_operand _ _)
  intro v
  split
  · apply errs_bind (c.errs_operand _ _)
    intro target
    exact errs_bind_pure (c.errs_address _) _
  · exact errs_bind_pure (c.errs_next _) _

theorem errs_perform (i : Instruction) : Errs (Failure.FoundAt c.ip) (c.perform i) := by
  unfold perform
  split
  · exact c.errs_storing i _
  · exact c.errs_storing i _
  · exact c.errs_storing i _
  · exact c.errs_storing i _
  · exact c.errs_jumping i _
  · exact c.errs_jumping i _
  · apply errs_bind (c.errs_destination _ _)
    intro d
    exact errs_bind_pure (c.errs_next _) _
  · apply errs_bind (c.errs_operand _ _)
    intro v
    exact errs_bind_pure (c.errs_next _) _
  · apply errs_bind (c.errs_operand _ _)
    intro v
    exact errs_bind_pure (c.errs_next _) _
  · exact errs_ok _ _

theorem errs_effect : Errs (Failure.FoundAt c.ip) c.effect :=
  errs_bind (errs_ofFault (Instruction.errs_decode _ _)) c.errs_perform

end Core

end Shipboard
