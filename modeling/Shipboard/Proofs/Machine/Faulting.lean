import Shipboard.Proofs.Core.Executing
import Shipboard.Proofs.Machine.Resume

/-!
What a fault leaves behind. All checks of an instruction come before all that it does, so one that
is found at fault has changed neither its core nor a buffer, and a run that ends in a fault ends
where its last whole instruction left off.
-/

namespace Shipboard

theorem Buffer.eq_of_refused {b b' : Buffer}
    (refused : b' = b ∨ device.take b = (none, b') ∨ ∃ v, device.put b v = (false, b')) :
    b' = b := by
  rcases refused with same | dry | ⟨v, full⟩
  · exact same
  · exact (eq_of_take_none dry).1
  · exact (eq_of_put_false full).1

namespace Core

variable {σ : Type} {D : Device σ} {c c' : Core} {io io' : σ} {f : Fault}

theorem Fails.ip_eq (fails : c.Fails D io (.fault f) io') : f.ip = c.ip := by
  cases fails with
  | itself effect =>
      have found : f.FoundAt c.ip := c.errs_effect _ effect
      exact found.ip_eq
  | dry effect given => rfl
  | refused effect given => rfl

theorem Fails.refused_only (fails : c.Fails D io (.fault f) io') :
    io' = io ∨ D.take io = (none, io') ∨ ∃ v, D.put io v = (false, io') := by
  cases fails with
  | itself effect => exact .inl rfl
  | dry effect given => exact .inr (.inl given)
  | refused effect given => exact .inr (.inr ⟨_, given⟩)

theorem Fails.buffer_eq {b b' : Buffer} (fails : c.Fails Buffer.device b (.fault f) b') :
    b' = b :=
  Buffer.eq_of_refused fails.refused_only

theorem eq_of_fault (failed : c.step D io = (.failed (.fault f), c', io')) : c' = c := by
  have stopped : (c.step D io).1 ≠ .running := by simp [failed]
  have left := step_core_of_not_running stopped
  rw [failed] at left
  exact left

end Core

/-- An instruction that is found at fault has changed nothing. Executed statement by statement,
where a failure keeps what has been done up to there, it leaves the core's registers and memory and
all of the buffer as they were, and the fault is at the core's instruction; of any other device it
has asked at most what it was refused. The same holds of `Core.step`, to which the statements come
where memory is not too large. So a run that ends in a fault ends with the core and the buffer that
its last whole instruction left, at the instruction that is at fault. -/
theorem fault_changes_nothing :
    (∀ (c c' : Core) (b b' : Buffer) (f : Fault),
      (Work.execute Buffer.device).run.run (c, b) = (.error (.fault f), c', b') →
      c' = c ∧ b' = b ∧ f.ip = c.ip) ∧
    (∀ {σ : Type} (D : Device σ) (c c' : Core) (io io' : σ) (f : Fault),
      (Work.execute D).run.run (c, io) = (.error (.fault f), c', io') →
      c' = c ∧ f.ip = c.ip ∧
        (io' = io ∨ D.take io = (none, io') ∨ ∃ v, D.put io v = (false, io'))) ∧
    (∀ {σ : Type} (D : Device σ) (c : Core) (io : σ), c.memory.size ≤ 2 ^ 60 - 1 →
      (Work.execute D).run.run (c, io) = ((c.step D io).1.result, (c.step D io).2)) ∧
    (∀ (c c' : Core) (b b' : Buffer) (f : Fault),
      c.step Buffer.device b = (.failed (.fault f), c', b') → c' = c ∧ b' = b ∧ f.ip = c.ip) ∧
    (∀ {σ : Type} (D : Device σ) (c c' : Core) (io io' : σ) (f : Fault),
      c.step D io = (.failed (.fault f), c', io') →
      c' = c ∧ f.ip = c.ip ∧
        (io' = io ∨ D.take io = (none, io') ∨ ∃ v, D.put io v = (false, io'))) ∧
    ∀ (m m' : Machine) (fuel : Nat) (b b' : Buffer) (f : Fault),
      m.run Buffer.device fuel b = some ⟨.error (.fault f), m', b'⟩ →
      ∃ n, m.core.advance Buffer.device n b = some (m'.core, b') ∧ f.ip = m'.core.ip := by
  refine ⟨?statements, ?asked, ?equal, ?buffer, ?device, ?run⟩
  case statements =>
    intro c c' b b' f failed
    obtain ⟨core, here, refused⟩ := Work.spares_execute f c' b' failed
    exact ⟨core, Buffer.eq_of_refused refused, here⟩
  case asked =>
    intro σ D c c' io io' f failed
    exact Work.spares_execute f c' io' failed
  case equal =>
    intro σ D c io fits
    exact Work.run_execute fits
  case buffer =>
    intro c c' b b' f failed
    have fails := Core.fails_of_step failed
    exact ⟨Core.eq_of_fault failed, fails.buffer_eq, fails.ip_eq⟩
  case device =>
    intro σ D c c' io io' f failed
    have fails := Core.fails_of_step failed
    exact ⟨Core.eq_of_fault failed, fails.ip_eq, fails.refused_only⟩
  case run =>
    intro m m' fuel b b' f stopped
    obtain ⟨c, n, c', mid, rfl, rfl, far, fails⟩ := Machine.exists_advance_of_failure stopped
    have same := fails.buffer_eq
    subst same
    exact ⟨n, far, fails.ip_eq⟩

/-- A sum that can be made but has no place to go: its destination is below the first cell. -/
def sumNowhere : Core := { base := 1, memory := Memory.ofList [21101, 4, 5, -3] }

def inputNowhere : Core := { memory := Memory.ofList [3, -1] }

def sumShown : Machine := .ofProgram [1101, 2, 3, 7, 4, 7, 99, 0]

theorem fault_changes_nothing_sumNowhere :
    (∃ c' b', (Work.execute Buffer.device).run.run (inputNowhere, { input := [7] }) =
        (.error (.fault (.negativeAddress (-1) 0)), c', b') ∧
      c' = inputNowhere ∧ b' = { input := [7] }) ∧
    (sumNowhere.memory.size ≤ 2 ^ 60 - 1 ∧
      (Work.execute Buffer.device).run.run (sumNowhere, { input := [7], room := some 0 }) =
        (.error (.fault (.negativeAddress (-2) 0)), sumNowhere,
          { input := [7], room := some 0 })) ∧
    (∃ c' b', sumNowhere.step Buffer.device { input := [7], room := some 0 } =
        (.failed (.fault (.negativeAddress (-2) 0)), c', b') ∧
      c' = sumNowhere ∧ b' = { input := [7], room := some 0 }) ∧
    ∃ m' b', sumShown.run Buffer.device 3 { room := some 0 } =
        some ⟨.error (.fault (.outputClosed 4)), m', b'⟩ ∧ m'.core.ip = 4 ∧
      ∃ n, sumShown.core.advance Buffer.device n { room := some 0 } = some (m'.core, b') := by
  obtain ⟨statements, -, equal, buffer, -, run⟩ := fault_changes_nothing
  refine ⟨⟨_, _, rfl, ?_⟩, ⟨by decide, ?_⟩, ⟨_, _, rfl, ?_⟩, ⟨_, _, rfl, ?_⟩⟩
  · obtain ⟨core, same, -⟩ := statements inputNowhere _ { input := [7] } _ _ rfl
    exact ⟨core, same⟩
  · rw [equal Buffer.device sumNowhere _ (by decide)]
    rfl
  · obtain ⟨core, same, -⟩ := buffer sumNowhere _ { input := [7], room := some 0 } _ _ rfl
    exact ⟨core, same⟩
  · obtain ⟨n, far, here⟩ := run sumShown _ 3 { room := some 0 } _ _ rfl
    exact ⟨here.symm, n, far⟩

end Shipboard
