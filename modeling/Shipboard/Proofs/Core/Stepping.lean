import Shipboard.Core.Run

/-!
One instruction: all the ways in which it goes on and all those in which it fails. Two devices that
answer it alike see it do the same.
-/

namespace Shipboard

/-- Needs nothing from outside and does not stop the core. -/
def Effect.isSilent : Effect → Bool
  | .store _ _ _ => true
  | .goto _ => true
  | .rebase _ _ => true
  | _ => false

def Effect.address? : Effect → Option Address
  | .store _ a _ => some a
  | .input _ a => some a
  | _ => none

namespace Core

variable {σ τ : Type} {D : Device σ} {E : Device τ}

theorem step_of_error {c : Core} {f : Failure} (h : c.effect = .error f) (io : σ) :
    c.step D io = (.failed f, c, io) := by
  delta step
  simp [h]

theorem step_of_halt {c : Core} (h : c.effect = .ok .halt) (io : σ) :
    c.step D io = (.halted, c, io) := by
  delta step
  simp [h]

theorem step_of_silent {c : Core} {e : Effect} (h : c.effect = .ok e) (silent : e.isSilent = true)
    (io : σ) : c.step D io = (.running, c.after e, io) := by
  cases e <;> simp_all [step, Effect.isSilent]

theorem step_of_input {c : Core} {next a : Address} (h : c.effect = .ok (.input next a))
    {io io' : σ} {v : Word} (taken : D.take io = (some v, io')) (fits : c.memory.refusal a = none) :
    c.step D io = (.running, c.after (.store next a v), io') := by
  delta step
  simp [h, taken, fits]

theorem step_of_refused_input {c : Core} {next a : Address} (h : c.effect = .ok (.input next a))
    {io io' : σ} {v : Word} (taken : D.take io = (some v, io')) {t : Trap}
    (refused : c.memory.refusal a = some t) : c.step D io = (.failed (.trap t), c, io') := by
  delta step
  simp [h, taken, refused]

theorem step_of_no_input {c : Core} {next a : Address} (h : c.effect = .ok (.input next a))
    {io io' : σ} (dry : D.take io = (none, io')) :
    c.step D io = (.failed (.fault (.inputClosed c.ip)), c, io') := by
  delta step
  simp [h, dry]

theorem step_of_output {c : Core} {next : Address} {v : Word} (h : c.effect = .ok (.output next v))
    {io io' : σ} (accepted : D.put io v = (true, io')) :
    c.step D io = (.running, c.after (.goto next), io') := by
  delta step
  simp [h, accepted]

theorem step_of_no_output {c : Core} {next : Address} {v : Word}
    (h : c.effect = .ok (.output next v)) {io io' : σ} (refused : D.put io v = (false, io')) :
    c.step D io = (.failed (.fault (.outputClosed c.ip)), c, io') := by
  delta step
  simp [h, refused]

/-- How an instruction leaves the core running. -/
inductive Goes (D : Device σ) (c : Core) (io : σ) : Core → σ → Prop
  | silent {e : Effect} (effect : c.effect = .ok e) (silent : e.isSilent = true) :
      Goes D c io (c.after e) io
  | input {next a : Address} {v : Word} {io' : σ} (effect : c.effect = .ok (.input next a))
      (given : D.take io = (some v, io')) (fits : c.memory.refusal a = none) :
      Goes D c io (c.after (.store next a v)) io'
  | output {next : Address} {v : Word} {io' : σ} (effect : c.effect = .ok (.output next v))
      (given : D.put io v = (true, io')) : Goes D c io (c.after (.goto next)) io'

/-- How an instruction fails, and the device after it. -/
inductive Fails (D : Device σ) (c : Core) (io : σ) : Failure → σ → Prop
  /-- The instruction is wrong by itself. -/
  | itself {f : Failure} (effect : c.effect = .error f) : Fails D c io f io
  | dry {next a : Address} {io' : σ} (effect : c.effect = .ok (.input next a))
      (given : D.take io = (none, io')) : Fails D c io (.fault (.inputClosed c.ip)) io'
  /-- The input has been taken but cannot be stored. -/
  | unstored {next a : Address} {v : Word} {t : Trap} {io' : σ}
      (effect : c.effect = .ok (.input next a)) (given : D.take io = (some v, io'))
      (refused : c.memory.refusal a = some t) : Fails D c io (.trap t) io'
  | refused {next : Address} {v : Word} {io' : σ} (effect : c.effect = .ok (.output next v))
      (given : D.put io v = (false, io')) : Fails D c io (.fault (.outputClosed c.ip)) io'

/-- What one instruction can do: it goes on, halts or fails. -/
theorem step_cases (D : Device σ) (c : Core) (io : σ) :
    (∃ c' io', c.step D io = (.running, c', io') ∧ c.Goes D io c' io') ∨
    (c.effect = .ok .halt ∧ c.step D io = (.halted, c, io)) ∨
    ∃ f io', c.step D io = (.failed f, c, io') ∧ c.Fails D io f io' := by
  cases effect : c.effect with
  | error f => exact .inr (.inr ⟨f, io, step_of_error effect io, .itself effect⟩)
  | ok e =>
      cases e with
      | store next a v => exact .inl ⟨_, _, step_of_silent effect rfl io, .silent effect rfl⟩
      | goto next => exact .inl ⟨_, _, step_of_silent effect rfl io, .silent effect rfl⟩
      | rebase next base => exact .inl ⟨_, _, step_of_silent effect rfl io, .silent effect rfl⟩
      | halt => exact .inr (.inl ⟨rfl, step_of_halt effect io⟩)
      | input next a =>
          rcases given : D.take io with ⟨v, io'⟩
          cases v with
          | none => exact .inr (.inr ⟨_, _, step_of_no_input effect given, .dry effect given⟩)
          | some v =>
              cases fits : c.memory.refusal a with
              | none =>
                  exact .inl ⟨_, _, step_of_input effect given fits, .input effect given fits⟩
              | some t =>
                  exact .inr (.inr ⟨_, _, step_of_refused_input effect given fits,
                    .unstored effect given fits⟩)
      | output next v =>
          rcases given : D.put io v with ⟨accepted, io'⟩
          cases accepted with
          | true => exact .inl ⟨_, _, step_of_output effect given, .output effect given⟩
          | false =>
              exact .inr (.inr ⟨_, _, step_of_no_output effect given, .refused effect given⟩)

theorem goes_of_step {c c' : Core} {io io' : σ} (h : c.step D io = (.running, c', io')) :
    c.Goes D io c' io' := by
  rcases step_cases D c io with ⟨d, io'', step, goes⟩ | ⟨-, step⟩ | ⟨f, io'', step, -⟩
  · rw [step] at h
    cases h
    exact goes
  · rw [step] at h
    cases h
  · rw [step] at h
    cases h

theorem fails_of_step {c c' : Core} {io io' : σ} {f : Failure}
    (h : c.step D io = (.failed f, c', io')) : c.Fails D io f io' := by
  rcases step_cases D c io with ⟨d, io'', step, -⟩ | ⟨-, step⟩ | ⟨g, io'', step, fails⟩
  · rw [step] at h
    cases h
  · rw [step] at h
    cases h
  · rw [step] at h
    cases h
    exact fails

theorem step_core_of_not_running {c : Core} {io : σ} (h : (c.step D io).1 ≠ .running) :
    (c.step D io).2.1 = c := by
  rcases step_cases D c io with ⟨d, io', step, -⟩ | ⟨-, step⟩ | ⟨f, io', step, -⟩
  · rw [step] at h
    exact absurd rfl h
  · rw [step]
  · rw [step]

theorem step_map {c : Core} {io : σ} (f : σ → τ)
    (takes : ∀ next a, c.effect = .ok (.input next a) →
      E.take (f io) = ((D.take io).1, f (D.take io).2))
    (puts : ∀ next v, c.effect = .ok (.output next v) →
      E.put (f io) v = ((D.put io v).1, f (D.put io v).2)) :
    c.step E (f io) = ((c.step D io).1, (c.step D io).2.1, f (c.step D io).2.2) := by
  cases h : c.effect with
  | error e => rw [step_of_error h, step_of_error h]
  | ok e =>
      cases e with
      | halt => rw [step_of_halt h, step_of_halt h]
      | store next a v => rw [step_of_silent h rfl, step_of_silent h rfl]
      | goto next => rw [step_of_silent h rfl, step_of_silent h rfl]
      | rebase next b => rw [step_of_silent h rfl, step_of_silent h rfl]
      | input next a =>
          rcases given : D.take io with ⟨v, io'⟩
          have same := takes next a h
          rw [given] at same
          cases v with
          | none => rw [step_of_no_input h given, step_of_no_input h same]
          | some v =>
              cases fits : c.memory.refusal a with
              | none => rw [step_of_input h given fits, step_of_input h same fits]
              | some t => rw [step_of_refused_input h given fits, step_of_refused_input h same fits]
      | output next v =>
          rcases given : D.put io v with ⟨accepted, io'⟩
          have same := puts next v h
          rw [given] at same
          cases accepted with
          | false => rw [step_of_no_output h given, step_of_no_output h same]
          | true => rw [step_of_output h given, step_of_output h same]

end Core

end Shipboard
