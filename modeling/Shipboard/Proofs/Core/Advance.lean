import Shipboard.Proofs.Core.Stepping

/-!
A run is cut into instructions that leave the core running. Two devices that answer a core alike
carry it equally far.
-/

namespace Shipboard

namespace Core

variable {σ τ : Type} {D : Device σ} {E : Device τ}

/-- The core and its device after `n` instructions that all leave the core running. -/
def advance (D : Device σ) : (n : Nat) → Core → σ → Option (Core × σ)
  | 0, c, io => some (c, io)
  | n + 1, c, io =>
      match c.step D io with
      | (.running, c, io) => advance D n c io
      | _ => none

/-- What a core has made of its device after `n` instructions, or when it stopped before. -/
def deviceAfter (D : Device σ) : (n : Nat) → Core → σ → σ
  | 0, _, io => io
  | n + 1, c, io =>
      match c.step D io with
      | (.running, c, io) => deviceAfter D n c io
      | (_, _, io) => io

theorem deviceAfter_zero (c : Core) (io : σ) : c.deviceAfter D 0 io = io := rfl

theorem advance_eq_match (n : Nat) (c : Core) (io : σ) :
    c.advance D (n + 1) io =
      match c.step D io with
      | (.running, c, io) => advance D n c io
      | _ => none :=
  advance.eq_def D (n + 1) c io

theorem deviceAfter_eq_match (n : Nat) (c : Core) (io : σ) :
    c.deviceAfter D (n + 1) io =
      match c.step D io with
      | (.running, c, io) => deviceAfter D n c io
      | (_, _, io) => io :=
  deviceAfter.eq_def D (n + 1) c io

theorem advance_succ_of_running {c c' : Core} {io io' : σ} (n : Nat)
    (h : c.step D io = (.running, c', io')) : c.advance D (n + 1) io = c'.advance D n io' := by
  rw [advance_eq_match, h]

theorem advance_succ_iff {c c'' : Core} {io io'' : σ} {n : Nat} :
    c.advance D (n + 1) io = some (c'', io'') ↔
      ∃ c' io', c.step D io = (.running, c', io') ∧ c'.advance D n io' = some (c'', io'') := by
  constructor
  · intro h
    rw [advance_eq_match] at h
    split at h
    · rename_i first
      exact ⟨_, _, first, h⟩
    · cases h
  · rintro ⟨c', io', first, rest⟩
    rw [advance_succ_of_running n first]
    exact rest

theorem advance_succ {c c' c'' : Core} {io io' io'' : σ} {n : Nat}
    (h : c.advance D n io = some (c', io')) (last : c'.step D io' = (.running, c'', io'')) :
    c.advance D (n + 1) io = some (c'', io'') := by
  induction n generalizing c io with
  | zero =>
      cases h
      rw [advance_succ_of_running 0 last]
      rfl
  | succ n ih =>
      obtain ⟨d, mid, first, rest⟩ := advance_succ_iff.mp h
      exact advance_succ_iff.mpr ⟨d, mid, first, ih rest⟩

theorem deviceAfter_succ_of_running {c c' : Core} {io io' : σ} (n : Nat)
    (h : c.step D io = (.running, c', io')) :
    c.deviceAfter D (n + 1) io = c'.deviceAfter D n io' := by
  rw [deviceAfter_eq_match, h]

theorem deviceAfter_one (c : Core) (io : σ) : c.deviceAfter D 1 io = (c.step D io).2.2 := by
  rw [deviceAfter_eq_match]
  rcases c.step D io with ⟨p, c', io'⟩
  cases p <;> rfl

theorem deviceAfter_succ_of_not_running {c : Core} {io : σ} (n : Nat)
    (h : (c.step D io).1 ≠ .running) : c.deviceAfter D (n + 1) io = (c.step D io).2.2 := by
  rw [deviceAfter_eq_match]
  rcases step : c.step D io with ⟨p, c', io'⟩
  rw [step] at h
  cases p with
  | running => exact absurd rfl h
  | halted => rfl
  | failed f => rfl

theorem deviceAfter_of_advance {c c' : Core} {io io' : σ} {n : Nat} (k : Nat)
    (h : c.advance D n io = some (c', io')) :
    c.deviceAfter D (n + k) io = c'.deviceAfter D k io' := by
  induction n generalizing c io with
  | zero =>
      cases h
      rw [Nat.zero_add]
  | succ n ih =>
      obtain ⟨d, mid, first, rest⟩ := advance_succ_iff.mp h
      rw [Nat.add_right_comm, deviceAfter_succ_of_running _ first]
      exact ih rest

theorem deviceAfter_eq_of_advance {c c' : Core} {io io' : σ} {n : Nat}
    (h : c.advance D n io = some (c', io')) : c.deviceAfter D n io = io' := by
  have split := deviceAfter_of_advance 0 h
  rw [Nat.add_zero, deviceAfter_zero] at split
  exact split

theorem advance_map (f : σ → τ)
    (steps : ∀ (c c' : Core) (io io' : σ), c.step D io = (.running, c', io') →
      c.step E (f io) = (.running, c', f io'))
    {c c' : Core} {io io' : σ} {n : Nat} (h : c.advance D n io = some (c', io')) :
    c.advance E n (f io) = some (c', f io') := by
  induction n generalizing c io with
  | zero =>
      cases h
      rfl
  | succ n ih =>
      obtain ⟨d, mid, first, rest⟩ := advance_succ_iff.mp h
      exact advance_succ_iff.mpr ⟨d, f mid, steps c d io mid first, ih rest⟩

theorem trace_succ (limit : Nat) (c : Core) (io : σ) :
    c.trace D (limit + 1) io =
      match (c.step D io).1 with
      | .running => c.step D io :: trace D limit (c.step D io).2.1 (c.step D io).2.2
      | _ => [c.step D io] :=
  trace.eq_def D (limit + 1) c io

theorem runFrom_succ (count fuel : Nat) (c : Core) (io : σ) :
    runFrom D count (fuel + 1) c io =
      match c.step D io with
      | (.running, c, io) => runFrom D (count + 1) fuel c io
      | (.halted, c, io) => some ⟨.ok count, c, io⟩
      | (.failed f, c, io) => some ⟨.error f, c, io⟩ :=
  runFrom.eq_def D count (fuel + 1) c io

theorem runFrom_of_advance {c c' : Core} {io io' : σ} {n : Nat} (count fuel : Nat)
    (h : c.advance D n io = some (c', io')) :
    runFrom D count (n + fuel) c io = runFrom D (count + n) fuel c' io' := by
  induction n generalizing c io count with
  | zero =>
      cases h
      rw [Nat.zero_add, Nat.add_zero]
  | succ n ih =>
      obtain ⟨d, mid, first, rest⟩ := advance_succ_iff.mp h
      rw [Nat.add_right_comm, runFrom_succ, first]
      calc
        _ = runFrom D (count + 1 + n) fuel c' io' := ih (count + 1) rest
        _ = runFrom D (count + (n + 1)) fuel c' io' := by rw [Nat.add_right_comm, Nat.add_assoc]

end Core

end Shipboard
