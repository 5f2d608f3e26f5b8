import Shipboard.Machine
import Shipboard.Proofs.Core.Advance

/-!
A run of a machine that stops is a number of instructions that leave the core running and one that
does not. The outcome is the same however the instructions are counted.
-/

namespace Shipboard.Machine

variable {σ τ : Type} {D : Device σ} {E : Device τ}

inductive Stops (D : Device σ) (c : Core) (io : σ) : Outcome σ → Prop
  | halted {io' : σ} (step : c.step D io = (.halted, c, io')) :
      Stops D c io ⟨.ok (), ⟨c, .halted⟩, io'⟩
  | failed {f : Failure} {io' : σ} (step : c.step D io = (.failed f, c, io')) :
      Stops D c io ⟨.error f, ⟨c, .running⟩, io'⟩

theorem stops_of_step {c c' : Core} {io io' : σ} {p : Progress} (h : c.step D io = (p, c', io'))
    (still : p ≠ .running) : ∃ o, Stops D c io o ∧ o.device = io' := by
  have same : c' = c := by
    have halts : (c.step D io).1 ≠ .running := by
      rw [h]
      exact still
    have left := Core.step_core_of_not_running halts
    rw [h] at left
    exact left
  subst same
  cases p with
  | running => exact absurd rfl still
  | halted => exact ⟨_, .halted h, rfl⟩
  | failed f => exact ⟨_, .failed h, rfl⟩

namespace Outcome

def ofStop (s : Stop σ) : Outcome σ :=
  match s.result with
  | .ok _ => ⟨.ok (), ⟨s.core, .halted⟩, s.device⟩
  | .error f => ⟨.error f, ⟨s.core, .running⟩, s.device⟩

end Outcome

theorem run_halted {m : Machine} (h : m.state = .halted) (fuel : Nat) (io : σ) :
    m.run D fuel io = some ⟨.ok (), m, io⟩ := by
  rw [run, h]

theorem run_running (fuel : Nat) (c : Core) (io : σ) :
    (⟨c, .running⟩ : Machine).run D fuel io = (c.run D fuel io).map Outcome.ofStop := rfl

theorem ofStop_runFrom (count count' fuel : Nat) (c : Core) (io : σ) :
    (Core.runFrom D count fuel c io).map Outcome.ofStop =
      (Core.runFrom D count' fuel c io).map Outcome.ofStop := by
  induction fuel generalizing count count' c io with
  | zero => rfl
  | succ fuel ih =>
      rw [Core.runFrom_succ, Core.runFrom_succ]
      split
      · exact ih (count + 1) (count' + 1) _ _
      · rfl
      · rfl

theorem run_succ_of_running {c c' : Core} {io io' : σ} (fuel : Nat)
    (h : c.step D io = (.running, c', io')) :
    (⟨c, .running⟩ : Machine).run D (fuel + 1) io = (⟨c', .running⟩ : Machine).run D fuel io' := by
  rw [run_running, run_running, Core.run, Core.runFrom_succ, h]
  exact ofStop_runFrom 1 0 fuel c' io'

theorem run_succ_of_stops {c : Core} {io : σ} {o : Outcome σ} (fuel : Nat) (h : Stops D c io o) :
    (⟨c, .running⟩ : Machine).run D (fuel + 1) io = some o := by
  rw [run_running, Core.run, Core.runFrom_succ]
  cases h with
  | halted step =>
      rw [step]
      rfl
  | failed step =>
      rw [step]
      rfl

theorem run_of_advance {c c' : Core} {io io' : σ} {n : Nat} (fuel : Nat)
    (h : c.advance D n io = some (c', io')) :
    (⟨c, .running⟩ : Machine).run D (n + fuel) io = (⟨c', .running⟩ : Machine).run D fuel io' := by
  rw [run_running, run_running, Core.run, Core.runFrom_of_advance 0 fuel h]
  exact ofStop_runFrom _ 0 fuel c' io'

/-- A run stops exactly if it can go on to an instruction that stops it. -/
theorem run_eq_some_iff {c : Core} {io : σ} {fuel : Nat} {o : Outcome σ} :
    (⟨c, .running⟩ : Machine).run D fuel io = some o ↔
      ∃ n c' io', n < fuel ∧ c.advance D n io = some (c', io') ∧ Stops D c' io' o := by
  constructor
  · intro h
    -- On the fuel: one instruction that goes on is put in front of those of the rest.
    induction fuel generalizing c io with
    | zero => cases h
    | succ fuel ih =>
        rcases step : c.step D io with ⟨p, c', io'⟩
        by_cases goes : p = .running
        · subst goes
          rw [run_succ_of_running fuel step] at h
          obtain ⟨n, c'', io'', below, far, stops⟩ := ih h
          refine ⟨n + 1, c'', io'', by omega, ?_, stops⟩
          rw [Core.advance_succ_of_running n step]
          exact far
        · obtain ⟨o', stops, -⟩ := stops_of_step step goes
          rw [run_succ_of_stops fuel stops] at h
          cases h
          exact ⟨0, c, io, by omega, rfl, stops⟩
  · rintro ⟨n, c', io', below, far, stops⟩
    obtain ⟨k, rfl⟩ : ∃ k, fuel = n + (k + 1) := ⟨fuel - n - 1, by omega⟩
    rw [run_of_advance (k + 1) far]
    exact run_succ_of_stops k stops

theorem lt_of_run {c : Core} {io : σ} {fuel n : Nat} {o : Outcome σ} {r : Core × σ}
    (ran : (⟨c, .running⟩ : Machine).run D fuel io = some o) (far : c.advance D n io = some r) :
    n < fuel := by
  induction fuel generalizing c io n with
  | zero => cases ran
  | succ fuel ih =>
      cases n with
      | zero => omega
      | succ n =>
          obtain ⟨c', io', first, rest⟩ := Core.advance_succ_iff.mp far
          rw [run_succ_of_running fuel first] at ran
          have below := ih ran rest
          omega

theorem run_mono {m : Machine} {io : σ} {fuel fuel' : Nat} {o : Outcome σ}
    (ran : m.run D fuel io = some o) (more : fuel ≤ fuel') : m.run D fuel' io = some o := by
  rcases m with ⟨c, state⟩
  cases state with
  | halted =>
      rw [run_halted rfl] at ran ⊢
      exact ran
  | running =>
      obtain ⟨n, c', io', below, far, stops⟩ := run_eq_some_iff.mp ran
      exact run_eq_some_iff.mpr ⟨n, c', io', by omega, far, stops⟩

theorem run_unique {m : Machine} {io : σ} {fuel fuel' : Nat} {o o' : Outcome σ}
    (ran : m.run D fuel io = some o) (ran' : m.run D fuel' io = some o') : o = o' := by
  have far := run_mono ran (Nat.le_max_left fuel fuel')
  have far' := run_mono ran' (Nat.le_max_right fuel fuel')
  rw [far] at far'
  exact Option.some.inj far'

theorem Stops.deviceAfter {c : Core} {io : σ} {o : Outcome σ} (h : Stops D c io o) (n : Nat) :
    c.deviceAfter D (n + 1) io = o.device := by
  cases h with
  | halted step => rw [Core.deviceAfter_succ_of_not_running n (by simp [step]), step]
  | failed step => rw [Core.deviceAfter_succ_of_not_running n (by simp [step]), step]

theorem deviceAfter_of_run {c : Core} {io : σ} {fuel n : Nat} {o : Outcome σ}
    (ran : (⟨c, .running⟩ : Machine).run D fuel io = some o) (enough : fuel ≤ n) :
    c.deviceAfter D n io = o.device := by
  obtain ⟨k, c', io', below, far, stops⟩ := run_eq_some_iff.mp ran
  obtain ⟨j, rfl⟩ : ∃ j, n = k + (j + 1) := ⟨n - k - 1, by omega⟩
  rw [Core.deviceAfter_of_advance (j + 1) far]
  exact stops.deviceAfter j

theorem run_map (f : σ → τ)
    (steps : ∀ (c : Core) (io : σ), c.step E (f io) =
      ((c.step D io).1, (c.step D io).2.1, f (c.step D io).2.2)) (fuel : Nat) (c : Core) (io : σ) :
    (⟨c, .running⟩ : Machine).run E fuel (f io) =
      ((⟨c, .running⟩ : Machine).run D fuel io).map fun o => { o with device := f o.device } := by
  induction fuel generalizing c io with
  | zero => rfl
  | succ fuel ih =>
      have same := steps c io
      rcases step : c.step D io with ⟨p, c', io'⟩
      rw [step] at same
      by_cases goes : p = .running
      · subst goes
        rw [run_succ_of_running fuel same, run_succ_of_running fuel step]
        exact ih c' io'
      · obtain ⟨o, stops, -⟩ := stops_of_step step goes
        rw [run_succ_of_stops fuel stops]
        cases stops with
        | halted halted =>
            rw [halted] at step
            cases step
            rw [run_succ_of_stops fuel (.halted same)]
            rfl
        | failed failed =>
            rw [failed] at step
            cases step
            rw [run_succ_of_stops fuel (.failed same)]
            rfl

end Shipboard.Machine
