import Shipboard.Proofs.Core.Failing
import Shipboard.Proofs.Core.Widening
import Shipboard.Proofs.Machine.Stopping

/-!
Interrupted runs. A machine that stopped for want of an input or of room for an output resumes as if
it had never been stopped; one that stopped for another reason has not looked at what came later.
-/

namespace Shipboard

namespace Machine

open Buffer

variable {σ τ : Type} {D : Device σ} {E : Device τ}

/-- An outcome with the outputs of an earlier run before its own. -/
def Outcome.following (before : Array Word) (o : Outcome Buffer) : Outcome Buffer :=
  { o with device := { o.device with output := before ++ o.device.output } }

theorem widen_before (before : Array Word) (b : Buffer) :
    b.widen before [] 0 = { b with output := before ++ b.output } := by
  rcases b with ⟨input, output, room⟩
  cases room <;> simp [widen]

theorem widen_later (ys : List Word) (b : Buffer) :
    b.widen #[] ys 0 = { b with input := b.input ++ ys } := by
  rcases b with ⟨input, output, room⟩
  cases room <;> simp [widen]

theorem run_following (before : Array Word) (fuel : Nat) (c : Core) (b : Buffer) :
    (⟨c, .running⟩ : Machine).run device fuel { b with output := before ++ b.output } =
      ((⟨c, .running⟩ : Machine).run device fuel b).map (Outcome.following before) := by
  have alike : ∀ (c : Core) (b : Buffer), c.step device (b.widen before [] 0) =
      ((c.step device b).1, (c.step device b).2.1, (c.step device b).2.2.widen before [] 0) :=
    fun _ _ => Core.step_widen before [] 0 (.inl rfl) (.inl rfl)
  have runs := run_map (D := device) (E := device) (widen before [] 0) alike fuel c b
  rw [widen_before] at runs
  rw [runs]
  congr 1
  funext o
  rw [widen_before]
  rfl

theorem exists_advance_of_failure {m m' : Machine} {fuel : Nat} {io io' : σ} {f : Failure}
    (h : m.run D fuel io = some ⟨.error f, m', io'⟩) :
    ∃ c n c' mid, m = ⟨c, .running⟩ ∧ m' = ⟨c', .running⟩ ∧
      c.advance D n io = some (c', mid) ∧ c'.Fails D mid f io' := by
  rcases m with ⟨c, state⟩
  cases state with
  | halted =>
      rw [run_halted rfl] at h
      cases h
  | running =>
      obtain ⟨n, c', mid, -, far, stops⟩ := run_eq_some_iff.mp h
      cases stops with
      | failed step => exact ⟨c, n, c', mid, rfl, rfl, far, Core.fails_of_step step⟩

theorem Stops.later {c : Core} {b : Buffer} {o : Outcome Buffer} (h : Stops device c b o)
    (other : ∀ ip, o.result ≠ .error (.fault (.inputClosed ip))) (ys : List Word) :
    Stops device c { b with input := b.input ++ ys }
      { o with device := { o.device with input := o.device.input ++ ys } } := by
  cases h with
  | halted step =>
      have wide := Core.step_widen (c := c) (b := b) #[] ys 0
        (.inr (by simp [step])) (.inl rfl)
      rw [widen_later, step, widen_later] at wide
      exact .halted wide
  | failed step =>
      have wide := Core.step_widen (c := c) (b := b) #[] ys 0
        (.inr (by simpa [step] using other c.ip)) (.inl rfl)
      rw [widen_later, step, widen_later] at wide
      exact .failed wide

theorem resume_input {m m' : Machine} {xs : List Word} {fuel : Nat} {ip : Address} {b : Buffer}
    (stopped : m.run device fuel { input := xs } =
      some ⟨.error (.fault (.inputClosed ip)), m', b⟩) (ys : List Word) :
    ∃ n, ∀ more, m.run device (n + more) { input := xs ++ ys } =
      (m'.run device more { input := ys }).map (Outcome.following b.output) := by
  obtain ⟨c, n, c', b', rfl, rfl, far, fails⟩ := exists_advance_of_failure stopped
  refine ⟨n, ?_⟩
  intro more
  cases fails with
  | itself effect => exact (c'.errs_effect _ effect).elim
  | dry effect given =>
      obtain ⟨rfl, dry⟩ := eq_of_take_none given
      have room : b.room = none := by simpa [total] using Core.total_of_advance far
      have resumed : b.widen #[] ys 0 =
          { ({ input := ys } : Buffer) with output := b.output ++ #[] } := by
        simp [widen, dry, room]
      have wide := Core.advance_widen #[] ys 0 far
      rw [widen_later, resumed] at wide
      calc
        _ = (⟨c', .running⟩ : Machine).run device more _ := run_of_advance more wide
        _ = _ := run_following b.output more c' { input := ys }

theorem run_more_input {m : Machine} {xs : List Word} {fuel : Nat} {o : Outcome Buffer}
    (stopped : m.run device fuel { input := xs } = some o)
    (other : ∀ ip, o.result ≠ .error (.fault (.inputClosed ip))) (ys : List Word) :
    m.run device fuel { input := xs ++ ys } =
      some { o with device := { o.device with input := o.device.input ++ ys } } := by
  rcases m with ⟨c, state⟩
  cases state with
  | halted =>
      rw [run_halted rfl] at stopped
      cases stopped
      rfl
  | running =>
      obtain ⟨n, c', b, below, far, stops⟩ := run_eq_some_iff.mp stopped
      have wide := Core.advance_widen #[] ys 0 far
      rw [widen_later, widen_later] at wide
      exact run_eq_some_iff.mpr ⟨n, c', _, below, wide, stops.later other ys⟩

theorem resume_output {m m' : Machine} {xs : List Word} {room fuel : Nat} {ip : Address}
    {b : Buffer} (stopped : m.run device fuel { input := xs, room := some room } =
      some ⟨.error (.fault (.outputClosed ip)), m', b⟩) :
    b.output.size = room ∧
    (∃ n, ∀ more extra, m.run device (n + more) { input := xs, room := some (room + extra) } =
      (m'.run device more { input := b.input, room := some extra }).map
        (Outcome.following b.output)) ∧
    ∃ next v, m'.core.effect = .ok (.output next v) ∧
      ∀ more extra, m'.run device (more + 1) { input := b.input, room := some (extra + 1) } =
        ({ m' with core := m'.core.after (.output next v) }.run device more
          { input := b.input, room := some extra }).map (Outcome.following #[v]) := by
  obtain ⟨c, n, c', b', rfl, rfl, far, fails⟩ := exists_advance_of_failure stopped
  cases fails with
  | itself effect => exact (c'.errs_effect _ effect).elim
  | @refused next v _ effect given =>
      obtain ⟨rfl, full⟩ := eq_of_put_false given
      refine ⟨?_, ⟨n, ?_⟩, ⟨next, v, effect, ?_⟩⟩
      · simpa [total, full] using Core.total_of_advance far
      · intro more extra
        -- Up to the output that was refused the wider run is the same, with room left over.
        have wide := Core.advance_widen #[] [] extra far
        have resumed : b.widen #[] [] extra = { ({ input := b.input, room := some extra } : Buffer)
            with output := b.output ++ #[] } := by
          simp [widen, full]
        have start : ({ input := xs, room := some room } : Buffer).widen #[] [] extra =
            { input := xs, room := some (room + extra) } := by
          simp [widen]
        rw [start, resumed] at wide
        calc
          _ = (⟨c', .running⟩ : Machine).run device more _ := run_of_advance more wide
          _ = _ := run_following b.output more c' { input := b.input, room := some extra }
      · intro more extra
        have accepted : c'.step device { input := b.input, room := some (extra + 1) } =
            (.running, c'.after (.goto next),
              { ({ input := b.input, room := some extra } : Buffer) with output := #[v] ++ #[] }) :=
          Core.step_of_output effect rfl
        calc
          _ = (⟨c'.after (.goto next), .running⟩ : Machine).run device more _ :=
            run_succ_of_running more accepted
          _ = _ := run_following #[v] more _ { input := b.input, room := some extra }

theorem run_again_of_found {m m' : Machine} {fuel : Nat} {io io' : σ} {f : Fault}
    (stopped : m.run D fuel io = some ⟨.error (.fault f), m', io'⟩)
    (input : ∀ ip, f ≠ .inputClosed ip) (output : ∀ ip, f ≠ .outputClosed ip) (more : Nat)
    (other : τ) : m'.run E (more + 1) other = some ⟨.error (.fault f), m', other⟩ := by
  obtain ⟨c, n, c', mid, rfl, rfl, -, fails⟩ := exists_advance_of_failure stopped
  cases fails with
  | itself effect => exact run_succ_of_stops more (.failed (Core.step_of_error effect other))
  | dry effect given => exact absurd rfl (input _)
  | refused effect given => exact absurd rfl (output _)

end Machine

open Machine Buffer in
/-- A run that was stopped can be taken up again where it stopped, and two runs so joined do what
one run would have done. A run stopped by lack of neither input nor room has not been cut short:
more input stays unread, and a second run meets the same fault. -/
theorem run_resumes (m : Machine) :
    (∀ (xs ys : List Word) (fuel : Nat) (ip : Address) (m' : Machine) (b : Buffer),
      m.run device fuel { input := xs } = some ⟨.error (.fault (.inputClosed ip)), m', b⟩ →
      ∃ n, ∀ more, m.run device (n + more) { input := xs ++ ys } =
        (m'.run device more { input := ys }).map (Outcome.following b.output)) ∧
    (∀ (xs ys : List Word) (fuel : Nat) (o : Outcome Buffer),
      m.run device fuel { input := xs } = some o →
      (∀ ip, o.result ≠ .error (.fault (.inputClosed ip))) →
      m.run device fuel { input := xs ++ ys } =
        some { o with device := { o.device with input := o.device.input ++ ys } }) ∧
    (∀ (xs : List Word) (room fuel : Nat) (ip : Address) (m' : Machine) (b : Buffer),
      m.run device fuel { input := xs, room := some room } =
        some ⟨.error (.fault (.outputClosed ip)), m', b⟩ →
      b.output.size = room ∧
      (∃ n, ∀ more extra,
        m.run device (n + more) { input := xs, room := some (room + extra) } =
          (m'.run device more { input := b.input, room := some extra }).map
            (Outcome.following b.output)) ∧
      ∃ next v, m'.core.effect = .ok (.output next v) ∧
        ∀ more extra, m'.run device (more + 1) { input := b.input, room := some (extra + 1) } =
          ({ m' with core := m'.core.after (.output next v) }.run device more
            { input := b.input, room := some extra }).map (Outcome.following #[v])) ∧
    ∀ {σ τ : Type} (D : Device σ) (E : Device τ) (fuel : Nat) (io io' : σ) (f : Fault)
      (m' : Machine),
      m.run D fuel io = some ⟨.error (.fault f), m', io'⟩ →
      (∀ ip, f ≠ .inputClosed ip) → (∀ ip, f ≠ .outputClosed ip) →
      ∀ (more : Nat) (other : τ),
        m'.run E (more + 1) other = some ⟨.error (.fault f), m', other⟩ := by
  refine ⟨?input, ?more, ?output, ?again⟩
  case input =>
    intro xs ys fuel ip m' b stopped
    exact resume_input stopped ys
  case more =>
    intro xs ys fuel o stopped other
    exact run_more_input stopped other ys
  case output =>
    intro xs room fuel ip m' b stopped
    exact resume_output stopped
  case again =>
    intro σ τ D E fuel io io' f m' stopped input output more other
    exact run_again_of_found stopped input output more other

/-- Two echoes of an input, then an opcode that does not exist. -/
def echoTwice : Machine := .ofProgram [3, 9, 4, 9, 3, 9, 4, 9, 77]

theorem run_resumes_echoTwice :
    (∃ m' b, echoTwice.run Buffer.device 5 { input := [4] } =
        some ⟨.error (.fault (.inputClosed 4)), m', b⟩ ∧ b.output = #[4] ∧
      ∃ n, ∀ more, echoTwice.run Buffer.device (n + more) { input := [4, -5] } =
        (m'.run Buffer.device more { input := [-5] }).map (Machine.Outcome.following #[4])) ∧
    (∃ m' b, echoTwice.run Buffer.device 5 { input := [4], room := some 0 } =
        some ⟨.error (.fault (.outputClosed 2)), m', b⟩ ∧ b.output.size = 0) ∧
    ∃ m' b, echoTwice.run Buffer.device 5 { input := [4, -5, 6] } =
        some ⟨.error (.fault (.unknownOpcode 77 8)), m', b⟩ ∧
      echoTwice.run Buffer.device 5 { input := [4, -5, 6, 7] } =
        some ⟨.error (.fault (.unknownOpcode 77 8)), m', { b with input := b.input ++ [7] }⟩ ∧
      m'.run Buffer.device 1 {} = some ⟨.error (.fault (.unknownOpcode 77 8)), m', {}⟩ := by
  obtain ⟨input, more, output, again⟩ := run_resumes echoTwice
  refine ⟨⟨_, _, rfl, rfl, ?_⟩, ⟨_, _, rfl, ?_⟩, ⟨_, _, rfl, ?_, ?_⟩⟩
  · exact input [4] [-5] 5 4 _ _ rfl
  · exact (output [4] 0 5 2 _ _ rfl).1
  · exact more [4, -5, 6] [7] 5 _ rfl (by intro ip; simp)
  · exact again Buffer.device Buffer.device 5 { input := [4, -5, 6] } _ _ _ rfl
      (by intro ip; simp) (by intro ip; simp) 0 {}

end Shipboard
