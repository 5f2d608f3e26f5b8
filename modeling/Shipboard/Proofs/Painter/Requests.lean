import Shipboard.Proofs.Painter.Cosimulation
import Shipboard.Proofs.Session.Pulses

/-!
A painter reports a colour only right after a pulse, so its report is always taken, and the error
for a report that is refused is never raised. Without pulses a painter is done before it has moved.
-/

namespace Shipboard

namespace Painter

variable {p : Painter} {a : Answer}

theorem ask_of_reporting (reporting : p.phase = .reporting) :
    p.ask = .put .toCore p.robot.color.toWord := by
  rw [ask.eq_def, reporting]

theorem reporting_of_put {c : Channel} {v : Word} (h : p.ask = .put c v) :
    p.phase = .reporting := by
  rw [ask.eq_def] at h
  split at h
  · cases h
  · assumption
  · cases h
  · cases h
  · cases h

theorem move_not_reporting (p : Painter) (paint turn : Word) :
    (p.move paint turn).phase ≠ .reporting := by
  rw [move.eq_def]
  split <;> simp

theorem reporting_of_hear (quiet : p.phase ≠ .reporting) (h : (p.hear a).phase = .reporting) :
    p.ask = .get .ready ∧ ∃ v, a = .value v := by
  rw [hear.eq_def] at h
  split at h
  · rename_i v waiting
    refine ⟨?_, v, rfl⟩
    rw [ask.eq_def, waiting]
  · cases h
  · cases h
  · cases h
  · cases h
  · cases h
  · exact absurd h (move_not_reporting p _ _)
  · cases h
  · exact absurd h quiet

/-- The painter has failed for a report that was refused. -/
def IsSpurned (p : Painter) : Prop := p.result? = some (.error (.closed .colourRequest))

theorem move_not_spurned (p : Painter) (paint turn : Word) : ¬ (p.move paint turn).IsSpurned := by
  rw [move.eq_def, IsSpurned]
  split
  · simp [result?]
  · rename_i e refused
    have error := Robot.error_of_apply refused
    split at error <;> simp [result?, error]

theorem hear_not_spurned (quiet : p.phase ≠ .reporting) (unspurned : ¬ p.IsSpurned) (a : Answer) :
    ¬ (p.hear a).IsSpurned := by
  rw [hear.eq_def]
  split
  · simp [IsSpurned, result?]
  · simp [IsSpurned, result?]
  · rename_i reporting
    exact absurd reporting quiet
  · rename_i reporting _
    exact absurd reporting quiet
  · simp [IsSpurned, result?]
  · simp [IsSpurned, result?, lose]
  · exact move_not_spurned p _ _
  · simp [IsSpurned, result?, lose]
  · exact unspurned

theorem hear_closed_of_start (robot : Robot) :
    hear { robot } .closed = { robot, phase := .finished (.ok 0) } := rfl

end Painter

namespace Session

variable {m : Machine} {robot : Robot} {es : List Event} {e : Event}
  {s t : Session Worker Painter}

/-- A painter that reports has just had a pulse, and none has failed for want of it. -/
structure Heeded (s : Session Worker Painter) : Prop where
  expecting : s.controller.phase = .reporting → Expecting s
  unspurned : ¬ s.controller.IsSpurned

theorem Heeded.of_same (heeded : Heeded s) (quiet : s.controller.phase ≠ .reporting)
    (same : t.controller = s.controller) : Heeded t := by
  constructor
  · intro reporting
    rw [same] at reporting
    exact absurd reporting quiet
  · rw [same]
    exact heeded.unspurned

theorem Heeded.of_hear {a : Answer} (heeded : Heeded s) (quiet : s.controller.phase ≠ .reporting)
    (hears : t.controller = s.controller.hear a)
    (pulse : s.controller.ask = .get .ready → (∃ v, a = .value v) → Expecting t) : Heeded t := by
  constructor
  · intro reporting
    rw [hears] at reporting
    obtain ⟨awaits, value⟩ := Painter.reporting_of_hear quiet reporting
    exact pulse awaits value
  · rw [hears]
    exact Painter.hear_not_spurned quiet heeded.unspurned a

/-- A report is taken, whatever else the two sides might do. -/
theorem Heeded.reported (heeded : Heeded s) (reporting : s.controller.phase = .reporting)
    (step : Step (Worker.party .interactive) Painter.party s e t) : Heeded t := by
  have expecting := heeded.expecting reporting
  have puts : Painter.party.ask s.controller = .put .toCore s.controller.robot.color.toWord :=
    Painter.ask_of_reporting reporting
  -- After a pulse the core waits for the report and for nothing else.
  have sole := (expecting.sole puts).2
  have there := (sole e t step).2
  have controller : t.controller = { s.controller with phase := .receivingColour } := by
    rw [there]
    simp only [toCore, Painter.party, Painter.hear.eq_def, reporting]
  constructor
  · intro again
    rw [controller] at again
    cases again
  · rw [controller]
    simp [Painter.IsSpurned, Painter.result?]

theorem Heeded.step (heeded : Heeded s)
    (reach : Steps (Worker.party .interactive) Painter.party
      (start .interactive (Worker.ofMachine m) { robot }) es s)
    (step : Step (Worker.party .interactive) Painter.party s e t) : Heeded t := by
  by_cases reporting : s.controller.phase = .reporting
  · exact heeded.reported reporting step
  · cases step with
    | @core turn may => cases turn <;> exact heeded.of_same reporting rfl
    | @controller turn may =>
        cases turn with
        | drop c => exact heeded.of_same reporting rfl
        | hear a =>
            refine heeded.of_hear reporting rfl ?_
            rintro - ⟨v, rfl⟩
            rcases Painter.may_cases may with ⟨wrong, -⟩ | ⟨c, wrong, -⟩ <;> cases wrong
    | @fromCore c v whole meet =>
        refine heeded.of_hear reporting rfl ?_
        rintro awaits -
        have same : c = .ready := by
          rcases meet.get_eq with gets | gets <;> cases gets.symm.trans awaits
          rfl
        subst same
        exact expecting_of_pulse reach (.fromCore whole meet)
    | toCore whole meet => exact absurd (Painter.reporting_of_put meet.put_eq) reporting
    | joined asks gone => exact absurd asks (Painter.ask_ne_join s.controller)
    | polled asks gone => exact absurd asks (Painter.ask_ne_poll s.controller)

theorem heeded_of_steps (h : Steps (Worker.party .interactive) Painter.party
      (start .interactive (Worker.ofMachine m) { robot }) es s) : Heeded s := by
  let first : Session Worker Painter := start .interactive (Worker.ofMachine m) { robot }
  have kept := h.keeps (I := fun es s =>
    Steps (Worker.party .interactive) Painter.party first es s ∧ Heeded s) ?_ [] ⟨.refl first, ?_⟩
  · exact kept.2
  · rintro es s e t ⟨reach, heeded⟩ step
    exact ⟨reach.snoc step, heeded.step reach step⟩
  · constructor
    · intro reporting
      cases reporting
    · simp [start, Painter.IsSpurned, Painter.result?]

/-- The painter still waits for its first pulse, or knows that there is none. -/
structure Idle (robot : Robot) (es : List Event) (s : Session Worker Painter) : Prop where
  controller : s.controller = { robot } ∨ s.controller = { robot, phase := .finished (.ok 0) }
  still : sent es = [] ∧ received es = []

theorem Idle.step (idle : Idle robot es s) (broken : s.links.whole .ready = false)
    (step : Step (Worker.party .streaming) Painter.party s e t) : Idle robot (es ++ [e]) t := by
  have here := idle.controller
  have asks : s.controller.ask = .get .ready ∨ s.controller.ask = .stop := by
    rcases here with waiting | finished
    · exact .inl (by rw [waiting]; rfl)
    · exact .inr (by rw [finished]; rfl)
  cases step with
  | @core turn may => cases turn <;> exact ⟨here, snoc_unmoved idle.still ⟨rfl, rfl⟩⟩
  | @controller turn may =>
      rcases Painter.may_cases may with ⟨rfl, -⟩ | ⟨c, rfl, -⟩
      · refine ⟨.inr ?_, snoc_unmoved idle.still ⟨rfl, rfl⟩⟩
        rcases here with waiting | finished
        · simp only [controllerTurn, Painter.party, waiting, Painter.hear_closed_of_start]
        · simp only [controllerTurn, Painter.party, finished, Painter.hear.eq_def]
      · exact ⟨here, snoc_unmoved idle.still ⟨rfl, rfl⟩⟩
  | fromCore whole meet =>
      rcases meet.get_eq with gets | gets
      · rcases asks with awaits | stops
        · cases gets.symm.trans awaits
          rw [broken] at whole
          cases whole
        · cases gets.symm.trans stops
      · rcases asks with awaits | stops
        · cases gets.symm.trans awaits
        · cases gets.symm.trans stops
  | toCore whole meet =>
      rcases asks with awaits | stops
      · cases meet.put_eq.symm.trans awaits
      · cases meet.put_eq.symm.trans stops
  | joined asks gone => exact absurd asks (Painter.ask_ne_join s.controller)
  | polled asks gone => exact absurd asks (Painter.ask_ne_poll s.controller)

theorem idle_of_steps (h : Steps (Worker.party .streaming) Painter.party
      (start .streaming (Worker.ofMachine m) { robot }) es s) : Idle robot es s := by
  have kept := h.keeps (I := fun es s => s.links.whole .ready = false ∧ Idle robot es s) ?_ []
    ⟨rfl, .inl rfl, rfl, rfl⟩
  · exact kept.2
  · rintro es s e t ⟨broken, idle⟩ step
    exact ⟨step.broken broken, idle.step broken step⟩

end Session

open Session in
/-- A machine on an interactive link takes a value only at an input that it has announced since its
last value, and stands still from the pulse to the value while the controller keeps its channel. So
a value offered right after a pulse is taken, and a painter never fails for want of that. On a
streaming link nobody gets a pulse, and a painter is done at once. -/
theorem announced_before_taken {σ : Type} (Q : Party σ) (m : Machine) (controller : σ)
    (robot : Robot) :
    (∀ es s, Steps (Worker.party .interactive) Q
        (start .interactive (Worker.ofMachine m) controller) es s →
      (pulses es = (sent es).length ∨ pulses es = (sent es).length + 1) ∧
      (∀ v t, Step (Worker.party .interactive) Q s (.passed .toCore v) t →
        ∃ c, s.core = .active c true ∧
          Announced Q (start .interactive (Worker.ofMachine m) controller) es s c) ∧
      ∀ v t, Step (Worker.party .interactive) Q s (.passed .ready v) t →
        (∀ fs u, Steps (Worker.party .interactive) Q t fs u → (∀ w, .passed .toCore w ∉ fs) →
          u.links.controller.holds .toCore = true →
          (∀ e ∈ fs, e.isAside = true) ∧ u.core = t.core) ∧
        ∀ w, Q.ask t.controller = .put .toCore w →
          Step (Worker.party .interactive) Q t (.passed .toCore w)
              (t.toCore (Worker.party .interactive) Q w) ∧
            ∀ e u, Step (Worker.party .interactive) Q t e u →
              e = .passed .toCore w ∧ u = t.toCore (Worker.party .interactive) Q w) ∧
    (∀ es s, Steps (Worker.party .interactive) Painter.party
        (start .interactive (Worker.ofMachine m) { robot }) es s →
      s.controller.result? ≠ some (.error (.closed .colourRequest))) ∧
    (∀ es s, Steps (Worker.party .streaming) Q
        (start .streaming (Worker.ofMachine m) controller) es s →
      (∀ v t, ¬ Step (Worker.party .streaming) Q s (.passed .ready v) t) ∧
      (Q.ask s.controller = .get .ready →
        Step (Worker.party .streaming) Q s (.controller (.hear .closed))
            (s.controllerTurn Q (.hear .closed)) ∧
          ∀ e t, Step (Worker.party .streaming) Q s e t →
            (∃ turn, e = .core turn) ∨ e = .controller (.hear .closed))) ∧
    ∀ es s, Steps (Worker.party .streaming) Painter.party
        (start .streaming (Worker.ofMachine m) { robot }) es s →
      sent es = [] ∧ received es = [] ∧ s.controller.robot = robot ∧
      (s.controller.result? = some (.ok 0) ∨
        ∃ t, Step (Worker.party .streaming) Painter.party s (.controller (.hear .closed)) t ∧
          t.controller.result? = some (.ok 0)) := by
  refine ⟨?announcing, ?heeding, ?silent, ?idling⟩
  case announcing =>
    intro es s steps
    have manned := manned_of_steps steps
    have paced := paced_of_steps steps
    refine ⟨paced.near, ?_, ?_⟩
    · intro v t step
      cases attends_of_step step with
      | @taken c pulsed next a v core effect announced gives =>
          obtain rfl : pulsed = true := announced rfl
          exact ⟨c, core, announced_of_steps steps core⟩
    · intro v t pulse
      have expecting := expecting_of_pulse steps pulse
      obtain ⟨c, next, a, core, effect⟩ := expecting.announced
      constructor
      · intro fs u later ungiven kept
        rw [core]
        exact still_of_announced (manned.step pulse) (paced_step paced pulse) core later ungiven
          kept
      · intro w puts
        exact expecting.sole puts
  case heeding =>
    intro es s steps
    exact (heeded_of_steps steps).unspurned
  case silent =>
    intro es s steps
    constructor
    · intro v t step
      have carries := step.carries
      rw [unwhole_ready steps] at carries
      cases carries
    · intro awaits
      exact step_of_awaiting steps awaits
  case idling =>
    intro es s steps
    have idle := idle_of_steps steps
    refine ⟨idle.still.1, idle.still.2, ?_, ?_⟩
    · rcases idle.controller with waiting | finished
      · rw [waiting]
      · rw [finished]
    · rcases idle.controller with waiting | finished
      · have awaits : Painter.party.ask s.controller = .get .ready := by
          rw [waiting]
          rfl
        refine .inr ⟨_, (step_of_awaiting steps awaits).1, ?_⟩
        simp only [controllerTurn, Painter.party, waiting, Painter.hear_closed_of_start]
        rfl
      · refine .inl ?_
        rw [finished]
        rfl

open Session in
theorem announced_before_taken_echoing :
    (∃ s, Steps (Worker.party .interactive) Painter.party
        (start .interactive (Worker.ofMachine echoing) { robot := .startingOn .white })
        [.passed .ready 0] s ∧
      s.controller.ask = .put .toCore 1 ∧
      ∀ e t, Step (Worker.party .interactive) Painter.party s e t → e = .passed .toCore 1) ∧
    ∃ s, Steps (Worker.party .streaming) Painter.party
        (start .streaming (Worker.ofMachine echoing) { robot := .startingOn .white })
        [.controller (.hear .closed)] s ∧
      s.controller.result? = some (.ok 0) ∧ s.controller.robot = .startingOn .white := by
  obtain ⟨announcing, -, -, idling⟩ := announced_before_taken Painter.party echoing
    { robot := .startingOn .white } (.startingOn .white)
  constructor
  · have pulse : Step (Worker.party .interactive) Painter.party
        (start .interactive (Worker.ofMachine echoing) { robot := .startingOn .white })
        (.passed .ready 0) _ := .fromCore rfl .get
    refine ⟨_, .cons pulse (.refl _), ?_, ?_⟩
    · decide +kernel
    · intro e t step
      have sole := ((announcing [] _ (.refl _)).2.2 0 _ pulse).2 1 (by decide +kernel)
      exact (sole.2 e t step).1
  · have cut : Steps (Worker.party .streaming) Painter.party
        (start .streaming (Worker.ofMachine echoing) { robot := .startingOn .white })
        [.controller (.hear .closed)] _ := .cons (.controller (.closed rfl rfl)) (.refl _)
    exact ⟨_, cut, rfl, (idling _ _ cut).2.2.1⟩

end Shipboard
