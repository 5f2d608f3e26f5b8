import Shipboard.Proofs.Session.Buffered

/-!
What is left of a session with a machine when one side is done. A machine that has stopped, and a
controller that has, do nothing but drop their ends, and no value moves any more. A machine that
goes on without its controller fails as soon as it needs it.
-/

namespace Shipboard

theorem Machine.halted_of_run {τ : Type} {D : Device τ} {fuel : Nat} {m : Machine} {io : τ}
    {o : Machine.Outcome τ} (ran : m.run D fuel io = some o) (ok : o.result = .ok ()) :
    o.machine.state = .halted := by
  rw [run.eq_def] at ran
  split at ran
  · rename_i halted
    cases ran
    exact halted
  · obtain ⟨stop, -, rfl⟩ := Option.map_eq_some_iff.mp ran
    split at ok
    · rfl
    · cases ok

theorem Machine.Outcome.ending_cases {τ : Type} (o : Machine.Outcome τ) :
    (o.result = .ok () ∧ o.ending = .ok o.machine) ∨
      (∃ f, o.result = .error (.fault f) ∧ o.ending = .error (.fault f)) ∨
      ∃ t, o.result = .error (.trap t) ∧ o.ending = .error .panicked := by
  rw [ending]
  split
  · rename_i u ok
    exact .inl ⟨ok, rfl⟩
  · rename_i f failed
    cases f with
    | fault f => exact .inr (.inl ⟨f, failed, rfl⟩)
    | trap t => exact .inr (.inr ⟨t, failed, rfl⟩)

namespace Session

variable {σ : Type} {p : Protocol} {Q : Party σ} {s t : Session Worker σ} {e : Event}
  {es fs : List Event} {m : Machine} {controller : σ} {c : Channel} {v : Word} {ending : Ending}

/-- The machine has stopped, or the controller itself has let go of everything. -/
def Over (s : Session Worker σ) : Prop :=
  (∃ ending, s.core = .stopped ending) ∨ s.links.controller.isEmpty = true

theorem stopped_step (stopped : s.core = .stopped ending) (h : Step (Worker.party p) Q s e t) :
    t.core = .stopped ending := by
  cases attends_of_step h with
  | @aside turn may => cases turn <;> exact stopped
  | joined asks => exact stopped
  | polled asks => exact stopped
  | dropped core held => exact stopped
  | worked core alone => cases stopped.symm.trans core
  | cut core needs broken => cases stopped.symm.trans core
  | pulse core effect meet => cases stopped.symm.trans core
  | given core effect meet => cases stopped.symm.trans core
  | taken core effect announced gives => cases stopped.symm.trans core

theorem Over.step (past : Over s) (h : Step (Worker.party p) Q s e t) : Over t := by
  rcases past with ⟨ending, stopped⟩ | empty
  · exact .inl ⟨ending, stopped_step stopped h⟩
  · refine .inr ((Ends.isEmpty_iff _).mpr ?_)
    intro c
    exact h.unheld .controller (Ends.holds_of_isEmpty empty c)

theorem Over.unpassed (past : Over s) : ¬ Step (Worker.party p) Q s (.passed c v) t := by
  intro h
  have carries := h.carries
  rcases past with ⟨ending, stopped⟩ | empty
  · cases attends_of_step h with
    | pulse core effect meet => cases stopped.symm.trans core
    | given core effect meet => cases stopped.symm.trans core
    | taken core effect announced gives => cases stopped.symm.trans core
  · rw [Links.whole, Ends.holds_of_isEmpty empty, Bool.and_false] at carries
    cases carries

theorem Over.unmoved (past : Over s) (h : Step (Worker.party p) Q s e t) :
    e.sent? = none ∧ e.received? = none := by
  cases e with
  | passed c v => exact absurd h past.unpassed
  | core turn => exact ⟨rfl, rfl⟩
  | controller turn => exact ⟨rfl, rfl⟩
  | joined => exact ⟨rfl, rfl⟩
  | polled b => exact ⟨rfl, rfl⟩

theorem Over.steps (past : Over s) (h : Steps (Worker.party p) Q s fs t) :
    Over t ∧ sent fs = [] ∧ received fs = [] := by
  refine h.keeps (I := fun fs t => Over t ∧ sent fs = [] ∧ received fs = []) ?_ []
    ⟨past, rfl, rfl⟩
  rintro fs t e u ⟨past, still⟩ step
  exact ⟨past.step step, snoc_unmoved still (past.unmoved step)⟩

/-- A controller finds a channel cut only if the machine has stopped or it has hung up itself. -/
theorem over_of_broken (h : Steps (Worker.party p) Q (start p (Worker.ofMachine m) controller) es s)
    (asks : (Q.ask s.controller).channel? = some c) (exists_on : p = .interactive ∨ c ≠ .ready)
    (broken : s.links.whole c = false) : Over s := by
  have composed : Composed p Q s :=
    h.keeps_state (fun _ _ _ composed step => composed.step step) (composed_start _ _ _ _)
  cases core : s.core with
  | stopped ending => exact .inl ⟨ending, core⟩
  | active d pulsed =>
      rcases composed with leaves | full | empty
      · generalize Q.ask s.controller = a at asks leaves
        cases a <;> cases asks <;> cases leaves
      · rw [Links.whole, (manned_of_steps h).holds core exists_on, full,
          Ends.holds_ofProtocol exists_on] at broken
        cases broken
      · exact .inr empty

/-- The end of a machine in a session is the end of its run alone. -/
theorem stopped_of_steps
    (h : Steps (Worker.party p) Q (start p (Worker.ofMachine m) controller) es s)
    (stopped : s.core = .stopped ending) :
    ∃ k o, (∀ fuel, k ≤ fuel → m.run Buffer.device fuel
        { input := sent es, room := some (received es).length } = some o) ∧
      o.device.output.toList = received es ∧ o.device.input = [] ∧ ending = o.ending := by
  have keeps : Keeps m ([] ++ es) s.core := keeps_steps (keeps_start m) h
  rw [List.nil_append, stopped] at keeps
  cases keeps with
  | @stopped k o ran used =>
      refine ⟨k, o, ran, ?_, ?_, rfl⟩
      · rw [used]
        rfl
      · rw [used]
        rfl

theorem done_step (stops : Q.ask s.controller = .stop) (h : Step (Worker.party p) Q s e t) :
    t.controller = s.controller ∧ e.sent? = none ∧ e.received? = none := by
  cases h with
  | @core turn may => cases turn <;> exact ⟨rfl, rfl, rfl⟩
  | @controller turn may =>
      rw [stops] at may
      cases may with
      | closed asks broken => cases asks
      | drop leaving held => exact ⟨rfl, rfl, rfl⟩
  | fromCore whole meet => rcases meet.get_eq with gets | gets <;> cases gets.symm.trans stops
  | toCore whole meet => cases meet.put_eq.symm.trans stops
  | joined asks gone => cases asks.symm.trans stops
  | polled asks gone => cases asks.symm.trans stops

theorem done_steps (stops : Q.ask s.controller = .stop) (h : Steps (Worker.party p) Q s fs t) :
    t.controller = s.controller ∧ sent fs = [] ∧ received fs = [] := by
  refine h.keeps (I := fun fs t => t.controller = s.controller ∧ sent fs = [] ∧ received fs = [])
    ?_ [] ⟨rfl, rfl, rfl⟩
  rintro fs t e u ⟨same, still⟩ step
  rw [← same] at stops
  obtain ⟨same', unmoved⟩ := done_step stops step
  exact ⟨same'.trans same, snoc_unmoved still unmoved⟩

theorem drop_of_done (stops : Q.ask s.controller = .stop)
    (held : s.links.controller.holds c = true) :
    Step (Worker.party p) Q s (.controller (.drop c)) (s.controllerTurn Q (.drop c)) := by
  refine .controller (.drop ?_ held)
  rw [stops]
  rfl

/-- When a controller has let go of its channels, a machine that needs one can only fail. -/
theorem fails_of_left {d : Core} {pulsed : Bool} (stops : Q.ask s.controller = .stop)
    (empty : s.links.controller.isEmpty = true) (core : s.core = .active d pulsed)
    (needs : d.isAlone = false) :
    (∃ t, Step (Worker.party p) Q s (.core (.hear .closed)) t) ∧
      ∀ e t, Step (Worker.party p) Q s e t → e = .core (.hear .closed) ∧
        ∃ f, (f = .inputClosed d.ip ∨ f = .outputClosed d.ip) ∧
          t.core = .stopped (.error (.fault f)) := by
  obtain ⟨ch, channel⟩ := Worker.channel?_ask p needs pulsed
  have broken : s.links.whole ch = false := by
    rw [Links.whole, Ends.holds_of_isEmpty empty, Bool.and_false]
  have asks : ((Worker.party p).ask s.core).channel? = some ch := by
    rw [core]
    exact channel
  refine ⟨⟨_, .core (.closed asks broken)⟩, ?_⟩
  intro e t step
  -- There is nobody to meet, and the controller has nothing left to do.
  cases attends_of_step step with
  | @aside turn may =>
      rw [stops] at may
      exact absurd may (Ask.not_may_of_gone empty)
  | cut core' needs' broken' =>
      refine ⟨rfl, ?_⟩
      rw [core]
      exact Worker.hear_closed_of_needs needs pulsed
  | worked core' alone =>
      cases core.symm.trans core'
      rw [needs] at alone
      cases alone
  | dropped core' held => cases core.symm.trans core'
  | pulse core' effect meet => rcases meet.get_eq with gets | gets <;> cases gets.symm.trans stops
  | given core' effect meet => rcases meet.get_eq with gets | gets <;> cases gets.symm.trans stops
  | taken core' effect announced gives => cases gives.symm.trans stops
  | joined asks => cases asks.symm.trans stops
  | polled asks => cases asks.symm.trans stops

theorem goes_on_of_done (stops : Q.ask s.controller = .stop) :
    s.complete (Worker.party p) Q = true ∨ ∃ e t, Step (Worker.party p) Q s e t := by
  -- First the controller drops its ends, then the core can only work, fail or drop its own.
  cases empty : s.links.controller.isEmpty with
  | false =>
      obtain ⟨ch, held⟩ := Ends.exists_held empty
      exact .inr ⟨_, _, drop_of_done stops held⟩
  | true =>
      cases core : s.core with
      | active d pulsed =>
          cases alone : d.isAlone with
          | false =>
              obtain ⟨⟨t, step⟩, -⟩ := fails_of_left (p := p) stops empty core alone
              exact .inr ⟨_, t, step⟩
          | true =>
              have works : (Worker.party p).ask s.core = .work := by
                rw [core]
                exact Worker.ask_of_alone p alone pulsed
              have may : ((Worker.party p).ask s.core).May s.links.whole s.links.core
                  (.hear .done) := by
                rw [works]
                exact .work
              exact .inr ⟨_, _, .core may⟩
      | stopped ending =>
          have leaves : (Worker.party p).ask s.core = .stop := by
            rw [core]
            rfl
          cases coreEmpty : s.links.core.isEmpty with
          | false =>
              obtain ⟨ch, held⟩ := Ends.exists_held coreEmpty
              exact .inr ⟨_, _, .core (.drop (by rw [leaves]; rfl) held)⟩
          | true =>
              refine .inl ?_
              simp [complete, coreGone, controllerGone, leaves, stops, coreEmpty, empty]

end Session

end Shipboard
