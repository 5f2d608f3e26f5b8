import Shipboard.Session.Schedule

/-!
The schedule stops only where no step is possible. A session that is never stuck before it is
complete, and that cannot go on for ever, is therefore completed by its schedule.
-/

namespace Shipboard

namespace Ask

variable {whole : Channel → Bool} {mine : Ends} {a b : Ask} {c : Channel} {v : Word} {t : Turn}

theorem turn?_of_broken (asks : a.channel? = some c) (broken : whole c = false) :
    a.turn? whole mine = some (.hear .closed) := by
  cases a <;> cases asks <;> simp [turn?, broken]

theorem first?_ne_none_of_holds (held : mine.holds c = true) : mine.first? ≠ none := by
  intro nothing
  rw [Ends.first?_eq_none_iff, Ends.isEmpty_iff] at nothing
  rw [nothing c] at held
  cases held

theorem turn?_ne_none_of_may (h : a.May whole mine t) (patient : ∀ ch, a ≠ .getSoon ch) :
    a.turn? whole mine ≠ none := by
  cases h with
  | work => simp [turn?]
  | closed asks broken => simp [turn?_of_broken asks broken]
  | stall => exact absurd rfl (patient _)
  | gone empty => simp [turn?]
  | drop leaving held =>
      have some_end := first?_ne_none_of_holds held
      cases a <;> cases leaving
      · simp [turn?]
      · simpa [turn?] using some_end

theorem meet_of_eq (puts : a = .put c v) (gets : b = .get c) : Meet c v a b := by
  rw [puts, gets]
  exact .get

theorem Meet.put_eq (h : Meet c v a b) : a = .put c v := by
  cases h <;> rfl

theorem Meet.get_eq (h : Meet c v a b) : b = .get c ∨ b = .getSoon c := by
  cases h
  · exact .inl rfl
  · exact .inr rfl

theorem meet?_of_meet (h : Meet c v a b) : a.meet? b = some (c, v) := by
  cases h <;> simp [meet?]

theorem meet?_get (c : Channel) (b : Ask) : (get c).meet? b = none := by
  cases b <;> rfl

end Ask

def Ends.count (e : Ends) : Nat := e.toCore.toNat + e.fromCore.toNat + e.ready.toNat

def Links.count (l : Links) : Nat := l.core.count + l.controller.count

theorem Ends.count_drop {e : Ends} {c : Channel} (held : e.holds c = true) :
    (e.drop c).count + 1 = e.count := by
  cases c <;> simp only [holds] at held <;> simp [count, drop, held] <;> omega

namespace Session

variable {κ σ : Type} {P : Party κ} {Q : Party σ} {s t : Session κ σ} {e : Event}

theorem action?_eq_none_iff : s.action? P Q = none ↔
    (P.ask s.core).turn? s.links.whole s.links.core = none ∧ s.exchange? P Q = none ∧
      s.controllerTurn? P Q = none := by
  rw [action?]
  constructor
  · intro h
    split at h
    · cases h
    · rename_i waits
      split at h
      · cases h
      · cases h
      · rename_i apart
        exact ⟨waits, apart, by simpa using h⟩
  · rintro ⟨waits, apart, idle⟩
    rw [waits, apart, idle]
    rfl

theorem exchange?_of_fromCore {c : Channel} {v : Word} (whole : s.links.whole c = true)
    (meet : Ask.Meet c v (P.ask s.core) (Q.ask s.controller)) :
    s.exchange? P Q = some (true, v) := by
  rw [exchange?, Ask.meet?_of_meet meet]
  simp [whole]

theorem exchange?_of_toCore {c : Channel} {v : Word} (whole : s.links.whole c = true)
    (gets : P.ask s.core = .get c) (puts : Q.ask s.controller = .put c v) :
    s.exchange? P Q = some (false, v) := by
  rw [exchange?, gets, puts, Ask.meet?_get, Ask.meet?_of_meet .get]
  simp [whole]

theorem controllerTurn?_ne_none_of_may {turn : Turn}
    (may : (Q.ask s.controller).May s.links.whole s.links.controller turn) :
    s.controllerTurn? P Q ≠ none := by
  rw [controllerTurn?]
  cases found : (Q.ask s.controller).turn? s.links.whole s.links.controller with
  | some turn => simp
  | none =>
      by_cases hasty : ∃ ch, Q.ask s.controller = .getSoon ch
      · obtain ⟨ch, asks⟩ := hasty
        simp [asks]
      · have patient : ∀ ch, Q.ask s.controller ≠ .getSoon ch := by
          intro ch asks
          exact hasty ⟨ch, asks⟩
        exact absurd found (Ask.turn?_ne_none_of_may may patient)

/-- Where the schedule has nothing to do, no step is possible. A core that may give up a wait is
left out, since the schedule never lets it. -/
theorem not_step_of_action?_eq_none (patient : ∀ ch, P.ask s.core ≠ .getSoon ch)
    (h : s.action? P Q = none) : ¬ Step P Q s e t := by
  -- The schedule has looked at the core, at an exchange and at the controller, in this order.
  obtain ⟨waits, apart, idle⟩ := action?_eq_none_iff.mp h
  intro step
  cases step with
  | core may => exact Ask.turn?_ne_none_of_may may patient waits
  | controller may => exact controllerTurn?_ne_none_of_may may idle
  | fromCore whole meet =>
      rw [exchange?_of_fromCore whole meet] at apart
      cases apart
  | @toCore c v whole meet =>
      have puts := meet.put_eq
      rcases meet.get_eq with gets | gets
      · rw [exchange?_of_toCore whole gets puts] at apart
        cases apart
      · exact patient c gets
  | joined asks gone =>
      rw [controllerTurn?, asks] at idle
      simp [Ask.turn?, gone] at idle
  | polled asks gone =>
      rw [controllerTurn?, asks] at idle
      simp [Ask.turn?] at idle

theorem action?_of_run {fuel : Nat} (h : s.run P Q fuel = some t) : t.action? P Q = none := by
  induction fuel generalizing s with
  | zero => cases h
  | succ fuel ih =>
      rw [run] at h
      split at h
      · rename_i idle
        cases h
        exact idle
      · exact ih h

theorem run_of_bounded {fuel : Nat}
    (bounded : ∀ es t, Steps P Q s es t → es.length < fuel) : ∃ t, s.run P Q fuel = some t := by
  induction fuel generalizing s with
  | zero =>
      have none_yet := bounded [] s (.refl s)
      cases none_yet
  | succ fuel ih =>
      rw [run]
      split
      · exact ⟨s, rfl⟩
      · rename_i a found
        obtain ⟨e, first⟩ := step_of_action? found
        apply ih
        intro es t rest
        have longer := bounded (e :: es) t (.cons first rest)
        rw [List.length_cons] at longer
        omega

theorem run_of_live {fuel : Nat} (patient : ∀ k ch, P.ask k ≠ .getSoon ch)
    (live : ∀ es t, Steps P Q s es t → t.complete P Q = true ∨ ∃ e u, Step P Q t e u)
    (bounded : ∀ es t, Steps P Q s es t → es.length < fuel) :
    ∃ es t, s.run P Q fuel = some t ∧ Steps P Q s es t ∧ t.complete P Q = true := by
  obtain ⟨t, ran⟩ := run_of_bounded bounded
  obtain ⟨es, steps⟩ := steps_of_run ran
  refine ⟨es, t, ran, steps, ?_⟩
  rcases live es t steps with completed | ⟨e, u, step⟩
  · exact completed
  · have idle := action?_of_run ran
    exact absurd step (not_step_of_action?_eq_none (patient t.core) idle)

end Session

end Shipboard
