import Shipboard.Proofs.Session.Reach

/-!
The order in which two sides move does not matter, as long as neither gives up a wait or looks
whether the other has stopped: two steps from one state can each be followed by the other. Where a
session ends, if it ends, is therefore fixed at its start, and so are the steps it makes.
-/

namespace Shipboard

namespace Ask

variable {whole whole' : Channel → Bool} {mine : Ends} {a b : Ask} {c : Channel} {v : Word}
  {t t' : Turn}

theorem May.mono (h : a.May whole mine t) (fewer : ∀ c, whole' c = true → whole c = true) :
    a.May whole' mine t := by
  cases h with
  | work => exact .work
  | stall => exact .stall
  | drop leaving held => exact .drop leaving held
  | gone empty => exact .gone empty
  | @closed a c asks broken =>
      refine .closed asks ?_
      cases still : whole' c with
      | false => rfl
      | true =>
          rw [fewer c still] at broken
          cases broken

theorem May.unique (h : a.May whole mine t) (k : a.May whole mine t')
    (patient : ∀ c, a ≠ .getSoon c) :
    t = t' ∨ ∃ c d, t = .drop c ∧ t' = .drop d ∧ c ≠ d := by
  -- But for a wait that is given up, only a side that leaves has several turns, one for each end.
  cases h with
  | work =>
      cases k with
      | work => exact .inl rfl
      | closed asks broken => cases asks
      | drop leaving held => cases leaving
  | stall => exact absurd rfl (patient _)
  | closed asks broken =>
      cases k with
      | work => cases asks
      | closed asks' broken' => exact .inl rfl
      | stall => exact absurd rfl (patient _)
      | drop leaving held => cases a <;> cases asks <;> cases leaving
      | gone empty => cases asks
  | @drop a c leaving held =>
      cases k with
      | work => cases leaving
      | closed asks broken => cases a <;> cases asks <;> cases leaving
      | stall => cases leaving
      | @drop a d leaving' held' =>
          by_cases same : c = d
          · exact .inl (congrArg Turn.drop same)
          · exact .inr ⟨c, d, rfl, rfl, same⟩
      | gone empty =>
          rw [Ends.holds_of_isEmpty empty] at held
          cases held
  | gone empty =>
      cases k with
      | closed asks broken => cases asks
      | drop leaving held =>
          rw [Ends.holds_of_isEmpty empty] at held
          cases held
      | gone empty' => exact .inl rfl

theorem Meet.giver_waits (h : Meet c v a b) (carries : whole c = true) : ¬ a.May whole mine t := by
  intro may
  rw [h.put_eq] at may
  cases may with
  | closed asks broken =>
      cases asks
      rw [carries] at broken
      cases broken
  | drop leaving held => cases leaving

theorem Meet.getter_waits (h : Meet c v a b) (carries : whole c = true)
    (patient : ∀ c, b ≠ .getSoon c) : ¬ b.May whole mine t := by
  intro may
  rcases h.get_eq with gets | gets
  · rw [gets] at may
    cases may with
    | closed asks broken =>
        cases asks
        rw [carries] at broken
        cases broken
    | drop leaving held => cases leaving
  · exact patient c gets

theorem Meet.unique {d : Channel} {w : Word} (h : Meet c v a b) (k : Meet d w a b) :
    c = d ∧ v = w := by
  have puts := h.put_eq.symm.trans k.put_eq
  cases puts
  exact ⟨rfl, rfl⟩

theorem Meet.one_way {d : Channel} {w : Word} (h : Meet c v a b) : ¬ Meet d w b a := by
  intro k
  have puts := k.put_eq
  rcases h.get_eq with gets | gets <;> cases gets.symm.trans puts

end Ask

namespace Session

variable {κ σ : Type} {P : Party κ} {Q : Party σ} {s t u : Session κ σ} {e f : Event}
  {es fs : List Event}

/-- Nobody gives up a wait here or looks whether the core has stopped. -/
structure Calm (P : Party κ) (Q : Party σ) (s : Session κ σ) : Prop where
  core : ∀ c, P.ask s.core ≠ .getSoon c
  controller : ∀ c, Q.ask s.controller ≠ .getSoon c
  incurious : Q.ask s.controller ≠ .poll

/-- Two steps from one state that are the same or can each be followed by the other. -/
def Agree (P : Party κ) (Q : Party σ) (e : Event) (t : Session κ σ) (f : Event)
    (u : Session κ σ) : Prop :=
  (e = f ∧ t = u) ∨ ∃ v, Step P Q t f v ∧ Step P Q u e v

theorem Agree.symm (h : Agree P Q e t f u) : Agree P Q f u e t := by
  rcases h with ⟨rfl, rfl⟩ | ⟨v, first, second⟩
  · exact .inl ⟨rfl, rfl⟩
  · exact .inr ⟨v, second, first⟩

theorem Agree.of_eq (same : e = f) (there : t = u) : Agree P Q e t f u := .inl ⟨same, there⟩

theorem Calm.patient (calm : Calm P Q s) (i : Side) (c : Channel) : s.asks P Q i ≠ .getSoon c := by
  cases i with
  | core => exact calm.core c
  | controller => exact calm.controller c

theorem drop_drop (e : Ends) (c d : Channel) : (e.drop c).drop d = (e.drop d).drop c := by
  cases c <;> cases d <;> rfl

theorem holds_after_drop {e : Ends} {c d : Channel} (held : e.holds d = true) (other : c ≠ d) :
    (e.drop c).holds d = true := by
  rw [Ends.holds_drop, held]
  simp [other]

theorem Step.drop_after {c d : Channel} (i : Side) (other : c ≠ d)
    (leaving : (s.asks P Q i).leaves = true) (held : (s.links.ends i).holds d = true) :
    Step P Q (s.alone P Q i (.drop c)) (.alone i (.drop d))
      ((s.alone P Q i (.drop c)).alone P Q i (.drop d)) := by
  refine .alone i (.drop ?_ ?_)
  · rw [asks_alone_drop]
    exact leaving
  · rw [ends_alone_drop]
    exact holds_after_drop held other

theorem agree_same {turn turn' : Turn} (calm : Calm P Q s) (i : Side)
    (may : (s.asks P Q i).May s.links.whole (s.links.ends i) turn)
    (may' : (s.asks P Q i).May s.links.whole (s.links.ends i) turn') :
    Agree P Q (.alone i turn) (s.alone P Q i turn) (.alone i turn') (s.alone P Q i turn') := by
  rcases may.unique may' (calm.patient i) with rfl | ⟨c, d, rfl, rfl, other⟩
  · exact .of_eq rfl rfl
  · obtain ⟨leaving, held⟩ := may.leaving
    have held' := may'.leaving.2
    have there : (s.alone P Q i (.drop c)).alone P Q i (.drop d) =
        (s.alone P Q i (.drop d)).alone P Q i (.drop c) := by
      cases i <;> simp only [alone, coreTurn, controllerTurn, drop_drop _ c d]
    refine .inr ⟨_, .drop_after i other leaving held', ?_⟩
    rw [there]
    exact .drop_after i other.symm leaving held

theorem agree_apart {turn turn' : Turn}
    (may : (P.ask s.core).May s.links.whole s.links.core turn)
    (may' : (Q.ask s.controller).May s.links.whole s.links.controller turn') :
    Agree P Q (.core turn) (s.coreTurn P turn) (.controller turn') (s.controllerTurn Q turn') := by
  have first : Step P Q s _ _ := .core may
  have first' : Step P Q s _ _ := .controller may'
  refine .inr ⟨(s.coreTurn P turn).controllerTurn Q turn', .controller ?_, ?_⟩
  · cases turn with
    | hear a => exact may'
    | drop c => exact may'.mono fun _ => first.whole
  · have there : (s.coreTurn P turn).controllerTurn Q turn' =
        (s.controllerTurn Q turn').coreTurn P turn := by
      cases turn <;> cases turn' <;> rfl
    rw [there]
    refine .core ?_
    cases turn' with
    | hear a => exact may
    | drop c => exact may.mono fun _ => first'.whole

theorem not_may_of_coreGone {turn : Turn} (gone : s.coreGone P = true) :
    ¬ (P.ask s.core).May s.links.whole s.links.core turn := by
  intro may
  simp only [coreGone, Bool.and_eq_true, decide_eq_true_eq] at gone
  obtain ⟨stops, empty⟩ := gone
  rw [stops] at may
  exact Ask.not_may_of_gone empty may

theorem not_may_of_join {turn : Turn} (asks : Q.ask s.controller = .join) :
    ¬ (Q.ask s.controller).May s.links.whole s.links.controller turn := by
  intro may
  rw [asks] at may
  cases may with
  | closed needs broken => cases needs
  | drop leaving held => cases leaving

theorem not_may_of_meet {c : Channel} {v : Word} {turn : Turn} (i j : Side)
    (patient : ∀ c, s.asks P Q i.other ≠ .getSoon c) (whole : s.links.whole c = true)
    (meet : Ask.Meet c v (s.asks P Q i) (s.asks P Q i.other)) :
    ¬ (s.asks P Q j).May s.links.whole (s.links.ends j) turn := by
  rcases i.eq_or_other j with rfl | rfl
  · exact meet.giver_waits whole
  · exact meet.getter_waits whole patient

theorem agree_of_alone {turn : Turn} (calm : Calm P Q s) (i : Side)
    (may : (s.asks P Q i).May s.links.whole (s.links.ends i) turn) (k : Step P Q s f u) :
    Agree P Q (.alone i turn) (s.alone P Q i turn) f u := by
  cases k with
  | core may' =>
      cases i with
      | core => exact agree_same calm .core may may'
      | controller => exact (agree_apart may' may).symm
  | controller may' =>
      cases i with
      | core => exact agree_apart may may'
      | controller => exact agree_same calm .controller may may'
  | fromCore whole meet => exact absurd may (not_may_of_meet .core i calm.controller whole meet)
  | toCore whole meet => exact absurd may (not_may_of_meet .controller i calm.core whole meet)
  | joined asks gone =>
      cases i with
      | core => exact absurd may (not_may_of_coreGone gone)
      | controller => exact absurd may (not_may_of_join asks)
  | polled asks gone => exact absurd asks calm.incurious

def handed (P : Party κ) (Q : Party σ) (s : Session κ σ) (v : Word) : Side → Session κ σ
  | .core => s.fromCore P Q v
  | .controller => s.toCore P Q v

theorem sole_handed {c : Channel} {v : Word} (i : Side)
    (patient : ∀ c, s.asks P Q i.other ≠ .getSoon c) (whole : s.links.whole c = true)
    (meet : Ask.Meet c v (s.asks P Q i) (s.asks P Q i.other)) (k : Step P Q s f u) :
    f = .passed c v ∧ u = s.handed P Q v i := by
  have waits : (s.asks P Q .controller).channel? = some c := by
    cases i with
    | core => rcases meet.get_eq with gets | gets <;> exact congrArg Ask.channel? gets
    | controller => exact congrArg Ask.channel? meet.put_eq
  cases k with
  | core may => exact absurd may (not_may_of_meet i .core patient whole meet)
  | controller may => exact absurd may (not_may_of_meet i .controller patient whole meet)
  | fromCore whole' meet' =>
      cases i with
      | core =>
          obtain ⟨rfl, rfl⟩ := meet.unique meet'
          exact ⟨rfl, rfl⟩
      | controller => exact absurd meet' meet.one_way
  | toCore whole' meet' =>
      cases i with
      | core => exact absurd meet' meet.one_way
      | controller =>
          obtain ⟨rfl, rfl⟩ := meet.unique meet'
          exact ⟨rfl, rfl⟩
  | joined asks gone => cases waits.symm.trans (congrArg Ask.channel? asks)
  | polled asks gone => cases waits.symm.trans (congrArg Ask.channel? asks)

theorem sole_joined (asks : Q.ask s.controller = .join) (gone : s.coreGone P = true)
    (k : Step P Q s f u) : f = .joined ∧ u = s.controllerTurn Q (.hear .done) := by
  cases k with
  | core may => exact absurd may (not_may_of_coreGone gone)
  | controller may => exact absurd may (not_may_of_join asks)
  | fromCore whole meet => rcases meet.get_eq with gets | gets <;> cases gets.symm.trans asks
  | toCore whole meet => cases meet.put_eq.symm.trans asks
  | joined asks' gone' => exact ⟨rfl, rfl⟩
  | polled asks' gone' => cases asks.symm.trans asks'

/-- Two steps from one state are the same, or each can be followed by the other. -/
theorem diamond (calm : Calm P Q s) (h : Step P Q s e t) (k : Step P Q s f u) :
    Agree P Q e t f u := by
  -- Two sides that move alone commute; a value that can be handed over leaves nothing else to do.
  cases h with
  | core may => exact agree_of_alone calm .core may k
  | controller may => exact agree_of_alone calm .controller may k
  | fromCore whole meet =>
      obtain ⟨rfl, rfl⟩ := sole_handed .core calm.controller whole meet k
      exact .of_eq rfl rfl
  | toCore whole meet =>
      obtain ⟨rfl, rfl⟩ := sole_handed .controller calm.core whole meet k
      exact .of_eq rfl rfl
  | joined asks gone =>
      obtain ⟨rfl, rfl⟩ := sole_joined asks gone k
      exact .of_eq rfl rfl
  | polled asks gone => exact absurd asks calm.incurious

/-- No step is possible any more, whether the session is complete or stuck. -/
def Ended (P : Party κ) (Q : Party σ) (s : Session κ σ) : Prop := ∀ e t, ¬ Step P Q s e t

def StaysCalm (P : Party κ) (Q : Party σ) (s : Session κ σ) : Prop :=
  ∀ es t, Steps P Q s es t → Calm P Q t

theorem StaysCalm.here (h : StaysCalm P Q s) : Calm P Q s := h [] s (.refl s)

theorem StaysCalm.after (h : StaysCalm P Q s) (steps : Steps P Q s es t) : StaysCalm P Q t := by
  intro fs u rest
  exact h (es ++ fs) u (steps.append rest)

theorem staysCalm_of_asks (core : ∀ x c, P.ask x ≠ .getSoon c)
    (controller : ∀ x c, Q.ask x ≠ .getSoon c) (incurious : ∀ x, Q.ask x ≠ .poll)
    (s : Session κ σ) : StaysCalm P Q s := fun _ t _ =>
  ⟨core t.core, controller t.controller, incurious t.controller⟩

theorem ended_of_complete (h : s.complete P Q = true) : Ended P Q s := by
  simp only [complete, controllerGone, Bool.and_eq_true, decide_eq_true_eq] at h
  obtain ⟨gone, stops, empty⟩ := h
  have left : P.ask s.core = .stop := by
    simp only [coreGone, Bool.and_eq_true, decide_eq_true_eq] at gone
    exact gone.1
  intro e t step
  cases step with
  | core may => exact not_may_of_coreGone gone may
  | controller may =>
      rw [stops] at may
      exact Ask.not_may_of_gone empty may
  | fromCore whole meet => cases meet.put_eq.symm.trans left
  | toCore whole meet => cases meet.put_eq.symm.trans stops
  | joined asks gone => cases asks.symm.trans stops
  | polled asks gone => cases asks.symm.trans stops

theorem Ended.eq_of_steps (ended : Ended P Q s) (h : Steps P Q s es t) : es = [] ∧ t = s := by
  cases h with
  | refl s => exact ⟨rfl, rfl⟩
  | cons first rest => exact absurd first (ended _ _)

theorem exists_steps_of_step (calm : StaysCalm P Q s) (h : Steps P Q s es t) (ended : Ended P Q t)
    (k : Step P Q s f u) : ∃ gs, Steps P Q u gs t ∧ (f :: gs).Perm es := by
  -- Along the way to the end: the step either is its first one or can be done behind it.
  induction h generalizing f u with
  | refl s => exact absurd k (ended f u)
  | @cons s s' t e es first rest ih =>
      rcases diamond calm.here first k with ⟨rfl, rfl⟩ | ⟨v, second, back⟩
      · exact ⟨es, rest, .refl _⟩
      · obtain ⟨gs, steps, perm⟩ := ih (calm.after (.cons first (.refl s'))) ended second
        refine ⟨e :: gs, .cons back steps, ?_⟩
        calc
          (f :: e :: gs).Perm (e :: f :: gs) := .swap e f gs
          _ |>.Perm (e :: es) := perm.cons e

/-- If a session can end, then it ends there and nowhere else, by the same steps in some order. -/
theorem exists_steps_of_ended (calm : StaysCalm P Q s) (h : Steps P Q s es t)
    (ended : Ended P Q t) (k : Steps P Q s fs u) :
    ∃ gs, Steps P Q u gs t ∧ (fs ++ gs).Perm es := by
  induction k generalizing es with
  | refl s => exact ⟨es, h, .refl es⟩
  | @cons s s' u f fs first rest ih =>
      obtain ⟨hs, steps, perm⟩ := exists_steps_of_step calm h ended first
      obtain ⟨gs, steps', perm'⟩ := ih (calm.after (.cons first (.refl s'))) steps
      exact ⟨gs, steps', (perm'.cons f).trans perm⟩

theorem eq_of_ended (calm : StaysCalm P Q s) (h : Steps P Q s es t) (ended : Ended P Q t)
    (k : Steps P Q s fs u) (ended' : Ended P Q u) : t = u := by
  obtain ⟨gs, steps, -⟩ := exists_steps_of_ended calm h ended k
  exact (ended'.eq_of_steps steps).2

theorem ended_of_run {fuel : Nat} (calm : StaysCalm P Q s) (ran : s.run P Q fuel = some t) :
    ∃ es, Steps P Q s es t ∧ Ended P Q t := by
  obtain ⟨es, steps⟩ := steps_of_run ran
  have patient := (calm es t steps).core
  exact ⟨es, steps, fun e u => not_step_of_action?_eq_none patient (action?_of_run ran)⟩

theorem eq_of_run {fuel : Nat} (calm : StaysCalm P Q s) (h : Steps P Q s es t)
    (ended : Ended P Q t) (ran : s.run P Q fuel = some u) : u = t := by
  obtain ⟨fs, steps, ended'⟩ := ended_of_run calm ran
  exact eq_of_ended calm steps ended' h ended

/-- The schedule ends where any interleaving ends. -/
theorem run_of_ended {fuel : Nat} (calm : StaysCalm P Q s) (h : Steps P Q s es t)
    (ended : Ended P Q t) (enough : es.length < fuel) : s.run P Q fuel = some t := by
  have bounded : ∀ fs u, Steps P Q s fs u → fs.length < fuel := by
    intro fs u steps
    obtain ⟨gs, -, perm⟩ := exists_steps_of_ended calm h ended steps
    have length := perm.length_eq
    rw [List.length_append] at length
    omega
  obtain ⟨u, ran⟩ := run_of_bounded bounded
  rw [ran, eq_of_run calm h ended ran]

end Session

end Shipboard
