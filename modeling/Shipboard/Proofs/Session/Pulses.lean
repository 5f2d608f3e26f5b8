import Shipboard.Proofs.Session.Buffered
import Shipboard.Proofs.Session.Confluence

/-!
Pulses. On an interactive link a machine announces every input by a pulse, and from the time the
pulse is taken until its value is there it stands still. So a value that is offered right after a
pulse is always taken. On a streaming link there are no pulses.
-/

namespace Shipboard

namespace Event

def isPulse : Event → Bool
  | .passed .ready _ => true
  | _ => false

/-- Something that the controller does without the core. -/
def isAside : Event → Bool
  | .controller _ => true
  | .joined => true
  | .polled _ => true
  | _ => false

end Event

namespace Worker

def Settled (w : Worker) : Prop := (∃ c, w = .active c false) ∨ ∃ ending, w = .stopped ending

theorem not_settled_of_announced {w : Worker} {c : Core} (announced : w = .active c true) :
    ¬ w.Settled := by
  rintro (⟨d, working⟩ | ⟨ending, stopped⟩)
  · cases announced.symm.trans working
  · cases announced.symm.trans stopped

theorem settled_ofProgress (r : Progress) (c : Core) : (ofProgress r c).Settled := by
  cases r with
  | running => exact .inl ⟨c, rfl⟩
  | halted => exact .inr ⟨_, rfl⟩
  | failed f => exact .inr ⟨_, rfl⟩

variable {c : Core} {next a : Address} {v : Word}

theorem settled_hear {b b' : Buffer} {heard : Answer}
    (answers : c.consult Buffer.device b = (heard, b')) (pulsed : Bool) :
    ((active c pulsed).hear heard).Settled := by
  have hears := (hear_consult Buffer.device c pulsed b).1
  rw [answers] at hears
  rw [hears]
  exact settled_ofProgress _ _

theorem settled_of_alone (alone : c.isAlone = true) (pulsed : Bool) :
    ((active c pulsed).hear .done).Settled :=
  settled_hear (Core.consult_of_alone alone ({} : Buffer)) pulsed

theorem settled_of_put (effect : c.effect = .ok (.output next v)) (pulsed : Bool) :
    ((active c pulsed).hear .done).Settled := by
  have answers : c.consult Buffer.device {} = (.done, (Buffer.put {} v).2) :=
    Core.consult_of_put effect rfl
  exact settled_hear answers pulsed

theorem settled_of_take (effect : c.effect = .ok (.input next a)) (v : Word) (pulsed : Bool) :
    ((active c pulsed).hear (.value v)).Settled := by
  have answers : c.consult Buffer.device { input := [v] } = (.value v, {}) :=
    Core.consult_of_take effect rfl
  exact settled_hear answers pulsed

theorem settled_of_cut (needs : c.isAlone = false) (pulsed : Bool) :
    ((active c pulsed).hear .closed).Settled := by
  obtain ⟨f, -, stopped⟩ := hear_closed_of_needs needs pulsed
  exact .inr ⟨_, stopped⟩

end Worker

namespace Session

variable {σ : Type} {p : Protocol} {Q : Party σ} {s t : Session Worker σ} {e : Event}
  {es fs : List Event} {m : Machine}

def pulses (es : List Event) : Nat := es.countP Event.isPulse

theorem pulses_snoc (es : List Event) (e : Event) :
    pulses (es ++ [e]) = pulses es + e.isPulse.toNat := by
  rw [pulses, List.countP_append, List.countP_singleton]
  cases e.isPulse <;> rfl

/-- Every value has had its pulse, and there is at most one pulse more. -/
inductive Paced (es : List Event) : Worker → Prop
  | even {c : Core} (same : pulses es = (sent es).length) : Paced es (.active c false)
  | owing {c : Core} {next a : Address} (effect : c.effect = .ok (.input next a))
      (more : pulses es = (sent es).length + 1) : Paced es (.active c true)
  | stopped {ending : Ending}
      (near : pulses es = (sent es).length ∨ pulses es = (sent es).length + 1) :
      Paced es (.stopped ending)

theorem Paced.near {w : Worker} (paced : Paced es w) :
    pulses es = (sent es).length ∨ pulses es = (sent es).length + 1 := by
  cases paced with
  | even same => exact .inl same
  | owing effect more => exact .inr more
  | stopped near => exact near

theorem Paced.quiet {w : Worker} (paced : Paced es w) (unpulsed : e.isPulse = false)
    (unsent : e.sent? = none) : Paced (es ++ [e]) w := by
  have same : pulses (es ++ [e]) = pulses es := by
    rw [pulses_snoc, unpulsed]
    rfl
  have same' : sent (es ++ [e]) = sent es := by simp [sent, unsent]
  cases paced with
  | even h =>
      rw [← same, ← same'] at h
      exact .even h
  | owing effect h =>
      rw [← same, ← same'] at h
      exact .owing effect h
  | stopped h =>
      rw [← same, ← same'] at h
      exact .stopped h

theorem Paced.unannounced {c : Core} {pulsed : Bool} (paced : Paced es (.active c pulsed))
    (other : ∀ next a, c.effect ≠ .ok (.input next a)) :
    pulsed = false ∧ pulses es = (sent es).length := by
  cases paced with
  | even same => exact ⟨rfl, same⟩
  | owing effect more => exact absurd effect (other _ _)

theorem paced_of_settled {w : Worker} (settled : w.Settled)
    (same : pulses es = (sent es).length) : Paced es w := by
  rcases settled with ⟨d, rfl⟩ | ⟨ending, rfl⟩
  · exact .even same
  · exact .stopped (.inl same)

theorem paced_start (m : Machine) : Paced [] (.ofMachine m) := by
  rw [Worker.ofMachine.eq_def]
  split
  · exact .even rfl
  · exact .stopped (.inl rfl)

theorem paced_step (paced : Paced es s.core) (h : Step (Worker.party .interactive) Q s e t) :
    Paced (es ++ [e]) t.core := by
  -- Only a pulse and a value that is taken change the two counts.
  cases attends_of_step h with
  | @aside turn may => cases turn <;> exact paced.quiet rfl rfl
  | joined asks => exact paced.quiet rfl rfl
  | polled asks => exact paced.quiet rfl rfl
  | dropped core held => exact paced.quiet rfl rfl
  | @worked c pulsed core alone =>
      rw [core] at paced
      have other : ∀ next a, c.effect ≠ .ok (.input next a) := by
        intro next a effect
        rw [Core.isAlone_of_input effect] at alone
        cases alone
      have settled := Worker.settled_of_alone alone pulsed
      rw [← core] at settled
      exact (paced_of_settled settled (paced.unannounced other).2).quiet rfl rfl
  | @cut c pulsed ch core needs broken =>
      obtain ⟨f, -, stopped⟩ := Worker.hear_closed_of_needs needs pulsed
      rw [← core] at stopped
      have stops : Paced es (s.core.hear .closed) := by
        rw [stopped]
        exact .stopped paced.near
      exact stops.quiet rfl rfl
  | @pulse c next a core effect meet =>
      rw [core] at paced
      cases paced with
      | even same =>
          refine .owing effect ?_
          rw [pulses_snoc, same]
          simp [sent, Event.isPulse, Event.sent?]
  | @given c pulsed next v core effect meet =>
      rw [core] at paced
      have other : ∀ next a, c.effect ≠ .ok (.input next a) := by
        intro next a input
        cases effect.symm.trans input
      have settled := Worker.settled_of_put effect pulsed
      rw [← core] at settled
      exact (paced_of_settled settled (paced.unannounced other).2).quiet rfl rfl
  | @taken c pulsed next a v core effect announced gives =>
      rw [core] at paced
      obtain rfl : pulsed = true := announced rfl
      cases paced with
      | owing effect' more =>
          have settled := Worker.settled_of_take effect v true
          rw [← core] at settled
          refine paced_of_settled settled ?_
          rw [pulses_snoc, more]
          simp [sent, Event.isPulse, Event.sent?]

theorem paced_of_steps {controller : σ} (h : Steps (Worker.party .interactive) Q
      (start .interactive (Worker.ofMachine m) controller) es s) : Paced es s.core :=
  h.keeps (I := fun es s => Paced es s.core) (fun _ _ _ _ paced step => paced_step paced step) []
    (paced_start m)

theorem input_of_announced {c : Core} (paced : Paced es s.core) (core : s.core = .active c true) :
    ∃ next a, c.effect = .ok (.input next a) := by
  rw [core] at paced
  cases paced with
  | owing effect more => exact ⟨_, _, effect⟩

theorem asks_value {c : Core} (paced : Paced es s.core) (core : s.core = .active c true) :
    (Worker.party .interactive).ask s.core = .get .toCore := by
  obtain ⟨next, a, effect⟩ := input_of_announced paced core
  rw [core]
  exact Worker.ask_of_input effect (fun _ => rfl)

/-- From a pulse on only three things can happen: something that the core does not notice, the value
that was announced, or the end of the core when the controller lets go of its channel. -/
theorem step_of_announced {c : Core} (manned : Manned .interactive s) (paced : Paced es s.core)
    (core : s.core = .active c true) (h : Step (Worker.party .interactive) Q s e t) :
    (e.isAside = true ∧ t.core = .active c true) ∨ (∃ v, e = .passed .toCore v) ∨
      (e = .core (.hear .closed) ∧ s.links.controller.holds .toCore = false) := by
  have asks := asks_value paced core
  cases h with
  | @controller turn may => cases turn <;> exact .inl ⟨rfl, core⟩
  | joined asks' gone => exact .inl ⟨rfl, core⟩
  | polled asks' gone => exact .inl ⟨rfl, core⟩
  | fromCore whole meet => cases meet.put_eq.symm.trans asks
  | @toCore ch v whole meet =>
      rcases meet.get_eq with gets | gets
      · cases gets.symm.trans asks
        exact .inr (.inl ⟨v, rfl⟩)
      · cases gets.symm.trans asks
  | @core turn may =>
      rw [asks] at may
      cases may with
      | drop leaving held => cases leaving
      | closed needs broken =>
          cases needs
          rw [Links.whole, manned.holds core (.inl rfl), Bool.true_and] at broken
          exact .inr (.inr ⟨rfl, broken⟩)

/-- The pulse of the input at hand has been taken, and the core has stood still since then. -/
def Announced (Q : Party σ) (first : Session Worker σ) (es : List Event) (s : Session Worker σ)
    (c : Core) : Prop :=
  ∃ before between u v, es = before ++ .passed .ready 0 :: between ∧
    Steps (Worker.party .interactive) Q first before u ∧ u.core = .active c false ∧
    Step (Worker.party .interactive) Q u (.passed .ready 0) v ∧ v.core = .active c true ∧
    Steps (Worker.party .interactive) Q v between s ∧ ∀ e ∈ between, e.isAside = true

theorem Announced.aside {first : Session Worker σ} {c : Core} (since : Announced Q first es s c)
    (h : Step (Worker.party .interactive) Q s e t) (aside : e.isAside = true) :
    Announced Q first (es ++ [e]) t c := by
  obtain ⟨before, between, u, v, events, reach, quiet, pulse, announced, still, asides⟩ := since
  refine ⟨before, between ++ [e], u, v, ?_, reach, quiet, pulse, announced, still.snoc h, ?_⟩
  · rw [events, List.append_assoc, List.cons_append]
  · intro f member
    rcases List.mem_append.mp member with earlier | last
    · exact asides f earlier
    · rw [List.mem_singleton.mp last]
      exact aside

theorem announced_of_steps {controller : σ} {c : Core} (h : Steps (Worker.party .interactive) Q
      (start .interactive (Worker.ofMachine m) controller) es s) (core : s.core = .active c true) :
    Announced Q (start .interactive (Worker.ofMachine m) controller) es s c := by
  let first := start .interactive (Worker.ofMachine m) controller
  -- The invariant carries the way there, of which the part since the pulse is a piece.
  have kept := h.keeps (I := fun es s => Steps (Worker.party .interactive) Q first es s ∧
    ∀ c, s.core = .active c true → Announced Q first es s c) ?_ [] ⟨.refl first, ?_⟩
  · exact kept.2 c core
  · rintro es s e t ⟨reach, since⟩ step
    refine ⟨reach.snoc step, ?_⟩
    intro c active
    cases attends_of_step step with
    | @aside turn may => cases turn <;> exact (since c active).aside step rfl
    | joined asks => exact (since c active).aside step rfl
    | polled asks => exact (since c active).aside step rfl
    | dropped core held => cases core.symm.trans active
    | pulse core effect meet =>
        cases active
        exact ⟨es, [], s, _, rfl, reach, core, step, rfl, .refl _, by simp⟩
    | @worked d pulsed core alone =>
        have settled := Worker.settled_of_alone alone pulsed
        rw [← core] at settled
        exact absurd settled (Worker.not_settled_of_announced active)
    | @cut d pulsed ch core needs broken =>
        have settled := Worker.settled_of_cut needs pulsed
        rw [← core] at settled
        exact absurd settled (Worker.not_settled_of_announced active)
    | @given d pulsed next v core effect meet =>
        have settled := Worker.settled_of_put effect pulsed
        rw [← core] at settled
        exact absurd settled (Worker.not_settled_of_announced active)
    | @taken d pulsed next a v core effect announced gives =>
        have settled := Worker.settled_of_take effect v pulsed
        rw [← core] at settled
        exact absurd settled (Worker.not_settled_of_announced active)
  · intro c active
    rw [show first.core = Worker.ofMachine m from rfl, Worker.ofMachine.eq_def] at active
    split at active <;> cases active

/-- While the controller keeps its channel and gives no value, the core stands still. -/
theorem still_of_announced {c : Core} (manned : Manned .interactive s) (paced : Paced es s.core)
    (core : s.core = .active c true) (h : Steps (Worker.party .interactive) Q s fs t)
    (ungiven : ∀ w, .passed .toCore w ∉ fs) (kept : t.links.controller.holds .toCore = true) :
    (∀ e ∈ fs, e.isAside = true) ∧ t.core = .active c true := by
  induction h generalizing es with
  | refl s => exact ⟨by simp, core⟩
  | @cons s s' t e fs first rest ih =>
      have held : s.links.controller.holds .toCore = true :=
        (Steps.cons first rest).holds .controller kept
      have aside : e.isAside = true ∧ s'.core = .active c true := by
        rcases step_of_announced manned paced core first with aside | ⟨v, rfl⟩ | ⟨-, dropped⟩
        · exact aside
        · exact absurd (List.mem_cons_self) (ungiven v)
        · rw [dropped] at held
          cases held
      have later : ∀ w, .passed .toCore w ∉ fs := by
        intro w member
        exact ungiven w (List.mem_cons_of_mem _ member)
      obtain ⟨asides, still⟩ := ih (manned.step first) (paced_step paced first) aside.2 later kept
      refine ⟨?_, still⟩
      intro f member
      rcases List.mem_cons.mp member with rfl | behind
      · exact aside.1
      · exact asides f behind

/-- The core stands at an input that it has announced, and can still be given its value. -/
structure Expecting (s : Session Worker σ) : Prop where
  announced : ∃ c next a, s.core = .active c true ∧ c.effect = .ok (.input next a)
  whole : s.links.whole .toCore = true

theorem expecting_of_pulse {controller : σ} {v : Word} (h : Steps (Worker.party .interactive) Q
      (start .interactive (Worker.ofMachine m) controller) es s)
    (pulse : Step (Worker.party .interactive) Q s (.passed .ready v) t) : Expecting t := by
  have composed : Composed .interactive Q s :=
    h.keeps_state (fun _ _ _ composed step => composed.step step) (composed_start _ _ _ _)
  have held := ((Links.whole_iff _ _).mp pulse.carries).2
  cases attends_of_step pulse with
  | @pulse c next a core effect meet =>
      have full : s.links.controller = .ofProtocol .interactive := by
        rcases composed with leaves | full | empty
        · rcases meet.get_eq with gets | gets <;> rw [gets] at leaves <;> cases leaves
        · exact full
        · rw [Ends.holds_of_isEmpty empty] at held
          cases held
      have mans : s.links.core.holds .toCore = true := (manned_of_steps h).holds core (.inl rfl)
      refine ⟨⟨c, next, a, rfl, effect⟩, (Links.whole_iff _ _).mpr ⟨mans, ?_⟩⟩
      rw [full]
      rfl

theorem Expecting.sole {w : Word} (expecting : Expecting s)
    (puts : Q.ask s.controller = .put .toCore w) :
    Step (Worker.party .interactive) Q s (.passed .toCore w)
        (s.toCore (Worker.party .interactive) Q w) ∧
      ∀ e t, Step (Worker.party .interactive) Q s e t →
        e = .passed .toCore w ∧ t = s.toCore (Worker.party .interactive) Q w := by
  obtain ⟨c, next, a, core, effect⟩ := expecting.announced
  have gets : (Worker.party .interactive).ask s.core = .get .toCore := by
    rw [core]
    exact Worker.ask_of_input effect (fun _ => rfl)
  have meet := Ask.meet_of_eq puts gets
  refine ⟨.toCore expecting.whole meet, ?_⟩
  intro e t step
  exact sole_handed .controller (fun ch => Worker.ask_ne_getSoon _ _ ch) expecting.whole meet step

theorem unwhole_ready {κ : Type} {P : Party κ} {core : κ} {controller : σ} {s : Session κ σ}
    (h : Steps P Q (start .streaming core controller) es s) : s.links.whole .ready = false :=
  h.broken rfl

theorem step_of_awaiting {κ : Type} {P : Party κ} {core : κ} {controller : σ}
    {s : Session κ σ} (h : Steps P Q (start .streaming core controller) es s)
    (awaits : Q.ask s.controller = .get .ready) :
    Step P Q s (.controller (.hear .closed)) (s.controllerTurn Q (.hear .closed)) ∧
      ∀ e t, Step P Q s e t → (∃ turn, e = .core turn) ∨ e = .controller (.hear .closed) := by
  have broken := unwhole_ready h
  constructor
  · exact .controller (.closed (congrArg Ask.channel? awaits) broken)
  · intro e t step
    cases step with
    | core may => exact .inl ⟨_, rfl⟩
    | controller may =>
        rw [awaits] at may
        cases may with
        | closed needs broken => exact .inr rfl
        | drop leaving held => cases leaving
    | fromCore whole meet =>
        rcases meet.get_eq with gets | gets
        · cases gets.symm.trans awaits
          rw [broken] at whole
          cases whole
        · cases gets.symm.trans awaits
    | toCore whole meet => cases meet.put_eq.symm.trans awaits
    | joined asks gone => cases asks.symm.trans awaits
    | polled asks gone => cases asks.symm.trans awaits

end Session

end Shipboard
