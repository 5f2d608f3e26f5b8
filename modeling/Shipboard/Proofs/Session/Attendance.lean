import Shipboard.Session.Worker
import Shipboard.Proofs.Machine.Stopping
import Shipboard.Proofs.Session.Progress

/-!
A session whose core is a machine. The core hears what some device would have answered it, so each
step of the session that matters to the core is an instruction, or the pulse before one.
-/

namespace Shipboard

namespace Core

variable {τ : Type} {D : Device τ} {c : Core} {io io' : τ}

def isAlone (c : Core) : Bool :=
  match c.effect with
  | .ok (.input _ _) => false
  | .ok (.output _ _) => false
  | _ => true

theorem isAlone_of_silent {e : Effect} (h : c.effect = .ok e) (silent : e.isSilent = true) :
    c.isAlone = true := by
  delta isAlone
  rw [h]
  cases e <;> cases silent <;> rfl

theorem isAlone_of_input {next a : Address} (h : c.effect = .ok (.input next a)) :
    c.isAlone = false := by
  delta isAlone
  rw [h]

theorem isAlone_of_output {next : Address} {v : Word} (h : c.effect = .ok (.output next v)) :
    c.isAlone = false := by
  delta isAlone
  rw [h]

theorem alone_cases (c : Core) : c.isAlone = true ∨
    (∃ next a, c.effect = .ok (.input next a)) ∨ ∃ next v, c.effect = .ok (.output next v) := by
  delta isAlone
  split
  · rename_i next a effect
    exact .inr (.inl ⟨next, a, effect⟩)
  · rename_i next v effect
    exact .inr (.inr ⟨next, v, effect⟩)
  · exact .inl rfl

/-- What a device says to the instruction at hand, and the device after that. -/
def consult (D : Device τ) (c : Core) (io : τ) : Answer × τ :=
  match c.effect with
  | .ok (.input _ _) =>
      match D.take io with
      | (some v, io) => (.value v, io)
      | (none, io) => (.closed, io)
  | .ok (.output _ v) =>
      match D.put io v with
      | (true, io) => (.done, io)
      | (false, io) => (.closed, io)
  | _ => (.done, io)

theorem consult_of_alone (h : c.isAlone = true) (io : τ) : c.consult D io = (.done, io) := by
  delta isAlone at h
  delta consult
  split at h
  · cases h
  · cases h
  · rfl

theorem consult_of_take {next a : Address} (h : c.effect = .ok (.input next a)) {v : Word}
    (taken : D.take io = (some v, io')) : c.consult D io = (.value v, io') := by
  delta consult
  rw [h]
  simp only [taken]

theorem consult_of_no_take {next a : Address} (h : c.effect = .ok (.input next a))
    (dry : D.take io = (none, io')) : c.consult D io = (.closed, io') := by
  delta consult
  rw [h]
  simp only [dry]

theorem consult_of_put {next : Address} {v : Word} (h : c.effect = .ok (.output next v))
    (accepted : D.put io v = (true, io')) : c.consult D io = (.done, io') := by
  delta consult
  rw [h]
  simp only [accepted]

theorem consult_of_no_put {next : Address} {v : Word} (h : c.effect = .ok (.output next v))
    (refused : D.put io v = (false, io')) : c.consult D io = (.closed, io') := by
  delta consult
  rw [h]
  simp only [refused]

theorem consult_input {next a : Address} (h : c.effect = .ok (.input next a)) (io : τ) :
    (c.consult D io).2 = (D.take io).2 := by
  rcases given : D.take io with ⟨v, io'⟩
  cases v with
  | none => rw [consult_of_no_take h given]
  | some v => rw [consult_of_take h given]

theorem consult_output {next : Address} {v : Word} (h : c.effect = .ok (.output next v)) (io : τ) :
    (c.consult D io).2 = (D.put io v).2 := by
  rcases given : D.put io v with ⟨accepted, io'⟩
  cases accepted with
  | true => rw [consult_of_put h given]
  | false => rw [consult_of_no_put h given]

end Core

def Machine.Outcome.ending {τ : Type} (o : Machine.Outcome τ) : Ending :=
  match o.result with
  | .ok _ => .ok o.machine
  | .error f => .error (.ofFailure f)

namespace Worker

variable {τ : Type}

def ofProgress (p : Progress) (c : Core) : Worker :=
  match p with
  | .running => .active c false
  | .halted => .stopped (.ok ⟨c, .halted⟩)
  | .failed f => fail f

theorem ofProgress_of_stops {D : Device τ} {c : Core} {io : τ} {o : Machine.Outcome τ}
    (h : Machine.Stops D c io o) :
    ofProgress (c.step D io).1 (c.step D io).2.1 = .stopped o.ending := by
  cases h with
  | halted step =>
      rw [step]
      rfl
  | failed step =>
      rw [step]
      rfl

theorem hear_of_silent {c : Core} {e : Effect} (effect : c.effect = .ok e)
    (silent : e.isSilent = true) (pulsed : Bool) :
    (active c pulsed).hear .done = active (c.after e) false := by
  cases e <;> cases silent <;> simp [hear.eq_def, effect]

theorem hear_consult (D : Device τ) (c : Core) (pulsed : Bool) (io : τ) :
    (active c pulsed).hear (c.consult D io).1 =
        ofProgress (c.step D io).1 (c.step D io).2.1 ∧
      (c.consult D io).2 = (c.step D io).2.2 := by
  rcases Core.step_cases D c io with ⟨c', io', step, goes⟩ | ⟨effect, step⟩ |
    ⟨f, io', step, fails⟩
  · rw [step]
    cases goes with
    | silent effect silent =>
        rw [Core.consult_of_alone (Core.isAlone_of_silent effect silent)]
        exact ⟨hear_of_silent effect silent pulsed, rfl⟩
    | input effect given fits =>
        rw [Core.consult_of_take effect given]
        simp [hear.eq_def, effect, fits, ofProgress]
    | output effect given =>
        rw [Core.consult_of_put effect given]
        simp [hear.eq_def, effect, ofProgress]
  · rw [step, Core.consult_of_alone (by simp [Core.isAlone.eq_def, effect])]
    simp [hear.eq_def, effect, ofProgress]
  · rw [step]
    cases fails with
    | itself effect =>
        rw [Core.consult_of_alone (by simp [Core.isAlone.eq_def, effect])]
        simp [hear.eq_def, effect, ofProgress]
    | dry effect given =>
        rw [Core.consult_of_no_take effect given]
        simp [hear.eq_def, effect, ofProgress]
    | unstored effect given refused =>
        rw [Core.consult_of_take effect given]
        simp [hear.eq_def, effect, refused, ofProgress]
    | refused effect given =>
        rw [Core.consult_of_no_put effect given]
        simp [hear.eq_def, effect, ofProgress]

section

variable {c : Core} {next a : Address} {v : Word}

theorem hear_closed_of_input (effect : c.effect = .ok (.input next a)) (pulsed : Bool) :
    (active c pulsed).hear .closed = fail (.fault (.inputClosed c.ip)) := by
  simp [hear.eq_def, effect]

theorem hear_closed_of_output (effect : c.effect = .ok (.output next v)) (pulsed : Bool) :
    (active c pulsed).hear .closed = fail (.fault (.outputClosed c.ip)) := by
  simp [hear.eq_def, effect]

theorem hear_closed_of_needs (needs : c.isAlone = false) (pulsed : Bool) :
    ∃ f, (f = .inputClosed c.ip ∨ f = .outputClosed c.ip) ∧
      (active c pulsed).hear .closed = .stopped (.error (.fault f)) := by
  rcases c.alone_cases with alone | ⟨next, a, effect⟩ | ⟨next, v, effect⟩
  · rw [alone] at needs
    cases needs
  · exact ⟨_, .inl rfl, hear_closed_of_input effect pulsed⟩
  · exact ⟨_, .inr rfl, hear_closed_of_output effect pulsed⟩

end

theorem ask_of_alone (p : Protocol) {c : Core} (h : c.isAlone = true) (pulsed : Bool) :
    ask p (active c pulsed) = .work := by
  rw [Core.isAlone.eq_def] at h
  rw [ask.eq_def]
  split at h
  · cases h
  · cases h
  · rename_i other
    split <;> simp_all

theorem ask_of_output (p : Protocol) {c : Core} {next : Address} {v : Word}
    (h : c.effect = .ok (.output next v)) (pulsed : Bool) :
    ask p (active c pulsed) = .put .fromCore v := by
  simp [ask.eq_def, h]

theorem ask_of_input {p : Protocol} {c : Core} {next a : Address} {pulsed : Bool}
    (h : c.effect = .ok (.input next a)) (announced : p = .interactive → pulsed = true) :
    ask p (active c pulsed) = .get .toCore := by
  cases p with
  | streaming => simp [ask.eq_def, h]
  | interactive => simp [ask.eq_def, h, announced rfl]

theorem ask_of_unannounced {c : Core} {next a : Address} (h : c.effect = .ok (.input next a)) :
    ask .interactive (active c false) = .put .ready 0 := by
  simp [ask.eq_def, h]

theorem ask_cases (p : Protocol) (c : Core) (pulsed : Bool) :
    (c.isAlone = true ∧ ask p (active c pulsed) = .work) ∨
    (∃ next a, c.effect = .ok (.input next a) ∧ p = .interactive ∧ pulsed = false ∧
      ask p (active c pulsed) = .put .ready 0) ∨
    (∃ next a, c.effect = .ok (.input next a) ∧ (p = .interactive → pulsed = true) ∧
      ask p (active c pulsed) = .get .toCore) ∨
    ∃ next v, c.effect = .ok (.output next v) ∧ ask p (active c pulsed) = .put .fromCore v := by
  rcases Core.alone_cases c with alone | ⟨next, a, effect⟩ | ⟨next, v, effect⟩
  · exact .inl ⟨alone, ask_of_alone p alone pulsed⟩
  · by_cases announced : p = .interactive → pulsed = true
    · exact .inr (.inr (.inl ⟨next, a, effect, announced, ask_of_input effect announced⟩))
    · obtain ⟨rfl, unpulsed⟩ : p = .interactive ∧ pulsed = false := by simpa using announced
      subst unpulsed
      exact .inr (.inl ⟨next, a, effect, rfl, rfl, ask_of_unannounced effect⟩)
  · exact .inr (.inr (.inr ⟨next, v, effect, ask_of_output p effect pulsed⟩))

theorem channel?_ask (p : Protocol) {c : Core} (needs : c.isAlone = false) (pulsed : Bool) :
    ∃ ch, (ask p (active c pulsed)).channel? = some ch := by
  rcases ask_cases p c pulsed with ⟨alone, -⟩ | ⟨_, _, -, -, -, asks⟩ | ⟨_, _, -, -, asks⟩ |
    ⟨_, _, -, asks⟩
  · rw [alone] at needs
    cases needs
  all_goals
    rw [asks]
    exact ⟨_, rfl⟩

theorem stopped_of_ask {p : Protocol} {w : Worker} (h : w.ask p = .stop) :
    ∃ ending, w = .stopped ending := by
  cases w with
  | stopped ending => exact ⟨ending, rfl⟩
  | active c pulsed =>
      rcases ask_cases p c pulsed with ⟨-, asks⟩ | ⟨_, _, -, -, -, asks⟩ | ⟨_, _, -, -, asks⟩ |
        ⟨_, _, -, asks⟩
      all_goals
        rw [asks] at h
        cases h

theorem ask_ne_getSoon (p : Protocol) (w : Worker) (ch : Channel) : w.ask p ≠ .getSoon ch := by
  rw [ask.eq_def]
  repeat' split
  all_goals simp

end Worker

namespace Session

variable {σ : Type} {p : Protocol} {Q : Party σ} {s t : Session Worker σ} {e : Event}

/-- Everything that a session with a machine can do next. -/
inductive Attends (p : Protocol) (Q : Party σ) (s : Session Worker σ) :
    Event → Session Worker σ → Prop
  | aside {t : Turn} (may : (Q.ask s.controller).May s.links.whole s.links.controller t) :
      Attends p Q s (.controller t) (s.controllerTurn Q t)
  | joined (asks : Q.ask s.controller = .join) :
      Attends p Q s .joined (s.controllerTurn Q (.hear .done))
  | polled {b : Bool} (asks : Q.ask s.controller = .poll) :
      Attends p Q s (.polled b) (s.controllerTurn Q (.hear (.stopped b)))
  | worked {c : Core} {pulsed : Bool} (core : s.core = .active c pulsed)
      (alone : c.isAlone = true) :
      Attends p Q s (.core (.hear .done)) { s with core := s.core.hear .done }
  /-- The controller has let go of the channel that the core needs. -/
  | cut {c : Core} {pulsed : Bool} {ch : Channel} (core : s.core = .active c pulsed)
      (needs : c.isAlone = false) (broken : s.links.whole ch = false) :
      Attends p Q s (.core (.hear .closed)) { s with core := s.core.hear .closed }
  | pulse {c : Core} {next a : Address} (core : s.core = .active c false)
      (effect : c.effect = .ok (.input next a))
      (meet : Ask.Meet .ready 0 (.put .ready 0) (Q.ask s.controller)) :
      Attends p Q s (.passed .ready 0)
        { s with core := .active c true, controller := Q.hear s.controller (.value 0) }
  | given {c : Core} {pulsed : Bool} {next : Address} {v : Word}
      (core : s.core = .active c pulsed) (effect : c.effect = .ok (.output next v))
      (meet : Ask.Meet .fromCore v (.put .fromCore v) (Q.ask s.controller)) :
      Attends p Q s (.passed .fromCore v)
        { s with core := s.core.hear .done, controller := Q.hear s.controller (.value v) }
  | taken {c : Core} {pulsed : Bool} {next a : Address} {v : Word}
      (core : s.core = .active c pulsed) (effect : c.effect = .ok (.input next a))
      (announced : p = .interactive → pulsed = true)
      (gives : Q.ask s.controller = .put .toCore v) :
      Attends p Q s (.passed .toCore v)
        { s with core := s.core.hear (.value v), controller := Q.hear s.controller .done }
  | dropped {ending : Ending} {ch : Channel} (core : s.core = .stopped ending)
      (held : s.links.core.holds ch = true) :
      Attends p Q s (.core (.drop ch)) (s.coreTurn (Worker.party p) (.drop ch))

/-- What a machine at work can do by itself. -/
theorem attends_of_may {c : Core} {pulsed : Bool} {turn : Turn} (core : s.core = .active c pulsed)
    (may : (Worker.ask p (.active c pulsed)).May s.links.whole s.links.core turn) :
    Attends p Q s (.core turn) (s.coreTurn (Worker.party p) turn) := by
  rcases Worker.ask_cases p c pulsed with ⟨alone, asks⟩ | ⟨next, a, effect, -, -, asks⟩ |
    ⟨next, a, effect, -, asks⟩ | ⟨next, v, effect, asks⟩
  · rw [asks] at may
    cases may with
    | work => exact .worked core alone
    | closed needs broken => cases needs
    | drop leaving held => cases leaving
  · rw [asks] at may
    cases may with
    | closed needs broken => exact .cut core (Core.isAlone_of_input effect) broken
    | drop leaving held => cases leaving
  · rw [asks] at may
    cases may with
    | closed needs broken => exact .cut core (Core.isAlone_of_input effect) broken
    | drop leaving held => cases leaving
  · rw [asks] at may
    cases may with
    | closed needs broken => exact .cut core (Core.isAlone_of_output effect) broken
    | drop leaving held => cases leaving

theorem attends_of_fromCore {ch : Channel} {v : Word}
    (meet : Ask.Meet ch v (Worker.ask p s.core) (Q.ask s.controller)) :
    Attends p Q s (.passed ch v) (s.fromCore (Worker.party p) Q v) := by
  have puts := meet.put_eq
  rw [puts] at meet
  cases core : s.core with
  | stopped ending =>
      rw [core] at puts
      cases puts
  | active c pulsed =>
      rw [core] at puts
      rcases Worker.ask_cases p c pulsed with ⟨alone, asks⟩ | ⟨next, a, effect, -, rfl, asks⟩ |
        ⟨next, a, effect, -, asks⟩ | ⟨next, w, effect, asks⟩
      · rw [asks] at puts
        cases puts
      · rw [asks] at puts
        cases puts
        have hears : (Worker.party p).hear s.core .done = .active c true := by
          simp [core, Worker.party, Worker.hear.eq_def, effect]
        rw [fromCore, hears]
        exact .pulse core effect meet
      · rw [asks] at puts
        cases puts
      · rw [asks] at puts
        cases puts
        exact .given core effect meet

theorem attends_of_toCore {ch : Channel} {v : Word}
    (meet : Ask.Meet ch v (Q.ask s.controller) (Worker.ask p s.core)) :
    Attends p Q s (.passed ch v) (s.toCore (Worker.party p) Q v) := by
  have gives := meet.put_eq
  have gets := meet.get_eq
  cases core : s.core with
  | stopped ending =>
      rw [core] at gets
      rcases gets with got | got <;> cases got
  | active c pulsed =>
      rw [core] at gets
      rcases Worker.ask_cases p c pulsed with ⟨alone, asks⟩ | ⟨next, a, effect, -, -, asks⟩ |
        ⟨next, a, effect, announced, asks⟩ | ⟨next, w, effect, asks⟩
      · rw [asks] at gets
        rcases gets with got | got <;> cases got
      · rw [asks] at gets
        rcases gets with got | got <;> cases got
      · rw [asks] at gets
        rcases gets with got | got <;> cases got
        exact .taken core effect announced gives
      · rw [asks] at gets
        rcases gets with got | got <;> cases got

theorem attends_of_step (h : Step (Worker.party p) Q s e t) : Attends p Q s e t := by
  cases h with
  | controller may => exact .aside may
  | joined asks gone => exact .joined asks
  | polled asks gone => exact .polled asks
  | fromCore whole meet => exact attends_of_fromCore meet
  | toCore whole meet => exact attends_of_toCore meet
  | core may =>
      cases core : s.core with
      | active c pulsed => exact attends_of_may core (core ▸ may)
      | stopped ending =>
          rw [core] at may
          cases may with
          | closed needs broken => cases needs
          | drop leaving held => exact .dropped core held

end Session

end Shipboard
