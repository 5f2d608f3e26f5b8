import Shipboard.Session.Script
import Shipboard.Proofs.Core.Widening
import Shipboard.Proofs.Session.Reach

/-!
A machine in a session does what it would do alone with a queue of the values it was sent and room
for the values that were received from it. The session fixes the two only as it goes: each value
that is handed over widens the buffer that the run alone started on.
-/

namespace Shipboard

namespace Event

def sent? : Event → Option Word
  | .passed .toCore v => some v
  | _ => none

def received? : Event → Option Word
  | .passed .fromCore v => some v
  | _ => none

end Event

namespace Session

open Buffer Machine

def sent (es : List Event) : List Word := es.filterMap Event.sent?

def received (es : List Event) : List Word := es.filterMap Event.received?

theorem sent_snoc (es : List Event) (e : Event) : sent (es ++ [e]) = sent es ++ e.sent?.toList := by
  cases h : e.sent? <;> simp [sent, h]

theorem received_snoc (es : List Event) (e : Event) :
    received (es ++ [e]) = received es ++ e.received?.toList := by
  cases h : e.received? <;> simp [received, h]

theorem snoc_unmoved {es : List Event} {e : Event} (before : sent es = [] ∧ received es = [])
    (unmoved : e.sent? = none ∧ e.received? = none) :
    sent (es ++ [e]) = [] ∧ received (es ++ [e]) = [] := by
  obtain ⟨unsent, unreceived⟩ := before
  constructor
  · rw [sent_snoc, unsent, unmoved.1]
    rfl
  · rw [received_snoc, unreceived, unmoved.2]
    rfl

/-- A queue of what was sent, with room for what was received. -/
def supply (es : List Event) : Buffer :=
  { input := sent es, room := some (received es).length }

def spent (es : List Event) : Buffer :=
  { output := (received es).toArray, room := some 0 }

section

variable {e : Event}

theorem supply_quiet (es : List Event) (unsent : e.sent? = none) (unreceived : e.received? = none) :
    supply (es ++ [e]) = supply es := by
  simp [supply, sent, received, unsent, unreceived]

theorem spent_quiet (es : List Event) (unreceived : e.received? = none) :
    spent (es ++ [e]) = spent es := by
  simp [spent, received, unreceived]

theorem supply_sent (es : List Event) (v : Word) :
    supply (es ++ [.passed .toCore v]) = (supply es).widen #[] [v] 0 := by
  simp [supply, sent, received, widen, Event.sent?, Event.received?]

theorem supply_received (es : List Event) (v : Word) :
    supply (es ++ [.passed .fromCore v]) = (supply es).widen #[] [] 1 := by
  simp [supply, sent, received, widen, Event.sent?, Event.received?]

theorem take_spent (es : List Event) : device.take (spent es) = (none, spent es) := rfl

theorem put_spent (es : List Event) (v : Word) : device.put (spent es) v = (false, spent es) := rfl

theorem take_spent_sent (es : List Event) (v : Word) :
    device.take ((spent es).widen #[] [v] 0) = (some v, spent (es ++ [.passed .toCore v])) := by
  simp [device, spent, received, widen, take, Event.received?]

theorem put_spent_received (es : List Event) (v : Word) :
    device.put ((spent es).widen #[] [] 1) v =
      (true, spent (es ++ [.passed .fromCore v])) := by
  simp [device, spent, received, widen, put, Event.received?]

end

/-- A core that has come as far as `w` when the events of its session were `es` would have come as
far alone, and used up all that these events make up. -/
inductive Keeps (m : Machine) (es : List Event) : Worker → Prop
  | active {n : Nat} {c : Core} {pulsed : Bool} (running : m.state = .running)
      (far : m.core.advance device n (supply es) = some (c, spent es)) :
      Keeps m es (.active c pulsed)
  | stopped {k : Nat} {o : Outcome Buffer}
      (ran : ∀ fuel, k ≤ fuel → m.run device fuel (supply es) = some o)
      (used : o.device = spent es) : Keeps m es (.stopped o.ending)

variable {m : Machine} {es : List Event} {e : Event} {σ : Type} {p : Protocol} {Q : Party σ}
  {s t : Session Worker σ}

theorem keeps_start (m : Machine) : Keeps m [] (.ofMachine m) := by
  cases state : m.state with
  | running =>
      rw [Worker.ofMachine, state]
      exact .active (n := 0) state rfl
  | halted =>
      rw [Worker.ofMachine, state]
      have ran : ∀ fuel, 0 ≤ fuel → m.run device fuel (supply []) = some ⟨.ok (), m, supply []⟩ :=
        fun fuel _ => run_halted state fuel (supply [])
      exact .stopped ran rfl

theorem keeps_progress {n : Nat} {c : Core} {b : Buffer} (running : m.state = .running)
    (far : m.core.advance device n (supply es) = some (c, b))
    (used : (c.step device b).2.2 = spent es) :
    Keeps m es (.ofProgress (c.step device b).1 (c.step device b).2.1) := by
  rcases m with ⟨start, state⟩
  cases running
  by_cases goes : (c.step device b).1 = .running
  · rw [goes]
    refine .active (n := n + 1) rfl (Core.advance_succ far ?_)
    rw [← used, ← goes]
  · obtain ⟨o, stops, rest⟩ := stops_of_step (Prod.ext rfl rfl) goes
    rw [Worker.ofProgress_of_stops stops]
    have ran : ∀ fuel, n + 1 ≤ fuel →
        (⟨start, .running⟩ : Machine).run device fuel (supply es) = some o := by
      intro fuel enough
      exact run_eq_some_iff.mpr ⟨n, c, b, by omega, far, stops⟩
    exact .stopped ran (rest.trans used)

theorem keeps_heard {n : Nat} {c : Core} (pulsed : Bool) {b : Buffer} {a : Answer}
    (running : m.state = .running)
    (far : m.core.advance device n (supply es) = some (c, b))
    (answers : c.consult device b = (a, spent es)) :
    Keeps m es ((Worker.active c pulsed).hear a) := by
  obtain ⟨hears, used⟩ := Worker.hear_consult device c pulsed b
  rw [answers] at hears used
  rw [hears]
  exact keeps_progress running far used.symm

theorem keeps_quiet {w : Worker} (h : Keeps m es w) (unsent : e.sent? = none)
    (unreceived : e.received? = none) : Keeps m (es ++ [e]) w := by
  have same := supply_quiet es unsent unreceived
  have rest := spent_quiet es unreceived
  cases h with
  | active running far =>
      rw [← same, ← rest] at far
      exact .active running far
  | stopped ran used =>
      rw [← same] at ran
      rw [← rest] at used
      exact .stopped ran used

theorem keeps_step (keeps : Keeps m es s.core) (h : Step (Worker.party p) Q s e t) :
    Keeps m (es ++ [e]) t.core := by
  -- Each value that is handed over widens the run so far; the instruction then uses up what is new.
  cases attends_of_step h with
  | aside may =>
      rename_i turn
      cases turn <;> exact keeps_quiet keeps rfl rfl
  | joined asks => exact keeps_quiet keeps rfl rfl
  | polled asks => exact keeps_quiet keeps rfl rfl
  | dropped core held => exact keeps_quiet keeps rfl rfl
  | @worked c pulsed core alone =>
      rw [core] at keeps ⊢
      cases keeps with
      | active running far =>
          have heard := keeps_heard pulsed running far (Core.consult_of_alone alone _)
          exact keeps_quiet heard rfl rfl
  | @cut c pulsed ch core needs broken =>
      rw [core] at keeps ⊢
      cases keeps with
      | active running far =>
          have answers : c.consult device (spent es) = (.closed, spent es) := by
            rcases c.alone_cases with alone | ⟨next, a, effect⟩ | ⟨next, v, effect⟩
            · rw [alone] at needs
              cases needs
            · exact Core.consult_of_no_take effect (take_spent es)
            · exact Core.consult_of_no_put effect (put_spent es v)
          have heard := keeps_heard pulsed running far answers
          exact keeps_quiet heard rfl rfl
  | pulse core effect meet =>
      rw [core] at keeps
      cases keeps with
      | active running far => exact keeps_quiet (.active running far) rfl rfl
  | @given c pulsed next v core effect meet =>
      rw [core] at keeps ⊢
      cases keeps with
      | active running far =>
          have wide := Core.advance_widen #[] [] 1 far
          rw [← supply_received es v] at wide
          have answers := Core.consult_of_put effect (put_spent_received es v)
          exact keeps_heard pulsed running wide answers
  | @taken c pulsed next a v core effect announced gives =>
      rw [core] at keeps ⊢
      cases keeps with
      | active running far =>
          have wide := Core.advance_widen #[] [v] 0 far
          rw [← supply_sent es v] at wide
          have answers := Core.consult_of_take effect (take_spent_sent es v)
          exact keeps_heard pulsed running wide answers

theorem keeps_steps {fs : List Event} (keeps : Keeps m es s.core)
    (h : Steps (Worker.party p) Q s fs t) : Keeps m (es ++ fs) t.core := by
  refine h.keeps (I := fun es s => Keeps m es s.core) ?_ es keeps
  intro es s e t keeps step
  exact keeps_step keeps step

end Session

open Session in
/-- However a machine and its controller interleave, the machine ends as it does alone on the values
that it was sent, with room for those that were received, and these are all its outputs. Nothing is
said of the controller: a script is one, and may hang up or give up a wait at any point. -/
theorem attended_eq_buffered {σ : Type} (p : Protocol) (Q : Party σ) (m : Machine) (controller : σ)
    (es : List Event) (s : Session Worker σ)
    (steps : Steps (Worker.party p) Q (start p (Worker.ofMachine m) controller) es s)
    (completed : s.complete (Worker.party p) Q = true) :
    ∃ k o, (∀ fuel, k ≤ fuel → m.run Buffer.device fuel
        { input := sent es, room := some (received es).length } = some o) ∧
      o.device.output.toList = received es ∧ o.device.input = [] ∧
      s.core.ending? = some o.ending := by
  have keeps : Keeps m ([] ++ es) s.core := keeps_steps (keeps_start m) steps
  rw [List.nil_append] at keeps
  have stops : (Worker.party p).ask s.core = .stop := by
    simp only [complete, coreGone, Bool.and_eq_true, decide_eq_true_eq] at completed
    exact completed.1.1
  obtain ⟨ending, core⟩ := Worker.stopped_of_ask stops
  rw [core] at keeps ⊢
  cases keeps with
  | @stopped k o ran used =>
      refine ⟨k, o, ran, ?_, ?_, rfl⟩
      · rw [used]
        rfl
      · rw [used]
        rfl

def echoing : Machine := .ofProgram [3, 11, 4, 11, 3, 11, 4, 11, 99]

/-- The controller exchanges one value and hangs up when the core has announced its next input. -/
def hangingUp : ControllerScript := { todo := [.awaitPulse, .send 7, .receive, .awaitPulse] }

open Session in
theorem attended_eq_buffered_hangingUp :
    ∃ es s, Steps (Worker.party .interactive) (ControllerScript.party .interactive)
        (start .interactive (Worker.ofMachine echoing) hangingUp) es s ∧
      s.complete (Worker.party .interactive) (ControllerScript.party .interactive) = true ∧
      sent es = [7] ∧ received es = [7] ∧
      ∃ k o, (∀ fuel, k ≤ fuel → echoing.run Buffer.device fuel
          { input := [7], room := some 1 } = some o) ∧
        o.device.output.toList = [7] ∧
        o.ending = .error (.fault (.inputClosed 4)) := by
  let es : List Event := [.passed .ready 0, .passed .toCore 7, .passed .fromCore 7,
    .passed .ready 0, .controller (.drop .ready), .controller (.drop .toCore),
    .core (.hear .closed), .core (.drop .toCore), .core (.drop .fromCore), .core (.drop .ready),
    .controller (.drop .fromCore)]
  have steps : Steps (Worker.party .interactive) (ControllerScript.party .interactive)
      (start .interactive (Worker.ofMachine echoing) hangingUp) es _ :=
    .cons (.fromCore rfl .get) <| .cons (.toCore rfl .get) <| .cons (.fromCore rfl .get) <|
    .cons (.fromCore rfl .get) <| .cons (.controller (.drop rfl rfl)) <|
    .cons (.controller (.drop rfl rfl)) <| .cons (.core (.closed rfl rfl)) <|
    .cons (.core (.drop rfl rfl)) <| .cons (.core (.drop rfl rfl)) <|
    .cons (.core (.drop rfl rfl)) <| .cons (.controller (.drop rfl rfl)) <| .refl _
  refine ⟨es, _, steps, rfl, rfl, rfl, ?_⟩
  obtain ⟨k, o, ran, output, -, ending⟩ :=
    attended_eq_buffered .interactive _ echoing hangingUp es _ steps rfl
  exact ⟨k, o, ran, output, (Option.some.inj ending).symm⟩

end Shipboard
