import Shipboard.Painter.Job
import Shipboard.Core.Run
import Shipboard.Proofs.Painter.Strokes

/-!
An easel is the robot as a device: it gives the colour under the robot and takes outputs in pairs,
a colour and a turn. A pair that the robot refuses closes it. A painter who attends a core is at
every moment where the easel says.
-/

namespace Shipboard

inductive Exchange
  | reported (colour : Word)
  | wrote (v : Word)
  deriving DecidableEq, Repr

def Exchange.isReport : Exchange → Bool
  | .reported _ => true
  | .wrote _ => false

structure Easel where
  robot : Robot
  /-- The colour of the pair at hand. -/
  held : Option Word := none
  refusal : Option ControllerError := none
  events : List Exchange := []

theorem Robot.error_of_apply {r : Robot} {paint turn : Word} {e : ControllerError}
    (h : r.apply paint turn = .error e) :
    e = if paint = 0 ∨ paint = 1 then .unexpected .turn turn else .unexpected .colour paint := by
  change e = if Stroke.Meant paint then _ else _
  have refused := (Robot.apply_eq r ⟨paint, turn⟩).symm.trans h
  by_cases colour : Stroke.Meant paint
  · rw [if_pos colour]
    by_cases meant : Stroke.Meant turn
    · rw [Stroke.verdict_of_accepted ⟨colour, meant⟩] at refused
      cases refused
    · rw [Stroke.verdict_of_turn colour meant] at refused
      cases refused
      rfl
  · rw [Stroke.verdict_of_colour colour] at refused
    rw [if_neg colour]
    cases refused
    rfl

namespace Easel

def start (c : Color) : Easel := { robot := Robot.startingOn c }

def take (e : Easel) : Option Word × Easel :=
  match e.refusal with
  | some _ => (none, e)
  | none =>
      let colour := e.robot.color.toWord
      (some colour, { e with events := e.events ++ [.reported colour] })

/-- The second output of a pair is accepted even when the robot refuses the pair. -/
def put (e : Easel) (v : Word) : Bool × Easel :=
  match e.refusal, e.held with
  | some _, _ => (false, e)
  | none, none => (true, { e with held := some v, events := e.events ++ [.wrote v] })
  | none, some paint =>
      match e.robot.apply paint v with
      | .ok robot => (true, { e with robot, held := none, events := e.events ++ [.wrote v] })
      | .error r =>
          (true, { e with held := none, refusal := some r, events := e.events ++ [.wrote v] })

def device : Device Easel := ⟨take, put⟩

/-- The events go input, output, output, over and over, as far as they go. -/
def InRounds (e : Easel) : Prop :=
  ∀ i (h : i < e.events.length), e.events[i].isReport = true ↔ i % 3 = 0

instance (e : Easel) : Decidable e.InRounds :=
  inferInstanceAs (Decidable (∀ i (_ : i < e.events.length), _))

def moves (e : Easel) : Nat := e.events.length / 3 - e.refusal.toList.length

/-- What comes of painting on this easel if the core ends here. -/
def verdict (e : Easel) (ending : Ending) : Except ControllerError Robot :=
  match e.refusal, e.events.length % 3, ending with
  | some r, _, _ => .error r
  | none, 0, .ok _ => .ok e.robot
  | none, 0, .error b => .error (.core b)
  | none, 1, _ => .error (.closed .paintColour)
  | none, _, _ => .error (.closed .turn)

def driven (e : Easel) : Except ControllerError Nat :=
  match e.refusal, e.events.length % 3 with
  | some r, _ => .error r
  | none, 0 => .ok (e.events.length / 3)
  | none, 1 => .error (.closed .paintColour)
  | none, _ => .error (.closed .turn)

theorem settle_driven (e : Easel) (ending : Ending) :
    ControllerError.settle (e.driven.map fun _ => e.robot) ending = e.verdict ending := by
  rw [driven.eq_def, verdict.eq_def]
  cases e.refusal with
  | some r => rfl
  | none =>
      rcases e.events.length % 3 with _ | _ | n
      · cases ending <;> rfl
      · rfl
      · rfl

variable {e : Easel} {v : Word}

theorem verdict_of_refusal {r : ControllerError} (h : e.refusal = some r) (ending : Ending) :
    e.verdict ending = .error r := by
  rw [verdict.eq_def, h]

theorem take_of_open (h : e.refusal = none) : e.take = (some e.robot.color.toWord,
    { e with events := e.events ++ [.reported e.robot.color.toWord] }) := by
  rw [take.eq_def, h]

theorem take_of_refusal {r : ControllerError} (h : e.refusal = some r) : e.take = (none, e) := by
  rw [take.eq_def, h]

theorem put_first (h : e.refusal = none) (empty : e.held = none) (v : Word) :
    e.put v = (true, { e with held := some v, events := e.events ++ [.wrote v] }) := by
  rw [put.eq_def, h, empty]

theorem put_of_refusal {r : ControllerError} (h : e.refusal = some r) (v : Word) :
    e.put v = (false, e) := by
  rw [put.eq_def, h]

theorem put_of_apply {paint : Word} (h : e.refusal = none) (held : e.held = some paint)
    {robot : Robot} (applied : e.robot.apply paint v = .ok robot) :
    e.put v = (true, { e with robot, held := none, events := e.events ++ [.wrote v] }) := by
  rw [put.eq_def, h, held]
  simp only [applied]

theorem put_of_refuse {paint : Word} (h : e.refusal = none) (held : e.held = some paint)
    {r : ControllerError} (refused : e.robot.apply paint v = .error r) :
    e.put v = (true,
      { e with held := none, refusal := some r, events := e.events ++ [.wrote v] }) := by
  rw [put.eq_def, h, held]
  simp only [refused]

theorem put_of_open (h : e.refusal = none) (v : Word) :
    (e.put v).1 = true ∧ (e.put v).2.events = e.events ++ [.wrote v] := by
  cases held : e.held with
  | none =>
      rw [put_first h held]
      exact ⟨rfl, rfl⟩
  | some paint =>
      cases applied : e.robot.apply paint v with
      | ok robot =>
          rw [put_of_apply h held applied]
          exact ⟨rfl, rfl⟩
      | error r =>
          rw [put_of_refuse h held applied]
          exact ⟨rfl, rfl⟩

theorem inRounds_last {es : List Exchange} {x : Exchange} {e : Easel} (h : e.InRounds)
    (events : e.events = es ++ [x]) : x.isReport = true ↔ es.length % 3 = 0 := by
  have bound : es.length < e.events.length := by simp [events]
  have last := h es.length bound
  simp only [events, List.getElem_concat_length] at last
  exact last

/-- What holds of an easel that has only been used in rounds. -/
structure Sound (e : Easel) : Prop where
  held_iff : e.refusal = none → (e.held.isSome = true ↔ e.events.length % 3 = 2)
  held_last : ∀ paint, e.held = some paint → ∃ before, e.events = before ++ [.wrote paint]
  refused : ∀ r, e.refusal = some r → e.held = none ∧ e.events.length % 3 = 0 ∧
    ∃ before paint turn, e.events = before ++ [.wrote paint, .wrote turn] ∧
      e.robot.apply paint turn = .error r

theorem sound_start (c : Color) : (start c).Sound where
  held_iff := by simp [start]
  held_last := by simp [start]
  refused := by simp [start]

theorem length_of_take (h : e.refusal = none) (rounds : e.take.2.InRounds) :
    e.events.length % 3 = 0 := by
  rw [take_of_open h] at rounds
  exact (inRounds_last rounds rfl).mp rfl

theorem length_of_put (h : e.refusal = none) (rounds : (e.put v).2.InRounds) :
    e.events.length % 3 ≠ 0 := by
  intro starting
  have report := (inRounds_last rounds (put_of_open h v).2).mpr starting
  cases report

theorem Sound.held_of_length (sound : e.Sound) (h : e.refusal = none)
    (rest : e.events.length % 3 ≠ 2) : e.held = none := by
  cases held : e.held with
  | none => rfl
  | some paint =>
      have two := (sound.held_iff h).mp (by simp [held])
      exact absurd two rest

theorem Sound.one_of_empty (sound : e.Sound) (h : e.refusal = none) (empty : e.held = none)
    (nonzero : e.events.length % 3 ≠ 0) : e.events.length % 3 = 1 := by
  have not_two : e.events.length % 3 ≠ 2 := by
    intro two
    have some_held := (sound.held_iff h).mpr two
    rw [empty] at some_held
    cases some_held
  omega

theorem Sound.take (sound : e.Sound) (rounds : e.take.2.InRounds) : e.take.2.Sound := by
  cases h : e.refusal with
  | some r =>
      rw [take_of_refusal h]
      exact sound
  | none =>
      have zero := length_of_take h rounds
      have empty := sound.held_of_length h (by omega)
      rw [take_of_open h]
      refine ⟨?_, ?_, ?_⟩
      · intro _
        simp only [empty, List.length_append, List.length_singleton]
        constructor
        · intro some_held
          cases some_held
        · omega
      · intro paint held
        rw [empty] at held
        cases held
      · intro r refused
        rw [h] at refused
        cases refused

theorem Sound.put (sound : e.Sound) (rounds : (e.put v).2.InRounds) : (e.put v).2.Sound := by
  cases h : e.refusal with
  | some r =>
      rw [put_of_refusal h]
      exact sound
  | none =>
      have nonzero := length_of_put h rounds
      -- The first word of a pair is held; with the second the robot moves, or the easel closes.
      cases held : e.held with
      | none =>
          have one := sound.one_of_empty h held nonzero
          rw [put_first h held]
          refine ⟨?_, ?_, ?_⟩
          · intro _
            simp only [Option.isSome_some, List.length_append, List.length_singleton, true_iff]
            omega
          · intro paint same
            cases same
            exact ⟨e.events, rfl⟩
          · intro r refused
            rw [h] at refused
            cases refused
      | some paint =>
          have two := (sound.held_iff h).mp (by simp [held])
          cases applied : e.robot.apply paint v with
          | ok robot =>
              rw [put_of_apply h held applied]
              refine ⟨?_, ?_, ?_⟩
              · intro _
                simp only [Option.isSome_none, List.length_append, List.length_singleton]
                constructor
                · intro some_held
                  cases some_held
                · omega
              · intro paint none_held
                cases none_held
              · intro r refused
                rw [h] at refused
                cases refused
          | error r =>
              obtain ⟨before, events⟩ := sound.held_last paint held
              rw [put_of_refuse h held applied]
              refine ⟨?_, ?_, ?_⟩
              · intro still_open
                cases still_open
              · intro paint none_held
                cases none_held
              · intro r' same
                cases same
                refine ⟨rfl, ?_, before, paint, v, ?_, applied⟩
                · simp only [List.length_append, List.length_singleton]
                  omega
                · simp only [events, List.append_assoc, List.singleton_append]

/-- What a painter does when a core has brought the easel so far, and perhaps announced an input. -/
def phase (e : Easel) (announced : Bool) : Painter.Phase :=
  match e.refusal, e.held with
  | some r, _ => .finished (.error r)
  | none, some paint => .receivingTurn paint
  | none, none =>
      if e.events.length % 3 = 1 then .receivingColour
      else if announced then .reporting
      else .waiting

def painter (e : Easel) (announced : Bool) : Painter := ⟨e.robot, e.moves, e.phase announced⟩

theorem phase_of_refusal {r : ControllerError} (h : e.refusal = some r) (announced : Bool) :
    e.phase announced = .finished (.error r) := by
  rw [phase.eq_def, h]

theorem phase_of_held {paint : Word} (h : e.refusal = none) (held : e.held = some paint)
    (announced : Bool) : e.phase announced = .receivingTurn paint := by
  rw [phase.eq_def, h, held]

theorem phase_of_one (h : e.refusal = none) (empty : e.held = none)
    (one : e.events.length % 3 = 1) (announced : Bool) :
    e.phase announced = .receivingColour := by
  rw [phase.eq_def, h, empty]
  exact if_pos one

theorem phase_of_zero (sound : e.Sound) (h : e.refusal = none) (zero : e.events.length % 3 = 0)
    (announced : Bool) : e.phase announced = if announced then .reporting else .waiting := by
  have empty := sound.held_of_length h (by omega)
  rw [phase.eq_def, h, empty]
  exact if_neg (by omega)

theorem ask_of_refusal {r : ControllerError} (h : e.refusal = some r) (announced : Bool) :
    (e.painter announced).ask = .stop := by
  simp only [painter, Painter.ask, phase_of_refusal h]

theorem ask_of_zero (sound : e.Sound) (h : e.refusal = none) (zero : e.events.length % 3 = 0) :
    (e.painter false).ask = .get .ready ∧
      (e.painter true).ask = .put .toCore e.robot.color.toWord := by
  constructor
  · simp [painter, Painter.ask, phase_of_zero sound h zero]
  · simp [painter, Painter.ask, phase_of_zero sound h zero]

theorem ask_of_nonzero (sound : e.Sound) (h : e.refusal = none)
    (nonzero : e.events.length % 3 ≠ 0) (announced : Bool) :
    (e.painter announced).ask = .get .fromCore := by
  cases held : e.held with
  | some paint => simp only [painter, Painter.ask, phase_of_held h held]
  | none =>
      have one := sound.one_of_empty h held nonzero
      simp only [painter, Painter.ask, phase_of_one h held one]

theorem hear_pulse (sound : e.Sound) (h : e.refusal = none) (zero : e.events.length % 3 = 0)
    (v : Word) : (e.painter false).hear (.value v) = e.painter true := by
  simp [painter, Painter.hear, phase_of_zero sound h zero]

theorem hear_report (sound : e.Sound) (h : e.refusal = none) (zero : e.events.length % 3 = 0) :
    (e.painter true).hear .done = e.take.2.painter false := by
  have empty := sound.held_of_length h (by omega)
  have same : (e.events.length + 1) / 3 = e.events.length / 3 := by omega
  have one : (e.events.length + 1) % 3 = 1 := by omega
  rw [take_of_open h]
  simp [painter, Painter.hear, phase_of_zero sound h zero, phase.eq_def, moves, h, empty, one, same]

theorem hear_output (sound : e.Sound) (h : e.refusal = none) (rounds : (e.put v).2.InRounds)
    (announced : Bool) :
    (e.painter announced).hear (.value v) = (e.put v).2.painter false := by
  have nonzero := length_of_put h rounds
  cases held : e.held with
  | none =>
      have one := sound.one_of_empty h held nonzero
      have same : (e.events.length + 1) / 3 = e.events.length / 3 := by omega
      rw [put_first h held]
      simp [painter, Painter.hear, phase_of_one h held one, phase.eq_def, moves, h, same]
  | some paint =>
      have two := (sound.held_iff h).mp (by simp [held])
      have next : (e.events.length + 1) / 3 = e.events.length / 3 + 1 := by omega
      have zero : (e.events.length + 1) % 3 ≠ 1 := by omega
      cases applied : e.robot.apply paint v with
      | ok robot =>
          rw [put_of_apply h held applied]
          simp [painter, Painter.hear, phase_of_held h held, Painter.move, applied, phase.eq_def,
            moves, h, zero, next]
      | error r =>
          rw [put_of_refuse h held applied]
          simp [painter, Painter.hear, phase_of_held h held, Painter.move, applied, phase.eq_def,
            moves, h, next]

theorem hear_closed (sound : e.Sound) :
    ((e.painter false).hear .closed).ask = .stop ∧
      ((e.painter false).hear .closed).result? = some e.driven ∧
      ((e.painter false).hear .closed).robot = e.robot := by
  cases h : e.refusal with
  | some r =>
      simp [painter, Painter.hear, Painter.ask, Painter.result?, phase_of_refusal h,
        driven.eq_def, h]
  | none =>
      rcases (by omega : e.events.length % 3 = 0 ∨ e.events.length % 3 = 1 ∨
        e.events.length % 3 = 2) with zero | one | two
      · simp [painter, Painter.hear, Painter.ask, Painter.result?, phase_of_zero sound h zero,
          driven.eq_def, h, zero, moves]
      · have empty := sound.held_of_length h (by omega)
        simp [painter, Painter.hear, Painter.ask, Painter.result?, Painter.lose,
          phase_of_one h empty one, driven.eq_def, h, one]
      · obtain ⟨paint, held⟩ := Option.isSome_iff_exists.mp ((sound.held_iff h).mpr two)
        simp [painter, Painter.hear, Painter.ask, Painter.result?, Painter.lose,
          phase_of_held h held, driven.eq_def, h, two]

/-- Only a refusal stops a painter while the core lasts, and then there is nothing more to hear. -/
theorem hear_closed_of_stop (sound : e.Sound) (stops : (e.painter false).ask = .stop) :
    (e.painter false).hear .closed = e.painter false := by
  cases h : e.refusal with
  | some r => simp [painter, Painter.hear, phase_of_refusal h]
  | none =>
      by_cases zero : e.events.length % 3 = 0
      · rw [(ask_of_zero sound h zero).1] at stops
        cases stops
      · rw [ask_of_nonzero sound h zero] at stops
        cases stops

end Easel

end Shipboard
