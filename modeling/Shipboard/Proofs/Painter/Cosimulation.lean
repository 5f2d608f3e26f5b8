import Shipboard.Proofs.Painter.Easel
import Shipboard.Proofs.Session.Reach

/-!
Painting in a session is painting on an easel. However the core and the painter interleave, the core
has come as far as it would with an easel for its device, and the painter is where the easel says. A
session neither gets stuck nor goes on for long without an instruction, so it ends if the easel's
run ends, and in the same way.
-/

namespace Shipboard

namespace Event

/-- What the event hands over between core and painter, pulses aside. -/
def exchange? : Event → Option Exchange
  | .passed .toCore v => some (.reported v)
  | .passed .fromCore v => some (.wrote v)
  | _ => none

end Event

namespace Session

def exchanges (es : List Event) : List Exchange := es.filterMap Event.exchange?

theorem exchanges_quiet {es : List Event} {e : Event} {xs : List Exchange}
    (seen : exchanges es = xs) (quiet : e.exchange? = none) : exchanges (es ++ [e]) = xs := by
  simp [exchanges, quiet, ← seen]

theorem exchanges_append_of_some {es : List Event} {e : Event} {x : Exchange}
    (h : e.exchange? = some x) : exchanges (es ++ [e]) = exchanges es ++ [x] := by
  simp [exchanges, h]

end Session

def painting (c : Core) (start : Color) : Session Worker Painter :=
  Session.start .interactive (Worker.ofMachine { core := c }) { robot := Robot.startingOn start }

def Paints (c : Core) (start : Color) (es : List Event) (s : Session Worker Painter) : Prop :=
  Session.Steps (Worker.party .interactive) Painter.party (painting c start) es s

namespace Painter

variable {p : Painter} {whole : Channel → Bool} {mine : Ends} {turn : Turn}

theorem ask_cases (p : Painter) :
    (∃ ch v, p.ask = .put ch v) ∨ (∃ ch, p.ask = .get ch) ∨ p.ask = .stop := by
  rw [ask.eq_def]
  cases p.phase <;> simp

theorem ask_ne_join (p : Painter) : p.ask ≠ .join := by
  rcases ask_cases p with ⟨ch, v, puts⟩ | ⟨ch, gets⟩ | stops <;> simp [*]

theorem ask_ne_poll (p : Painter) : p.ask ≠ .poll := by
  rcases ask_cases p with ⟨ch, v, puts⟩ | ⟨ch, gets⟩ | stops <;> simp [*]

theorem channel?_or_stop (p : Painter) :
    (∃ ch, (party.ask p).channel? = some ch) ∨ party.ask p = .stop := by
  rcases ask_cases p with ⟨ch, v, puts⟩ | ⟨ch, gets⟩ | stops
  · exact .inl ⟨ch, congrArg Ask.channel? puts⟩
  · exact .inl ⟨ch, congrArg Ask.channel? gets⟩
  · exact .inr stops

theorem may_cases (h : p.ask.May whole mine turn) :
    (turn = .hear .closed ∧ p.ask ≠ .stop ∧ ∃ ch, whole ch = false) ∨
      ∃ ch, turn = .drop ch ∧ p.ask = .stop ∧ mine.holds ch = true := by
  generalize asks : p.ask = a at h
  cases h with
  | closed needs broken =>
      refine .inl ⟨rfl, ?_, _, broken⟩
      intro stops
      rw [stops] at needs
      cases needs
  | drop leaving held =>
      refine .inr ⟨_, rfl, ?_, held⟩
      rcases ask_cases p with ⟨ch, v, puts⟩ | ⟨ch, gets⟩ | stops
      · rw [← asks, puts] at leaving
        cases leaving
      · rw [← asks, gets] at leaving
        cases leaving
      · rw [← asks, stops]
  | work => rcases ask_cases p with ⟨ch, v, puts⟩ | ⟨ch, gets⟩ | stops <;> simp_all
  | stall => rcases ask_cases p with ⟨ch, v, puts⟩ | ⟨ch, gets⟩ | stops <;> simp_all
  | gone empty => rcases ask_cases p with ⟨ch, v, puts⟩ | ⟨ch, gets⟩ | stops <;> simp_all

end Painter

namespace Cosimulation

open Easel Machine Session

variable {c d : Core} {start : Color} {es : List Event} {s t : Session Worker Painter} {e : Event}
  {n : Nat} {easel : Easel}

theorem sound_step {easel : Easel} (sound : easel.Sound)
    (rounds : (c.step device easel).2.2.InRounds) : (c.step device easel).2.2.Sound := by
  obtain ⟨-, same⟩ := Worker.hear_consult device c false easel
  rw [← same] at rounds ⊢
  rcases c.alone_cases with alone | ⟨next, a, effect⟩ | ⟨next, v, effect⟩
  · rw [Core.consult_of_alone alone]
    exact sound
  · rw [Core.consult_input effect] at rounds ⊢
    exact sound.take rounds
  · rw [Core.consult_output effect] at rounds ⊢
    exact sound.put rounds

theorem sound_deviceAfter (sound : easel.Sound)
    (rounds : ∀ n, (c.deviceAfter device n easel).InRounds) (n : Nat) :
    (c.deviceAfter device n easel).Sound := by
  induction n generalizing c easel with
  | zero => exact sound
  | succ n ih =>
      have first := rounds 1
      rw [Core.deviceAfter_one] at first
      have sound' := sound_step sound first
      by_cases goes : (c.step device easel).1 = .running
      · have step : c.step device easel =
            (.running, (c.step device easel).2.1, (c.step device easel).2.2) :=
          Prod.ext goes rfl
        rw [Core.deviceAfter_succ_of_running n step]
        apply ih sound'
        intro k
        have later := rounds (k + 1)
        rw [Core.deviceAfter_succ_of_running k step] at later
        exact later
      · rw [Core.deviceAfter_succ_of_not_running n goes]
        exact sound'

/-- The core has done `n` instructions and has perhaps announced its input. -/
structure AtWork (c : Core) (start : Color) (es : List Event) (s : Session Worker Painter) (n : Nat)
    (d : Core) (easel : Easel) (announced : Bool) : Prop where
  core : s.core = .active d announced
  far : c.advance device n (.start start) = some (d, easel)
  painter : s.controller = easel.painter announced
  input : announced = true → d.isAlone = false
  coreHolds : ∀ ch, s.links.core.holds ch = true
  /-- The painter lets go only after it has refused a pair. -/
  holds : easel.refusal = none → ∀ ch, s.links.controller.holds ch = true
  seen : exchanges es = easel.events
  count : es.length + s.links.count ≤ 2 * n + announced.toNat + 6

/-- The core has stopped after `n` instructions, and the painter may have heard of it. -/
structure Ended (c : Core) (start : Color) (es : List Event) (s : Session Worker Painter) (n : Nat)
    (o : Outcome Easel) (heard : Bool) : Prop where
  core : s.core = .stopped o.ending
  stop : ∃ d easel, c.advance device n (.start start) = some (d, easel) ∧ Stops device d easel o
  painter : s.controller =
    if heard then (o.device.painter false).hear .closed else o.device.painter false
  seen : exchanges es = o.device.events
  count : es.length + s.links.count ≤ 2 * (n + 1) + heard.toNat + 6

inductive Tracks (c : Core) (start : Color) (es : List Event) (s : Session Worker Painter) : Prop
  | atWork {n : Nat} {d : Core} {easel : Easel} {announced : Bool}
      (works : AtWork c start es s n d easel announced)
  | ended {n : Nat} {o : Outcome Easel} {heard : Bool} (ends : Ended c start es s n o heard)

theorem tracks_start (c : Core) (start : Color) : Tracks c start [] (painting c start) := by
  have holds : ∀ ch, (Ends.ofProtocol .interactive).holds ch = true := by
    intro ch
    cases ch <;> rfl
  have posture : (painting c start).controller = (Easel.start start).painter false := by
    simp [painting, Session.start, Easel.start, Easel.painter, moves, phase]
  have works : AtWork c start [] (painting c start) 0 c (.start start) false :=
    { core := rfl
      far := rfl
      painter := posture
      input := by simp
      coreHolds := holds
      holds := fun _ => holds
      seen := rfl
      count := Nat.le_refl 6 }
  exact .atWork works

section

variable (rounds : ∀ n, (c.deviceAfter device n (.start start)).InRounds)

include rounds

theorem sound_of_advance (far : c.advance device n (.start start) = some (d, easel)) :
    easel.Sound := by
  have sound := sound_deviceAfter (sound_start start) rounds n
  rw [Core.deviceAfter_eq_of_advance far] at sound
  exact sound

theorem rounds_of_consult (far : c.advance device n (.start start) = some (d, easel)) :
    (d.consult device easel).2.InRounds := by
  have later := rounds (n + 1)
  rw [Core.deviceAfter_of_advance 1 far, Core.deviceAfter_one] at later
  rw [(Worker.hear_consult device d false easel).2]
  exact later

theorem Ended.sound {o : Outcome Easel} {heard : Bool} (ends : Ended c start es s n o heard) :
    o.device.Sound := by
  obtain ⟨d, easel, far, stops⟩ := ends.stop
  have sound := sound_deviceAfter (sound_start start) rounds (n + 1)
  rw [Core.deviceAfter_of_advance 1 far, stops.deviceAfter 0] at sound
  exact sound

end

namespace AtWork

variable {announced : Bool} {a : Answer} {easel' : Easel}

theorem heard (works : AtWork c start es s n d easel announced)
    (answers : d.consult device easel = (a, easel'))
    (core : t.core = (Worker.active d announced).hear a)
    (painter : t.controller = easel'.painter false) (links : t.links = s.links)
    (holds : easel'.refusal = none → easel.refusal = none)
    (seen : exchanges (es ++ [e]) = easel'.events) : Tracks c start (es ++ [e]) t := by
  obtain ⟨hears, same⟩ := Worker.hear_consult device d announced easel
  rw [answers] at hears same
  rw [hears] at core
  have count : (es ++ [e]).length + t.links.count ≤ 2 * (n + 1) + 6 := by
    have before := works.count
    have at_most : announced.toNat ≤ 1 := Bool.toNat_le announced
    rw [List.length_append, List.length_singleton, links]
    omega
  -- The core on the easel does the same instruction, so both go on or both stop here.
  by_cases goes : (d.step device easel).1 = .running
  · rw [goes] at core
    have step : d.step device easel = (.running, (d.step device easel).2.1, easel') :=
      Prod.ext goes (Prod.ext rfl same.symm)
    have next : AtWork c start (es ++ [e]) t (n + 1) (d.step device easel).2.1 easel' false :=
      { core := core
        far := Core.advance_succ works.far step
        painter := painter
        input := by simp
        coreHolds := by
          rw [links]
          exact works.coreHolds
        holds := by
          rw [links]
          exact fun still_open => works.holds (holds still_open)
        seen := seen
        count := count }
    exact .atWork next
  · obtain ⟨o, stops, rest⟩ := stops_of_step (Prod.ext rfl rfl) goes
    rw [Worker.ofProgress_of_stops stops] at core
    have last : o.device = easel' := rest.trans same.symm
    rw [← last] at painter seen
    have ends : Ended c start (es ++ [e]) t n o false :=
      { core := core
        stop := ⟨d, easel, works.far, stops⟩
        painter := painter
        seen := seen
        count := count }
    exact .ended ends

theorem worked (works : AtWork c start es s n d easel announced) (alone : d.isAlone = true) :
    Tracks c start (es ++ [.core (.hear .done)]) { s with core := s.core.hear .done } := by
  have quiet : announced = false := by
    cases announced with
    | false => rfl
    | true =>
        have needs := works.input rfl
        rw [alone] at needs
        cases needs
  subst quiet
  have answers := Core.consult_of_alone (D := device) alone easel
  refine works.heard answers ?_ works.painter rfl id (exchanges_quiet works.seen rfl)
  rw [works.core]

theorem cut (works : AtWork c start es s n d easel announced) (needs : d.isAlone = false)
    {ch : Channel} (broken : s.links.whole ch = false) :
    Tracks c start (es ++ [.core (.hear .closed)]) { s with core := s.core.hear .closed } := by
  cases h : easel.refusal with
  | none =>
      rw [Links.whole, works.coreHolds, works.holds h] at broken
      cases broken
  | some r =>
      have answers : d.consult device easel = (.closed, easel) := by
        rcases d.alone_cases with alone | ⟨next, a, effect⟩ | ⟨next, v, effect⟩
        · rw [alone] at needs
          cases needs
        · exact Core.consult_of_no_take effect (take_of_refusal h)
        · exact Core.consult_of_no_put effect (put_of_refusal h v)
      have posture : easel.painter announced = easel.painter false := by
        simp only [Easel.painter, phase_of_refusal h]
      refine works.heard answers ?_ (works.painter.trans posture) rfl id
        (exchanges_quiet works.seen rfl)
      rw [works.core]

theorem open_of_ask (works : AtWork c start es s n d easel announced)
    (busy : Painter.ask s.controller ≠ .stop) : easel.refusal = none := by
  cases h : easel.refusal with
  | none => rfl
  | some r =>
      rw [works.painter, ask_of_refusal h] at busy
      exact absurd rfl busy

theorem aside (works : AtWork c start es s n d easel announced) {turn : Turn}
    (busy : easel.refusal = none → Painter.ask s.controller ≠ .stop)
    (may : (Painter.ask s.controller).May s.links.whole s.links.controller turn) :
    Tracks c start (es ++ [.controller turn]) (s.controllerTurn Painter.party turn) := by
  rcases Painter.may_cases may with ⟨rfl, unfinished, ch, broken⟩ | ⟨ch, rfl, stops, held⟩
  · have still_open := works.open_of_ask unfinished
    rw [Links.whole, works.coreHolds, works.holds still_open] at broken
    cases broken
  · have count : (es ++ [Event.controller (.drop ch)]).length +
        (s.controllerTurn Painter.party (.drop ch)).links.count ≤
          2 * n + announced.toNat + 6 := by
      have before := works.count
      have dropped := Ends.count_drop held
      rw [List.length_append, List.length_singleton]
      simp only [controllerTurn, Links.count] at before ⊢
      omega
    have next : AtWork c start (es ++ [.controller (.drop ch)])
        (s.controllerTurn Painter.party (.drop ch)) n d easel announced :=
      { core := works.core
        far := works.far
        painter := works.painter
        input := works.input
        coreHolds := works.coreHolds
        holds := fun still_open => absurd stops (busy still_open)
        seen := exchanges_quiet works.seen rfl
        count := count }
    exact .atWork next

section

variable (rounds : ∀ n, (c.deviceAfter device n (.start start)).InRounds)

include rounds

theorem zero_of_input (works : AtWork c start es s n d easel announced)
    (h : easel.refusal = none) {next a : Address} (effect : d.effect = .ok (.input next a)) :
    easel.events.length % 3 = 0 := by
  have usable := rounds_of_consult rounds works.far
  rw [Core.consult_input effect] at usable
  exact length_of_take h usable

theorem rounds_of_output (works : AtWork c start es s n d easel announced) {next : Address}
    {v : Word} (effect : d.effect = .ok (.output next v)) : (easel.put v).2.InRounds := by
  have usable := rounds_of_consult rounds works.far
  rw [Core.consult_output effect] at usable
  exact usable

theorem pulse (works : AtWork c start es s n d easel announced) (quiet : announced = false)
    {next a : Address} (effect : d.effect = .ok (.input next a))
    (busy : Painter.ask s.controller ≠ .stop) :
    Tracks c start (es ++ [.passed .ready 0])
      { s with core := .active d true, controller := Painter.hear s.controller (.value 0) } := by
  subst quiet
  have still_open := works.open_of_ask busy
  have sound := sound_of_advance rounds works.far
  have zero := works.zero_of_input rounds still_open effect
  have count := works.count
  have pulsed : AtWork c start (es ++ [.passed .ready 0])
      { s with core := .active d true, controller := Painter.hear s.controller (.value 0) }
      n d easel true :=
    { core := rfl
      far := works.far
      painter := by
        rw [works.painter]
        exact hear_pulse sound still_open zero 0
      input := fun _ => Core.isAlone_of_input effect
      coreHolds := works.coreHolds
      holds := works.holds
      seen := exchanges_quiet works.seen rfl
      count := by
        rw [List.length_append, List.length_singleton]
        simp only [Bool.toNat_false, Bool.toNat_true] at count ⊢
        omega }
  exact .atWork pulsed

theorem given (works : AtWork c start es s n d easel announced) {next : Address} {v : Word}
    (effect : d.effect = .ok (.output next v)) (busy : Painter.ask s.controller ≠ .stop) :
    Tracks c start (es ++ [.passed .fromCore v])
      { s with core := s.core.hear .done, controller := Painter.hear s.controller (.value v) } := by
  have still_open := works.open_of_ask busy
  have sound := sound_of_advance rounds works.far
  have usable := works.rounds_of_output rounds effect
  obtain ⟨accepted, events⟩ := put_of_open still_open v
  have answers : d.consult device easel = (.done, (easel.put v).2) :=
    Core.consult_of_put effect (Prod.ext accepted rfl)
  refine works.heard answers ?_ ?_ rfl (fun _ => still_open) ?_
  · rw [works.core]
  · rw [works.painter]
    exact hear_output sound still_open usable announced
  · rw [exchanges_append_of_some rfl, works.seen]
    exact events.symm

theorem taken (works : AtWork c start es s n d easel announced) (pulsed : announced = true)
    {next a : Address} (effect : d.effect = .ok (.input next a)) {v : Word}
    (gives : Painter.ask s.controller = .put .toCore v) :
    Tracks c start (es ++ [.passed .toCore v])
      { s with core := s.core.hear (.value v), controller := Painter.hear s.controller .done } := by
  subst pulsed
  have still_open := works.open_of_ask (by simp [gives])
  have sound := sound_of_advance rounds works.far
  have zero := works.zero_of_input rounds still_open effect
  rw [works.painter, (ask_of_zero sound still_open zero).2] at gives
  cases gives
  have given := take_of_open still_open
  have answers := Core.consult_of_take (D := device) effect given
  refine works.heard answers ?_ ?_ rfl (fun _ => still_open) ?_
  · rw [works.core]
  · rw [works.painter, hear_report sound still_open zero, given]
  · rw [exchanges_append_of_some rfl, works.seen]

theorem busy (works : AtWork c start es s n d easel announced) (h : easel.refusal = none) :
    Painter.ask s.controller ≠ .stop := by
  have sound := sound_of_advance rounds works.far
  rw [works.painter]
  by_cases zero : easel.events.length % 3 = 0
  · cases announced with
    | false => simp [(ask_of_zero sound h zero).1]
    | true => simp [(ask_of_zero sound h zero).2]
  · simp [ask_of_nonzero sound h zero]

theorem step (works : AtWork c start es s n d easel announced)
    (h : Attends .interactive Painter.party s e t) : Tracks c start (es ++ [e]) t := by
  cases h with
  | aside may => exact works.aside (works.busy rounds) may
  | joined asks =>
      exact absurd asks (Painter.ask_ne_join s.controller)
  | polled asks =>
      exact absurd asks (Painter.ask_ne_poll s.controller)
  | worked core alone =>
      rw [works.core] at core
      cases core
      exact works.worked alone
  | cut core needs broken =>
      rw [works.core] at core
      cases core
      exact works.cut needs broken
  | pulse core effect meet =>
      rw [works.core] at core
      cases core
      refine works.pulse rounds rfl effect ?_
      intro stops
      rcases meet.get_eq with gets | gets <;> cases gets.symm.trans stops
  | given core effect meet =>
      rw [works.core] at core
      cases core
      refine works.given rounds effect ?_
      intro stops
      rcases meet.get_eq with gets | gets <;> cases gets.symm.trans stops
  | taken core effect after_pulse gives =>
      rw [works.core] at core
      cases core
      exact works.taken rounds (after_pulse rfl) effect gives
  | dropped core held =>
      rw [works.core] at core
      cases core

end

end AtWork

namespace Ended

variable {o : Outcome Easel} {heard : Bool}

theorem drops (ends : Ended c start es s n o heard) {i : Side} {ch : Channel}
    (held : (s.links.ends i).holds ch = true) :
    Ended c start (es ++ [.alone i (.drop ch)])
      (s.alone (Worker.party .interactive) Painter.party i (.drop ch)) n o heard := by
  have before := ends.count
  have dropped := count_alone_drop (P := Worker.party .interactive) (Q := Painter.party) held
  exact
    { core := (core_alone_drop i ch).trans ends.core
      stop := ends.stop
      painter := (controller_alone_drop i ch).trans ends.painter
      seen := exchanges_quiet ends.seen (by cases i <;> rfl)
      count := by
        rw [List.length_append, List.length_singleton]
        omega }

theorem aside (ends : Ended c start es s n o heard) (sound : o.device.Sound) {turn : Turn}
    (may : (Painter.ask s.controller).May s.links.whole s.links.controller turn) :
    Tracks c start (es ++ [.controller turn]) (s.controllerTurn Painter.party turn) := by
  have before := ends.count
  rcases Painter.may_cases may with ⟨rfl, unfinished, -, -⟩ | ⟨ch, rfl, -, held⟩
  · have unheard : heard = false := by
      cases heard with
      | false => rfl
      | true =>
          rw [ends.painter, if_pos rfl] at unfinished
          exact absurd (hear_closed sound).1 unfinished
    subst unheard
    have next : Ended c start (es ++ [.controller (.hear .closed)])
        (s.controllerTurn Painter.party (.hear .closed)) n o true :=
      { core := ends.core
        stop := ends.stop
        painter := congrArg (fun p => Painter.hear p .closed) ends.painter
        seen := exchanges_quiet ends.seen rfl
        count := by
          rw [List.length_append, List.length_singleton]
          simp only [controllerTurn, Bool.toNat_false, Bool.toNat_true] at before ⊢
          omega }
    exact .ended next
  · exact .ended (ends.drops (i := .controller) held)

theorem step (ends : Ended c start es s n o heard) (sound : o.device.Sound)
    (h : Attends .interactive Painter.party s e t) : Tracks c start (es ++ [e]) t := by
  have stopped := ends.core
  cases h with
  | aside may => exact ends.aside sound may
  | joined asks => exact absurd asks (Painter.ask_ne_join s.controller)
  | polled asks => exact absurd asks (Painter.ask_ne_poll s.controller)
  | dropped core held => exact .ended (ends.drops (i := .core) held)
  | worked core alone => cases stopped.symm.trans core
  | cut core needs broken => cases stopped.symm.trans core
  | pulse core effect meet => cases stopped.symm.trans core
  | given core effect meet => cases stopped.symm.trans core
  | taken core effect announced gives => cases stopped.symm.trans core

theorem result (ends : Ended c start es s n o heard) (sound : o.device.Sound)
    (stops : Painter.ask s.controller = .stop) :
    s.controller.result? = some o.device.driven ∧ s.controller.robot = o.device.robot := by
  have last : s.controller = (o.device.painter false).hear .closed := by
    rw [ends.painter]
    cases heard with
    | true => rfl
    | false =>
        rw [ends.painter] at stops
        exact (hear_closed_of_stop sound stops).symm
  rw [last]
  exact (hear_closed sound).2

end Ended

section

variable (rounds : ∀ n, (c.deviceAfter device n (.start start)).InRounds)

include rounds

theorem tracks_step (tracks : Tracks c start es s)
    (h : Step (Worker.party .interactive) Painter.party s e t) : Tracks c start (es ++ [e]) t := by
  cases tracks with
  | atWork works => exact works.step rounds (attends_of_step h)
  | ended ends => exact ends.step (ends.sound rounds) (attends_of_step h)

theorem tracks_steps {fs : List Event} (tracks : Tracks c start es s)
    (h : Steps (Worker.party .interactive) Painter.party s fs t) : Tracks c start (es ++ fs) t := by
  refine h.keeps (I := fun es s => Tracks c start es s) ?_ es tracks
  intro es s e t tracks step
  exact tracks_step rounds tracks step

theorem tracks_of_paints (h : Paints c start es s) : Tracks c start es s :=
  tracks_steps rounds (tracks_start c start) h

end

end Cosimulation

end Shipboard
