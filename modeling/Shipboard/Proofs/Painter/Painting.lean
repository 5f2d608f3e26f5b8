import Shipboard.Proofs.Painter.Cosimulation

/-!
What becomes of a painting job: it never gets stuck, it ends if the core does on an easel, and its
result is the easel's.
-/

namespace Shipboard

namespace Cosimulation

open Easel Machine Session

variable {c d : Core} {start : Color} {es : List Event} {s : Session Worker Painter} {n : Nat}
  {easel : Easel}

namespace AtWork

variable {announced : Bool}

/-- After a refusal the painter drops its ends, and the core then finds its channel cut. -/
theorem live_of_refusal (works : AtWork c start es s n d easel announced)
    {r : ControllerError} (h : easel.refusal = some r) (needs : d.isAlone = false) :
    ∃ e t, Step (Worker.party .interactive) Painter.party s e t := by
  have stops : Painter.party.ask s.controller = .stop := by
    rw [works.painter]
    exact ask_of_refusal h announced
  cases left : s.links.controller.first? with
  | some ch =>
      refine ⟨_, _, .controller (.drop ?_ (Ends.holds_of_first? left))⟩
      rw [stops]
      rfl
  | none =>
      have empty := (Ends.isEmpty_iff _).mp ((Ends.first?_eq_none_iff _).mp left)
      obtain ⟨ch, channel⟩ := Worker.channel?_ask .interactive needs announced
      refine ⟨_, _, .core (.closed (c := ch) ?_ ?_)⟩
      · rw [works.core]
        exact channel
      · simp [Links.whole, empty]

theorem whole (works : AtWork c start es s n d easel announced) (h : easel.refusal = none)
    (ch : Channel) : s.links.whole ch = true := by
  rw [Links.whole, works.coreHolds, works.holds h]
  rfl

theorem live (rounds : ∀ n, (c.deviceAfter device n (.start start)).InRounds)
    (works : AtWork c start es s n d easel announced) :
    ∃ e t, Step (Worker.party .interactive) Painter.party s e t := by
  have sound := sound_of_advance rounds works.far
  rcases d.alone_cases with alone | ⟨next, a, effect⟩ | ⟨next, v, effect⟩
  · have asks : (Worker.party .interactive).ask s.core = .work := by
      rw [works.core]
      exact Worker.ask_of_alone .interactive alone announced
    refine ⟨.core (.hear .done), _, .core ?_⟩
    rw [asks]
    exact .work
  · cases h : easel.refusal with
    | some r => exact works.live_of_refusal h (Core.isAlone_of_input effect)
    | none =>
        have zero := works.zero_of_input rounds h effect
        cases announced with
        | false =>
            have puts : (Worker.party .interactive).ask s.core = .put .ready 0 := by
              rw [works.core]
              exact Worker.ask_of_unannounced effect
            have gets : Painter.party.ask s.controller = .get .ready := by
              rw [works.painter]
              exact (ask_of_zero sound h zero).1
            exact ⟨_, _, .fromCore (works.whole h .ready) (Ask.meet_of_eq puts gets)⟩
        | true =>
            have gets : (Worker.party .interactive).ask s.core = .get .toCore := by
              rw [works.core]
              exact Worker.ask_of_input effect (fun _ => rfl)
            have puts : Painter.party.ask s.controller =
                .put .toCore easel.robot.color.toWord := by
              rw [works.painter]
              exact (ask_of_zero sound h zero).2
            exact ⟨_, _, .toCore (works.whole h .toCore) (Ask.meet_of_eq puts gets)⟩
  · cases h : easel.refusal with
    | some r => exact works.live_of_refusal h (Core.isAlone_of_output effect)
    | none =>
        have nonzero := length_of_put h (works.rounds_of_output rounds effect)
        have puts : (Worker.party .interactive).ask s.core = .put .fromCore v := by
          rw [works.core]
          exact Worker.ask_of_output .interactive effect announced
        have gets : Painter.party.ask s.controller = .get .fromCore := by
          rw [works.painter]
          exact ask_of_nonzero sound h nonzero announced
        exact ⟨_, _, .fromCore (works.whole h .fromCore) (Ask.meet_of_eq puts gets)⟩

end AtWork

namespace Ended

variable {o : Outcome Easel} {heard : Bool}

theorem live (ends : Ended c start es s n o heard) :
    s.complete (Worker.party .interactive) Painter.party = true ∨
      ∃ e t, Step (Worker.party .interactive) Painter.party s e t := by
  have leaves : (Worker.party .interactive).ask s.core = .stop := by
    rw [ends.core]
    rfl
  cases left : s.links.core.first? with
  | some ch =>
      refine .inr ⟨_, _, .core (.drop ?_ (Ends.holds_of_first? left))⟩
      rw [leaves]
      rfl
  | none =>
      have gone := (Ends.first?_eq_none_iff _).mp left
      have empty := (Ends.isEmpty_iff _).mp gone
      have broken : ∀ ch, s.links.whole ch = false := by
        intro ch
        simp [Links.whole, empty]
      rcases Painter.channel?_or_stop s.controller with ⟨ch, channel⟩ | stops
      · exact .inr ⟨_, _, .controller (.closed channel (broken ch))⟩
      · cases still : s.links.controller.first? with
        | some ch =>
            refine .inr ⟨_, _, .controller (.drop ?_ (Ends.holds_of_first? still))⟩
            rw [stops]
            rfl
        | none =>
            have gone' := (Ends.first?_eq_none_iff _).mp still
            left
            simp [complete, coreGone, controllerGone, leaves, stops, gone, gone']

end Ended

section

variable (rounds : ∀ n, (c.deviceAfter device n (.start start)).InRounds)

include rounds

theorem live (h : Paints c start es s) :
    s.complete (Worker.party .interactive) Painter.party = true ∨
      ∃ e t, Step (Worker.party .interactive) Painter.party s e t := by
  cases tracks_of_paints rounds h with
  | atWork works => exact .inr (works.live rounds)
  | ended ends => exact ends.live

theorem in_step (h : Paints c start es s) :
    ∃ n, es.length ≤ 2 * n + 7 ∧
      exchanges es = (c.deviceAfter device n (.start start)).events := by
  cases tracks_of_paints rounds h with
  | @atWork n d easel announced works =>
      have count := works.count
      have at_most : announced.toNat ≤ 1 := Bool.toNat_le announced
      refine ⟨n, by omega, ?_⟩
      rw [Core.deviceAfter_eq_of_advance works.far]
      exact works.seen
  | @ended n o heard ends =>
      have count := ends.count
      have at_most : heard.toNat ≤ 1 := Bool.toNat_le heard
      obtain ⟨d, easel, far, stops⟩ := ends.stop
      have same := Core.deviceAfter_of_advance 1 far
      rw [stops.deviceAfter 0] at same
      refine ⟨n + 1, by omega, ?_⟩
      rw [same]
      exact ends.seen

/-- The end of a session is the end of the easel's run. -/
theorem outcome (h : Paints c start es s)
    (completed : s.complete (Worker.party .interactive) Painter.party = true) :
    ∃ fuel o, (⟨c, .running⟩ : Machine).run device fuel (.start start) = some o ∧
      exchanges es = o.device.events ∧ s.controller.result? = some o.device.driven ∧
      s.controller.robot = o.device.robot ∧ s.core.ending? = some o.ending := by
  simp only [complete, coreGone, controllerGone, Bool.and_eq_true, decide_eq_true_eq] at completed
  cases tracks_of_paints rounds h with
  | atWork works =>
      obtain ⟨ending, stopped⟩ := Worker.stopped_of_ask completed.1.1
      cases works.core.symm.trans stopped
  | @ended n o heard ends =>
      obtain ⟨d, easel, far, stops⟩ := ends.stop
      obtain ⟨result, robot⟩ := ends.result (ends.sound rounds) completed.2.1
      refine ⟨n + 1, o, ?_, ends.seen, result, robot, ?_⟩
      · exact run_eq_some_iff.mpr ⟨n, d, easel, Nat.lt_succ_self n, far, stops⟩
      · rw [ends.core]
        rfl

theorem bounded {fuel : Nat} {o : Outcome Easel}
    (ran : (⟨c, .running⟩ : Machine).run device fuel (.start start) = some o)
    (h : Paints c start es s) : es.length ≤ 2 * fuel + 7 := by
  cases tracks_of_paints rounds h with
  | @atWork n d easel announced works =>
      have count := works.count
      have at_most : announced.toNat ≤ 1 := Bool.toNat_le announced
      have below := lt_of_run ran works.far
      omega
  | @ended n o heard ends =>
      have count := ends.count
      have at_most : heard.toNat ≤ 1 := Bool.toNat_le heard
      obtain ⟨d, easel, far, stops⟩ := ends.stop
      have below := lt_of_run ran far
      omega

theorem paint_of_run {fuel more : Nat} {o : Outcome Easel}
    (ran : (⟨c, .running⟩ : Machine).run device fuel (.start start) = some o)
    (enough : 2 * fuel + 7 < more) :
    paint more { core := c } start = some (o.device.verdict o.ending) := by
  have patient : ∀ w ch, (Worker.party .interactive).ask w ≠ .getSoon ch :=
    Worker.ask_ne_getSoon .interactive
  have short : ∀ es t, Paints c start es t → es.length < more := by
    intro es t steps
    have length := bounded rounds ran steps
    omega
  obtain ⟨es, t, scheduled, steps, completed⟩ :=
    run_of_live patient (fun es t steps => live rounds steps) short
  obtain ⟨fuel', o', ran', -, result, robot, ending⟩ := outcome rounds steps completed
  have same : o' = o := run_unique ran' ran
  subst same
  have attended : ({ core := c } : Machine).attend more .interactive Painter.party
      { robot := Robot.startingOn start } = some (t.controller, o'.ending) := by
    rw [attend]
    exact Option.bind_eq_some_iff.mpr ⟨t, scheduled, by simp [ending]⟩
  rw [paint, attended]
  simp [result, robot, settle_driven]

end

end Cosimulation

open Cosimulation in
/-- If a core on an easel exchanges values in rounds, then with a painter it does the same however
the two interleave: they are never stuck, never far ahead of the easel, done if the core on the
easel is done, and the job then ends as the easel says. A refusal comes with the second value of a
pair. -/
theorem paint_eq_cosimulation (c : Core) (start : Color)
    (rounds : ∀ n, (c.deviceAfter Easel.device n (.start start)).InRounds) :
    (∀ es s, Paints c start es s →
      (s.complete (Worker.party .interactive) Painter.party = true ∨
        ∃ e t, Session.Step (Worker.party .interactive) Painter.party s e t) ∧
      ∃ n, es.length ≤ 2 * n + 7 ∧
        Session.exchanges es = (c.deviceAfter Easel.device n (.start start)).events) ∧
    (∀ es s, Paints c start es s →
      s.complete (Worker.party .interactive) Painter.party = true →
      ∃ fuel o, (⟨c, .running⟩ : Machine).run Easel.device fuel (.start start) = some o ∧
        Session.exchanges es = o.device.events ∧ s.core.ending? = some o.ending ∧
        s.controller.result? = some o.device.driven ∧ s.controller.robot = o.device.robot ∧
        ControllerError.settle (o.device.driven.map fun _ => s.controller.robot) o.ending =
          o.device.verdict o.ending) ∧
    (∀ fuel o, (⟨c, .running⟩ : Machine).run Easel.device fuel (.start start) = some o →
      (∀ es s, Paints c start es s → es.length ≤ 2 * fuel + 7) ∧
      ∀ more, 2 * fuel + 7 < more →
        paint more { core := c } start = some (o.device.verdict o.ending)) ∧
    ∀ n e, (c.deviceAfter Easel.device n (.start start)).refusal = some e →
      ∃ before paint turn,
        (c.deviceAfter Easel.device n (.start start)).events =
          before ++ [.wrote paint, .wrote turn] ∧
        e = if paint = 0 ∨ paint = 1 then .unexpected .turn turn
          else .unexpected .colour paint := by
  refine ⟨?going, ?ending, ?halting, ?refusing⟩
  case going =>
    intro es s paints
    exact ⟨live rounds paints, in_step rounds paints⟩
  case ending =>
    intro es s paints completed
    obtain ⟨fuel, o, ran, seen, result, robot, ending⟩ := outcome rounds paints completed
    refine ⟨fuel, o, ran, seen, ending, result, robot, ?_⟩
    rw [robot]
    exact Easel.settle_driven o.device o.ending
  case halting =>
    intro fuel o ran
    constructor
    · intro es s paints
      exact bounded rounds ran paints
    · intro more enough
      exact paint_of_run rounds ran enough
  case refusing =>
    intro n e refusal
    have sound := sound_deviceAfter (Easel.sound_start start) rounds n
    obtain ⟨-, -, before, paint, turn, events, refused⟩ := sound.refused e refusal
    exact ⟨before, paint, turn, events, Robot.error_of_apply refused⟩

/-- Paints one panel, asks for the next colour and then writes one that there is not. -/
def badColour : Core :=
  { memory := Memory.ofList [3, 50, 104, 1, 104, 0, 3, 50, 104, 7, 104, 9, 99] }

def onePanel : Core := { memory := Memory.ofList [3, 50, 104, 1, 104, 0, 99] }

theorem inRounds_of_run {c : Core} {start : Color} {fuel : Nat} {o : Machine.Outcome Easel}
    (ran : (⟨c, .running⟩ : Machine).run Easel.device fuel (.start start) = some o)
    (early : ∀ n, n < fuel + 1 → (c.deviceAfter Easel.device n (.start start)).InRounds) (n : Nat) :
    (c.deviceAfter Easel.device n (.start start)).InRounds := by
  by_cases soon : n < fuel + 1
  · exact early n soon
  · have last := early fuel (Nat.lt_succ_self fuel)
    rw [Machine.deviceAfter_of_run ran (Nat.le_refl fuel)] at last
    rw [Machine.deviceAfter_of_run ran (by omega)]
    exact last

theorem paint_eq_cosimulation_badColour :
    ((∀ n, (badColour.deviceAfter Easel.device n (.start .black)).InRounds) ∧
      paint 22 { core := badColour } .black = some (.error (.unexpected .colour 7))) ∧
    (∀ n, (onePanel.deviceAfter Easel.device n (.start .black)).InRounds) ∧
      ∃ r, paint 16 { core := onePanel } .black = some (.ok r) ∧ r.position = ⟨-1, 0⟩ ∧
        r.facing = .left ∧ r.hull.toList = [(.origin, .white)] := by
  constructor
  · have refused : ((⟨badColour, .running⟩ : Machine).run Easel.device 7 (.start .black)).bind
        (fun o => o.device.refusal) = some (.unexpected .colour 7) := by
      decide +kernel
    obtain ⟨o, ran, refusal⟩ := Option.bind_eq_some_iff.mp refused
    have rounds := inRounds_of_run ran (by decide +kernel)
    have painted := (paint_eq_cosimulation badColour .black rounds).2.2.1 7 o ran
    rw [Easel.verdict_of_refusal refusal] at painted
    exact ⟨rounds, painted.2 22 (by omega)⟩
  · have halted : ((⟨onePanel, .running⟩ : Machine).run Easel.device 4 (.start .black)).bind
        (fun o => (o.device.verdict o.ending).toOption.map
          fun r => (r.position, r.facing, r.hull.toList)) =
        some (⟨-1, 0⟩, .left, [(.origin, .white)]) := by
      decide +kernel
    obtain ⟨o, ran, shown⟩ := Option.bind_eq_some_iff.mp halted
    have rounds := inRounds_of_run ran (by decide +kernel)
    have painted := (paint_eq_cosimulation onePanel .black rounds).2.2.1 4 o ran
    cases verdict : o.device.verdict o.ending with
    | error e =>
        rw [verdict] at shown
        cases shown
    | ok r =>
        rw [verdict] at shown painted
        have looks := Prod.mk.inj (Option.some.inj shown)
        exact ⟨rounds, r, painted.2 16 (by omega), looks.1, Prod.mk.inj looks.2⟩

end Shipboard
