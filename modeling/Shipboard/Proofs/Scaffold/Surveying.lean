import Shipboard.Proofs.Scaffold.Alignment
import Shipboard.Proofs.Session.Confluence
import Shipboard.Proofs.Session.Parting
import Shipboard.Scaffold.Survey

/-!
A survey is a run of the machine alone. The collector takes every value as it comes, so some
interleaving follows the run to its end; and because neither side ever gives up a wait, every
interleaving ends where that one does.
-/

namespace Shipboard

open Buffer Machine

namespace Collector

def ofBuffer (b : Buffer) : Collector := { gathered := b.output.toList.reverse }

theorem values_ofBuffer (b : Buffer) : (ofBuffer b).values = b.output.toList :=
  List.reverse_reverse _

theorem hear_value_ofBuffer (b : Buffer) (v : Word) :
    (ofBuffer b).hear (.value v) = ofBuffer { b with output := b.output.push v } := by
  simp [hear, ofBuffer]

theorem ask_cases (c : Collector) : c.ask = .get .fromCore ∨ c.ask = .stop := by
  rw [ask]
  split
  · exact .inr rfl
  · exact .inl rfl

end Collector

/-- What is shown by a machine that gives `result` alone. -/
def Scaffold.ofResult : Except Failure (List Word) → Except ControllerError Scaffold
  | .error f => .error (.core (.ofFailure f))
  | .ok output => ofFrame output

namespace Session

variable {c c' : Core} {b b' : Buffer} {n : Nat}

/-- A core at work, and a collector that has taken all that the core has put into a buffer. -/
def filming (w : Worker) (b : Buffer) : Session Worker Collector :=
  ⟨w, .ofBuffer b, .ofProtocol .streaming⟩

theorem exists_step_of_step (dry : b.input = []) (roomy : b.room = none)
    (sated : ∀ ip, (c.step device b).1 ≠ .failed (.fault (.inputClosed ip))) :
    ∃ e, Step (Worker.party .streaming) Collector.party (filming (.active c false) b) e
      (filming (.ofProgress (c.step device b).1 (c.step device b).2.1) (c.step device b).2.2) ∧
      (c.step device b).2.2.input = [] ∧ (c.step device b).2.2.room = none := by
  obtain ⟨hears, after⟩ := Worker.hear_consult device c false b
  rcases c.alone_cases with alone | ⟨next, a, effect⟩ | ⟨next, v, effect⟩
  · rw [Core.consult_of_alone alone] at hears after
    rw [← hears, ← after]
    refine ⟨.core (.hear .done), .core (t := .hear .done) ?_, dry, roomy⟩
    have works : (Worker.party .streaming).ask (.active c false) = .work :=
      Worker.ask_of_alone .streaming alone false
    rw [filming, works]
    exact .work
  · have empty : device.take b = (none, b) := by
      rw [device]
      simp only [take, dry]
    have fails := Core.step_of_no_input effect empty
    exact absurd (congrArg Prod.fst fails) (sated c.ip)
  · have accepted : device.put b v = (true, { b with output := b.output.push v }) := by
      rw [device]
      simp only [put, roomy]
    rw [Core.consult_of_put effect accepted] at hears after
    have puts : (Worker.party .streaming).ask (.active c false) = .put .fromCore v :=
      Worker.ask_of_output .streaming effect false
    have taken :
        (filming (.active c false) b).fromCore (Worker.party .streaming) Collector.party v =
          filming ((Worker.active c false).hear .done) { b with output := b.output.push v } := by
      rw [fromCore, filming, filming, ← Collector.hear_value_ofBuffer]
      rfl
    rw [← hears, ← after, ← taken]
    exact ⟨.passed .fromCore v, .fromCore rfl (Ask.meet_of_eq puts rfl), dry, roomy⟩

theorem exists_steps_of_advance (dry : b.input = []) (roomy : b.room = none)
    (far : c.advance device n b = some (c', b')) :
    (∃ es, Steps (Worker.party .streaming) Collector.party (filming (.active c false) b) es
      (filming (.active c' false) b')) ∧ b'.input = [] ∧ b'.room = none := by
  induction n generalizing c b with
  | zero =>
      cases far
      exact ⟨⟨[], .refl _⟩, dry, roomy⟩
  | succ n ih =>
      obtain ⟨d, mid, goes, rest⟩ := Core.advance_succ_iff.mp far
      have sated : ∀ ip, (c.step device b).1 ≠ .failed (.fault (.inputClosed ip)) := by
        simp [goes]
      obtain ⟨e, first, dry', roomy'⟩ := exists_step_of_step dry roomy sated
      rw [goes] at first dry' roomy'
      obtain ⟨⟨es, steps⟩, still⟩ := ih dry' roomy' rest
      exact ⟨⟨e :: es, .cons first steps⟩, still⟩

theorem exists_steps_of_stopped (ending : Ending) (b : Buffer) :
    ∃ es t, Steps (Worker.party .streaming) Collector.party (filming (.stopped ending) b) es t ∧
      t.complete (Worker.party .streaming) Collector.party = true ∧
      t.core = .stopped ending ∧ t.controller.values = b.output.toList := by
  have steps : Steps (Worker.party .streaming) Collector.party (filming (.stopped ending) b)
      [.core (.drop .toCore), .core (.drop .fromCore), .controller (.hear .closed),
        .controller (.drop .toCore), .controller (.drop .fromCore)] _ :=
    .cons (.core (.drop rfl rfl)) <| .cons (.core (.drop rfl rfl)) <|
    .cons (.controller (.closed (c := .fromCore) rfl rfl)) <|
    .cons (.controller (.drop rfl rfl)) <| .cons (.controller (.drop rfl rfl)) <| .refl _
  exact ⟨_, _, steps, rfl, rfl, Collector.values_ofBuffer b⟩

def Films (m : Machine) (es : List Event) (s : Session Worker Collector) : Prop :=
  Steps (Worker.party .streaming) Collector.party (start .streaming (Worker.ofMachine m) {}) es s

def shown? (s : Session Worker Collector) : Option (Except ControllerError Scaffold) :=
  s.core.ending?.map fun ending =>
    match ending with
    | .error b => .error (.core b)
    | .ok _ => Scaffold.ofFrame s.controller.values

variable {m : Machine} {o : Outcome Buffer} {es fs : List Event} {s t : Session Worker Collector}
  {fuel k : Nat}

theorem films_stay_calm (m : Machine) : StaysCalm (Worker.party .streaming) Collector.party
    (start .streaming (Worker.ofMachine m) {}) := by
  refine staysCalm_of_asks (Worker.ask_ne_getSoon .streaming) ?_ ?_ _
  · intro collector c
    rcases collector.ask_cases with gets | stops <;> simp [Collector.party, *]
  · intro collector
    rcases collector.ask_cases with gets | stops <;> simp [Collector.party, *]

theorem survey_eq_shown (fuel : Nat) (m : Machine) :
    survey fuel m = ((start .streaming (Worker.ofMachine m) {}).run (Worker.party .streaming)
      Collector.party fuel).bind shown? := by
  rw [survey, attend]
  cases (start .streaming (Worker.ofMachine m) {}).run (Worker.party .streaming)
      Collector.party fuel with
  | none => rfl
  | some s =>
      rw [Option.bind_some, shown?]
      cases ended : s.core.ending? with
      | none => simp [ended]
      | some ending => cases ending <;> simp [ended]

/-- Some interleaving follows the run of the machine alone. -/
theorem exists_films_of_run (ran : m.run device fuel {} = some o)
    (sated : ∀ ip, o.result ≠ .error (.fault (.inputClosed ip))) :
    ∃ es t, Films m es t ∧ t.complete (Worker.party .streaming) Collector.party = true ∧
      t.core = .stopped o.ending ∧ t.controller.values = o.device.output.toList := by
  rcases m with ⟨c, state⟩
  cases state with
  | halted =>
      rw [run_halted rfl] at ran
      cases ran
      exact exists_steps_of_stopped (.ok ⟨c, .halted⟩) {}
  | running =>
      obtain ⟨n, c', b', -, far, stops⟩ := run_eq_some_iff.mp ran
      obtain ⟨⟨es, steps⟩, dry, roomy⟩ := exists_steps_of_advance rfl rfl far
      have unasked : ∀ ip, (c'.step device b').1 ≠ .failed (.fault (.inputClosed ip)) := by
        intro ip fails
        cases stops with
        | halted step =>
            rw [step] at fails
            cases fails
        | failed step =>
            rw [step] at fails
            cases fails
            exact sated ip rfl
      obtain ⟨e, last, -⟩ := exists_step_of_step dry roomy unasked
      rw [Worker.ofProgress_of_stops stops] at last
      obtain ⟨fs, t, dropping, completed, core, values⟩ :=
        exists_steps_of_stopped o.ending (c'.step device b').2.2
      refine ⟨_, t, steps.append (.cons last dropping), completed, core, ?_⟩
      rw [values]
      cases stops with
      | halted step => rw [step]
      | failed step => rw [step]

theorem shown_of_stopped (core : t.core = .stopped o.ending)
    (values : t.controller.values = o.device.output.toList) :
    t.shown? = some (Scaffold.ofResult (o.result.map fun _ => o.device.output.toList)) := by
  rw [shown?, core, values]
  rcases o.ending_cases with ⟨ok, ending⟩ | ⟨f, failed, ending⟩ | ⟨trap, failed, ending⟩ <;>
    simp [*, Worker.ending?, Scaffold.ofResult, Except.map, Breakdown.ofFailure]

end Session

theorem Scaffold.alignment_of_ofResult {result : Except Failure (List Word)}
    (short : ∀ output, result = .ok output → output.length ≤ 2 ^ 21) :
    ((ofResult result).bind fun s => s.alignment.mapError .trap) =
      (ofResult result).map alignmentSum := by
  cases result with
  | error f => rfl
  | ok output =>
      rw [ofResult]
      cases shown : ofFrame output with
      | error e => rfl
      | ok s =>
          have sum := alignment_eq_sum shown (short output rfl)
          rw [Except.bind, Except.map, sum]
          rfl

open Session in
/-- A machine that stops alone without asking for a value is surveyed as it runs alone, however it
interleaves with the collector: its failure is reported, whatever it has shown before, and if it
halts then all of its output is read as one frame. The alignment of a scaffold from an output that
is not too long is the exact sum. -/
theorem survey_eq_buffered (m : Machine) {k : Nat} {result : Except Failure (List Word)}
    {left : Machine} (ran : m.runBuffered k [] = some (result, left))
    (sated : ∀ ip, result ≠ .error (.fault (.inputClosed ip))) :
    (∃ n, (∀ es s, Films m es s → es.length ≤ n ∧
        ∃ fs t, Steps (Worker.party .streaming) Collector.party s fs t ∧
          t.complete (Worker.party .streaming) Collector.party = true) ∧
      ∀ fuel, n < fuel → survey fuel m = some (Scaffold.ofResult result)) ∧
    (∀ es s, Films m es s → s.complete (Worker.party .streaming) Collector.party = true →
      s.shown? = some (Scaffold.ofResult result)) ∧
    (∀ fuel found, survey fuel m = some found → found = Scaffold.ofResult result) ∧
    ((∀ output, result = .ok output → output.length ≤ 2 ^ 21) → ∀ fuel,
      alignment fuel m = (survey fuel m).map fun found => found.map Scaffold.alignmentSum) := by
  obtain ⟨o, alone, same⟩ := Option.map_eq_some_iff.mp ran
  cases same
  have unasked : ∀ ip, o.result ≠ .error (.fault (.inputClosed ip)) := by
    intro ip asked
    exact sated ip (by rw [asked, Except.map])
  -- One interleaving follows the run alone; since nobody gives up a wait, all others end with it.
  obtain ⟨es, t, films, completed, core, values⟩ := exists_films_of_run alone unasked
  have calm := films_stay_calm m
  have ended := ended_of_complete completed
  have shown := shown_of_stopped core values
  have found_eq : ∀ fuel found, survey fuel m = some found →
      found = Scaffold.ofResult (o.result.map fun _ => o.device.output.toList) := by
    intro fuel found surveyed
    rw [survey_eq_shown] at surveyed
    obtain ⟨s, there, result⟩ := Option.bind_eq_some_iff.mp surveyed
    cases eq_of_run calm films ended there
    exact Option.some.inj (result.symm.trans shown)
  refine ⟨⟨es.length, ?coming, ?scheduled⟩, ?agreeing, found_eq, ?aligning⟩
  case coming =>
    intro fs s films'
    obtain ⟨gs, rest, perm⟩ := exists_steps_of_ended calm films ended films'
    refine ⟨?_, gs, t, rest, completed⟩
    rw [← perm.length_eq, List.length_append]
    exact Nat.le_add_right _ _
  case scheduled =>
    intro fuel enough
    rw [survey_eq_shown, run_of_ended calm films ended enough]
    exact shown
  case agreeing =>
    intro fs s films' completed'
    rw [eq_of_ended calm films' (ended_of_complete completed') films ended]
    exact shown
  case aligning =>
    intro short fuel
    rw [alignment]
    cases surveyed : survey fuel m with
    | none => rfl
    | some found =>
        rw [found_eq fuel found surveyed, Option.map_some, Option.map_some,
          Scaffold.alignment_of_ofResult short]

def printing (codes last : List Word) : Machine :=
  .ofProgram (codes.flatMap (fun code => [104, code]) ++ last)

def plusFrame : List Word := [46, 35, 46, 10, 35, 35, 35, 10, 46, 35, 46, 10]

/-- A frame is read if the program halts; what is no frame does not matter if it fails. -/
theorem survey_eq_buffered_printing :
    (∃ n, ∀ fuel, n < fuel → alignment fuel (printing plusFrame [99]) = some (.ok 1)) ∧
      ∃ n, ∀ fuel, n < fuel → survey fuel (printing [1, 2] [77]) =
        some (.error (.core (.fault (.unknownOpcode 77 4)))) := by
  constructor
  · have halts : ((printing plusFrame [99]).runBuffered 20 []).map Prod.fst =
        some (.ok plusFrame) := by decide +kernel
    have sum : (Scaffold.ofResult (.ok plusFrame)).map Scaffold.alignmentSum = .ok 1 := by
      decide +kernel
    obtain ⟨⟨result, left⟩, ran, rfl⟩ := Option.map_eq_some_iff.mp halts
    obtain ⟨⟨n, -, surveyed⟩, -, -, aligned⟩ := survey_eq_buffered _ ran nofun
    have short : ∀ output, (.ok plusFrame : Except Failure _) = .ok output →
        output.length ≤ 2 ^ 21 := by
      rintro output ⟨⟩
      decide
    refine ⟨n, fun fuel enough => ?_⟩
    rw [aligned short fuel, surveyed fuel enough, Option.map_some, sum]
  · have fails : ((printing [1, 2] [77]).runBuffered 20 []).map Prod.fst =
        some (.error (.fault (.unknownOpcode 77 4))) := by decide +kernel
    obtain ⟨⟨result, left⟩, ran, rfl⟩ := Option.map_eq_some_iff.mp fails
    obtain ⟨⟨n, -, surveyed⟩, -⟩ := survey_eq_buffered _ ran nofun
    exact ⟨n, surveyed⟩

end Shipboard
