import Shipboard.Proofs.Core.Growth
import Shipboard.Proofs.Scaffold.Compression
import Shipboard.Proofs.Scaffold.Guidance
import Shipboard.Proofs.Scaffold.Lines
import Shipboard.Proofs.Session.Confluence
import Shipboard.Proofs.Session.Parting

/-!
A rescue can be replayed. The answers of a guide depend only on the frame, so a rescue that comes
off is what the woken machine does alone on these answers. Where the guide or the machine fails, the
guide's error is reported first, and a machine that is left alone is no hindrance.
-/

namespace Shipboard

namespace Buffer

def unlimited (b : Buffer) : Buffer := { b with room := none }

theorem take_unlimited (b : Buffer) : b.unlimited.take = (b.take.1, b.take.2.unlimited) := by
  rcases b with ⟨input, output, room⟩
  cases input <;> rfl

theorem put_unlimited {b : Buffer} {v : Word} (accepted : (b.put v).1 = true) :
    b.unlimited.put v = ((b.put v).1, (b.put v).2.unlimited) := by
  rcases b with ⟨input, output, room⟩
  cases room with
  | none => rfl
  | some n =>
      cases n with
      | zero => cases accepted
      | succ n => rfl

end Buffer

open Buffer in
theorem Core.step_unlimited {c : Core} {b : Buffer}
    (accepted : (c.step device b).1 ≠ .failed (.fault (.outputClosed c.ip))) :
    c.step device b.unlimited =
      ((c.step device b).1, (c.step device b).2.1, (c.step device b).2.2.unlimited) := by
  refine step_map unlimited ?_ ?_
  · intro next a effect
    exact take_unlimited b
  · intro next v effect
    cases given : (b.put v).1 with
    | true => exact put_unlimited given
    | false =>
        have refused : device.put b v = (false, (b.put v).2) := Prod.ext given rfl
        rw [step_of_no_output effect refused] at accepted
        exact absurd rfl accepted

namespace Machine

open Buffer

theorem run_unlimited {m : Machine} {fuel : Nat} {b : Buffer} {o : Outcome Buffer}
    (ran : m.run device fuel b = some o) (ok : o.result = .ok ()) :
    m.run device fuel b.unlimited = some { o with device := o.device.unlimited } := by
  rcases m with ⟨c, state⟩
  cases state with
  | halted =>
      rw [run_halted rfl] at ran ⊢
      cases ran
      rfl
  | running =>
      obtain ⟨n, c', b', below, far, stops⟩ := run_eq_some_iff.mp ran
      refine run_eq_some_iff.mpr ⟨n, c', b'.unlimited, below, ?_, ?_⟩
      · refine Core.advance_map unlimited ?_ far
        intro d d' b b' goes
        rw [Core.step_unlimited (by simp [goes]), goes]
      · cases stops with
        | failed step => cases ok
        | halted step =>
            refine .halted ?_
            rw [Core.step_unlimited (by simp [step]), step]

/-- The machine `woken` is `m` with a two in its first cell. -/
structure Wakes (m woken : Machine) : Prop where
  poked : m.poke? 0 wakeUp = .ok woken
  first : woken.core.memory.read 0 = 2
  others : ∀ a, a ≠ 0 → woken.core.memory.read a = m.core.memory.read a
  size : woken.core.memory.size = max m.core.memory.size 1
  ip : woken.core.ip = m.core.ip
  base : woken.core.base = m.core.base
  state : woken.state = m.state

theorem exists_wakes (m : Machine) : ∃ woken, m.Wakes woken := by
  have fits : m.core.memory.refusal 0 = none := Memory.refusal_of_low _ (by decide)
  refine ⟨{ m with core := { m.core with memory := m.core.memory.write 0 wakeUp } }, ?_⟩
  refine { poked := ?_, first := Memory.read_write_self _ _ _, others := ?_, size := ?_,
           ip := rfl, base := rfl, state := rfl }
  · rw [poke?, Memory.write?, fits]
    rfl
  · intro a other
    exact Memory.read_write_of_ne _ _ other.symm
  · have grown : Memory.grownSize 0 = 1 := rfl
    have first : (0 : Address).toNat = 0 := rfl
    rw [Memory.size_write, grown, first]
    split <;> omega

end Machine

namespace ControllerError

theorem settle_error {α : Type} (e : ControllerError) (ending : Ending) :
    settle (.error e : Except ControllerError α) ending = .error e := rfl

theorem settle_eq_ok {α : Type} {result : Except ControllerError α} {ending : Ending} {a : α}
    (h : settle result ending = .ok a) : result = .ok a ∧ ∃ m, ending = .ok m := by
  cases result with
  | error e => cases h
  | ok b =>
      cases ending with
      | error trouble => cases h
      | ok m =>
          cases h
          exact ⟨rfl, m, rfl⟩

theorem settle_eq_core {α : Type} {result : Except ControllerError α} {ending : Ending}
    (own : ∀ e, result = .error e → Guide.IsOwn e) (b : Breakdown) :
    settle result ending = .error (.core b) ↔ (∃ a, result = .ok a) ∧ ending = .error b := by
  cases result with
  | error e =>
      constructor
      · intro h
        cases h
        exact absurd rfl (own _ rfl b)
      · rintro ⟨⟨a, wrong⟩, -⟩
        cases wrong
  | ok a =>
      cases ending with
      | error trouble =>
          constructor
          · intro h
            cases h
            exact ⟨⟨a, rfl⟩, rfl⟩
          · rintro ⟨-, same⟩
            cases same
            rfl
      | ok m =>
          constructor
          · intro h
            cases h
          · rintro ⟨-, wrong⟩
            cases wrong

end ControllerError

/-- How a session can have gone in which a guide attends a machine. -/
def Rescues (m : Machine) (video : Bool) (es : List Event) (s : Session Worker Guide) : Prop :=
  Session.Steps (Worker.party .streaming) Guide.party
    (Session.start .streaming (Worker.ofMachine m) { video }) es s

/-- Alone on the answers of a rescue, the machine halts and writes `output`, which starts with the
frame that the answers are for and ends with the amount of dust. -/
structure Replays (m : Machine) (video : Bool) (r : Rescue) (output : List Word) : Prop where
  halts : ∃ lines k o, r.routines.lines = .ok lines ∧ lines.length = 4 ∧
    (∀ fuel, k ≤ fuel → m.run Buffer.device fuel
      { input := (lines ++ [[if video then 'y' else 'n']]).flatMap Text.lineCodes } = some o) ∧
    o.result = .ok () ∧ o.machine.state = .halted ∧ o.device.input = [] ∧
    o.device.output.toList = output
  planned : ∃ frame scaffold route, Stream.Framed frame output ∧
    Scaffold.ofFrame frame = .ok scaffold ∧ scaffold.route = .ok route ∧
    route.compress? = some r.routines ∧ r.routines.expand = .ok route
  dust : output.getLast? = some r.dust

namespace Session

open ControllerError

variable {m : Machine} {video : Bool} {es fs : List Event} {s t : Session Worker Guide}

theorem rescue_stays_calm (m : Machine) (video : Bool) :
    StaysCalm (Worker.party .streaming) Guide.party
      (start .streaming (Worker.ofMachine m) { video }) :=
  staysCalm_of_asks (Worker.ask_ne_getSoon .streaming) (fun g => (Guide.ask_ne g).1)
    (fun g => (Guide.ask_ne g).2.1) _

theorem own_of_result (h : Rescues m video es s) {e : ControllerError}
    (failed : s.controller.result? = some (.error e)) : Guide.IsOwn e := by
  have follows := (guided_of_steps h).follows
  rw [(stop_of_result failed).1] at follows
  generalize sent es = given at follows
  cases follows with
  | refused reads refuses => exact Guide.errs_plan video _ e refuses
  | planned reads plans stage =>
      cases stage with
      | finished concludes => cases concludes <;> exact Guide.isOwn_closed _

theorem replays_of_result {r : Rescue} {final : Machine} (h : Rescues m video es s)
    (rescued : s.controller.result? = some (.ok r)) (core : s.core = .stopped (.ok final)) :
    Replays m video r (received es) := by
  have follows := (guided_of_steps h).follows
  rw [(stop_of_result rescued).1] at follows
  obtain ⟨k, o, ran, output, input, ending⟩ := stopped_of_steps h core
  have ok : o.result = .ok () := by
    rcases o.ending_cases with ⟨ok, -⟩ | ⟨f, -, failed⟩ | ⟨t, -, failed⟩
    · exact ok
    · cases ending.trans failed
    · cases ending.trans failed
  generalize received es = got at *
  generalize sent es = given at *
  cases follows with
  | planned reads plans stage =>
      cases stage with
      | finished concludes =>
          -- A guide that has its report has sent all the lines for the frame that it has read.
          obtain ⟨here, rfl, -⟩ := concludes.of_ok
          obtain ⟨framed, last, rfl⟩ := here.framed reads
          obtain ⟨scaffold, route, lines, read, traced, found, written, rfl⟩ := Guide.of_plan plans
          have halted := Machine.halted_of_run (ran k (Nat.le_refl k)) ok
          refine { halts := ?_, planned := ?_, dust := last }
          · refine ⟨lines, k, { o with device := o.device.unlimited }, written,
              Routines.length_lines written, ?_, ok, halted, input, output⟩
            intro fuel enough
            exact Machine.run_unlimited (ran fuel enough) ok
          · exact ⟨_, scaffold, route, framed, read, traced, found,
              Route.expand_of_compress? found⟩

/-- Whatever has happened in a session that is complete, the rescue says how both sides ended. -/
theorem rescue_of_complete {fuel : Nat} {woken : Machine} (pokes : m.poke? 0 wakeUp = .ok woken)
    (h : Rescues woken video es s)
    (completed : s.complete (Worker.party .streaming) Guide.party = true)
    (enough : es.length < fuel) : ∃ result ending, s.controller.result? = some result ∧
      s.core = .stopped ending ∧ rescue fuel m video = some (settle result ending) := by
  have ran := run_of_ended (rescue_stays_calm woken video) h (ended_of_complete completed) enough
  simp only [complete, coreGone, controllerGone, Bool.and_eq_true, decide_eq_true_eq] at completed
  obtain ⟨⟨coreStops, -⟩, stops, -⟩ := completed
  obtain ⟨ending, core⟩ := Worker.stopped_of_ask coreStops
  obtain ⟨result, finished⟩ := result_of_stop stops
  refine ⟨result, ending, finished, core, ?_⟩
  have attended : woken.attend fuel .streaming Guide.party { video } =
      some (s.controller, ending) := by
    rw [Machine.attend]
    exact Option.bind_eq_some_iff.mpr ⟨s, ran, by simp [core, Worker.ending?]⟩
  rw [rescue, pokes]
  simp [attended, finished]

/-- What a rescue says comes from a session that is complete. -/
theorem complete_of_rescue {fuel : Nat} {woken : Machine} (pokes : m.poke? 0 wakeUp = .ok woken)
    {x : Except ControllerError Rescue} (h : rescue fuel m video = some x) :
    ∃ es s result ending, Rescues woken video es s ∧
      s.complete (Worker.party .streaming) Guide.party = true ∧
      s.controller.result? = some result ∧ s.core.ending? = some ending ∧
      x = settle result ending := by
  rw [rescue, pokes] at h
  obtain ⟨⟨g, ending⟩, attended, h⟩ := Option.bind_eq_some_iff.mp h
  obtain ⟨result, finished, reported⟩ := Option.bind_eq_some_iff.mp h
  rw [Machine.attend] at attended
  obtain ⟨s, ran, h'⟩ := Option.bind_eq_some_iff.mp attended
  obtain ⟨ending', ended, same⟩ := Option.bind_eq_some_iff.mp h'
  cases same
  obtain ⟨es, steps, idle⟩ := ended_of_run (rescue_stays_calm woken video) ran
  refine ⟨es, s, result, ending, steps, ?_, finished, ended, (Option.some.inj reported).symm⟩
  rcases goes_on_of_done (p := .streaming) (stop_of_result finished).2 with complete | ⟨e, t, step⟩
  · exact complete
  · exact absurd step (idle e t)

end Session

open Session ControllerError in
/-- A machine can always be woken, which changes its first cell only. Whichever way a guide and a
woken machine interleave, if both come to an end then the rescue reports how: the guide's own error
first, else the machine's trouble, and otherwise routines and an amount of dust that the machine
alone would give for the same answers. A guide that is done drops its channels before anybody waits
for the machine, which then fails if it needs them and is never stuck. -/
theorem rescue_replays (m : Machine) (video : Bool) : ∃ woken, m.Wakes woken ∧
    (∀ es s, Rescues woken video es s →
      s.complete (Worker.party .streaming) Guide.party = true →
      ∃ result ending, s.controller.result? = some result ∧ s.core.ending? = some ending ∧
        (∀ fuel, es.length < fuel → rescue fuel m video = some (settle result ending)) ∧
        (∀ e, result = .error e → settle result ending = .error e) ∧
        (∀ b, settle result ending = .error (.core b) ↔
          (∃ r, result = .ok r) ∧ ending = .error b) ∧
        ∀ r, settle result ending = .ok r → Replays woken video r (received es)) ∧
    (∀ fuel x, rescue fuel m video = some x → ∃ es s result ending, Rescues woken video es s ∧
      s.complete (Worker.party .streaming) Guide.party = true ∧
      s.controller.result? = some result ∧ s.core.ending? = some ending ∧
      x = settle result ending) ∧
    ∀ es s result, Rescues woken video es s → s.controller.result? = some result →
      (s.complete (Worker.party .streaming) Guide.party = true ∨
        ∃ e t, Step (Worker.party .streaming) Guide.party s e t) ∧
      (∀ fs t, Steps (Worker.party .streaming) Guide.party s fs t →
        t.controller.result? = some result ∧ sent fs = [] ∧ received fs = []) ∧
      (∀ c, s.links.controller.holds c = true →
        ∃ t, Step (Worker.party .streaming) Guide.party s (.controller (.drop c)) t) ∧
      (s.links.controller.isEmpty = true → ∀ c pulsed, s.core = .active c pulsed →
        c.isAlone = false →
        (∃ t, Step (Worker.party .streaming) Guide.party s (.core (.hear .closed)) t) ∧
          ∀ e t, Step (Worker.party .streaming) Guide.party s e t → e = .core (.hear .closed) ∧
            ∃ f, (f = .inputClosed c.ip ∨ f = .outputClosed c.ip) ∧
              t.core = .stopped (.error (.fault f))) := by
  obtain ⟨woken, wakes⟩ := m.exists_wakes
  have pokes := wakes.poked
  refine ⟨woken, wakes, ?ending, ?coming, ?leaving⟩
  case ending =>
    intro es s rescues completed
    obtain ⟨result, ending, finished, core, -⟩ :=
      rescue_of_complete pokes rescues completed (Nat.lt_succ_self _)
    refine ⟨result, ending, finished, by rw [core]; rfl, ?_, ?_, ?_, ?_⟩
    · intro fuel enough
      obtain ⟨result', ending', finished', core', reported⟩ :=
        rescue_of_complete pokes rescues completed enough
      cases finished.symm.trans finished'
      cases core.symm.trans core'
      exact reported
    · rintro e rfl
      exact settle_error e ending
    · intro b
      refine settle_eq_core ?_ b
      rintro e rfl
      exact own_of_result rescues finished
    · intro r settled
      obtain ⟨rfl, final, rfl⟩ := settle_eq_ok settled
      exact replays_of_result rescues finished core
  case coming =>
    intro fuel x reported
    exact complete_of_rescue pokes reported
  case leaving =>
    intro es s result rescues finished
    have stops := (stop_of_result finished).2
    refine ⟨goes_on_of_done stops, ?_, ?_, ?_⟩
    · intro fs t later
      obtain ⟨same, unsent, unreceived⟩ := done_steps stops later
      exact ⟨by rw [same, finished], unsent, unreceived⟩
    · intro c held
      exact ⟨_, drop_of_done stops held⟩
    · intro empty c pulsed core needs
      exact fails_of_left stops empty core needs

def promptFor (reads : Nat) : List Word := [104, 10] ++ (List.replicate reads [3, 60]).flatten

/-- Puts the sum of three and three, or their product when it has been woken, aside. Then it shows
a robot with one cell of scaffold to its right, prompts for five lines and writes what it has put
aside. -/
def cornerProgram : Machine :=
  .ofProgram ([1, 58, 58, 57] ++ [104, 94, 104, 35, 104, 10, 104, 10] ++ promptFor 2 ++
    promptFor 4 ++ promptFor 4 ++ promptFor 4 ++ promptFor 2 ++ [4, 57, 99, 0, 3])

def cornerRescue : Rescue := ⟨⟨[0], [[.right, .forward 1]]⟩, 9⟩

/-- On the same answers the program that has not been woken ends with a six. -/
theorem rescue_replays_cornerProgram :
    rescue 120 cornerProgram false = some (.ok cornerRescue) ∧
      (∃ woken es s, cornerProgram.Wakes woken ∧ woken.core.memory.read 0 = 2 ∧
        Rescues woken false es s ∧
        s.complete (Worker.party .streaming) Guide.party = true ∧
        Replays woken false cornerRescue (Session.received es) ∧
        (Session.received es).getLast? = some 9) ∧
      cornerProgram.core.memory.read 0 = 1 ∧
      ∃ lines, cornerRescue.routines.lines = .ok lines ∧
        (cornerProgram.runBuffered 120 ((lines ++ [['n']]).flatMap Text.lineCodes)).map
          (fun ran => ran.1.map (·.getLast?)) = some (.ok (some 6)) := by
  have reported : rescue 120 cornerProgram false = some (.ok cornerRescue) := by decide +kernel
  refine ⟨reported, ?_, by decide +kernel, _, rfl, by decide +kernel⟩
  obtain ⟨woken, wakes, ending, coming, -⟩ := rescue_replays cornerProgram false
  obtain ⟨es, s, result, ended, rescues, completed, finished, core, settled⟩ :=
    coming 120 _ reported
  obtain ⟨result', ended', finished', core', -, -, -, replays⟩ := ending es s rescues completed
  cases finished.symm.trans finished'
  cases core.symm.trans core'
  have replayed := replays _ settled.symm
  exact ⟨woken, es, s, wakes, wakes.first, rescues, completed, replayed, replayed.dust⟩

end Shipboard
