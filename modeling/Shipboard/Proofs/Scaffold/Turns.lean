import Shipboard.Proofs.Scaffold.Guidance
import Shipboard.Proofs.Scaffold.Soundness
import Shipboard.Proofs.Session.Ledger

/-!
A guide speaks in turn. Whatever the core does, it is sent the lines of the plan and nothing else,
each of them after its prompt; and what the guide reports in the end says how far the two have come.
-/

namespace Shipboard

open Text

namespace Guide

variable {video : Bool} {cut : Channel → Prop} {phase : Phase} {frame behind got given : List Word}
  {routines : Routines} {front back lines : List (List Char)} {line : List Char}
  {result : Except ControllerError Rescue} {c : Channel} {m n : Nat}

def answers (lines : List (List Char)) (n : Nat) : List Word := (lines.take n).flatMap lineCodes

theorem answers_isPrefix (lines : List (List Char)) (le : m ≤ n) :
    answers lines m <+: answers lines n := by
  obtain ⟨more, all⟩ := List.take_prefix_take_left (l := lines) le
  exact ⟨more.flatMap lineCodes, by rw [answers, answers, ← all, List.flatMap_append]⟩

theorem answers_of_length_le (all : lines.length ≤ n) :
    answers lines n = lines.flatMap lineCodes := by
  rw [answers, List.take_of_length_le all]

theorem answers_front (split : lines = front ++ line :: back) :
    answers lines front.length = front.flatMap lineCodes := by
  rw [answers, split, List.take_left]

theorem answers_front_succ (split : lines = front ++ line :: back) :
    answers lines (front.length + 1) = front.flatMap lineCodes ++ lineCodes line := by
  have split' : lines = (front ++ [line]) ++ back := by
    rw [split, List.append_assoc, List.singleton_append]
  have count : front.length + 1 = (front ++ [line]).length := by
    rw [List.length_append, List.length_singleton]
  rw [answers, split', count, List.take_left, List.flatMap_append, List.flatMap_singleton]

theorem Unprompted.place (here : Unprompted lines behind given) :
    behind.count newline < lines.length ∧ given = answers lines (behind.count newline) := by
  obtain ⟨front, line, back, split, prompts, rfl⟩ := here
  rw [prompts, answers_front split]
  refine ⟨?_, rfl⟩
  rw [split, List.length_append, List.length_cons]
  omega

theorem Unanswered.place (here : Unanswered lines behind given) :
    given <+: answers lines (behind.count newline) ∧
      given.length < (answers lines (behind.count newline)).length := by
  obtain ⟨front, line, back, done, left, split, codes, unsent, prompts, rfl⟩ := here
  rw [prompts.count, answers_front_succ split, codes, ← List.append_assoc]
  refine ⟨List.prefix_append _ _, ?_⟩
  have some_left := List.length_pos_iff.mpr unsent
  simp only [List.length_append]
  omega

theorem Unreported.place (here : Unreported lines behind given) :
    behind.count newline = lines.length ∧ behind.getLast? = some newline ∧
      given = answers lines (behind.count newline) := by
  obtain ⟨prompts, rfl⟩ := here
  exact ⟨prompts.count, prompts.last, (answers_of_length_le (Nat.le_of_eq prompts.count.symm)).symm⟩

theorem Reported.place {dust : Word} (here : Reported lines behind given dust) :
    lines.length ≤ behind.count newline ∧ behind.getLast? = some dust ∧
      (behind.count newline = lines.length → dust ≠ newline) ∧
      given = answers lines (behind.count newline) := by
  obtain ⟨prompts, report, rfl, whole, last, rfl⟩ := here
  have some_report : report ≠ [] := by
    rintro rfl
    cases last
  have le : lines.length ≤ (prompts ++ report).count newline := by
    rw [List.count_append, whole.count]
    exact Nat.le_add_right _ _
  refine ⟨le, ?_, ?_, (answers_of_length_le le).symm⟩
  · rw [List.getLast?_append_of_ne_nil _ some_report, last]
  · rintro no_more rfl
    rw [List.count_append, whole.count] at no_more
    have one_more := List.count_pos_iff.mpr (List.mem_of_getLast? last)
    omega

def report (routines : Routines) (lines : List (List Char)) (behind given : List Word) :
    Except ControllerError Rescue :=
  let prompts := behind.count newline
  if given.length < (answers lines prompts).length then .error (.closed .movementRoutine)
  else if prompts < lines.length then .error (.closed .prompt)
  else
    match behind.getLast? with
    | none => .error (.closed .dustReport)
    | some dust =>
        if prompts = lines.length ∧ dust = newline then .error (.closed .dustReport)
        else .ok ⟨routines, dust⟩

theorem Concludes.eq_report (concludes : Concludes cut routines lines behind given result) :
    result = report routines lines behind given := by
  cases concludes with
  | unprompted here now =>
      obtain ⟨few, same⟩ := here.place
      rw [report, if_neg (congrArg List.length same).not_lt, if_pos few]
  | unanswered here now =>
      rw [report, if_pos here.place.2]
  | unreported here now =>
      obtain ⟨all, last, same⟩ := here.place
      rw [report, if_neg (congrArg List.length same).not_lt, if_neg all.not_lt, last]
      exact (if_pos ⟨all, rfl⟩).symm
  | reported here now =>
      obtain ⟨all, last, more, same⟩ := here.place
      rw [report, if_neg (congrArg List.length same).not_lt, if_neg all.not_gt, last]
      refine (if_neg ?_).symm
      rintro ⟨no_more, newline⟩
      exact more no_more newline

theorem Concludes.unique {cut' : Channel → Prop} {result' : Except ControllerError Rescue}
    (h : Concludes cut routines lines behind given result)
    (k : Concludes cut' routines lines behind given result') : result = result' :=
  h.eq_report.trans k.eq_report.symm

/-- What each result of a guide means: which channel the core has let go of, and at which point of
the lines. -/
structure Accounts (cut : Channel → Prop) (routines : Routines) (lines : List (List Char))
    (behind given : List Word) (result : Except ControllerError Rescue) : Prop where
  prompt : result = .error (.closed .prompt) ↔ cut .fromCore ∧ Unprompted lines behind given
  movementRoutine : result = .error (.closed .movementRoutine) ↔
    cut .toCore ∧ Unanswered lines behind given
  dustReport : result = .error (.closed .dustReport) ↔
    cut .fromCore ∧ Unreported lines behind given
  rescue : ∀ r, result = .ok r ↔
    cut .fromCore ∧ r.routines = routines ∧ Reported lines behind given r.dust
  among : result = .error (.closed .prompt) ∨ result = .error (.closed .movementRoutine) ∨
    result = .error (.closed .dustReport) ∨ ∃ r, result = .ok r

theorem Concludes.accounts (concludes : Concludes cut routines lines behind given result) :
    Accounts cut routines lines behind given result := by
  refine
    { prompt := ⟨?_, ?_⟩
      movementRoutine := ⟨?_, ?_⟩
      dustReport := ⟨?_, ?_⟩
      rescue := fun r => ⟨?_, ?_⟩
      among := ?_ }
  · rintro rfl
    cases concludes with
    | unprompted here now => exact ⟨now, here⟩
  · rintro ⟨now, here⟩
    exact concludes.unique (.unprompted here now)
  · rintro rfl
    cases concludes with
    | unanswered here now => exact ⟨now, here⟩
  · rintro ⟨now, here⟩
    exact concludes.unique (.unanswered here now)
  · rintro rfl
    cases concludes with
    | unreported here now => exact ⟨now, here⟩
  · rintro ⟨now, here⟩
    exact concludes.unique (.unreported here now)
  · rintro rfl
    obtain ⟨here, same, now⟩ := concludes.of_ok
    exact ⟨now, same, here⟩
  · rcases r with ⟨routines', dust⟩
    rintro ⟨now, rfl, here⟩
    exact concludes.unique (.reported here now)
  · cases concludes with
    | unprompted here now => exact .inl rfl
    | unanswered here now => exact .inr (.inl rfl)
    | unreported here now => exact .inr (.inr (.inl rfl))
    | reported here now => exact .inr (.inr (.inr ⟨_, rfl⟩))

theorem Concludes.within (concludes : Concludes cut routines lines behind given result) :
    given <+: answers lines (behind.count newline) := by
  cases concludes with
  | unprompted here now => exact here.place.2 ▸ List.prefix_rfl
  | unanswered here now => exact here.place.1
  | unreported here now => exact here.place.2.2 ▸ List.prefix_rfl
  | reported here now => exact here.place.2.2.2 ▸ List.prefix_rfl

theorem Stage.within (stage : Stage cut routines lines phase behind given) :
    given <+: answers lines (behind.count newline) := by
  cases stage with
  | prompted split prompts =>
      have same := answers_front split
      rw [← prompts] at same
      exact same ▸ List.prefix_rfl
  | answering split codes prompts =>
      rw [prompts.count, answers_front_succ split, codes, ← List.append_assoc]
      exact List.prefix_append _ _
  | @listening prompts report whole =>
      have all : lines.length ≤ (prompts ++ report).count newline := by
        rw [List.count_append, whole.count]
        exact Nat.le_add_right _ _
      exact answers_of_length_le all ▸ List.prefix_rfl
  | finished concludes => exact concludes.within

/-- The lines are sent in order, and the first code of each not before the frame and the prompts up
to its own have come. -/
structure InTurn (lines : List (List Char)) (frame behind got given : List Word) : Prop where
  ordered : given <+: lines.flatMap lineCodes
  prompted : ∀ front line back, lines = front ++ line :: back →
    (front.flatMap lineCodes).length < given.length →
    Stream.Framed frame got ∧ got = frame ++ newline :: behind ∧
      front.length + 1 ≤ behind.count newline

theorem inTurn_nil (lines : List (List Char)) (frame behind got : List Word) :
    InTurn lines frame behind got [] := by
  refine { ordered := List.nil_prefix, prompted := ?_ }
  intro front line back split ahead
  exact absurd ahead (Nat.not_lt_zero _)

theorem Stage.inTurn {Cut : Prop} (stage : Stage cut routines lines phase behind given)
    (reads : Stream.Reads Cut frame behind got) : InTurn lines frame behind got given := by
  have within := stage.within
  refine { ordered := ?_, prompted := ?_ }
  · have all := answers_isPrefix lines (Nat.le_max_left (behind.count newline) lines.length)
    rw [answers_of_length_le (Nat.le_max_right _ _)] at all
    exact within.trans all
  · intro front line back split ahead
    have enough : front.length < behind.count newline := by
      by_contra few
      have short := (within.trans (answers_isPrefix lines (Nat.le_of_not_lt few))).length_le
      rw [answers_front split] at short
      omega
    have more : behind ≠ [] := by
      rintro rfl
      cases enough
    obtain ⟨framed, whole⟩ := reads.framed more
    exact ⟨framed, whole, enough⟩

theorem plan_eq_ok (video : Bool) {scaffold : Scaffold} {route : Route} {own : List (List Char)}
    (read : Scaffold.ofFrame frame = .ok scaffold) (traced : scaffold.route = .ok route)
    (found : route.compress? = some routines) (written : routines.lines = .ok own) :
    plan video frame = .ok (routines, own ++ [[if video then 'y' else 'n']]) := by
  simp only [plan, bind, Except.bind, read, traced, found, written]
  rfl

/-- The frame cannot be read, shows no robot or shows a scaffold for which there are no routines. -/
def Fruitless (frame : List Word) : Prop :=
  (∃ e, Scaffold.ofFrame frame = .error e) ∨ ∃ scaffold, Scaffold.ofFrame frame = .ok scaffold ∧
    (scaffold.robot = none ∨ ∃ route, scaffold.route = .ok route ∧ route.compress? = none)

theorem Fruitless.plan_eq_error (fruitless : Fruitless frame) (video : Bool) :
    ∃ e, plan video frame = .error e := by
  cases planned : plan video frame with
  | error e => exact ⟨e, rfl⟩
  | ok made =>
      rcases made with ⟨routines, lines⟩
      obtain ⟨scaffold, route, own, read, traced, found, -, -⟩ := of_plan planned
      rcases fruitless with ⟨e, unread⟩ | ⟨scaffold', read', alone | ⟨route', traced', missing⟩⟩
      · cases unread.symm.trans read
      · cases read.symm.trans read'
        rw [Scaffold.route, alone] at traced
        cases traced
      · cases read.symm.trans read'
        cases traced.symm.trans traced'
        cases missing.symm.trans found

theorem Follows.unsent (follows : Follows video cut phase got given)
    (read : Stream.readFrame [] got = (frame, behind)) {e : ControllerError}
    (refuses : plan video frame = .error e) : given = [] := by
  cases follows with
  | framing unbroken => rfl
  | refused reads refuses' => rfl
  | planned reads plans stage =>
      cases reads.readFrame.symm.trans read
      cases plans.symm.trans refuses

theorem Follows.planned_cases (follows : Follows video cut phase got given)
    (read : Stream.readFrame [] got = (frame, behind))
    (plans : plan video frame = .ok (routines, lines)) :
    (given = [] ∧ ∀ result, phase ≠ .finished result) ∨
      (Stream.Reads (cut .fromCore) frame behind got ∧
        Stage cut routines lines phase behind given) := by
  cases follows with
  | framing unbroken => exact .inl ⟨rfl, nofun⟩
  | refused reads refuses =>
      cases reads.readFrame.symm.trans read
      cases plans.symm.trans refuses
  | planned reads plans' stage =>
      cases reads.readFrame.symm.trans read
      cases plans.symm.trans plans'
      exact .inr ⟨reads, stage⟩

/-- How often a guide can still be told that a channel is closed. -/
def Phase.rank : Phase → Nat
  | .framing _ => 2
  | .finished _ => 0
  | _ => 1

theorem rank_ofFrame_le (video : Bool) (frame : List Word) :
    (Phase.ofFrame video frame).rank ≤ 1 := by
  rw [Phase.ofFrame]
  split
  · rename_i routines lines plans
    cases lines <;> exact Nat.le_refl 1
  · exact Nat.zero_le 1

theorem rank_hear_closed (asks : (ask ⟨video, phase⟩).channel? = some c) :
    (hearPhase video phase .closed).rank < phase.rank := by
  cases phase with
  | framing gathered => exact Nat.lt_succ_of_le (rank_ofFrame_le video gathered.reverse)
  | prompted routines lines => cases lines <;> exact Nat.zero_lt_one
  | answering routines codes lines =>
      rcases codes with - | ⟨v, - | ⟨w, codes⟩⟩ <;> exact Nat.zero_lt_one
  | listening routines last => cases last <;> exact Nat.zero_lt_one
  | finished result => cases asks

end Guide

namespace Session

open Guide

variable {κ : Type} {P : Party κ} {video : Bool} {es : List Event} {s : Session κ Guide}

theorem Guided.ends (guided : Guided video es s) (left : ∀ c, s.links.core.holds c = false) :
    ∃ fs t result, Steps P Guide.party s fs t ∧ t.controller.result? = some result ∧
      sent fs = [] ∧ received fs = [] := by
  -- On how often it can still be told that a channel is closed.
  induction rank : s.controller.phase.rank using Nat.strongRecOn generalizing es s with
  | ind n ih =>
      cases waits : (Guide.party.ask s.controller).channel? with
      | none =>
          have stops : Guide.party.ask s.controller = .stop := by
            have busy := guided.follows.not_work
            rw [guided.asks] at busy
            rcases ask_cases s.controller with gets | ⟨v, puts⟩ | works | stops
            · cases (congrArg Ask.channel? gets).symm.trans waits
            · cases (congrArg Ask.channel? puts).symm.trans waits
            · exact absurd works busy
            · exact stops
          obtain ⟨result, finished⟩ := result_of_stop stops
          exact ⟨[], s, result, .refl s, finished, rfl, rfl⟩
      | some c =>
          have broken : s.links.whole c = false := by rw [Links.whole, left c, Bool.false_and]
          have step : Step P Guide.party s (.controller (.hear .closed))
              (s.controllerTurn Guide.party (.hear .closed)) := .controller (.closed waits broken)
          have asks : (ask ⟨video, s.controller.phase⟩).channel? = some c := by
            rw [guided.asks]
            exact waits
          have lower := rank_hear_closed asks
          rw [← guided.feed] at lower
          obtain ⟨fs, t, result, steps, finished, unsent, unreceived⟩ :=
            ih _ (rank ▸ lower) (guided_step guided step) left rfl
          exact ⟨_ :: fs, t, result, .cons step steps, finished, unsent, unreceived⟩

end Session

open Session Guide in
/-- Whatever the core does, at any moment a guide has sent some front part of the five lines that
the frame calls for, no line ahead of its prompt, and nothing at all if the frame calls for none.
Its result says exactly how far the two had come when the core let go, and once the core has let go
of everything the guide comes to a result without another value. -/
theorem guide_speaks_in_turn {κ : Type} (P : Party κ) (core : κ) (video : Bool) {es : List Event}
    {s : Session κ Guide} (steps : Steps P Guide.party (start .streaming core { video }) es s)
    {frame behind : List Word} (read : Stream.readFrame [] (received es) = (frame, behind)) :
    (Fruitless frame → sent es = []) ∧
    (∀ scaffold route routines, Scaffold.ofFrame frame = .ok scaffold →
      scaffold.route = .ok route → route.compress? = some routines →
      ∃ own lines, routines.lines = .ok own ∧ lines = own ++ [[if video then 'y' else 'n']] ∧
        lines.length = 5 ∧ InTurn lines frame behind (received es) (sent es) ∧
        ∀ result, s.controller.result? = some result →
          Accounts (fun c => s.links.core.holds c = false) routines lines behind (sent es)
            result) ∧
    ((∀ c, s.links.core.holds c = false) → ∃ fs t result, Steps P Guide.party s fs t ∧
      t.controller.result? = some result ∧ sent fs = [] ∧ received fs = []) := by
  have guided := guided_of_steps steps
  refine ⟨?refusing, ?planning, guided.ends⟩
  case refusing =>
    intro fruitless
    obtain ⟨e, refuses⟩ := fruitless.plan_eq_error video
    exact guided.follows.unsent read refuses
  case planning =>
    intro scaffold route routines shown traced found
    obtain ⟨own, written, four, -⟩ := Routines.lines_of_compress? found
    have plans := plan_eq_ok video shown traced found written
    have cases := guided.follows.planned_cases read plans
    refine ⟨own, _, written, rfl, ?_, ?_, ?_⟩
    · rw [List.length_append, four, List.length_singleton]
    · rcases cases with ⟨unsent, -⟩ | ⟨reads, stage⟩
      · rw [unsent]
        exact inTurn_nil _ _ _ _
      · exact stage.inTurn reads
    · intro result finished
      rw [(stop_of_result finished).1] at cases
      rcases cases with ⟨-, unfinished⟩ | ⟨-, stage⟩
      · exact absurd rfl (unfinished result)
      · cases stage with
        | finished concludes => exact concludes.accounts

/-- Shows a robot beside a cell of scaffold, asks for a line, takes one value and lets go. -/
def leavesEarly : List CoreOp :=
  [.output 94, .output 35, .output 10, .output 10, .output 77, .output 10, .input, .close]

def cornerLines : List (List Char) := ["A", "R,1", "R,1", "R,1", "n"].map String.toList

open Session Guide in
theorem guide_speaks_in_turn_leavesEarly :
    ∃ es s, Steps (CoreScript.party .streaming) Guide.party
        (start .streaming { todo := leavesEarly } { video := false }) es s ∧
      received es = [94, 35, 10, 10, 77, 10] ∧ sent es = [65] ∧
      s.controller.result? = some (.error (.closed .movementRoutine)) ∧
      InTurn cornerLines [94, 35, 10] [77, 10] (received es) (sent es) ∧
      s.links.core.holds .toCore = false ∧ Unanswered cornerLines [77, 10] (sent es) := by
  have ran : ((start .streaming ({ todo := leavesEarly } : CoreScript) { video := false }).run
      (CoreScript.party .streaming) Guide.party 30).map (fun s =>
        (s.core.replies, s.controller.result?)) =
      some ([.ok, .ok, .ok, .ok, .ok, .ok, .value 65, .ok],
        some (.error (.closed .movementRoutine))) := by decide +kernel
  have planned : plan false [94, 35, 10] =
      .ok (⟨[0], [[.right, .forward 1]]⟩, cornerLines) := by decide +kernel
  obtain ⟨s, there, facts⟩ := Option.map_eq_some_iff.mp ran
  simp only [Prod.mk.injEq] at facts
  obtain ⟨replies, finished⟩ := facts
  obtain ⟨es, steps⟩ := steps_of_run there
  have got : received es = [94, 35, 10, 10, 77, 10] := by
    rw [(core_logs steps).given, replies]
    rfl
  have gave : sent es = [65] := by
    rw [(core_logs steps).taken, replies]
    rfl
  have read : Stream.readFrame [] (received es) = ([94, 35, 10], [77, 10]) := by
    rw [got]
    decide
  obtain ⟨scaffold, route, own, shown, traced, found, written, same⟩ := of_plan planned
  obtain ⟨-, planning, -⟩ := guide_speaks_in_turn (CoreScript.party .streaming) _ false steps read
  obtain ⟨own', lines, written', rfl, five, inTurn, accounts⟩ :=
    planning scaffold route _ shown traced found
  cases written.symm.trans written'
  rw [← same] at inTurn accounts
  obtain ⟨left, here⟩ := (accounts _ finished).movementRoutine.mp rfl
  exact ⟨es, s, steps, got, gave, finished, inTurn, left, here⟩

end Shipboard
