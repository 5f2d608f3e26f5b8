import Shipboard.Proofs.Session.Confluence
import Shipboard.Proofs.Session.Ledger

/-!
Two scripts, one at each end of a session. However their steps interleave, they come to an end after
a bounded number of them, always in the same state: each operation gets the same reply, and if the
scripts get stuck once they get stuck always.
-/

namespace Shipboard

namespace ControllerOp

/-- Neither gives up a wait nor looks whether the core has stopped. -/
def isDefinite : ControllerOp → Bool
  | .receiveWithin _ => false
  | .isFinished => false
  | _ => true

theorem Underway.isDefinite {op now : ControllerOp} {gathered given taken : List Word}
    (h : op.Underway now gathered given taken) (definite : op.isDefinite = true) :
    now.isDefinite = true := by
  cases h with
  | fresh op => exact definite
  | sending front behind => rfl
  | skipping unbroken => rfl
  | draining vs => rfl
  | collecting vs n => rfl

end ControllerOp

namespace CoreScript

variable {x : CoreScript} {op : CoreOp} {rest : List CoreOp}

/-- An operation takes at most two steps, a pulse and a value. -/
def effort (x : CoreScript) : Nat := 2 * x.todo.length - x.pulsed.toNat

theorem effort_reply (todo : x.todo = op :: rest) (r : Reply) : (x.reply r).effort < x.effort := by
  have at_most : x.pulsed.toNat ≤ 1 := Bool.toNat_le x.pulsed
  simp only [effort, reply, todo, List.drop_succ_cons, List.drop_zero, List.length_cons,
    Bool.toNat_false]
  omega

theorem effort_pulsed (todo : x.todo = op :: rest) (unpulsed : x.pulsed = false) :
    ({ x with pulsed := true } : CoreScript).effort < x.effort := by
  simp only [effort, todo, unpulsed, List.length_cons, Bool.toNat_false, Bool.toNat_true]
  omega

end CoreScript

namespace ControllerScript

variable {x : ControllerScript} {op : ControllerOp} {rest : List ControllerOp} {p : Protocol}

theorem length_reply (todo : x.todo = op :: rest) (r : Reply) :
    (x.reply r).todo.length < x.todo.length := by
  simp [reply, todo]

theorem length_gave {c : Channel} {v : Word} (puts : x.ask = .put c v) :
    (x.hear p .done).todo.length ≤ x.todo.length := by
  rcases (todo_of_put puts).2 with ⟨rest, todo⟩ | ⟨vs, rest, todo⟩
  · simp [hear.eq_def, reply, todo]
  · simp [hear.eq_def, goOn, todo]

theorem length_got {c : Channel} (gets : x.ask = .get c ∨ x.ask = .getSoon c) (v : Word) :
    (x.hear p (.value v)).todo.length ≤ x.todo.length := by
  rcases gets with gets | gets
  · rcases todo_of_get gets with ⟨-, rest, todo⟩ | ⟨-, ⟨rest, todo⟩ | ⟨rest, todo⟩ |
      ⟨rest, todo⟩ | ⟨n, rest, todo⟩⟩
    · simp [hear.eq_def, reply, todo]
    · simp [hear.eq_def, reply, todo]
    · by_cases ends : v = Text.newline
      · simp [hear.eq_def, reply, todo, ends]
      · simp [hear.eq_def, todo, ends]
    · simp [hear.eq_def, gather, todo]
    · simp [hear.eq_def, gather, goOn, todo]
  · obtain ⟨-, ms, rest, todo⟩ := todo_of_getSoon gets
    simp [hear.eq_def, reply, todo]

end ControllerScript

def Plays (p : Protocol) (coreOps : List CoreOp) (ops : List ControllerOp) (es : List Event)
    (s : Session CoreScript ControllerScript) : Prop :=
  Session.Steps (CoreScript.party p) (ControllerScript.party p)
    (Session.start p { todo := coreOps } { todo := ops }) es s

namespace Session

variable {p : Protocol} {s t : Session CoreScript ControllerScript} {e : Event} {es : List Event}
  {coreOps : List CoreOp} {ops : List ControllerOp}

def scriptEffort (s : Session CoreScript ControllerScript) : Nat :=
  s.core.effort + s.controller.todo.length + s.links.count

theorem scriptEffort_step
    (h : Step (CoreScript.party p) (ControllerScript.party p) s e t) :
    t.scriptEffort < s.scriptEffort := by
  -- Each step shortens one of the lists, takes note of a pulse or drops an end.
  cases h with
  | @core turn may =>
      cases turn with
      | drop c =>
          have dropped := Ends.count_drop may.leaving.2
          simp only [scriptEffort, coreTurn, Links.count]
          omega
      | hear a =>
          obtain ⟨op, rest, r, todo, hears, -, -⟩ := CoreScript.reply_of_may may
          have less := CoreScript.effort_reply todo r
          rw [← hears] at less
          simp only [scriptEffort, coreTurn, CoreScript.party]
          omega
  | @controller turn may =>
      cases turn with
      | drop c =>
          have dropped := Ends.count_drop may.leaving.2
          simp only [scriptEffort, controllerTurn, Links.count]
          omega
      | hear a =>
          obtain ⟨op, rest, r, todo, hears⟩ := ControllerScript.reply_of_may (p := p) may
          have less := ControllerScript.length_reply todo r
          rw [← hears] at less
          simp only [scriptEffort, controllerTurn, ControllerScript.party]
          omega
  | @fromCore c v whole meet =>
      have other := ControllerScript.length_got (p := p) meet.get_eq v
      rcases CoreScript.todo_of_put meet.put_eq with ⟨rest, todo, -, unpulsed⟩ | ⟨rest, todo, -⟩
      · have less := CoreScript.effort_pulsed todo unpulsed
        have hears : s.core.hear .done = { s.core with pulsed := true } := by
          simp only [CoreScript.hear.eq_def, todo]
        rw [← hears] at less
        simp only [scriptEffort, fromCore, CoreScript.party, ControllerScript.party]
        omega
      · have less := CoreScript.effort_reply todo .ok
        have hears : s.core.hear .done = s.core.reply .ok := by
          simp only [CoreScript.hear.eq_def, todo]
        rw [← hears] at less
        simp only [scriptEffort, fromCore, CoreScript.party, ControllerScript.party]
        omega
  | @toCore c v whole meet =>
      have other := ControllerScript.length_gave (p := p) meet.put_eq
      rcases meet.get_eq with gets | gets
      · obtain ⟨-, rest, todo⟩ := CoreScript.todo_of_get gets
        have less := CoreScript.effort_reply todo (.value v)
        have hears : s.core.hear (.value v) = s.core.reply (.value v) := by
          simp only [CoreScript.hear.eq_def, todo]
        rw [← hears] at less
        simp only [scriptEffort, toCore, CoreScript.party, ControllerScript.party]
        omega
      · exact absurd gets (CoreScript.ask_ne_getSoon _ _ _)
  | joined asks gone =>
      obtain ⟨rest, todo, hears⟩ := ControllerScript.hear_joined (p := p) asks
      have less := ControllerScript.length_reply todo .joined
      rw [← hears] at less
      simp only [scriptEffort, controllerTurn, ControllerScript.party]
      omega
  | @polled b asks gone =>
      obtain ⟨rest, todo, hears⟩ := ControllerScript.hear_polled (p := p) asks b
      have less := ControllerScript.length_reply todo (.flag b)
      rw [← hears] at less
      simp only [scriptEffort, controllerTurn, ControllerScript.party]
      omega

theorem scriptEffort_steps
    (h : Steps (CoreScript.party p) (ControllerScript.party p) s es t) :
    es.length + t.scriptEffort ≤ s.scriptEffort := by
  induction h with
  | refl s => simp
  | cons first rest ih =>
      have less := scriptEffort_step first
      rw [List.length_cons]
      omega

theorem scriptEffort_start (p : Protocol) (coreOps : List CoreOp) (ops : List ControllerOp) :
    (start p ({ todo := coreOps } : CoreScript) ({ todo := ops } : ControllerScript)).scriptEffort ≤
      2 * coreOps.length + ops.length + 6 := by
  have ends : (Links.ofProtocol p).count ≤ 6 := by cases p <;> decide
  simp only [scriptEffort, start, CoreScript.effort, Bool.toNat_false]
  omega

theorem exists_ended (p : Protocol) (s : Session CoreScript ControllerScript) :
    ∃ fs t, Steps (CoreScript.party p) (ControllerScript.party p) s fs t ∧
      Ended (CoreScript.party p) (ControllerScript.party p) t := by
  -- On the effort that is left: whatever step is possible uses some of it up.
  induction effort : s.scriptEffort using Nat.strongRecOn generalizing s with
  | ind n ih =>
      by_cases ended : Ended (CoreScript.party p) (ControllerScript.party p) s
      · exact ⟨[], s, .refl s, ended⟩
      · obtain ⟨e, u, step⟩ : ∃ e u,
            Step (CoreScript.party p) (ControllerScript.party p) s e u := by
          simpa [Ended] using ended
        have less := scriptEffort_step step
        rw [effort] at less
        obtain ⟨fs, t, steps, ended'⟩ := ih _ less u rfl
        exact ⟨e :: fs, t, .cons step steps, ended'⟩

theorem definite_of_logs {x : ControllerScript} {given taken : List Word} {now : ControllerOp}
    {rest : List ControllerOp} (definite : ∀ op ∈ ops, op.isDefinite = true)
    (logs : x.Logs ops given taken) (todo : x.todo = now :: rest) : now.isDefinite = true := by
  cases logs with
  | finished all => cases todo
  | @underway before rest' op now' gathered given taken more moreTaken replies split earlier part =>
      cases todo
      have member : op ∈ ops := by simp [split]
      exact part.isDefinite (definite op member)

theorem scripts_stay_calm (definite : ∀ op ∈ ops, op.isDefinite = true) :
    StaysCalm (CoreScript.party p) (ControllerScript.party p)
      (start p { todo := coreOps } { todo := ops }) := by
  intro es t steps
  have logs := controller_logs steps
  refine { core := ?_, controller := ?_, incurious := ?_ }
  · intro c
    exact CoreScript.ask_ne_getSoon t.core p c
  · intro c asks
    obtain ⟨-, ms, rest, todo⟩ := ControllerScript.todo_of_getSoon asks
    cases definite_of_logs definite logs todo
  · intro asks
    obtain ⟨rest, todo⟩ := ControllerScript.todo_of_poll asks
    cases definite_of_logs definite logs todo

theorem plays_moved (h : Plays p coreOps ops es s) :
    received es = CoreScript.outputs coreOps s.core.replies ∧
      sent es = CoreScript.inputs coreOps s.core.replies :=
  ⟨(core_logs h).given, (core_logs h).taken⟩

theorem plays_complete (h : Plays p coreOps ops es s)
    (completed : s.complete (CoreScript.party p) (ControllerScript.party p) = true) :
    s.core.replies.length = coreOps.length ∧
      ControllerOp.Accounted ops s.controller.replies (sent es) (received es) := by
  simp only [complete, coreGone, controllerGone, Bool.and_eq_true, decide_eq_true_eq] at completed
  obtain ⟨⟨coreStops, -⟩, controllerStops, -⟩ := completed
  have coreLogs := core_logs h
  constructor
  · have done := CoreScript.todo_of_stop coreStops
    rw [coreLogs.todo, List.drop_eq_nil_iff] at done
    exact Nat.le_antisymm coreLogs.count done
  · have done := ControllerScript.todo_of_stop controllerStops
    have logs := controller_logs h
    generalize s.controller = x at done logs
    generalize sent es = given at logs
    generalize received es = taken at logs
    cases logs with
    | finished all => exact all
    | underway split earlier part => cases done

end Session

open Session in
/-- However two scripts interleave, they come to an end within a bounded number of steps, and always
to the same one: every operation gets the same reply, and either both scripts are always done or
they are always stuck. The controller has received, in order, the values of the accepted outputs,
and the core's inputs have taken those that were sent. -/
theorem scripts_determined (p : Protocol) (coreOps : List CoreOp) (ops : List ControllerOp)
    (definite : ∀ op ∈ ops, op.isDefinite = true) :
    (∀ es s, Plays p coreOps ops es s →
      es.length ≤ 2 * coreOps.length + ops.length + 6 ∧
      ∃ fs t, Steps (CoreScript.party p) (ControllerScript.party p) s fs t ∧
        Ended (CoreScript.party p) (ControllerScript.party p) t) ∧
    (∀ es s fs t, Plays p coreOps ops es s → Plays p coreOps ops fs t →
      Ended (CoreScript.party p) (ControllerScript.party p) s →
      Ended (CoreScript.party p) (ControllerScript.party p) t →
      s.core.replies = t.core.replies ∧ s.controller.replies = t.controller.replies ∧
      s.complete (CoreScript.party p) (ControllerScript.party p) =
        t.complete (CoreScript.party p) (ControllerScript.party p) ∧
      sent es = sent fs ∧ received es = received fs) ∧
    (∀ es s, Plays p coreOps ops es s →
      s.complete (CoreScript.party p) (ControllerScript.party p) = true →
      Ended (CoreScript.party p) (ControllerScript.party p) s ∧
      s.core.replies.length = coreOps.length ∧
      ControllerOp.Accounted ops s.controller.replies
        (CoreScript.inputs coreOps s.core.replies) (CoreScript.outputs coreOps s.core.replies)) ∧
    ∀ es s, Plays p coreOps ops es s →
      received es = CoreScript.outputs coreOps s.core.replies ∧
      sent es = CoreScript.inputs coreOps s.core.replies ∧
      s.controller.Logs ops (sent es) (received es) := by
  refine ⟨?ending, ?agreeing, ?completing, ?moving⟩
  case ending =>
    intro es s plays
    constructor
    · have bound := scriptEffort_steps plays
      have start := scriptEffort_start p coreOps ops
      omega
    · exact exists_ended p s
  case agreeing =>
    intro es s fs t plays plays' ended ended'
    have same := eq_of_ended (scripts_stay_calm definite) plays ended plays' ended'
    obtain ⟨received_es, sent_es⟩ := plays_moved plays
    obtain ⟨received_fs, sent_fs⟩ := plays_moved plays'
    subst same
    refine ⟨rfl, rfl, rfl, ?_, ?_⟩
    · rw [sent_es, sent_fs]
    · rw [received_es, received_fs]
  case completing =>
    intro es s plays completed
    obtain ⟨count, all⟩ := plays_complete plays completed
    obtain ⟨outputs, inputs⟩ := plays_moved plays
    rw [outputs, inputs] at all
    exact ⟨ended_of_complete completed, count, all⟩
  case moving =>
    intro es s plays
    obtain ⟨outputs, inputs⟩ := plays_moved plays
    exact ⟨outputs, inputs, controller_logs plays⟩

def lineThenInputs : List CoreOp := [.output 77, .output 10, .input, .output 6, .input]

def answersOnce : List ControllerOp := [.skipLine, .awaitPulse, .send 7, .receive, .awaitPulse]

open Session in
theorem scripts_determined_answersOnce :
    ∃ es s, Plays .interactive lineThenInputs answersOnce es s ∧
      s.complete (CoreScript.party .interactive) (ControllerScript.party .interactive) = true ∧
      sent es = [7] ∧ received es = [77, 10, 6] ∧
      ∀ fs t, Plays .interactive lineThenInputs answersOnce fs t →
        Ended (CoreScript.party .interactive) (ControllerScript.party .interactive) t →
        t.core.replies = [.ok, .ok, .value 7, .ok, .closed] ∧
        t.controller.replies = [.flag true, .flag true, .ok, .value 6, .flag true] := by
  have definite : ∀ op ∈ answersOnce, op.isDefinite = true := by decide
  obtain ⟨-, agreeing, completing, moving⟩ :=
    scripts_determined .interactive lineThenInputs answersOnce definite
  have ran : ((start .interactive ({ todo := lineThenInputs } : CoreScript)
      ({ todo := answersOnce } : ControllerScript)).run (CoreScript.party .interactive)
        (ControllerScript.party .interactive) 40).map (fun s =>
          (s.core.replies, s.controller.replies,
            s.complete (CoreScript.party .interactive) (ControllerScript.party .interactive))) =
      some ([.ok, .ok, .value 7, .ok, .closed],
        [.flag true, .flag true, .ok, .value 6, .flag true], true) := rfl
  obtain ⟨s, there, facts⟩ := Option.map_eq_some_iff.mp ran
  simp only [Prod.mk.injEq] at facts
  obtain ⟨coreReplies, replies, completed⟩ := facts
  obtain ⟨es, steps⟩ := steps_of_run there
  obtain ⟨outputs, inputs, -⟩ := moving es s steps
  refine ⟨es, s, steps, completed, ?_, ?_, ?_⟩
  · rw [inputs, coreReplies]
    rfl
  · rw [outputs, coreReplies]
    rfl
  · intro fs t plays ended
    obtain ⟨sameCore, sameController, -⟩ :=
      agreeing es s fs t steps plays (completing es s steps completed).1 ended
    exact ⟨sameCore.symm.trans coreReplies, sameController.symm.trans replies⟩

end Shipboard
