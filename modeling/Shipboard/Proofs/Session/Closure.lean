import Shipboard.Proofs.Session.Ledger
import Shipboard.Proofs.Session.Parting

/-!
The end of a session. A machine that has stopped lets go of its channels one after another, so its
controller may find one of them cut while another still seems whole. But once it has found one cut
there is nobody to talk to: no value moves any more, and whatever needs the core is told so.
-/

namespace Shipboard

namespace ControllerOp

/-- A reply that an operation gets only from a channel that has been cut. -/
inductive Observes (p : Protocol) : ControllerOp → Reply → Prop
  | send (v : Word) : Observes p (.send v) .closed
  | sendAll (vs : List Word) : Observes p (.sendAll vs) .closed
  | receive : Observes p .receive .ended
  | receiveWithin (ms : Nat) : Observes p (.receiveWithin ms) .ended
  /-- Where there are no pulses their absence shows nothing. -/
  | awaitPulse (pulses : p = .interactive) : Observes p .awaitPulse (.flag false)
  | skipLine : Observes p .skipLine (.flag false)
  | drain (vs : List Word) : Observes p .drain (.values vs)
  | collect {n : Nat} {vs : List Word} (early : vs.length < n) :
      Observes p (.collect n) (.values vs)

variable {p : Protocol} {op now : ControllerOp} {r : Reply}
  {gathered given taken : List Word}

theorem observes_cutReply (needs : op.needsCore = true)
    (pulses : op = .awaitPulse → p = .interactive) : op.Observes p (op.cutReply []) := by
  cases op with
  | send v => exact .send v
  | sendAll vs => exact .sendAll vs
  | receive => exact .receive
  | receiveWithin ms => exact .receiveWithin ms
  | awaitPulse => exact .awaitPulse (pulses rfl)
  | skipLine => exact .skipLine
  | drain => exact .drain []
  | collect n =>
      have some_left : 0 < n := Nat.pos_of_ne_zero (of_decide_eq_true needs)
      exact .collect some_left
  | isInteractive => cases needs
  | hangUp => cases needs
  | join => cases needs
  | isFinished => cases needs

theorem Underway.cut_short {vs : List Word} (part : Underway (.sendAll vs) now gathered given taken)
    (needs : now.needsCore = true) : ∃ v behind, vs = given ++ v :: behind := by
  cases part with
  | fresh =>
      cases vs with
      | nil => cases needs
      | cons v behind => exact ⟨v, behind, rfl⟩
  | sending front behind =>
      cases behind with
      | nil => cases needs
      | cons v behind => exact ⟨v, behind, rfl⟩

end ControllerOp

namespace ControllerScript

open ControllerOp

variable {ops rest : List ControllerOp} {op now : ControllerOp} {given taken : List Word}
  {x : ControllerScript} {c : Channel} {p : Protocol}

theorem todo_of_ready (h : x.ask.channel? = some .ready) :
    ∃ rest, x.todo = .awaitPulse :: rest := by
  rw [ask.eq_def] at h
  split at h <;> cases h
  rename_i rest todo
  exact ⟨rest, todo⟩

theorem Logs.accounted_at (logs : Logs ops x given taken) (todo : x.todo = now :: rest)
    (original : ops[x.replies.length]? = some op) :
    ∃ before beforeTaken more got,
      Accounted (ops.take x.replies.length) x.replies before beforeTaken ∧
      given = before ++ more ∧ op.Underway now x.gathered more got := by
  cases logs with
  | finished all => cases todo
  | @underway before rest' op' now' gathered given taken more moreTaken replies split earlier
      part =>
      cases todo
      have length := earlier.length
      have front : ops.take replies.length = before := by
        rw [split, length, List.take_left]
      have same : op = op' := by
        rw [split, length] at original
        simpa using original.symm
      subst same
      exact ⟨given, taken, more, moreTaken, front ▸ earlier, rfl, part⟩

theorem Logs.underway_at (logs : Logs ops x given taken) (todo : x.todo = now :: rest)
    (original : ops[x.replies.length]? = some op) :
    ∃ more got, op.Underway now x.gathered more got := by
  obtain ⟨_, _, more, got, -, -, part⟩ := logs.accounted_at todo original
  exact ⟨more, got, part⟩

/-- Between two operations the script has all that is left still before it. -/
structure Fresh (ops : List ControllerOp) (x : ControllerScript) : Prop where
  todo : x.todo = ops.drop x.replies.length
  gathered : x.gathered = []

theorem Logs.fresh_reply (logs : Logs ops x given taken) (todo : x.todo = now :: rest) (r : Reply) :
    Fresh ops (x.reply r) := by
  refine ⟨?_, rfl⟩
  cases logs with
  | finished all => cases todo
  | @underway before rest' op' now' gathered given taken more moreTaken replies split earlier
      part =>
      cases todo
      have length := earlier.length
      simp [reply, split, length]

theorem Fresh.reply (fresh : Fresh ops x) (r : Reply) : Fresh ops (x.reply r) := by
  refine ⟨?_, rfl⟩
  simp [ControllerScript.reply, fresh.todo, List.drop_drop]

theorem channel?_of_needsCore (todo : x.todo = op :: rest) (needs : op.needsCore = true) :
    ∃ c, x.ask.channel? = some c := by
  rw [ask.eq_def, todo]
  cases op with
  | sendAll vs =>
      cases vs with
      | nil => cases needs
      | cons v vs => exact ⟨.toCore, rfl⟩
  | collect n =>
      cases n with
      | zero =>
          have positive : 0 ≠ 0 := of_decide_eq_true needs
          exact absurd rfl positive
      | succ n => exact ⟨.fromCore, rfl⟩
  | send v => exact ⟨.toCore, rfl⟩
  | receive => exact ⟨.fromCore, rfl⟩
  | receiveWithin ms => exact ⟨.fromCore, rfl⟩
  | awaitPulse => exact ⟨.ready, rfl⟩
  | skipLine => exact ⟨.fromCore, rfl⟩
  | drain => exact ⟨.fromCore, rfl⟩
  | isInteractive => cases needs
  | hangUp => cases needs
  | join => cases needs
  | isFinished => cases needs

end ControllerScript

namespace ControllerScript

open ControllerOp

variable {x : ControllerScript} {p : Protocol} {ops rest : List ControllerOp}
  {op now : ControllerOp} {r r' : Reply} {given taken : List Word} {c : Channel} {v : Word}
  {a : Answer}

theorem replies_ne_snoc (replies : List Reply) (r : Reply) : replies ≠ replies ++ [r] := by
  intro same
  have longer := congrArg List.length same
  rw [List.length_append, List.length_singleton] at longer
  omega

theorem eq_of_replied (replied : (x.hear p a).replies = x.replies ++ [r])
    (hears : x.hear p a = x.reply r') : r = r' := by
  rw [hears] at replied
  have last := List.append_cancel_left replied
  exact (List.singleton_inj.mp last).symm

theorem not_replied (hears : (x.hear p a).replies = x.replies) :
    (x.hear p a).replies ≠ x.replies ++ [r] := by
  rw [hears]
  exact replies_ne_snoc x.replies r

theorem not_observes_single (logs : Logs ops x given taken) (todo : x.todo = now :: rest)
    (original : ops[x.replies.length]? = some op) (single : now.isSingle = true)
    (hears : x.hear p a = x.reply r') (blind : ¬ now.Observes p r')
    (replied : (x.hear p a).replies = x.replies ++ [r]) : ¬ op.Observes p r := by
  obtain ⟨_, _, part⟩ := logs.underway_at todo original
  obtain ⟨rfl, -⟩ := part.of_single single
  rw [eq_of_replied replied hears]
  exact blind

theorem not_observes_gave (logs : Logs ops x given taken) (puts : x.ask = .put c v)
    (original : ops[x.replies.length]? = some op)
    (replied : (x.hear p .done).replies = x.replies ++ [r]) : ¬ op.Observes p r := by
  rcases (todo_of_put puts).2 with ⟨rest, todo⟩ | ⟨vs, rest, todo⟩
  · have hears : x.hear p .done = x.reply .ok := by simp [hear.eq_def, todo]
    exact not_observes_single logs todo original rfl hears (by rintro ⟨⟩) replied
  · exact absurd replied (not_replied (by simp [hear.eq_def, goOn, todo]))

theorem not_observes_got (logs : Logs ops x given taken)
    (gets : x.ask = .get c ∨ x.ask = .getSoon c) (original : ops[x.replies.length]? = some op)
    (replied : (x.hear p (.value v)).replies = x.replies ++ [r]) : ¬ op.Observes p r := by
  rcases gets with gets | gets
  · rcases todo_of_get gets with ⟨-, rest, todo⟩ | ⟨-, ⟨rest, todo⟩ | ⟨rest, todo⟩ |
      ⟨rest, todo⟩ | ⟨n, rest, todo⟩⟩
    · have hears : x.hear p (.value v) = x.reply (.flag true) := by simp [hear.eq_def, todo]
      exact not_observes_single logs todo original rfl hears (by rintro ⟨⟩) replied
    · have hears : x.hear p (.value v) = x.reply (.value v) := by simp [hear.eq_def, todo]
      exact not_observes_single logs todo original rfl hears (by rintro ⟨⟩) replied
    · by_cases ends : v = Text.newline
      · have hears : x.hear p (.value v) = x.reply (.flag true) := by simp [hear.eq_def, todo, ends]
        obtain ⟨_, _, part⟩ := logs.underway_at todo original
        obtain ⟨rfl, -⟩ := part.of_skipLine
        rw [eq_of_replied replied hears]
        rintro ⟨⟩
      · exact absurd replied (not_replied (by simp [hear.eq_def, todo, ends]))
    · exact absurd replied (not_replied (by simp [hear.eq_def, gather, todo]))
    · exact absurd replied (not_replied (by simp [hear.eq_def, gather, goOn, todo]))
  · obtain ⟨-, ms, rest, todo⟩ := todo_of_getSoon gets
    have hears : x.hear p (.value v) = x.reply (.value v) := by simp [hear.eq_def, todo]
    exact not_observes_single logs todo original rfl hears (by rintro ⟨⟩) replied

theorem not_observes_work (logs : Logs ops x given taken) (asks : x.ask = .work)
    (original : ops[x.replies.length]? = some op)
    (replied : (x.hear p .done).replies = x.replies ++ [r]) : ¬ op.Observes p r := by
  obtain ⟨rest, todo | todo | todo⟩ := todo_of_work asks
  · have hears : x.hear p .done = x.reply .ok := by simp [hear.eq_def, todo]
    obtain ⟨_, _, part⟩ := logs.underway_at todo original
    obtain ⟨rfl, -, -⟩ := part.of_sendAll
    rw [eq_of_replied replied hears]
    rintro ⟨⟩
  · have hears : x.hear p .done = x.reply (.values x.gathered.reverse) := by
      simp [hear.eq_def, todo]
    obtain ⟨_, _, part⟩ := logs.underway_at todo original
    obtain ⟨rfl, gathered, -⟩ := part.of_collect
    rw [eq_of_replied replied hears, gathered, List.reverse_reverse]
    intro observes
    cases observes with
    | collect early => exact absurd early (Nat.lt_irrefl _)
  · have hears : x.hear p .done = x.reply (.flag (p = .interactive)) := by simp [hear.eq_def, todo]
    exact not_observes_single logs todo original rfl hears (by rintro ⟨⟩) replied

theorem interactive_of_observes (logs : Logs ops x given taken)
    (asks : x.ask.channel? = some .ready) (original : ops[x.replies.length]? = some op)
    (observes : op.Observes p r) : p = .interactive := by
  obtain ⟨rest, todo⟩ := todo_of_ready asks
  obtain ⟨_, _, part⟩ := logs.underway_at todo original
  obtain ⟨rfl, -⟩ := part.of_single rfl
  cases observes with
  | awaitPulse pulses => exact pulses

theorem cut_of_observes_alone {whole : Channel → Bool} {mine : Ends} (logs : Logs ops x given taken)
    (h : x.ask.May whole mine (.hear a)) (original : ops[x.replies.length]? = some op)
    (replied : (x.hear p a).replies = x.replies ++ [r]) (observes : op.Observes p r) :
    a = .closed ∧ ∃ c, x.ask.channel? = some c ∧ whole c = false ∧
      (p = .interactive ∨ c ≠ .ready) := by
  generalize asks : x.ask = what at h
  cases h with
  | work => exact absurd observes (not_observes_work logs asks original replied)
  | @closed a c needs broken =>
      refine ⟨rfl, c, needs, broken, ?_⟩
      by_cases pulses : c = .ready
      · rw [← asks, pulses] at needs
        exact .inl (interactive_of_observes logs needs original observes)
      · exact .inr pulses
  | stall =>
      obtain ⟨ms, rest, todo, hears⟩ := hear_stalled (p := p) asks
      refine absurd observes (not_observes_single logs todo original rfl hears ?_ replied)
      rintro ⟨⟩
  | gone empty =>
      obtain ⟨rest, todo, hears⟩ := hear_hungUp (p := p) asks
      refine absurd observes (not_observes_single logs todo original rfl hears ?_ replied)
      rintro ⟨⟩

end ControllerScript

namespace Session

open ControllerOp ControllerScript

variable {p : Protocol} {s t : Session Worker ControllerScript} {e : Event} {es : List Event}
  {m : Machine} {ops rest : List ControllerOp} {op : ControllerOp} {r : Reply}

/-- Only an answer that a channel is cut makes a reply that shows it. -/
theorem cut_of_observes {given taken : List Word} (logs : Logs ops s.controller given taken)
    (h : Step (Worker.party p) (ControllerScript.party p) s e t)
    (original : ops[s.controller.replies.length]? = some op)
    (replied : t.controller.replies = s.controller.replies ++ [r]) (observes : op.Observes p r) :
    e = .controller (.hear .closed) ∧ ∃ c, s.controller.ask.channel? = some c ∧
      s.links.whole c = false ∧ (p = .interactive ∨ c ≠ .ready) := by
  -- Values and answers about the core itself make replies that show nothing.
  cases h with
  | @core turn may => cases turn <;> exact absurd replied (replies_ne_snoc _ r)
  | @controller turn may =>
      cases turn with
      | drop c => exact absurd replied (replies_ne_snoc _ r)
      | hear a =>
          obtain ⟨rfl, cut⟩ := cut_of_observes_alone logs may original replied observes
          exact ⟨rfl, cut⟩
  | fromCore whole meet =>
      exact absurd observes (not_observes_got logs meet.get_eq original replied)
  | toCore whole meet =>
      exact absurd observes (not_observes_gave logs meet.put_eq original replied)
  | joined asks gone =>
      obtain ⟨rest, todo, hears⟩ := hear_joined (p := p) asks
      refine absurd observes (not_observes_single logs todo original rfl hears ?_ replied)
      rintro ⟨⟩
  | @polled b asks gone =>
      obtain ⟨rest, todo, hears⟩ := hear_polled (p := p) asks b
      refine absurd observes (not_observes_single logs todo original rfl hears ?_ replied)
      rintro ⟨⟩

/-- A wait is given up only while its channel is whole. If the other end is let go of, the side that
waits hears of that. -/
def Timely {κ σ : Type} (Q : Party σ) (s : Session κ σ) (e : Event) : Prop :=
  e = .controller (.hear .stalled) → ∀ c, Q.ask s.controller = .getSoon c → s.links.whole c = true

theorem timely_of_whole {κ σ : Type} {Q : Party σ} {s : Session κ σ} {e : Event} {c : Channel}
    (asks : Q.ask s.controller = .getSoon c) (whole : s.links.whole c = true) : Timely Q s e := by
  rintro - d asks'
  rw [asks] at asks'
  cases asks'
  exact whole

theorem Over.replies (past : Over s) (h : Step (Worker.party p) (ControllerScript.party p) s e t) :
    t.controller = s.controller ∨ ∃ r, t.controller = s.controller.reply r := by
  cases h with
  | @core turn may => cases turn <;> exact .inl rfl
  | @controller turn may =>
      cases turn with
      | drop c => exact .inl rfl
      | hear a =>
          obtain ⟨op, rest, r, todo, hears⟩ := reply_of_may (p := p) may
          exact .inr ⟨r, hears⟩
  | fromCore whole meet => exact absurd (.fromCore whole meet) past.unpassed
  | toCore whole meet => exact absurd (.toCore whole meet) past.unpassed
  | joined asks gone =>
      obtain ⟨rest, todo, hears⟩ := hear_joined (p := p) asks
      exact .inr ⟨.joined, hears⟩
  | @polled b asks gone =>
      obtain ⟨rest, todo, hears⟩ := hear_polled (p := p) asks b
      exact .inr ⟨.flag b, hears⟩

theorem Over.fresh_steps {fs : List Event} (past : Over s) (fresh : Fresh ops s.controller)
    (h : Steps (Worker.party p) (ControllerScript.party p) s fs t) : Fresh ops t.controller := by
  have kept : Over t ∧ Fresh ops t.controller := by
    refine h.keeps_state (I := fun t => Over t ∧ Fresh ops t.controller) ?_ ⟨past, fresh⟩
    rintro s e t ⟨past, fresh⟩ step
    refine ⟨past.step step, ?_⟩
    rcases past.replies step with same | ⟨r, replied⟩
    · rw [same]
      exact fresh
    · rw [replied]
      exact fresh.reply r
  exact kept.2

/-- An operation that needs the core is told that it is gone, or gives up while it is going. -/
theorem Over.answers (past : Over s) (todo : s.controller.todo = op :: rest)
    (gathered : s.controller.gathered = []) (needs : op.needsCore = true)
    (h : Step (Worker.party p) (ControllerScript.party p) s e t) :
    t.controller = s.controller ∨ t.controller = s.controller.reply (op.cutReply []) ∨
      ∃ ms, op = .receiveWithin ms ∧ t.controller = s.controller.reply (.stalled ms) ∧
        (Timely (ControllerScript.party p) s e →
          (∃ ending, s.core = .stopped ending) ∧ s.links.core.holds .fromCore = true) := by
  obtain ⟨c, channel⟩ := channel?_of_needsCore todo needs
  -- No value can come any more: the script hears that a channel is cut, or gives up its wait.
  cases h with
  | @core turn may => cases turn <;> exact .inl rfl
  | @controller turn may =>
      cases turn with
      | drop c => exact .inl rfl
      | hear a =>
          generalize asks : (ControllerScript.party p).ask s.controller = what at may
          cases may with
          | work => cases channel.symm.trans (congrArg Ask.channel? asks)
          | gone empty => cases channel.symm.trans (congrArg Ask.channel? asks)
          | closed asks' broken =>
              have hears : s.controller.hear p .closed = s.controller.reply (op.cutReply []) := by
                rw [hear_closed todo, gathered]
              exact .inr (.inl hears)
          | stall =>
              obtain ⟨rfl, -⟩ := todo_of_getSoon asks
              obtain ⟨ms, rest', todo', hears⟩ := hear_stalled (p := p) asks
              cases todo.symm.trans todo'
              refine .inr (.inr ⟨ms, rfl, hears, ?_⟩)
              intro timely
              obtain ⟨core, controller⟩ := (Links.whole_iff _ _).mp (timely rfl _ asks)
              rcases past with stopped | empty
              · exact ⟨stopped, core⟩
              · rw [Ends.holds_of_isEmpty empty] at controller
                cases controller
  | fromCore whole meet => exact absurd (.fromCore whole meet) past.unpassed
  | toCore whole meet => exact absurd (.toCore whole meet) past.unpassed
  | joined asks gone => cases channel.symm.trans (congrArg Ask.channel? asks)
  | polled asks gone => cases channel.symm.trans (congrArg Ask.channel? asks)

theorem Over.goes_on (past : Over s) (todo : s.controller.todo = op :: rest)
    (needs : op.needsCore = true) : ∃ e t,
      Step (Worker.party p) (ControllerScript.party p) s e t ∧
        (e = .controller (.hear .closed) ∨ ∃ c, e = .core (.drop c)) := by
  obtain ⟨c, channel⟩ := channel?_of_needsCore todo needs
  cases whole : s.links.whole c with
  | false => exact ⟨_, _, .controller (.closed channel whole), .inl rfl⟩
  | true =>
      obtain ⟨core, controller⟩ := (Links.whole_iff _ _).mp whole
      rcases past with ⟨ending, stopped⟩ | empty
      · have leaves : ((Worker.party p).ask s.core).leaves = true := by
          rw [stopped]
          rfl
        exact ⟨_, _, .core (.drop leaves core), .inr ⟨c, rfl⟩⟩
      · rw [Ends.holds_of_isEmpty empty] at controller
        cases controller

def Attended (p : Protocol) (m : Machine) (ops : List ControllerOp) (es : List Event)
    (s : Session Worker ControllerScript) : Prop :=
  Steps (Worker.party p) (ControllerScript.party p)
    (start p (Worker.ofMachine m) { todo := ops }) es s

end Session

open Session ControllerOp in
/-- However a machine in a session ends, that is the end of its run alone, all its output has been
received, and it lets go of its channels for good. Once a reply of a controller script shows that,
or that the script itself has hung up, no value moves any more, and every operation that needs the
core is told so in its turn; at most a wait is given up before the core has let go. What a failed
operation has sent is what stands in front. -/
theorem closure_final (p : Protocol) (m : Machine) (ops : List ControllerOp) :
    (∀ es s ending, Attended p m ops es s → s.core = .stopped ending →
      (∃ k o, (∀ fuel, k ≤ fuel → m.run Buffer.device fuel
          { input := sent es, room := some (received es).length } = some o) ∧
        o.device.output.toList = received es ∧ o.device.input = [] ∧
        ((o.result = .ok () ∧ o.machine.state = .halted ∧ ending = .ok o.machine) ∨
          (∃ f, o.result = .error (.fault f) ∧ ending = .error (.fault f)) ∨
          ∃ t, o.result = .error (.trap t) ∧ ending = .error .panicked)) ∧
      (∀ fs t, Steps (Worker.party p) (ControllerScript.party p) s fs t →
        t.core = .stopped ending) ∧
      ∀ c, s.links.core.holds c = true →
        ∃ t, Step (Worker.party p) (ControllerScript.party p) s (.core (.drop c)) t) ∧
    (∀ es s t, Attended p m ops es s →
      Step (Worker.party p) (ControllerScript.party p) s .joined t →
      (∃ ending, s.core = .stopped ending) ∧ s.links.core.isEmpty = true) ∧
    ∀ es s e t op r, Attended p m ops es s →
      Step (Worker.party p) (ControllerScript.party p) s e t →
      ops[s.controller.replies.length]? = some op →
      t.controller.replies = s.controller.replies ++ [r] → op.Observes p r →
      Over t ∧
      (∀ vs, op = .sendAll vs → ∃ before beforeTaken front v behind,
        Accounted (ops.take s.controller.replies.length) s.controller.replies before beforeTaken ∧
        vs = front ++ v :: behind ∧ sent (es ++ [e]) = before ++ front) ∧
      ∀ fs u, Steps (Worker.party p) (ControllerScript.party p) t fs u →
        sent fs = [] ∧ received fs = [] ∧
        ∀ next, ops[u.controller.replies.length]? = some next → next.needsCore = true →
          ((next = .awaitPulse → p = .interactive) → next.Observes p (next.cutReply [])) ∧
          (∃ f w, Step (Worker.party p) (ControllerScript.party p) u f w ∧
            (f = .controller (.hear .closed) ∨ ∃ c, f = .core (.drop c))) ∧
          ∀ f w, Step (Worker.party p) (ControllerScript.party p) u f w →
            w.controller = u.controller ∨
            w.controller = u.controller.reply (next.cutReply []) ∨
            ∃ ms, next = .receiveWithin ms ∧ w.controller = u.controller.reply (.stalled ms) ∧
              (Timely (ControllerScript.party p) u f →
                (∃ ending, u.core = .stopped ending) ∧ u.links.core.holds .fromCore = true) := by
  refine ⟨?ending, ?joining, ?observing⟩
  case ending =>
    intro es s ending attended stopped
    refine ⟨?_, ?_, ?_⟩
    · obtain ⟨k, o, ran, output, input, rfl⟩ := stopped_of_steps attended stopped
      refine ⟨k, o, ran, output, input, ?_⟩
      rcases o.ending_cases with ⟨ok, halted⟩ | failed
      · have final := Machine.halted_of_run (ran k (Nat.le_refl k)) ok
        exact .inl ⟨ok, final, halted⟩
      · exact .inr failed
    · intro fs t later
      exact later.keeps_state (fun _ _ _ kept step => stopped_step kept step) stopped
    · intro c held
      have leaves : ((Worker.party p).ask s.core).leaves = true := by
        rw [stopped]
        rfl
      exact ⟨_, .core (.drop leaves held)⟩
  case joining =>
    intro es s t attended step
    cases step with
    | joined asks gone =>
        simp only [coreGone, Bool.and_eq_true, decide_eq_true_eq] at gone
        exact ⟨Worker.stopped_of_ask gone.1, gone.2⟩
  case observing =>
    intro es s e t op r attended step original replied observes
    have logs := controller_logs attended
    obtain ⟨rfl, c, asks, broken, exists_on⟩ := cut_of_observes logs step original replied observes
    obtain ⟨now, rest, todo, needs⟩ := ControllerScript.todo_of_channel asks
    have past : Over t := (over_of_broken attended asks exists_on broken).step step
    have hears : t.controller = s.controller.reply (now.cutReply s.controller.gathered) := by
      cases step with
      | controller may => exact ControllerScript.hear_closed todo
    have fresh : ControllerScript.Fresh ops t.controller := by
      rw [hears]
      exact logs.fresh_reply todo _
    refine ⟨past, ?_, ?_⟩
    · rintro vs rfl
      obtain ⟨before, beforeTaken, more, got, accounted, given, part⟩ :=
        logs.accounted_at todo original
      obtain ⟨v, behind, whole⟩ := part.cut_short needs
      refine ⟨before, beforeTaken, more, v, behind, accounted, whole, ?_⟩
      rw [sent_snoc, given]
      exact List.append_nil _
    · intro fs u later
      obtain ⟨past', unsent, unreceived⟩ := past.steps later
      obtain ⟨todo', gathered⟩ := past.fresh_steps fresh later
      refine ⟨unsent, unreceived, ?_⟩
      intro next original' needs'
      have at_hand : u.controller.todo = next :: ops.drop (u.controller.replies.length + 1) := by
        obtain ⟨inside, rfl⟩ := List.getElem?_eq_some_iff.mp original'
        rw [todo', List.drop_eq_getElem_cons inside]
      refine ⟨observes_cutReply needs', past'.goes_on at_hand needs', ?_⟩
      intro f w step'
      exact past'.answers at_hand gathered needs' step'

def writingFive : Machine := .ofProgram [104, 5, 99]

def drainsThenTries : List ControllerOp :=
  [.drain, .receiveWithin 20, .sendAll [1, 2], .awaitPulse, .collect 3, .join]

def takingOne : Machine := .ofProgram [3, 3, 99, 0]

def sendsTwoThenWaits : List ControllerOp := [.sendAll [7, 8], .receiveWithin 20]

open Session in
theorem closure_final_writingFive :
    (∃ s t, Attended .interactive writingFive drainsThenTries
        [.passed .fromCore 5, .core (.hear .done), .core (.drop .fromCore)] s ∧
      Step (Worker.party .interactive) (ControllerScript.party .interactive) s
        (.controller (.hear .closed)) t ∧
      t.controller.replies = [.values [5]] ∧ t.links.core.holds .toCore = true ∧
      (∃ m', t.core = .stopped (.ok m') ∧ m'.state = .halted) ∧
      ∀ fs u, Steps (Worker.party .interactive) (ControllerScript.party .interactive) t fs u →
        sent fs = [] ∧ received fs = []) ∧
    ∃ s t w, Attended .streaming takingOne sendsTwoThenWaits
        [.passed .toCore 7, .core (.hear .done), .core (.drop .toCore)] s ∧
      Step (Worker.party .streaming) (ControllerScript.party .streaming) s
        (.controller (.hear .closed)) t ∧
      t.controller.replies = [.closed] ∧
      (∃ (before front : List Word) (v : Word) (behind : List Word),
        [7, 8] = front ++ v :: behind ∧ [7] = before ++ front) ∧
      Step (Worker.party .streaming) (ControllerScript.party .streaming) t
        (.controller (.hear .stalled)) w ∧
      Timely (ControllerScript.party .streaming) t (.controller (.hear .stalled)) ∧
      w.controller.replies = [.closed, .stalled 20] ∧
      (∃ ending, t.core = .stopped ending) ∧ t.links.core.holds .fromCore = true := by
  constructor
  · obtain ⟨-, -, observing⟩ := closure_final .interactive writingFive drainsThenTries
    have attended : Attended .interactive writingFive drainsThenTries
        [.passed .fromCore 5, .core (.hear .done), .core (.drop .fromCore)] _ :=
      .cons (.fromCore rfl .get) <| .cons (.core .work) <| .cons (.core (.drop rfl rfl)) <| .refl _
    refine ⟨_, _, attended, .controller (.closed (c := .fromCore) rfl rfl), rfl, rfl, ?_, ?_⟩
    · exact ⟨_, rfl, rfl⟩
    · intro fs u steps
      have later := (observing _ _ _ _ .drain (.values [5]) attended
        (.controller (.closed (c := .fromCore) rfl rfl)) rfl rfl (.drain [5])).2.2 fs u steps
      exact ⟨later.1, later.2.1⟩
  · obtain ⟨-, -, observing⟩ := closure_final .streaming takingOne sendsTwoThenWaits
    have attended : Attended .streaming takingOne sendsTwoThenWaits
        [.passed .toCore 7, .core (.hear .done), .core (.drop .toCore)] _ :=
      .cons (.toCore rfl .get) <| .cons (.core .work) <| .cons (.core (.drop rfl rfl)) <| .refl _
    obtain ⟨-, failed, after⟩ := observing _ _ _ _ (.sendAll [7, 8]) .closed attended
      (.controller (.closed (c := .toCore) rfl rfl)) rfl rfl (.sendAll [7, 8])
    obtain ⟨before, -, front, v, behind, -, split, given⟩ := failed _ rfl
    refine ⟨_, _, _, attended, .controller (.closed (c := .toCore) rfl rfl), rfl,
      ⟨before, front, v, behind, split, given⟩, .controller .stall, timely_of_whole rfl rfl, rfl,
      ?_⟩
    obtain ⟨-, -, told⟩ := (after _ _ (.refl _)).2.2 (.receiveWithin 20) rfl rfl
    rcases told _ _ (.controller .stall) with same | cut | ⟨ms, -, -, late⟩
    · cases congrArg ControllerScript.replies same
    · cases congrArg ControllerScript.replies cut
    · exact late (timely_of_whole rfl rfl)

end Shipboard
