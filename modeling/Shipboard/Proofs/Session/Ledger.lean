import Shipboard.Proofs.Session.Buffered

/-!
The replies of a script account for the values that went through its channels. At the core's end
every operation moves at most one value, and its reply says whether it did. At the controller's end
an operation may move several, and one that was cut short has moved those at its front.
-/

namespace Shipboard

namespace CoreOp

def given? : CoreOp → Reply → Option Word
  | .output v, .ok => some v
  | _, _ => none

def taken? : CoreOp → Reply → Option Word
  | .input, .value v => some v
  | _, _ => none

end CoreOp

namespace CoreScript

def outputs (ops : List CoreOp) (replies : List Reply) : List Word :=
  (ops.zip replies).filterMap fun x => x.1.given? x.2

def inputs (ops : List CoreOp) (replies : List Reply) : List Word :=
  (ops.zip replies).filterMap fun x => x.1.taken? x.2

theorem zip_snoc {α β : Type} {xs rest : List α} {ys : List β} {x : α} (y : β)
    (next : xs.drop ys.length = x :: rest) : xs.zip (ys ++ [y]) = xs.zip ys ++ [(x, y)] := by
  induction ys generalizing xs with
  | nil =>
      rw [List.length_nil, List.drop_zero] at next
      simp [next]
  | cons z ys ih =>
      cases xs with
      | nil => simp at next
      | cons w xs =>
          rw [List.length_cons, List.drop_succ_cons] at next
          simp [ih next]

/-- A core script that has done the first of `ops` and has so given and taken these values. -/
structure Logs (ops : List CoreOp) (x : CoreScript) (given taken : List Word) : Prop where
  todo : x.todo = ops.drop x.replies.length
  count : x.replies.length ≤ ops.length
  given : given = outputs ops x.replies
  taken : taken = inputs ops x.replies

variable {ops rest : List CoreOp} {x : CoreScript} {given taken : List Word} {op : CoreOp}
  {p : Protocol} {c : Channel} {v : Word}

theorem logs_start (ops : List CoreOp) : Logs ops { todo := ops } [] [] :=
  { todo := rfl
    count := Nat.zero_le _
    given := by simp [outputs]
    taken := by simp [inputs] }

theorem Logs.reply (logs : Logs ops x given taken) (todo : x.todo = op :: rest) (r : Reply) :
    Logs ops (x.reply r) (given ++ (op.given? r).toList) (taken ++ (op.taken? r).toList) := by
  have next : ops.drop x.replies.length = op :: rest := logs.todo.symm.trans todo
  refine { todo := ?_, count := ?_, given := ?_, taken := ?_ }
  · have after : ops.drop (x.replies.length + 1) = rest := by
      rw [← List.drop_drop, next]
      rfl
    simp [CoreScript.reply, todo, after]
  · have left := congrArg List.length next
    rw [List.length_drop, List.length_cons] at left
    rw [CoreScript.reply, List.length_append, List.length_singleton]
    omega
  · rw [outputs, CoreScript.reply, zip_snoc r next, List.filterMap_append, logs.given, outputs]
    cases h : op.given? r <;> simp [h]
  · rw [inputs, CoreScript.reply, zip_snoc r next, List.filterMap_append, logs.taken, inputs]
    cases h : op.taken? r <;> simp [h]

theorem Logs.unmoved {e : Event} (logs : Logs ops x given taken) (ungiven : e.received? = none)
    (untaken : e.sent? = none) :
    Logs ops x (given ++ e.received?.toList) (taken ++ e.sent?.toList) := by
  rw [ungiven, untaken, Option.toList_none, List.append_nil, List.append_nil]
  exact logs

theorem todo_of_put (h : x.ask p = .put c v) :
    (∃ rest, x.todo = .input :: rest ∧ c = .ready ∧ x.pulsed = false) ∨
      ∃ rest, x.todo = .output v :: rest ∧ c = .fromCore := by
  rw [ask.eq_def] at h
  split at h
  · cases h
  · rename_i rest todo
    split at h
    · rename_i unannounced
      cases h
      simp only [Bool.and_eq_true, Bool.not_eq_true'] at unannounced
      exact .inl ⟨rest, todo, rfl, unannounced.2⟩
    · cases h
  · rename_i w rest todo
    cases h
    exact .inr ⟨rest, todo, rfl⟩
  · cases h

theorem todo_of_get (h : x.ask p = .get c) : c = .toCore ∧ ∃ rest, x.todo = .input :: rest := by
  rw [ask.eq_def] at h
  split at h
  · cases h
  · rename_i rest todo
    split at h
    · cases h
    · cases h
      exact ⟨rfl, rest, todo⟩
  · cases h
  · cases h

theorem todo_of_stop (h : x.ask p = .stop) : x.todo = [] := by
  rw [ask.eq_def] at h
  split at h
  · assumption
  · split at h <;> cases h
  · cases h
  · cases h

theorem ask_ne_getSoon (x : CoreScript) (p : Protocol) (c : Channel) : x.ask p ≠ .getSoon c := by
  rw [ask.eq_def]
  repeat' split
  all_goals simp

theorem reply_of_may {whole : Channel → Bool} {mine : Ends} {a : Answer}
    (h : (x.ask p).May whole mine (.hear a)) : ∃ op rest r, x.todo = op :: rest ∧
      x.hear a = x.reply r ∧ op.given? r = none ∧ op.taken? r = none := by
  generalize asks : x.ask p = ask at h
  rw [CoreScript.ask.eq_def] at asks
  split at asks
  · subst asks
    cases h with
    | closed needs broken => cases needs
  · rename_i rest todo
    split at asks
    all_goals
      subst asks
      cases h with
      | closed needs broken =>
          exact ⟨.input, rest, .closed, todo, by simp [hear.eq_def, todo], rfl, rfl⟩
  · rename_i w rest todo
    subst asks
    cases h with
    | closed needs broken =>
        exact ⟨.output w, rest, .closed, todo, by simp [hear.eq_def, todo], rfl, rfl⟩
  · rename_i rest todo
    subst asks
    cases h with
    | closed needs broken => cases needs
    | gone empty => exact ⟨.close, rest, .ok, todo, by simp [hear.eq_def, todo], rfl, rfl⟩

theorem logs_step {σ : Type} {Q : Party σ} {s t : Session CoreScript σ} {e : Event}
    (logs : Logs ops s.core given taken) (h : Session.Step (party p) Q s e t) :
    Logs ops t.core (given ++ e.received?.toList) (taken ++ e.sent?.toList) := by
  cases h with
  | @core turn may =>
      cases turn with
      | drop c => exact logs.unmoved rfl rfl
      | hear a =>
          obtain ⟨op, rest, r, todo, hears, ungiven, untaken⟩ := reply_of_may may
          have replied := logs.reply todo r
          rw [← hears, ungiven, untaken] at replied
          exact replied
  | @controller turn may => cases turn <;> exact logs.unmoved rfl rfl
  | joined asks gone => exact logs.unmoved rfl rfl
  | polled asks gone => exact logs.unmoved rfl rfl
  | @fromCore c v whole meet =>
      rcases todo_of_put meet.put_eq with ⟨rest, todo, rfl, -⟩ | ⟨rest, todo, rfl⟩
      · have hears : s.core.hear .done = { s.core with pulsed := true } := by
          simp [hear.eq_def, todo]
        have pulsed : Logs ops { s.core with pulsed := true } given taken :=
          ⟨logs.todo, logs.count, logs.given, logs.taken⟩
        rw [← hears] at pulsed
        exact pulsed.unmoved rfl rfl
      · have hears : s.core.hear .done = s.core.reply .ok := by simp [hear.eq_def, todo]
        have replied := logs.reply todo .ok
        rw [← hears] at replied
        exact replied
  | @toCore c v whole meet =>
      rcases meet.get_eq with gets | gets
      · obtain ⟨rfl, rest, todo⟩ := todo_of_get gets
        have hears : s.core.hear (.value v) = s.core.reply (.value v) := by
          simp [hear.eq_def, todo]
        have replied := logs.reply todo (.value v)
        rw [← hears] at replied
        exact replied
      · exact absurd gets (ask_ne_getSoon _ _ _)

end CoreScript

namespace ControllerOp

/-- What an operation that got this reply has given and taken. -/
inductive Accounts : ControllerOp → Reply → (given taken : List Word) → Prop
  | sent (v : Word) : Accounts (.send v) .ok [v] []
  | unsent (v : Word) : Accounts (.send v) .closed [] []
  | sentAll (vs : List Word) : Accounts (.sendAll vs) .ok vs []
  /-- The values in front were given, and the next one was not. -/
  | cutShort (front : List Word) (v : Word) (behind : List Word) :
      Accounts (.sendAll (front ++ v :: behind)) .closed front []
  | received (v : Word) : Accounts .receive (.value v) [] [v]
  | ended : Accounts .receive .ended [] []
  | receivedWithin (ms : Nat) (v : Word) : Accounts (.receiveWithin ms) (.value v) [] [v]
  | endedWithin (ms : Nat) : Accounts (.receiveWithin ms) .ended [] []
  | stalled (ms : Nat) : Accounts (.receiveWithin ms) (.stalled ms) [] []
  | pulse (b : Bool) : Accounts .awaitPulse (.flag b) [] []
  | skipped {line : List Word} (unbroken : Text.newline ∉ line) :
      Accounts .skipLine (.flag true) [] (line ++ [Text.newline])
  | unskipped {line : List Word} (unbroken : Text.newline ∉ line) :
      Accounts .skipLine (.flag false) [] line
  | drained (vs : List Word) : Accounts .drain (.values vs) [] vs
  | collected {n : Nat} {vs : List Word} (few : vs.length ≤ n) :
      Accounts (.collect n) (.values vs) [] vs
  | interactive (b : Bool) : Accounts .isInteractive (.flag b) [] []
  | hungUp : Accounts .hangUp .ok [] []
  | joined : Accounts .join .joined [] []
  | looked (b : Bool) : Accounts .isFinished (.flag b) [] []

/-- An operation that is being done: what is left of it, what it has gathered, and what it has given
and taken so far. -/
inductive Underway : (op now : ControllerOp) → (gathered given taken : List Word) → Prop
  | fresh (op : ControllerOp) : Underway op op [] [] []
  | sending (front behind : List Word) :
      Underway (.sendAll (front ++ behind)) (.sendAll behind) [] front []
  | skipping {line : List Word} (unbroken : Text.newline ∉ line) :
      Underway .skipLine .skipLine [] [] line
  | draining (vs : List Word) : Underway .drain .drain vs.reverse [] vs
  | collecting (vs : List Word) (n : Nat) :
      Underway (.collect (vs.length + n)) (.collect n) vs.reverse [] vs

variable {op now : ControllerOp} {gathered given taken vs : List Word}

def isSingle : ControllerOp → Bool
  | .sendAll _ => false
  | .skipLine => false
  | .drain => false
  | .collect _ => false
  | _ => true

theorem Underway.of_single (h : Underway op now gathered given taken)
    (single : now.isSingle = true) : op = now ∧ gathered = [] ∧ given = [] ∧ taken = [] := by
  cases h with
  | fresh op => exact ⟨rfl, rfl, rfl, rfl⟩
  | sending front behind => cases single
  | skipping unbroken => cases single
  | draining vs => cases single
  | collecting vs n => cases single

theorem Underway.of_sendAll (h : Underway op (.sendAll vs) gathered given taken) :
    op = .sendAll (given ++ vs) ∧ gathered = [] ∧ taken = [] := by
  cases h with
  | fresh => exact ⟨rfl, rfl, rfl⟩
  | sending front behind => exact ⟨rfl, rfl, rfl⟩

theorem Underway.of_skipLine (h : Underway op .skipLine gathered given taken) :
    op = .skipLine ∧ gathered = [] ∧ given = [] ∧ Text.newline ∉ taken := by
  cases h with
  | fresh => exact ⟨rfl, rfl, rfl, List.not_mem_nil⟩
  | skipping unbroken => exact ⟨rfl, rfl, rfl, unbroken⟩

theorem Underway.of_drain (h : Underway op .drain gathered given taken) :
    op = .drain ∧ gathered = taken.reverse ∧ given = [] := by
  cases h with
  | fresh => exact ⟨rfl, rfl, rfl⟩
  | draining vs => exact ⟨rfl, rfl, rfl⟩

theorem Underway.of_collect {n : Nat} (h : Underway op (.collect n) gathered given taken) :
    op = .collect (taken.length + n) ∧ gathered = taken.reverse ∧ given = [] := by
  cases h with
  | fresh => exact ⟨by simp, rfl, rfl⟩
  | collecting vs n => exact ⟨rfl, rfl, rfl⟩

def needsCore : ControllerOp → Bool
  | .send _ => true
  | .sendAll vs => !vs.isEmpty
  | .receive => true
  | .receiveWithin _ => true
  | .awaitPulse => true
  | .skipLine => true
  | .drain => true
  | .collect n => n ≠ 0
  | _ => false

def cutReply (gathered : List Word) : ControllerOp → Reply
  | .receive => .ended
  | .receiveWithin _ => .ended
  | .awaitPulse => .flag false
  | .skipLine => .flag false
  | .drain => .values gathered.reverse
  | .collect _ => .values gathered.reverse
  | _ => .closed

theorem Underway.accounts_cut (h : Underway op now gathered given taken)
    (needs : now.needsCore = true) : op.Accounts (now.cutReply gathered) given taken := by
  cases now with
  | send v =>
      obtain ⟨rfl, rfl, rfl, rfl⟩ := h.of_single rfl
      exact .unsent v
  | sendAll vs =>
      obtain ⟨rfl, rfl, rfl⟩ := h.of_sendAll
      cases vs with
      | nil => cases needs
      | cons v vs => exact .cutShort given v vs
  | receive =>
      obtain ⟨rfl, rfl, rfl, rfl⟩ := h.of_single rfl
      exact .ended
  | receiveWithin ms =>
      obtain ⟨rfl, rfl, rfl, rfl⟩ := h.of_single rfl
      exact .endedWithin ms
  | awaitPulse =>
      obtain ⟨rfl, rfl, rfl, rfl⟩ := h.of_single rfl
      exact .pulse false
  | skipLine =>
      obtain ⟨rfl, rfl, rfl, unbroken⟩ := h.of_skipLine
      exact .unskipped unbroken
  | drain =>
      obtain ⟨rfl, rfl, rfl⟩ := h.of_drain
      rw [cutReply, List.reverse_reverse]
      exact .drained taken
  | collect n =>
      obtain ⟨rfl, rfl, rfl⟩ := h.of_collect
      rw [cutReply, List.reverse_reverse]
      exact .collected (Nat.le_add_right _ _)
  | isInteractive => cases needs
  | hangUp => cases needs
  | join => cases needs
  | isFinished => cases needs

inductive Accounted : List ControllerOp → List Reply → (given taken : List Word) → Prop
  | nil : Accounted [] [] [] []
  | snoc {ops : List ControllerOp} {replies : List Reply} {given taken : List Word}
      {op : ControllerOp} {r : Reply} {more moreTaken : List Word}
      (earlier : Accounted ops replies given taken) (last : op.Accounts r more moreTaken) :
      Accounted (ops ++ [op]) (replies ++ [r]) (given ++ more) (taken ++ moreTaken)

theorem Accounted.length {ops : List ControllerOp} {replies : List Reply}
    (h : Accounted ops replies given taken) : replies.length = ops.length := by
  induction h with
  | nil => rfl
  | snoc earlier last ih => simp [ih]

end ControllerOp

namespace ControllerScript

open ControllerOp

/-- A script that has done the first of `ops`, and perhaps a part of the next, and has so given and
taken these values. -/
inductive Logs (ops : List ControllerOp) : ControllerScript → (given taken : List Word) → Prop
  | finished {replies : List Reply} {given taken : List Word}
      (all : Accounted ops replies given taken) : Logs ops ⟨[], [], replies⟩ given taken
  | underway {before rest : List ControllerOp} {op now : ControllerOp}
      {gathered given taken more moreTaken : List Word} {replies : List Reply}
      (split : ops = before ++ op :: rest) (earlier : Accounted before replies given taken)
      (part : op.Underway now gathered more moreTaken) :
      Logs ops ⟨now :: rest, gathered, replies⟩ (given ++ more) (taken ++ moreTaken)

variable {ops before rest : List ControllerOp} {op now : ControllerOp}
  {gathered given taken more moreTaken : List Word} {replies : List Reply} {p : Protocol}
  {x : ControllerScript} {c : Channel} {v : Word}

theorem logs_between (split : ops = before ++ rest)
    (earlier : Accounted before replies given taken) :
    Logs ops ⟨rest, [], replies⟩ given taken := by
  cases rest with
  | nil =>
      rw [List.append_nil] at split
      subst split
      exact .finished earlier
  | cons op rest =>
      have part := Logs.underway split earlier (.fresh op)
      rw [List.append_nil, List.append_nil] at part
      exact part

theorem logs_start (ops : List ControllerOp) : Logs ops { todo := ops } [] [] :=
  logs_between rfl .nil

theorem logs_reply {r : Reply} (split : ops = before ++ op :: rest)
    (earlier : Accounted before replies given taken) (last : op.Accounts r more moreTaken) :
    Logs ops ⟨rest, [], replies ++ [r]⟩ (given ++ more) (taken ++ moreTaken) := by
  have split' : ops = (before ++ [op]) ++ rest := by simp [split]
  exact logs_between split' (.snoc earlier last)

theorem todo_of_put (h : x.ask = .put c v) : c = .toCore ∧
    ((∃ rest, x.todo = .send v :: rest) ∨ ∃ vs rest, x.todo = .sendAll (v :: vs) :: rest) := by
  rw [ask.eq_def] at h
  split at h <;> cases h
  · rename_i rest todo
    exact ⟨rfl, .inl ⟨rest, todo⟩⟩
  · rename_i vs rest todo
    exact ⟨rfl, .inr ⟨vs, rest, todo⟩⟩

theorem todo_of_get (h : x.ask = .get c) :
    (c = .ready ∧ ∃ rest, x.todo = .awaitPulse :: rest) ∨
    (c = .fromCore ∧ ((∃ rest, x.todo = .receive :: rest) ∨ (∃ rest, x.todo = .skipLine :: rest) ∨
      (∃ rest, x.todo = .drain :: rest) ∨ ∃ n rest, x.todo = .collect (n + 1) :: rest)) := by
  rw [ask.eq_def] at h
  split at h <;> cases h
  · rename_i rest todo
    exact .inr ⟨rfl, .inl ⟨rest, todo⟩⟩
  · rename_i rest todo
    exact .inl ⟨rfl, rest, todo⟩
  · rename_i rest todo
    exact .inr ⟨rfl, .inr (.inl ⟨rest, todo⟩)⟩
  · rename_i rest todo
    exact .inr ⟨rfl, .inr (.inr (.inl ⟨rest, todo⟩))⟩
  · rename_i n rest todo
    exact .inr ⟨rfl, .inr (.inr (.inr ⟨n, rest, todo⟩))⟩

theorem todo_of_getSoon (h : x.ask = .getSoon c) :
    c = .fromCore ∧ ∃ ms rest, x.todo = .receiveWithin ms :: rest := by
  rw [ask.eq_def] at h
  split at h <;> cases h
  rename_i ms rest todo
  exact ⟨rfl, ms, rest, todo⟩

theorem todo_of_work (h : x.ask = .work) : ∃ rest, x.todo = .sendAll [] :: rest ∨
    x.todo = .collect 0 :: rest ∨ x.todo = .isInteractive :: rest := by
  rw [ask.eq_def] at h
  split at h <;> cases h
  · rename_i rest todo
    exact ⟨rest, .inl todo⟩
  · rename_i rest todo
    exact ⟨rest, .inr (.inl todo)⟩
  · rename_i rest todo
    exact ⟨rest, .inr (.inr todo)⟩

theorem todo_of_poll (h : x.ask = .poll) : ∃ rest, x.todo = .isFinished :: rest := by
  rw [ask.eq_def] at h
  split at h <;> cases h
  rename_i rest todo
  exact ⟨rest, todo⟩

theorem todo_of_stop (h : x.ask = .stop) : x.todo = [] := by
  rw [ask.eq_def] at h
  split at h <;> cases h
  assumption

theorem todo_of_channel (h : x.ask.channel? = some c) :
    ∃ op rest, x.todo = op :: rest ∧ op.needsCore = true := by
  rw [ask.eq_def] at h
  split at h <;> cases h
  all_goals
    rename_i todo
    exact ⟨_, _, todo, rfl⟩

theorem hear_closed (todo : x.todo = op :: rest) :
    x.hear p .closed = x.reply (op.cutReply x.gathered) := by
  rw [hear.eq_def, todo]
  cases op with
  | sendAll vs => cases vs <;> rfl
  | collect n => cases n <;> rfl
  | _ => rfl

theorem hear_stalled (asks : x.ask = .getSoon c) : ∃ ms rest,
    x.todo = .receiveWithin ms :: rest ∧ x.hear p .stalled = x.reply (.stalled ms) := by
  obtain ⟨-, ms, rest, todo⟩ := todo_of_getSoon asks
  exact ⟨ms, rest, todo, by simp [hear.eq_def, todo]⟩

theorem hear_hungUp (asks : x.ask = .hangUp) : ∃ rest,
    x.todo = .hangUp :: rest ∧ x.hear p .done = x.reply .ok := by
  rw [ask.eq_def] at asks
  split at asks <;> cases asks
  rename_i rest todo
  exact ⟨rest, todo, by simp [hear.eq_def, todo]⟩

theorem hear_joined (asks : x.ask = .join) : ∃ rest,
    x.todo = .join :: rest ∧ x.hear p .done = x.reply .joined := by
  rw [ask.eq_def] at asks
  split at asks <;> cases asks
  rename_i rest todo
  exact ⟨rest, todo, by simp [hear.eq_def, todo]⟩

theorem hear_polled (asks : x.ask = .poll) (b : Bool) : ∃ rest,
    x.todo = .isFinished :: rest ∧ x.hear p (.stopped b) = x.reply (.flag b) := by
  obtain ⟨rest, todo⟩ := todo_of_poll asks
  exact ⟨rest, todo, by simp [hear.eq_def, todo]⟩

theorem reply_of_may {whole : Channel → Bool} {mine : Ends} {a : Answer}
    (h : x.ask.May whole mine (.hear a)) :
    ∃ op rest r, x.todo = op :: rest ∧ x.hear p a = x.reply r := by
  generalize asks : x.ask = what at h
  cases h with
  | work =>
      obtain ⟨rest, todo | todo | todo⟩ := todo_of_work asks
      · exact ⟨_, rest, .ok, todo, by simp [hear.eq_def, todo]⟩
      · exact ⟨_, rest, .values x.gathered.reverse, todo, by simp [hear.eq_def, todo]⟩
      · exact ⟨_, rest, .flag (p = .interactive), todo, by simp [hear.eq_def, todo]⟩
  | closed needs broken =>
      rw [← asks] at needs
      obtain ⟨op, rest, todo, -⟩ := todo_of_channel needs
      exact ⟨op, rest, op.cutReply x.gathered, todo, hear_closed todo⟩
  | stall =>
      obtain ⟨ms, rest, todo, hears⟩ := hear_stalled asks
      exact ⟨_, rest, .stalled ms, todo, hears⟩
  | gone empty =>
      obtain ⟨rest, todo, hears⟩ := hear_hungUp asks
      exact ⟨_, rest, .ok, todo, hears⟩

theorem logs_single {r : Reply} (split : ops = before ++ op :: rest)
    (earlier : Accounted before replies given taken)
    (part : op.Underway now gathered more moreTaken) (single : now.isSingle = true)
    (last : now.Accounts r [] []) :
    Logs ops ⟨rest, [], replies ++ [r]⟩ (given ++ more) (taken ++ moreTaken) := by
  obtain ⟨rfl, rfl, rfl, rfl⟩ := part.of_single single
  exact logs_reply split earlier last

theorem logs_closed (logs : Logs ops x given taken) (asks : x.ask.channel? = some c) :
    Logs ops (x.hear p .closed) given taken := by
  obtain ⟨now, rest, todo, needs⟩ := todo_of_channel asks
  rw [hear_closed todo]
  cases logs with
  | finished all => cases todo
  | underway split earlier part =>
      cases todo
      exact logs_reply split earlier (part.accounts_cut needs)

theorem logs_work (logs : Logs ops x given taken) (asks : x.ask = .work) :
    Logs ops (x.hear p .done) given taken := by
  cases logs with
  | finished all => cases asks
  | underway split earlier part =>
      rcases todo_of_work asks with ⟨rest', todo | todo | todo⟩ <;> cases todo
      · obtain ⟨rfl, rfl, rfl⟩ := part.of_sendAll
        rw [List.append_nil] at split
        exact logs_reply split earlier (.sentAll _)
      · obtain ⟨rfl, rfl, rfl⟩ := part.of_collect
        simpa [hear.eq_def, reply] using
          logs_reply split earlier (.collected (Nat.le_add_right _ 0))
      · exact logs_single split earlier part rfl (.interactive _)

theorem logs_noted {a : Answer} {r : Reply} (logs : Logs ops x given taken)
    (todo : x.todo = now :: rest) (single : now.isSingle = true) (last : now.Accounts r [] [])
    (hears : x.hear p a = x.reply r) : Logs ops (x.hear p a) given taken := by
  rw [hears]
  cases logs with
  | finished all => cases todo
  | underway split earlier part =>
      cases todo
      exact logs_single split earlier part single last

theorem logs_alone {whole : Channel → Bool} {mine : Ends} {a : Answer}
    (logs : Logs ops x given taken) (h : x.ask.May whole mine (.hear a)) :
    Logs ops (x.hear p a) given taken := by
  generalize asks : x.ask = what at h
  cases h with
  | work => exact logs_work logs asks
  | closed needs broken =>
      rw [← asks] at needs
      exact logs_closed logs needs
  | stall =>
      obtain ⟨ms, rest, todo, hears⟩ := hear_stalled asks
      exact logs_noted logs todo rfl (.stalled ms) hears
  | gone empty =>
      obtain ⟨rest, todo, hears⟩ := hear_hungUp asks
      exact logs_noted logs todo rfl .hungUp hears

theorem logs_gave (logs : Logs ops x given taken) (puts : x.ask = .put .toCore v) :
    Logs ops (x.hear p .done) (given ++ [v]) taken := by
  cases logs with
  | finished all => cases puts
  | @underway before rest op now gathered given taken more moreTaken replies split earlier part =>
      rw [List.append_assoc]
      rcases (todo_of_put puts).2 with ⟨rest', todo⟩ | ⟨vs, rest', todo⟩
      · cases todo
        obtain ⟨rfl, rfl, rfl, rfl⟩ := part.of_single rfl
        exact logs_reply split earlier (.sent v)
      · cases todo
        obtain ⟨rfl, rfl, rfl⟩ := part.of_sendAll
        have next := Underway.sending (more ++ [v]) vs
        rw [List.append_assoc, List.singleton_append] at next
        exact .underway split earlier next

theorem logs_got (logs : Logs ops x given taken)
    (gets : x.ask = .get .fromCore ∨ x.ask = .getSoon .fromCore) :
    Logs ops (x.hear p (.value v)) given (taken ++ [v]) := by
  -- One value is all that a single operation waits for; the others keep what they have gathered.
  cases logs with
  | finished all => rcases gets with gets | gets <;> cases gets
  | @underway before rest op now gathered given taken more moreTaken replies split earlier part =>
      rw [List.append_assoc]
      rcases gets with gets | gets
      · rcases todo_of_get gets with ⟨wrong, -⟩ | ⟨-, ⟨rest', todo⟩ | ⟨rest', todo⟩ |
          ⟨rest', todo⟩ | ⟨n, rest', todo⟩⟩
        · cases wrong
        · cases todo
          obtain ⟨rfl, rfl, rfl, rfl⟩ := part.of_single rfl
          exact logs_reply split earlier (.received v)
        · cases todo
          obtain ⟨rfl, rfl, rfl, unbroken⟩ := part.of_skipLine
          by_cases ends : v = Text.newline
          · subst ends
            simpa [hear.eq_def, reply] using logs_reply split earlier (.skipped unbroken)
          · have longer : Text.newline ∉ moreTaken ++ [v] := by
              simp [unbroken, Ne.symm ends]
            simpa [hear.eq_def, ends] using Logs.underway split earlier (.skipping longer)
        · cases todo
          obtain ⟨rfl, rfl, rfl⟩ := part.of_drain
          have next := Underway.draining (moreTaken ++ [v])
          rw [List.reverse_append] at next
          exact .underway split earlier next
        · cases todo
          obtain ⟨rfl, rfl, rfl⟩ := part.of_collect
          have next := Underway.collecting (moreTaken ++ [v]) n
          rw [List.reverse_append, List.length_append, List.length_singleton, Nat.add_assoc,
            Nat.add_comm 1 n] at next
          exact .underway split earlier next
      · obtain ⟨-, ms, rest', todo⟩ := todo_of_getSoon gets
        cases todo
        obtain ⟨rfl, rfl, rfl, rfl⟩ := part.of_single rfl
        exact logs_reply split earlier (.receivedWithin ms v)

theorem logs_pulse (logs : Logs ops x given taken) (gets : x.ask = .get .ready) :
    Logs ops (x.hear p (.value v)) given taken := by
  rcases todo_of_get gets with ⟨-, rest, todo⟩ | ⟨wrong, -⟩
  · exact logs_noted logs todo rfl (.pulse true) (by simp [hear.eq_def, todo])
  · cases wrong

theorem logs_joined (logs : Logs ops x given taken) (asks : x.ask = .join) :
    Logs ops (x.hear p .done) given taken := by
  obtain ⟨rest, todo, hears⟩ := hear_joined asks
  exact logs_noted logs todo rfl .joined hears

theorem logs_polled {b : Bool} (logs : Logs ops x given taken) (asks : x.ask = .poll) :
    Logs ops (x.hear p (.stopped b)) given taken := by
  obtain ⟨rest, todo, hears⟩ := hear_polled asks b
  exact logs_noted logs todo rfl (.looked b) hears

theorem Logs.unmoved {e : Event} (logs : Logs ops x given taken) (ungiven : e.sent? = none)
    (untaken : e.received? = none) :
    Logs ops x (given ++ e.sent?.toList) (taken ++ e.received?.toList) := by
  rw [ungiven, untaken, Option.toList_none, List.append_nil, List.append_nil]
  exact logs

theorem logs_step {κ : Type} {P : Party κ} {s t : Session κ ControllerScript} {e : Event}
    (logs : Logs ops s.controller given taken) (h : Session.Step P (party p) s e t) :
    Logs ops t.controller (given ++ e.sent?.toList) (taken ++ e.received?.toList) := by
  cases h with
  | @core turn may => cases turn <;> exact logs.unmoved rfl rfl
  | @controller turn may =>
      cases turn with
      | drop c => exact logs.unmoved rfl rfl
      | hear a => exact (logs_alone logs may).unmoved rfl rfl
  | joined asks gone => exact (logs_joined logs asks).unmoved rfl rfl
  | polled asks gone => exact (logs_polled logs asks).unmoved rfl rfl
  | @fromCore c v whole meet =>
      rcases meet.get_eq with gets | gets
      · rcases todo_of_get gets with ⟨rfl, -⟩ | ⟨rfl, -⟩
        · exact (logs_pulse logs gets).unmoved rfl rfl
        · have got := logs_got (p := p) (v := v) logs (.inl gets)
          rw [← List.append_nil given] at got
          exact got
      · obtain ⟨rfl, -⟩ := todo_of_getSoon gets
        have got := logs_got (p := p) (v := v) logs (.inr gets)
        rw [← List.append_nil given] at got
        exact got
  | @toCore c v whole meet =>
      obtain ⟨rfl, -⟩ := todo_of_put meet.put_eq
      have gave := logs_gave (p := p) logs meet.put_eq
      rw [← List.append_nil taken] at gave
      exact gave

end ControllerScript

namespace Session

variable {κ σ : Type} {p : Protocol} {es : List Event}

/-- What the outputs of a core script say they gave is what has been received, and what its inputs
say they took is what has been sent. -/
theorem core_logs {Q : Party σ} {ops : List CoreOp} {controller : σ} {s : Session CoreScript σ}
    (h : Steps (CoreScript.party p) Q (start p { todo := ops } controller) es s) :
    s.core.Logs ops (received es) (sent es) := by
  refine h.keeps (I := fun es s => CoreScript.Logs ops s.core (received es) (sent es)) ?_ []
    (CoreScript.logs_start ops)
  intro es s e t logs step
  rw [received_snoc, sent_snoc]
  exact CoreScript.logs_step logs step

/-- The replies of a controller script account for everything that was sent and received. -/
theorem controller_logs {P : Party κ} {ops : List ControllerOp} {core : κ}
    {s : Session κ ControllerScript}
    (h : Steps P (ControllerScript.party p) (start p core { todo := ops }) es s) :
    s.controller.Logs ops (sent es) (received es) := by
  refine h.keeps (I := fun es s => ControllerScript.Logs ops s.controller (sent es) (received es))
    ?_ [] (ControllerScript.logs_start ops)
  intro es s e t logs step
  rw [received_snoc, sent_snoc]
  exact ControllerScript.logs_step logs step

end Session

end Shipboard
