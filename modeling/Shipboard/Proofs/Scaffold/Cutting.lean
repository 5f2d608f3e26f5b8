import Shipboard.Proofs.Scaffold.Guidance
import Shipboard.Session.Script

/-!
Where the readers of a stream stop. A frame is cut off at the first pair of newlines, and each line
that is skipped after it ends at the next newline, so that one reader goes on exactly where the
other has stopped. The guide and the scripts, which get one value at a time, stop at the same
places.
-/

namespace Shipboard

open Text

namespace Party

variable {σ : Type} {Q : Party σ} {during : σ → Bool} {s : σ}

def goesOn (Q : Party σ) (during : σ → Bool) (s : σ) : Bool :=
  during s && Q.ask s = .get .fromCore

/-- Hands a party the values of a stream for as long as it goes on, and then the end of the stream:
the party as it is then, and the values that are left. -/
def feed (Q : Party σ) (during : σ → Bool) (s : σ) : List Word → σ × List Word
  | [] => (if Q.goesOn during s then Q.hear s .closed else s, [])
  | v :: values =>
      if Q.goesOn during s then Q.feed during (Q.hear s (.value v)) values else (s, v :: values)

theorem feed_nil (goes : Q.goesOn during s = true) :
    Q.feed during s [] = (Q.hear s .closed, []) := by
  rw [feed, if_pos goes]

theorem feed_cons (goes : Q.goesOn during s = true) (v : Word) (values : List Word) :
    Q.feed during s (v :: values) = Q.feed during (Q.hear s (.value v)) values := by
  rw [feed, if_pos goes]

theorem feed_of_not (stops : Q.goesOn during s = false) (values : List Word) :
    Q.feed during s values = (s, values) := by
  cases values <;> simp [feed, stops]

theorem feed_of_done (done : during s = false) (values : List Word) :
    Q.feed during s values = (s, values) := by
  apply feed_of_not
  rw [goesOn, done, Bool.false_and]

theorem gets_of_goesOn (goes : Q.goesOn during s = true) : Q.ask s = .get .fromCore := by
  rw [goesOn, Bool.and_eq_true] at goes
  exact of_decide_eq_true goes.2

end Party

namespace Session

variable {σ : Type} {Q : Party σ} {during : σ → Bool} {x : CoreScript} {s : σ}

theorem step_written {v : Word} {ops : List CoreOp} (todo : x.todo = .output v :: ops)
    (gets : Q.ask s = .get .fromCore) :
    Step (CoreScript.party .streaming) Q ⟨x, s, .ofProtocol .streaming⟩ (.passed .fromCore v)
      ⟨x.reply .ok, Q.hear s (.value v), .ofProtocol .streaming⟩ := by
  have puts : (CoreScript.party .streaming).ask x = .put .fromCore v := by
    simp only [CoreScript.party, CoreScript.ask, todo]
  have hears : (CoreScript.party .streaming).hear x .done = x.reply .ok := by
    simp only [CoreScript.party, CoreScript.hear.eq_def, todo]
  rw [← hears]
  refine .fromCore rfl ?_
  rw [puts, gets]
  exact .get

theorem steps_ended (todo : x.todo = []) (gets : Q.ask s = .get .fromCore) :
    ∃ t, Steps (CoreScript.party .streaming) Q ⟨x, s, .ofProtocol .streaming⟩
        [.core (.drop .fromCore), .controller (.hear .closed)] t ∧
      t.controller = Q.hear s .closed := by
  have leaves : ((CoreScript.party .streaming).ask x).leaves = true := by
    simp only [CoreScript.party, CoreScript.ask, todo, Ask.leaves]
  have waits : (Q.ask s).channel? = some .fromCore := congrArg Ask.channel? gets
  exact ⟨_, .cons (.core (.drop leaves rfl)) (.cons (.controller (.closed waits rfl)) (.refl _)),
    rfl⟩

/-- To be handed a stream is to meet with a core that writes its values and stops. -/
theorem steps_of_feed (values : List Word) (todo : x.todo = values.map .output) :
    ∃ es t, Steps (CoreScript.party .streaming) Q ⟨x, s, .ofProtocol .streaming⟩ es t ∧
      t.controller = (Q.feed during s values).1 ∧
      values = received es ++ (Q.feed during s values).2 := by
  -- Value by value: the party goes on as long as it is fed, and stops where `feed` does.
  induction values generalizing x s with
  | nil =>
      cases goes : Q.goesOn during s with
      | false =>
          rw [Party.feed_of_not goes]
          exact ⟨[], _, .refl _, rfl, rfl⟩
      | true =>
          rw [Party.feed_nil goes]
          obtain ⟨t, steps, hears⟩ := steps_ended todo (Party.gets_of_goesOn goes)
          exact ⟨_, t, steps, hears, rfl⟩
  | cons v values ih =>
      cases goes : Q.goesOn during s with
      | false =>
          rw [Party.feed_of_not goes]
          exact ⟨[], _, .refl _, rfl, rfl⟩
      | true =>
          have others : (x.reply .ok).todo = values.map .output := by
            rw [CoreScript.reply, todo]
            rfl
          have first := step_written todo (Party.gets_of_goesOn goes)
          obtain ⟨es, t, steps, hears, split⟩ := ih (s := Q.hear s (.value v)) others
          rw [Party.feed_cons goes]
          exact ⟨_, t, .cons first steps, hears, congrArg (v :: ·) split⟩

end Session

namespace Stream

variable {frame behind got line values rest gathered : List Word} {n : Nat}

theorem Reads.append (reads : Reads False frame behind got) (more : List Word) :
    Reads False frame (behind ++ more) (got ++ more) := by
  cases reads with
  | whole last unbroken =>
      rw [List.append_assoc, List.cons_append]
      exact .whole last unbroken
  | cut now unbroken => exact now.elim

theorem reads_readFrame (unbroken : Unbroken gathered.reverse) (values : List Word) :
    Reads True (readFrame gathered values).1 (readFrame gathered values).2
      (gathered.reverse ++ values) := by
  -- What has been gathered has no pair of newlines, so only the value at hand can complete one.
  induction values generalizing gathered with
  | nil =>
      rw [List.append_nil]
      exact .cut trivial unbroken
  | cons v values ih =>
      rw [readFrame, List.append_cons]
      split
      · rename_i ends
        exact ((reads_of_extend? unbroken ends).append values).mono False.elim
      · rename_i longer goes
        obtain ⟨same, unbroken'⟩ := unbroken_of_extend? unbroken goes
        rw [← same]
        exact ih unbroken'

theorem readFrame_eq_iff : readFrame [] got = (frame, behind) ↔ Reads True frame behind got := by
  constructor
  · intro read
    have fresh : Unbroken ([] : List Word).reverse := .nil
    have reads := reads_readFrame fresh got
    rw [read] at reads
    exact reads
  · exact Reads.readFrame

theorem skipLine_append (unended : newline ∉ line) (rest : List Word) :
    skipLine (line ++ newline :: rest) = (true, rest) := by
  induction line with
  | nil => rfl
  | cons v line ih =>
      rw [List.mem_cons, not_or] at unended
      rw [List.cons_append, skipLine, if_neg (Ne.symm unended.1)]
      exact ih unended.2

theorem skipLine_of_notMem (unended : newline ∉ values) : skipLine values = (false, []) := by
  induction values with
  | nil => rfl
  | cons v values ih =>
      rw [List.mem_cons, not_or] at unended
      rw [skipLine, if_neg (Ne.symm unended.1)]
      exact ih unended.2

theorem skipLine_cases (values : List Word) :
    (∃ line rest, newline ∉ line ∧ values = line ++ newline :: rest ∧
      skipLine values = (true, rest)) ∨
    (newline ∉ values ∧ skipLine values = (false, [])) := by
  by_cases among : newline ∈ values
  · obtain ⟨line, rest, rfl, unended⟩ := List.eq_append_cons_of_mem among
    exact .inl ⟨line, rest, unended, rfl, skipLine_append unended rest⟩
  · exact .inr ⟨among, skipLine_of_notMem among⟩

theorem skipLine_eq_true_iff : skipLine values = (true, rest) ↔
    ∃ line, newline ∉ line ∧ values = line ++ newline :: rest := by
  constructor
  · intro skips
    rcases skipLine_cases values with ⟨line, rest', unended, same, skips'⟩ | ⟨-, skips'⟩
    · cases skips.symm.trans skips'
      exact ⟨line, unended, same⟩
    · cases skips.symm.trans skips'
  · rintro ⟨line, unended, rfl⟩
    exact skipLine_append unended rest

theorem skipLine_eq_false_iff :
    skipLine values = (false, rest) ↔ newline ∉ values ∧ rest = [] := by
  constructor
  · intro skips
    rcases skipLine_cases values with ⟨line, rest', -, -, skips'⟩ | ⟨unended, skips'⟩
    · cases skips.symm.trans skips'
    · cases skips.symm.trans skips'
      exact ⟨unended, rfl⟩
  · rintro ⟨unended, rfl⟩
    exact skipLine_of_notMem unended

/-- So many lines skipped one after another: whether there was each, and the values behind them. -/
def skipLines : Nat → List Word → List Bool × List Word
  | 0, values => ([], values)
  | n + 1, values =>
      let (found, rest) := skipLine values
      let (others, behind) := skipLines n rest
      (found :: others, behind)

theorem skipLines_of_skipLine {found : Bool} (skips : skipLine values = (found, rest)) (n : Nat) :
    skipLines (n + 1) values = (found :: (skipLines n rest).1, (skipLines n rest).2) := by
  rw [skipLines, skips]

def ended (lines : List (List Word)) : List Word := lines.flatMap (· ++ [newline])

theorem count_newline (unended : newline ∉ line) (rest : List Word) :
    (line ++ newline :: rest).count newline = rest.count newline + 1 := by
  rw [List.count_append, List.count_eq_zero_of_not_mem unended, List.count_cons_self, Nat.zero_add]

theorem skipLines_of_le (enough : n ≤ values.count newline) :
    ∃ lines behind, skipLines n values = (List.replicate n true, behind) ∧ lines.length = n ∧
      (∀ line ∈ lines, newline ∉ line) ∧ values = ended lines ++ behind := by
  induction n generalizing values with
  | zero => exact ⟨[], values, rfl, rfl, nofun, rfl⟩
  | succ n ih =>
      rcases skipLine_cases values with ⟨line, rest, unended, rfl, skips⟩ | ⟨unended, -⟩
      · rw [count_newline unended] at enough
        obtain ⟨lines, behind, skipped, length, all, rfl⟩ := ih (Nat.le_of_succ_le_succ enough)
        refine ⟨line :: lines, behind, ?_, by rw [List.length_cons, length], ?_, ?_⟩
        · rw [skipLines_of_skipLine skips, skipped, List.replicate_succ]
        · exact List.forall_mem_cons.mpr ⟨unended, all⟩
        · simp [ended]
      · rw [List.count_eq_zero_of_not_mem unended] at enough
        omega

theorem skipLines_nil (n : Nat) : skipLines n [] = (List.replicate n false, []) := by
  induction n with
  | zero => rfl
  | succ n ih =>
      have skips : skipLine [] = (false, []) := rfl
      rw [skipLines_of_skipLine skips, ih, List.replicate_succ]

theorem skipLines_of_lt (few : values.count newline < n) :
    skipLines n values =
      (List.replicate (values.count newline) true ++
        List.replicate (n - values.count newline) false, []) := by
  induction n generalizing values with
  | zero => exact absurd few (Nat.not_lt_zero _)
  | succ n ih =>
      rcases skipLine_cases values with ⟨line, rest, unended, rfl, skips⟩ | ⟨unended, skips⟩
      · rw [count_newline unended] at few ⊢
        rw [skipLines_of_skipLine skips, ih (Nat.lt_of_succ_lt_succ few), List.replicate_succ,
          List.cons_append, Nat.add_sub_add_right]
      · rw [List.count_eq_zero_of_not_mem unended, skipLines_of_skipLine skips, skipLines_nil,
          List.replicate_zero, List.nil_append, Nat.sub_zero, List.replicate_succ]

end Stream

namespace Guide

def isFraming (g : Guide) : Bool :=
  match g.phase with
  | .framing _ => true
  | _ => false

def isPrompted (g : Guide) : Bool :=
  match g.phase with
  | .prompted _ _ => true
  | _ => false

def Phase.ofPrompt (routines : Routines) (line : List Char) (lines : List (List Char))
    (found : Bool) : Phase :=
  if found then .answering routines (lineCodes line) lines else .fail (.closed .prompt)

theorem hear_eq (video : Bool) (phase : Phase) (a : Answer) :
    party.hear ⟨video, phase⟩ a = ⟨video, hearPhase video phase a⟩ := rfl

theorem isFraming_ofFrame (video : Bool) (frame : List Word) :
    isFraming ⟨video, .ofFrame video frame⟩ = false := by
  rw [isFraming, Phase.ofFrame]
  dsimp only
  split
  · rename_i phase framing
    split at framing
    · rename_i routines lines plans
      cases lines <;> cases framing
    · cases framing
  · rfl

theorem feed_framing (video : Bool) (gathered values : List Word) :
    party.feed isFraming ⟨video, .framing gathered⟩ values =
      (⟨video, .ofFrame video (Stream.readFrame gathered values).1⟩,
        (Stream.readFrame gathered values).2) := by
  induction values generalizing gathered with
  | nil => rfl
  | cons v values ih =>
      rw [Party.feed_cons rfl, hear_eq, hearPhase, Stream.readFrame]
      cases Stream.extend? gathered v with
      | none => exact Party.feed_of_done (isFraming_ofFrame video gathered.reverse) values
      | some longer => exact ih longer

theorem feed_prompted (video : Bool) (routines : Routines) (line : List Char)
    (lines : List (List Char)) (values : List Word) :
    party.feed isPrompted ⟨video, .prompted routines (line :: lines)⟩ values =
      (⟨video, .ofPrompt routines line lines (Stream.skipLine values).1⟩,
        (Stream.skipLine values).2) := by
  induction values with
  | nil => rfl
  | cons v values ih =>
      rw [Party.feed_cons rfl, hear_eq, hearPhase, Stream.skipLine]
      split
      · exact Party.feed_of_done rfl _
      · exact ih

end Guide

namespace ControllerScript

variable {p : Protocol} {ops : List ControllerOp} {gathered : List Word} {replies : List Reply}

def hasLeft (n : Nat) (s : ControllerScript) : Bool := s.todo.length = n

def perform (p : Protocol) (s : ControllerScript) (values : List Word) :
    ControllerScript × List Word :=
  (party p).feed (hasLeft s.todo.length) s values

theorem hear_skipLine (v : Word) :
    (party p).hear ⟨.skipLine :: ops, gathered, replies⟩ (.value v) =
      if v = newline then ⟨ops, [], replies ++ [.flag true]⟩
      else ⟨.skipLine :: ops, gathered, replies⟩ := rfl

theorem perform_skipLine (values : List Word) :
    perform p ⟨.skipLine :: ops, gathered, replies⟩ values =
      (⟨ops, [], replies ++ [.flag (Stream.skipLine values).1]⟩, (Stream.skipLine values).2) := by
  have underway : (party p).goesOn (hasLeft (ops.length + 1))
      ⟨.skipLine :: ops, gathered, replies⟩ = true := by
    rw [Party.goesOn, Bool.and_eq_true]
    exact ⟨decide_eq_true rfl, decide_eq_true rfl⟩
  have done : hasLeft (ops.length + 1) ⟨ops, [], replies ++ [.flag true]⟩ = false :=
    decide_eq_false (Nat.ne_of_lt (Nat.lt_succ_self ops.length))
  rw [perform, List.length_cons]
  induction values with
  | nil =>
      rw [Party.feed_nil underway]
      rfl
  | cons v values ih =>
      rw [Party.feed_cons underway, hear_skipLine, Stream.skipLine]
      split
      · exact Party.feed_of_done done values
      · exact ih

def performAll (p : Protocol) : Nat → ControllerScript → List Word → ControllerScript × List Word
  | 0, s, values => (s, values)
  | n + 1, s, values =>
      let (s, rest) := perform p s values
      performAll p n s rest

theorem performAll_skipLine (n : Nat) (values : List Word) :
    performAll p n ⟨List.replicate n .skipLine ++ ops, [], replies⟩ values =
      (⟨ops, [], replies ++ (Stream.skipLines n values).1.map .flag⟩,
        (Stream.skipLines n values).2) := by
  induction n generalizing replies values with
  | zero => simp [performAll, Stream.skipLines]
  | succ n ih =>
      rcases skips : Stream.skipLine values with ⟨found, rest⟩
      rw [List.replicate_succ, List.cons_append, performAll, perform_skipLine, skips]
      dsimp only
      rw [ih, Stream.skipLines_of_skipLine skips, List.map_cons, List.append_assoc,
        List.singleton_append]

end ControllerScript

/-- A stream is cut at its first pair of newlines, of which the first ends the frame and the second
belongs to neither part; without a pair all of it is the frame. What is skipped then is one line at
a time, up to and including its newline, for as long as there are newlines, and after that the rest,
in vain. The guide reads its frame, and waits for the end of a prompt, by just these cuts, and a
script skips lines by them; so they do in a session with a core that writes the values and stops. -/
theorem stream_cut_exactly :
    (∀ stream frame rest : List Word, Stream.readFrame [] stream = (frame, rest) ↔
      (frame.getLast? = some newline ∧ Stream.Unbroken frame ∧
        stream = frame ++ newline :: rest) ∨
      (Stream.Unbroken stream ∧ frame = stream ∧ rest = [])) ∧
    (∀ values rest : List Word,
      (Stream.skipLine values = (true, rest) ↔
        ∃ line, newline ∉ line ∧ values = line ++ newline :: rest) ∧
      (Stream.skipLine values = (false, rest) ↔ newline ∉ values ∧ rest = [])) ∧
    (∀ (values : List Word) (n : Nat),
      (n ≤ values.count newline →
        ∃ lines behind, Stream.skipLines n values = (List.replicate n true, behind) ∧
          lines.length = n ∧ (∀ line ∈ lines, newline ∉ line) ∧
          values = Stream.ended lines ++ behind) ∧
      (values.count newline < n →
        Stream.skipLines n values =
          (List.replicate (values.count newline) true ++
            List.replicate (n - values.count newline) false, []))) ∧
    (∀ (video : Bool) (stream : List Word),
      Guide.party.feed Guide.isFraming { video } stream =
        (⟨video, .ofFrame video (Stream.readFrame [] stream).1⟩,
          (Stream.readFrame [] stream).2)) ∧
    (∀ (video : Bool) (routines : Routines) (line : List Char) (lines : List (List Char))
        (values : List Word),
      Guide.party.feed Guide.isPrompted ⟨video, .prompted routines (line :: lines)⟩ values =
        (⟨video, .ofPrompt routines line lines (Stream.skipLine values).1⟩,
          (Stream.skipLine values).2)) ∧
    (∀ (p : Protocol) (n : Nat) (ops : List ControllerOp) (replies : List Reply)
        (values : List Word),
      ControllerScript.performAll p n ⟨List.replicate n .skipLine ++ ops, [], replies⟩ values =
        (⟨ops, [], replies ++ (Stream.skipLines n values).1.map .flag⟩,
          (Stream.skipLines n values).2)) ∧
    ∀ {σ : Type} (Q : Party σ) (during : σ → Bool) (s : σ) (values : List Word),
      ∃ es t, Session.Steps (CoreScript.party .streaming) Q
          (.start .streaming { todo := values.map .output } s) es t ∧
        t.controller = (Q.feed during s values).1 ∧
        values = Session.received es ++ (Q.feed during s values).2 := by
  refine ⟨?frame, ?line, ?lines, ?framing, ?prompted, ?script, ?session⟩
  case frame =>
    intro stream frame rest
    rw [Stream.readFrame_eq_iff]
    constructor
    · intro reads
      cases reads with
      | whole last unbroken => exact .inl ⟨last, unbroken, rfl⟩
      | cut now unbroken => exact .inr ⟨unbroken, rfl, rfl⟩
    · rintro (⟨last, unbroken, rfl⟩ | ⟨unbroken, rfl, rfl⟩)
      · exact .whole last unbroken
      · exact .cut trivial unbroken
  case line =>
    intro values rest
    exact ⟨Stream.skipLine_eq_true_iff, Stream.skipLine_eq_false_iff⟩
  case lines =>
    intro values n
    exact ⟨Stream.skipLines_of_le, Stream.skipLines_of_lt⟩
  case framing => exact fun video stream => Guide.feed_framing video [] stream
  case prompted => exact Guide.feed_prompted
  case script => exact fun p n ops replies values => ControllerScript.performAll_skipLine n values
  case session => exact fun Q during s values => Session.steps_of_feed values rfl

/-- Of the newlines in front, the first is the frame and the second is dropped; the third ends the
first line that is skipped. There is a second line and no third. -/
theorem stream_cut_exactly_newlines :
    Stream.readFrame [] [10, 10, 10, 77, 10, 65] = ([10], [10, 77, 10, 65]) ∧
    (∃ lines behind, Stream.skipLines 2 [10, 77, 10, 65] = ([true, true], behind) ∧
      lines.length = 2 ∧ [10, 77, 10, 65] = Stream.ended lines ++ behind) ∧
    Stream.skipLines 3 [10, 77, 10, 65] = ([true, true, false], []) := by
  obtain ⟨frame, -, lines, -⟩ := stream_cut_exactly
  refine ⟨?frame, ?enough, ?few⟩
  case frame =>
    refine (frame _ _ _).mpr (.inl ⟨rfl, ?_, rfl⟩)
    exact .singleton 10
  case enough =>
    obtain ⟨read, behind, skips, length, -, same⟩ :=
      (lines [10, 77, 10, 65] 2).1 (by decide)
    exact ⟨read, behind, skips, length, same⟩
  case few => exact (lines [10, 77, 10, 65] 3).2 (by decide)

end Shipboard
