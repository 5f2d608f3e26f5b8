import Mathlib.Data.List.Chain
import Shipboard.Scaffold.Rescue
import Shipboard.Proofs.Core.Failing
import Shipboard.Proofs.Session.Buffered
import Shipboard.Proofs.Session.Reach

/-!
What a guide has received and sent in each of its phases. It has read a frame before it plans, and
has sent the lines of its plan, in order and nothing else, up to where its phase says it is. This
does not depend on the core: the guide might as well talk to a script.
-/

namespace Shipboard

open Text

namespace Stream

def Unbroken (codes : List Word) : Prop :=
  codes.IsChain fun a b => ¬ (a = newline ∧ b = newline)

/-- The values `got` start with a frame and the newline that ends it. -/
structure Framed (frame got : List Word) : Prop where
  behind : ∃ rest, got = frame ++ newline :: rest
  last : frame.getLast? = some newline
  unbroken : Unbroken frame

/-- A reader has come past `frame` and then received `behind`. With `Cut` the stream may have ended
in the middle of the frame. -/
inductive Reads (Cut : Prop) (frame : List Word) : (behind got : List Word) → Prop
  | whole {behind : List Word} (last : frame.getLast? = some newline)
      (unbroken : Unbroken frame) : Reads Cut frame behind (frame ++ newline :: behind)
  | cut (now : Cut) (unbroken : Unbroken frame) : Reads Cut frame [] frame

/-- The last of `n` newlines ends the values. -/
structure EndsLine (n : Nat) (values : List Word) : Prop where
  count : values.count newline = n
  last : values.getLast? = some newline

variable {Cut Cut' : Prop} {frame behind got gathered longer : List Word} {v : Word} {n : Nat}

theorem Reads.mono (reads : Reads Cut frame behind got) (more : Cut → Cut') :
    Reads Cut' frame behind got := by
  cases reads with
  | whole last unbroken => exact .whole last unbroken
  | cut now unbroken => exact .cut (more now) unbroken

theorem Reads.snoc (reads : Reads Cut frame behind got) (alive : ¬ Cut) (v : Word) :
    Reads Cut frame (behind ++ [v]) (got ++ [v]) := by
  cases reads with
  | whole last unbroken =>
      rw [List.append_assoc, List.cons_append]
      exact .whole last unbroken
  | cut now unbroken => exact absurd now alive

theorem Reads.framed (reads : Reads Cut frame behind got) (more : behind ≠ []) :
    Framed frame got ∧ got = frame ++ newline :: behind := by
  cases reads with
  | whole last unbroken => exact ⟨⟨⟨behind, rfl⟩, last, unbroken⟩, rfl⟩
  | cut now unbroken => exact absurd rfl more

theorem readFrame_append (gathered : List Word) {front : List Word}
    (unbroken : Unbroken (gathered.reverse ++ front)) (rest : List Word) :
    readFrame gathered (front ++ rest) = readFrame (front.reverse ++ gathered) rest := by
  induction front generalizing gathered with
  | nil => rfl
  | cons v front ih =>
      have goes : extend? gathered v = some (v :: gathered) := by
        rw [extend?, if_neg]
        rintro ⟨rfl, last⟩
        obtain ⟨-, -, apart⟩ := List.isChain_append.mp unbroken
        refine apart newline ?_ newline rfl ⟨rfl, rfl⟩
        rw [List.getLast?_reverse]
        exact last
      rw [List.cons_append, readFrame, goes]
      dsimp only
      rw [List.append_cons, ← List.reverse_cons] at unbroken
      rw [ih (v :: gathered) unbroken, List.reverse_cons, List.append_assoc, List.singleton_append]

theorem readFrame_of_unbroken (unbroken : Unbroken got) : readFrame [] got = (got, []) := by
  have read := readFrame_append [] unbroken []
  rw [List.append_nil, List.append_nil, readFrame, List.reverse_reverse] at read
  exact read

theorem Reads.readFrame (reads : Reads Cut frame behind got) :
    readFrame [] got = (frame, behind) := by
  cases reads with
  | whole last unbroken =>
      have pair : frame.reverse.head? = some newline := by rw [List.head?_reverse, last]
      have ends : extend? frame.reverse newline = none := by rw [extend?, if_pos ⟨rfl, pair⟩]
      rw [readFrame_append [] unbroken, List.append_nil, Stream.readFrame, ends]
      dsimp only
      rw [List.reverse_reverse]
  | cut now unbroken => exact readFrame_of_unbroken unbroken

theorem reads_of_extend? (unbroken : Unbroken gathered.reverse)
    (ends : extend? gathered v = none) :
    Reads Cut gathered.reverse [] (gathered.reverse ++ [v]) := by
  rw [extend?] at ends
  split at ends
  · rename_i pair
    obtain ⟨rfl, last⟩ := pair
    exact .whole (by rw [List.getLast?_reverse, last]) unbroken
  · cases ends

theorem unbroken_of_extend? (unbroken : Unbroken gathered.reverse)
    (goes : extend? gathered v = some longer) :
    longer.reverse = gathered.reverse ++ [v] ∧ Unbroken longer.reverse := by
  rw [extend?] at goes
  split at goes
  · cases goes
  · rename_i apart
    cases goes
    refine ⟨List.reverse_cons, ?_⟩
    rw [Unbroken, List.reverse_cons, List.isChain_append]
    refine ⟨unbroken, .singleton v, ?_⟩
    intro a last b first
    rintro ⟨rfl, rfl⟩
    simp only [List.getLast?_reverse, Option.mem_def] at last
    simp only [List.head?_cons, Option.mem_def, Option.some.injEq] at first
    exact apart ⟨first, last⟩

theorem EndsLine.of_newline (count : behind.count newline = n) :
    EndsLine (n + 1) (behind ++ [newline]) := by
  refine ⟨?_, List.getLast?_concat⟩
  rw [List.count_append, count, List.count_singleton_self]

theorem EndsLine.ne_nil (ends : EndsLine n behind) : behind ≠ [] := by
  rintro rfl
  cases ends.last

end Stream

theorem lineCodes_ne_nil (line : List Char) : lineCodes line ≠ [] := by
  simp [lineCodes]

namespace Guide

def IsOwn (e : ControllerError) : Prop := ∀ b, e ≠ .core b

theorem isOwn_trap (t : Trap) : IsOwn (.trap t) := by
  intro b same
  cases same

theorem isOwn_closed (awaited : Awaited) : IsOwn (.closed awaited) := by
  intro b same
  cases same

theorem errs_ofFrame (codes : List Word) : Errs IsOwn (Scaffold.ofFrame codes) := by
  refine errs_map (errs_foldlM ?_ codes ({} : Sweep)) _
  intro sweep code
  refine errs_map ?_ sweep.draw
  rw [Pixel.ofCode]
  split
  · exact errs_ok _ _
  · exact errs_error nofun

theorem errs_route (s : Scaffold) : Errs IsOwn s.route := by
  rw [Scaffold.route]
  split
  · exact errs_error nofun
  · exact errs_mapError isOwn_trap _

theorem errs_plan (video : Bool) (frame : List Word) : Errs IsOwn (plan video frame) := by
  refine errs_bind (errs_ofFrame frame) ?_
  intro scaffold
  refine errs_bind (errs_route scaffold) ?_
  intro route
  split
  · exact errs_error nofun
  · exact errs_bind_pure (errs_mapError isOwn_trap _) _

theorem of_plan {video : Bool} {frame : List Word} {routines : Routines} {lines : List (List Char)}
    (planned : plan video frame = .ok (routines, lines)) :
    ∃ scaffold route own, Scaffold.ofFrame frame = .ok scaffold ∧ scaffold.route = .ok route ∧
      route.compress? = some routines ∧ routines.lines = .ok own ∧
      lines = own ++ [[if video then 'y' else 'n']] := by
  obtain ⟨scaffold, read, planned⟩ := ok_of_bind planned
  obtain ⟨route, traced, planned⟩ := ok_of_bind planned
  cases found : route.compress? with
  | none =>
      rw [found] at planned
      cases planned
  | some routines' =>
      rw [found] at planned
      obtain ⟨own, written, planned⟩ := ok_of_bind planned
      cases planned
      exact ⟨scaffold, route, own, read, traced, found, ok_of_mapError written, rfl⟩

/-- The newline of a prompt has not come. -/
def Unprompted (lines : List (List Char)) (behind given : List Word) : Prop :=
  ∃ front line back, lines = front ++ line :: back ∧ behind.count newline = front.length ∧
    given = front.flatMap lineCodes

/-- The newline of a prompt was the last to come, and the answer has not been taken as a whole. -/
def Unanswered (lines : List (List Char)) (behind given : List Word) : Prop :=
  ∃ front line back done left, lines = front ++ line :: back ∧ lineCodes line = done ++ left ∧
    left ≠ [] ∧ Stream.EndsLine (front.length + 1) behind ∧
    given = front.flatMap lineCodes ++ done

def Unreported (lines : List (List Char)) (behind given : List Word) : Prop :=
  Stream.EndsLine lines.length behind ∧ given = lines.flatMap lineCodes

/-- All lines have been taken, and `dust` is the last value that has come since. -/
def Reported (lines : List (List Char)) (behind given : List Word) (dust : Word) : Prop :=
  ∃ prompts report, behind = prompts ++ report ∧ Stream.EndsLine lines.length prompts ∧
    report.getLast? = some dust ∧ given = lines.flatMap lineCodes

theorem Reported.framed {lines : List (List Char)} {frame behind got given : List Word}
    {dust : Word} {Cut : Prop} (here : Reported lines behind given dust)
    (reads : Stream.Reads Cut frame behind got) :
    Stream.Framed frame got ∧ got.getLast? = some dust ∧ given = lines.flatMap lineCodes := by
  obtain ⟨prompts, report, rfl, whole, last, sent⟩ := here
  have more : prompts ++ report ≠ [] := List.append_ne_nil_of_left_ne_nil whole.ne_nil report
  obtain ⟨framed, rfl⟩ := reads.framed more
  have some_report : report ≠ [] := by
    rintro rfl
    cases last
  refine ⟨framed, ?_, sent⟩
  rw [List.getLast?_append_of_ne_nil _ (List.cons_ne_nil _ _), List.getLast?_cons_of_ne_nil more,
    List.getLast?_append_of_ne_nil _ some_report, last]

/-- How the guide ends, by where it is when it finds a channel cut. `cut` are the channels that the
core has let go of. -/
inductive Concludes (cut : Channel → Prop) (routines : Routines) (lines : List (List Char))
    (behind given : List Word) : Except ControllerError Rescue → Prop
  | unprompted (here : Unprompted lines behind given) (now : cut .fromCore) :
      Concludes cut routines lines behind given (.error (.closed .prompt))
  | unanswered (here : Unanswered lines behind given) (now : cut .toCore) :
      Concludes cut routines lines behind given (.error (.closed .movementRoutine))
  | unreported (here : Unreported lines behind given) (now : cut .fromCore) :
      Concludes cut routines lines behind given (.error (.closed .dustReport))
  | reported {dust : Word} (here : Reported lines behind given dust) (now : cut .fromCore) :
      Concludes cut routines lines behind given (.ok ⟨routines, dust⟩)

/-- Where a guide can be that has planned to send `lines`. -/
inductive Stage (cut : Channel → Prop) (routines : Routines) (lines : List (List Char)) :
    Phase → (behind given : List Word) → Prop
  | prompted {front back : List (List Char)} {line : List Char} {behind : List Word}
      (split : lines = front ++ line :: back) (prompts : behind.count newline = front.length) :
      Stage cut routines lines (.prompted routines (line :: back)) behind (front.flatMap lineCodes)
  | answering {front back : List (List Char)} {line : List Char} {behind done codes : List Word}
      {v : Word} (split : lines = front ++ line :: back)
      (codes_split : lineCodes line = done ++ v :: codes)
      (prompts : Stream.EndsLine (front.length + 1) behind) :
      Stage cut routines lines (.answering routines (v :: codes) back) behind
        (front.flatMap lineCodes ++ done)
  | listening {prompts report : List Word} (whole : Stream.EndsLine lines.length prompts) :
      Stage cut routines lines (.listening routines report.getLast?) (prompts ++ report)
        (lines.flatMap lineCodes)
  | finished {behind given : List Word} {result : Except ControllerError Rescue}
      (concludes : Concludes cut routines lines behind given result) :
      Stage cut routines lines (.finished result) behind given

/-- Where a guide can be that has received `got` and sent `given`. -/
inductive Follows (video : Bool) (cut : Channel → Prop) :
    Phase → (got given : List Word) → Prop
  | framing {gathered : List Word} (unbroken : Stream.Unbroken gathered.reverse) :
      Follows video cut (.framing gathered) gathered.reverse []
  | refused {frame behind got : List Word} {e : ControllerError}
      (reads : Stream.Reads (cut .fromCore) frame behind got)
      (refuses : plan video frame = .error e) : Follows video cut (.finished (.error e)) got []
  | planned {frame behind got given : List Word} {routines : Routines}
      {lines : List (List Char)} {phase : Phase}
      (reads : Stream.Reads (cut .fromCore) frame behind got)
      (plans : plan video frame = .ok (routines, lines))
      (stage : Stage cut routines lines phase behind given) : Follows video cut phase got given

variable {video : Bool} {cut cut' : Channel → Prop} {phase : Phase}
  {frame behind got given : List Word} {routines : Routines} {front back lines : List (List Char)}
  {line : List Char} {c : Channel} {v : Word}

theorem Concludes.of_ok {r : Rescue}
    (concludes : Concludes cut routines lines behind given (.ok r)) :
    Reported lines behind given r.dust ∧ r.routines = routines ∧ cut .fromCore := by
  cases concludes with
  | reported here now => exact ⟨here, rfl, now⟩

theorem Concludes.mono {result : Except ControllerError Rescue}
    (concludes : Concludes cut routines lines behind given result) (more : ∀ c, cut c → cut' c) :
    Concludes cut' routines lines behind given result := by
  cases concludes with
  | unprompted here now => exact .unprompted here (more _ now)
  | unanswered here now => exact .unanswered here (more _ now)
  | unreported here now => exact .unreported here (more _ now)
  | reported here now => exact .reported here (more _ now)

theorem Stage.mono (stage : Stage cut routines lines phase behind given)
    (more : ∀ c, cut c → cut' c) : Stage cut' routines lines phase behind given := by
  cases stage with
  | prompted split prompts => exact .prompted split prompts
  | answering split codes_split prompts => exact .answering split codes_split prompts
  | listening whole => exact .listening whole
  | finished concludes => exact .finished (concludes.mono more)

theorem Follows.mono (follows : Follows video cut phase got given) (more : ∀ c, cut c → cut' c) :
    Follows video cut' phase got given := by
  cases follows with
  | framing unbroken => exact .framing unbroken
  | refused reads refuses => exact .refused (reads.mono (more _)) refuses
  | planned reads plans stage => exact .planned (reads.mono (more _)) plans (stage.mono more)

theorem follows_frame (reads : Stream.Reads (cut .fromCore) frame [] got) :
    Follows video cut (.ofFrame video frame) got [] := by
  rw [Phase.ofFrame]
  split
  · rename_i routines lines plans
    obtain ⟨scaffold, route, own, -, -, -, -, rfl⟩ := of_plan plans
    cases own <;> exact .planned reads plans (.prompted (List.nil_append _).symm rfl)
  · rename_i e refuses
    exact .refused reads refuses

theorem Stage.hear_closed (stage : Stage cut routines lines phase behind given)
    (asks : (ask ⟨video, phase⟩).channel? = some c) (now : cut c) :
    Stage cut routines lines (hearPhase video phase .closed) behind given := by
  cases stage with
  | prompted split prompts =>
      cases asks
      exact .finished (.unprompted ⟨_, _, _, split, prompts, rfl⟩ now)
  | @answering front back line behind done codes v split codes_split prompts =>
      cases asks
      have here : Unanswered lines behind (front.flatMap lineCodes ++ done) :=
        ⟨_, _, _, _, _, split, codes_split, List.cons_ne_nil v codes, prompts, rfl⟩
      cases codes <;> exact .finished (.unanswered here now)
  | @listening prompts report whole =>
      cases asks
      cases last : report.getLast? with
      | some dust => exact .finished (.reported ⟨_, _, rfl, whole, last, rfl⟩ now)
      | none =>
          obtain rfl := List.getLast?_eq_none_iff.mp last
          rw [List.append_nil]
          exact .finished (.unreported ⟨whole, rfl⟩ now)
  | finished concludes => cases asks

theorem Stage.hear_value (stage : Stage cut routines lines phase behind given)
    (gets : ask ⟨video, phase⟩ = .get c) (v : Word) :
    Stage cut routines lines (hearPhase video phase (.value v)) (behind ++ [v]) given := by
  cases stage with
  | @prompted front back line behind split prompts =>
      rw [hearPhase]
      split
      · rename_i newline
        subst newline
        obtain ⟨w, codes, all⟩ := List.exists_cons_of_ne_nil (lineCodes_ne_nil line)
        rw [all, ← List.append_nil (front.flatMap lineCodes)]
        exact .answering split all (.of_newline prompts)
      · rename_i other
        refine .prompted split ?_
        rw [List.count_append, prompts, List.count_singleton, if_neg (by simpa using other)]
        rfl
  | answering split codes_split prompts => cases gets
  | @listening prompts report whole =>
      have next : Stage cut routines lines (.listening routines (report ++ [v]).getLast?)
        (prompts ++ (report ++ [v])) (lines.flatMap lineCodes) := .listening whole
      rw [List.getLast?_concat, ← List.append_assoc] at next
      exact next
  | finished concludes => cases gets

theorem stage_proceed (split : lines = front ++ line :: back)
    (prompts : Stream.EndsLine (front.length + 1) behind) :
    Stage cut routines lines (.proceed routines back) behind
      (front.flatMap lineCodes ++ lineCodes line) := by
  have sent : front.flatMap lineCodes ++ lineCodes line = (front ++ [line]).flatMap lineCodes := by
    rw [List.flatMap_append, List.flatMap_singleton]
  have count : front.length + 1 = (front ++ [line]).length := by
    rw [List.length_append, List.length_singleton]
  rw [sent]
  rw [count] at prompts
  cases back with
  | nil =>
      subst split
      have next : Stage cut routines (front ++ [line]) (.listening routines [].getLast?)
        (behind ++ []) ((front ++ [line]).flatMap lineCodes) := .listening prompts
      rw [List.append_nil] at next
      exact next
  | cons line' back =>
      refine .prompted ?_ prompts.count
      rw [split, List.append_assoc, List.singleton_append]

theorem Stage.hear_taken (stage : Stage cut routines lines phase behind given)
    (puts : ask ⟨video, phase⟩ = .put c v) :
    Stage cut routines lines (hearPhase video phase .done) behind (given ++ [v]) := by
  cases stage with
  | @answering front back line behind done codes w split codes_split prompts =>
      cases puts
      rw [List.append_assoc]
      cases codes with
      | nil =>
          rw [← codes_split]
          exact stage_proceed split prompts
      | cons w codes =>
          refine .answering split ?_ prompts
          rw [codes_split, List.append_assoc, List.singleton_append]
  | prompted split prompts => cases puts
  | listening whole => cases puts
  | finished concludes => cases puts

theorem Follows.hear_closed (follows : Follows video cut phase got given)
    (asks : (ask ⟨video, phase⟩).channel? = some c) (now : cut c) :
    Follows video cut (hearPhase video phase .closed) got given := by
  cases follows with
  | framing unbroken =>
      cases asks
      exact follows_frame (.cut now unbroken)
  | refused reads refuses => cases asks
  | planned reads plans stage => exact .planned reads plans (stage.hear_closed asks now)

theorem Follows.hear_value (follows : Follows video cut phase got given)
    (alive : ¬ cut .fromCore) (gets : ask ⟨video, phase⟩ = .get c) (v : Word) :
    Follows video cut (hearPhase video phase (.value v)) (got ++ [v]) given := by
  cases follows with
  | @framing gathered unbroken =>
      rw [hearPhase]
      split
      · rename_i ends
        exact follows_frame (Stream.reads_of_extend? unbroken ends)
      · rename_i longer goes
        obtain ⟨same, unbroken'⟩ := Stream.unbroken_of_extend? unbroken goes
        rw [← same]
        exact .framing unbroken'
  | refused reads refuses => cases gets
  | planned reads plans stage => exact .planned (reads.snoc alive v) plans (stage.hear_value gets v)

theorem Follows.hear_taken (follows : Follows video cut phase got given)
    (puts : ask ⟨video, phase⟩ = .put c v) :
    Follows video cut (hearPhase video phase .done) got (given ++ [v]) := by
  cases follows with
  | framing unbroken => cases puts
  | refused reads refuses => cases puts
  | planned reads plans stage => exact .planned reads plans (stage.hear_taken puts)

theorem Follows.not_work (follows : Follows video cut phase got given) :
    ask ⟨video, phase⟩ ≠ .work := by
  intro works
  cases follows with
  | framing unbroken => cases works
  | refused reads refuses => cases works
  | planned reads plans stage => cases stage <;> cases works

theorem ask_cases (g : Guide) : g.ask = .get .fromCore ∨ (∃ v, g.ask = .put .toCore v) ∨
    g.ask = .work ∨ g.ask = .stop := by
  rw [ask.eq_def]
  split
  · exact .inl rfl
  · exact .inl rfl
  · exact .inr (.inl ⟨_, rfl⟩)
  · exact .inr (.inr (.inl rfl))
  · exact .inl rfl
  · exact .inr (.inr (.inr rfl))

theorem ask_ne (g : Guide) : (∀ c, g.ask ≠ .getSoon c) ∧ g.ask ≠ .poll ∧ g.ask ≠ .join ∧
    g.ask ≠ .hangUp := by
  rcases ask_cases g with asks | ⟨v, asks⟩ | asks | asks <;> simp [asks]

end Guide

namespace Session

open Guide

theorem stop_of_result {g : Guide} {result : Except ControllerError Rescue}
    (h : g.result? = some result) :
    g.phase = .finished result ∧ Guide.party.ask g = .stop := by
  rw [Guide.result?] at h
  split at h
  · rename_i r finished
    cases h
    refine ⟨finished, ?_⟩
    simp only [Guide.party, Guide.ask.eq_def, finished]
  · cases h

theorem result_of_stop {g : Guide} (h : Guide.party.ask g = .stop) :
    ∃ result, g.result? = some result := by
  simp only [Guide.party, Guide.ask.eq_def] at h
  split at h <;> cases h
  rename_i result finished
  exact ⟨result, by rw [Guide.result?, finished]⟩

variable {κ : Type} {P : Party κ} {video : Bool} {es : List Event} {e : Event}
  {s t : Session κ Guide}

/-- The guide is where it has come to by these events, and lets go of nothing before it is done. -/
structure Guided (video : Bool) (es : List Event) (s : Session κ Guide) : Prop where
  feed : s.controller.video = video
  follows : Follows video (fun c => s.links.core.holds c = false) s.controller.phase (received es)
    (sent es)
  stays : (Guide.party.ask s.controller).leaves = false →
    s.links.controller = .ofProtocol .streaming

theorem Guided.asks (guided : Guided video es s) :
    ask ⟨video, s.controller.phase⟩ = Guide.party.ask s.controller := by
  rw [← guided.feed]
  rfl

theorem guided_start (core : κ) (video : Bool) :
    Guided video [] (start .streaming core { video }) :=
  { feed := rfl, follows := .framing .nil, stays := fun _ => rfl }

theorem Guided.of_hear {a : Answer} (guided : Guided video es s) (step : Step P Guide.party s e t)
    (here : (Guide.party.ask s.controller).leaves = false)
    (links : t.links.controller = s.links.controller)
    (hears : t.controller = s.controller.hear a)
    (follows : Follows video (fun c => s.links.core.holds c = false)
      (hearPhase video s.controller.phase a) (received es ++ e.received?.toList)
      (sent es ++ e.sent?.toList)) : Guided video (es ++ [e]) t := by
  refine { feed := ?_, follows := ?_, stays := ?_ }
  · rw [hears]
    exact guided.feed
  · rw [hears, Guide.hear, guided.feed, received_snoc, sent_snoc]
    exact follows.mono fun c => step.unheld .core
  · intro _
    rw [links]
    exact guided.stays here

theorem Guided.of_same (guided : Guided video es s) (step : Step P Guide.party s e t)
    (same : t.controller = s.controller)
    (stays : (Guide.party.ask s.controller).leaves = false →
      t.links.controller = s.links.controller)
    (unsent : e.sent? = none) (unreceived : e.received? = none) : Guided video (es ++ [e]) t := by
  refine { feed := ?_, follows := ?_, stays := ?_ }
  · rw [same]
    exact guided.feed
  · rw [same, sent_snoc, received_snoc, unsent, unreceived, Option.toList_none, List.append_nil,
      List.append_nil]
    exact guided.follows.mono fun c => step.unheld .core
  · rw [same]
    intro here
    rw [stays here]
    exact guided.stays here

theorem Guided.cut {c : Channel} (guided : Guided video es s)
    (asks : (Guide.party.ask s.controller).channel? = some c) (broken : s.links.whole c = false) :
    s.links.core.holds c = false := by
  have full := guided.stays (Ask.stays_of_channel? asks)
  have data : c ≠ .ready := by
    rintro rfl
    rcases ask_cases s.controller with gets | ⟨v, puts⟩ | works | stops
    · cases (congrArg Ask.channel? gets).symm.trans asks
    · cases (congrArg Ask.channel? puts).symm.trans asks
    · cases (congrArg Ask.channel? works).symm.trans asks
    · cases (congrArg Ask.channel? stops).symm.trans asks
  rw [Links.whole, full, Ends.holds_ofProtocol (.inr data), Bool.and_true] at broken
  exact broken

theorem guided_step (guided : Guided video es s) (step : Step P Guide.party s e t) :
    Guided video (es ++ [e]) t := by
  -- Only what the guide hears moves it on; what else happens leaves its values as they are.
  cases step with
  | @core turn may => cases turn <;> exact guided.of_same (.core may) rfl (fun _ => rfl) rfl rfl
  | @controller turn may =>
      cases turn with
      | drop c =>
          refine guided.of_same (.controller (P := P) may) rfl ?_ rfl rfl
          intro here
          rw [may.leaving.1] at here
          cases here
      | hear a =>
          generalize asks : Guide.party.ask s.controller = what at may
          cases may with
          | work => exact absurd (guided.asks.trans asks) guided.follows.not_work
          | stall => exact absurd asks ((ask_ne _).1 _)
          | gone empty => exact absurd asks (ask_ne _).2.2.2
          | @closed what c needs broken =>
              rw [← asks] at needs
              have waits : (ask ⟨video, s.controller.phase⟩).channel? = some c := by
                rw [guided.asks]
                exact needs
              have follows := guided.follows.hear_closed waits (guided.cut needs broken)
              rw [← List.append_nil (received es), ← List.append_nil (sent es)] at follows
              have step : Step P Guide.party s (.controller (.hear .closed)) _ :=
                .controller (.closed needs broken)
              exact guided.of_hear step (Ask.stays_of_channel? needs) rfl rfl follows
  | @fromCore c v whole meet =>
      have gets : Guide.party.ask s.controller = .get c := by
        rcases meet.get_eq with gets | gets
        · exact gets
        · exact absurd gets ((ask_ne _).1 _)
      have same : c = .fromCore := by
        rcases ask_cases s.controller with asks | ⟨w, asks⟩ | asks | asks <;>
          cases asks.symm.trans gets
        rfl
      subst same
      have alive : ¬ s.links.core.holds .fromCore = false := by
        rw [((Links.whole_iff _ _).mp whole).1]
        exact Bool.noConfusion
      have follows := guided.follows.hear_value alive (guided.asks.trans gets) v
      rw [← List.append_nil (sent es)] at follows
      exact guided.of_hear (.fromCore whole meet) (by rw [gets]; rfl) rfl rfl follows
  | @toCore c v whole meet =>
      have puts := meet.put_eq
      have same : c = .toCore := by
        rcases ask_cases s.controller with asks | ⟨w, asks⟩ | asks | asks <;>
          cases asks.symm.trans puts
        rfl
      subst same
      have follows := guided.follows.hear_taken (guided.asks.trans puts)
      rw [← List.append_nil (received es)] at follows
      exact guided.of_hear (.toCore whole meet) (by rw [puts]; rfl) rfl rfl follows
  | joined asks gone => exact absurd asks (ask_ne _).2.2.1
  | polled asks gone => exact absurd asks (ask_ne _).2.1

/-- Wherever a session with a guide has come to, the guide is where the events say. -/
theorem guided_of_steps {core : κ}
    (h : Steps P Guide.party (start .streaming core { video }) es s) : Guided video es s :=
  h.keeps (fun _ _ _ _ guided step => guided_step guided step) [] (guided_start core video)

end Session

end Shipboard
