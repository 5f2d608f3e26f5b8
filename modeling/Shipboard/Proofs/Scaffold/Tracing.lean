import Shipboard.Proofs.Scaffold.Alternation
import Shipboard.Proofs.Scaffold.Walking

/-!
Tracing a scaffold move by move. The loop has no bound of its own, but each turn in it is followed
by a step and only one step reaches a pose that has been reached before, so it ends, and its
commands are those of the walk.
-/

namespace Shipboard

/-- Where a trace has come to: the pose, the poses that steps have reached, and the commands so far
with the last one in front. -/
structure Trail where
  pose : Pose
  reached : Std.ExtTreeSet Pose
  commands : Route := []

namespace Trail

def start (p : Pose) : Trail := { pose := p, reached := (∅ : Std.ExtTreeSet Pose).insert p }

/-- A step reaches its pose; a step after a step is counted on, and the count may overflow. -/
def make (t : Trail) (m : Move) : Except Trap Trail := do
  let commands ← Route.prepend m t.commands
  let pose := t.pose.move m
  return { pose, commands, reached := if m = .step then t.reached.insert pose else t.reached }

end Trail

namespace Scaffold

/-- One pass of the loop, and whether there is to be another one. -/
def pass (s : Scaffold) (t : Trail) : Except Trap (Bool × Trail) :=
  if s.has t.pose.ahead then do
    let next ← t.make .step
    return (next.pose ∉ t.reached, next)
  else if s.has t.pose.turnRight.ahead then do
    let next ← t.make .right
    return (true, next)
  else if s.has t.pose.turnLeft.ahead then do
    let next ← t.make .left
    return (true, next)
  else return (false, t)

/-- Makes passes until one is the last; gives nothing if more than `fuel` are needed. -/
def passes (s : Scaffold) : (fuel : Nat) → Trail → Option (Except Trap Route)
  | 0, _ => none
  | fuel + 1, t =>
      match s.pass t with
      | .error e => some (.error e)
      | .ok (true, next) => s.passes fuel next
      | .ok (false, last) => some (.ok last.commands.reverse)

variable {s : Scaffold} {t : Trail} {m : Move}

theorem pass_of_stranded (stranded : s.Stranded t.pose) : s.pass t = .ok (false, t) := by
  simp [pass, stranded.ahead, Pose.ahead_turnRight, stranded.right, Pose.ahead_turnLeft,
    stranded.left, pure, Except.pure]

/-- A pass makes the move that the scaffold asks for; it is the last one if that is a step to a
pose that has been reached before. -/
theorem pass_of_asks {next : Trail} (asks : s.Asks t.pose m) (made : t.make m = .ok next) :
    s.pass t = .ok (decide (m = .step → next.pose ∉ t.reached), next) := by
  cases m with
  | step =>
      have ahead := asks.step.mp rfl
      simp [pass, ahead, made, bind, Except.bind, pure, Except.pure]
  | right =>
      obtain ⟨ahead, right⟩ := asks.right.mp rfl
      simp [pass, ahead, Pose.ahead_turnRight, right, made, bind, Except.bind, pure, Except.pure]
  | left =>
      obtain ⟨ahead, right, left⟩ := asks.left.mp rfl
      simp [pass, ahead, Pose.ahead_turnRight, right, Pose.ahead_turnLeft, left, made, bind,
        Except.bind, pure, Except.pure]

theorem passes_of_last {fuel : Nat} {last : Trail} (passed : s.pass t = .ok (false, last)) :
    s.passes (fuel + 1) t = some (.ok last.commands.reverse) := by
  rw [passes, passed]

theorem passes_of_next {fuel : Nat} {next : Trail} (passed : s.pass t = .ok (true, next)) :
    s.passes (fuel + 1) t = s.passes fuel next := by
  rw [passes, passed]

end Scaffold

namespace Trail

variable {t : Trail} {p : Pose} {m : Move} {ms : List Move}

structure Follows (t : Trail) (p : Pose) (ms : List Move) : Prop where
  pose : t.pose = p.along ms
  reached : ∀ q, q ∈ t.reached ↔ q ∈ p.reached ms
  compact : t.commands.Compact
  moves : t.commands.moves = ms.reverse

theorem follows_start (p : Pose) : (start p).Follows p [] := by
  refine { pose := rfl, reached := ?_, compact := Route.compact_nil, moves := rfl }
  intro q
  rw [start, Std.ExtTreeSet.mem_insert, Std.LawfulEqOrd.compare_eq_iff_eq, Pose.reached,
    Pose.entered, List.mem_singleton, eq_comm]
  simp

theorem Follows.make (follows : t.Follows p ms)
    (short : ∀ k, List.replicate k Move.step <:+: ms ++ [m] → k < UInt32.size) :
    ∃ next, t.make m = .ok next ∧ next.Follows p (ms ++ [m]) := by
  have front : ∀ k, List.replicate k Move.step <+: m :: t.commands.moves → k < UInt32.size := by
    intro k first
    have back : m :: t.commands.moves = (ms ++ [m]).reverse := by simp [follows.moves]
    rw [back, ← List.reverse_replicate, List.reverse_prefix] at first
    exact short k first.isInfix
  obtain ⟨commands, longer, moves⟩ := Route.prepend_eq_ok front
  have along : p.along (ms ++ [m]) = (p.along ms).move m := p.along_append ms [m]
  refine ⟨_, by rw [Trail.make, longer]; rfl, ?_⟩
  refine { pose := ?_, reached := ?_, compact := follows.compact.prepend longer, moves := ?_ }
  · rw [along, follows.pose]
  · intro q
    by_cases step : m = .step
    · subst step
      rw [Pose.reached_snoc_step, List.mem_append, List.mem_singleton, ← follows.reached q,
        follows.pose, if_pos rfl, Std.ExtTreeSet.mem_insert, Std.LawfulEqOrd.compare_eq_iff_eq,
        or_comm, eq_comm (a := q)]
      rfl
    · rw [Pose.reached_snoc_turn p ms step, if_neg step]
      exact follows.reached q
  · rw [moves, follows.moves]
    simp

end Trail

namespace Scaffold

variable {s : Scaffold} {p : Pose} {m : Move} {ms front back : List Move} {t : Trail}

/-- The loop makes the moves `back` that are left of a walk and ends. It has not ended before: if
none are left, that is because there is nowhere to go. -/
theorem passes_of_walking {fuel : Nat} (walking : s.Walking p (front ++ back))
    (ended : s.Over p (front ++ back))
    (short : ∀ k, List.replicate k Move.step <:+: front ++ back → k < UInt32.size)
    (follows : t.Follows p front) (left : back = [] → s.Stranded (p.along front))
    (enough : back.length < fuel) :
    ∃ r, s.passes fuel t = some (.ok r) ∧ r.Compact ∧ r.moves = front ++ back := by
  -- On the moves to come; a step to a pose known before is the last one, as the walk would be over.
  induction back generalizing front t fuel with
  | nil =>
      obtain ⟨fuel, rfl⟩ := Nat.exists_eq_add_of_lt enough
      have stranded := left rfl
      rw [← follows.pose] at stranded
      refine ⟨_, passes_of_last (pass_of_stranded stranded), follows.compact.reverse, ?_⟩
      rw [Route.moves_reverse, follows.moves, List.reverse_reverse, List.append_nil]
  | cons m back ih =>
      obtain ⟨fuel, rfl⟩ : ∃ k, fuel = k + 1 := ⟨fuel - 1, by omega⟩
      have split : front ++ m :: back = front ++ [m] ++ back := by simp
      have asks := walking.asked front m back rfl
      rw [← follows.pose] at asks
      obtain ⟨next, made, further⟩ := follows.make (m := m) fun k run =>
        short k (run.trans (by rw [split]; exact (List.prefix_append _ back).isInfix))
      have passed := pass_of_asks asks made
      by_cases fresh : m = .step → next.pose ∉ t.reached
      · rw [decide_eq_true fresh] at passed
        rw [passes_of_next passed, split]
        rw [split] at walking ended short
        refine ih walking ended short further ?_ (Nat.lt_of_succ_lt_succ enough)
        rintro rfl
        rw [List.append_nil] at ended
        rcases ended with stranded | ⟨front', same, again⟩
        · exact stranded
        · have parts := List.append_inj' same rfl
          obtain ⟨rfl, step⟩ := parts
          rw [← further.pose, ← follows.reached] at again
          exact absurd again (fresh (List.cons.inj step).1)
      · have known : m = .step ∧ next.pose ∈ t.reached := by
          simpa using fresh
        obtain ⟨rfl, known⟩ := known
        rw [decide_eq_false fresh] at passed
        rw [follows.reached, further.pose] at known
        have met : s.Over p (front ++ [.step]) := .inr ⟨front, rfl, known⟩
        have last : back = [] := by
          cases back with
          | nil => rfl
          | cons m' back =>
              exact absurd met (walking.goesOn (front ++ [.step]) m' back (by simp))
        subst last
        refine ⟨_, passes_of_last passed, further.compact.reverse, ?_⟩
        rw [Route.moves_reverse, further.moves, List.reverse_reverse]

theorem Asks.ahead_of_turn (asks : s.Asks p m) (turn : m ≠ .step) :
    s.has (p.move m).ahead = true := by
  cases m with
  | left =>
      have left := (asks.left.mp rfl).2.2
      rwa [← p.ahead_turnLeft] at left
  | right =>
      have right := (asks.right.mp rfl).2
      rwa [← p.ahead_turnRight] at right
  | step => exact absurd rfl turn

theorem Walking.turnsToSteps (walking : s.Walking p ms) : Route.TurnsToSteps ms := by
  apply List.isChain_iff_forall_rel_of_append_cons_cons.mpr
  intro m m' front back split turn
  have ahead := (walking.asked front m (m' :: back) split).ahead_of_turn turn
  have next := walking.asked (front ++ [m]) m' back (by simp [split])
  rw [Pose.along_append] at next
  exact next.step.mpr ahead

theorem Walking.last_step (walking : s.Walking p ms) (ended : s.Over p ms) :
    ∀ m ∈ ms.getLast?, m = .step := by
  intro m last
  obtain ⟨front, rfl⟩ := List.getLast?_eq_some_iff.mp last
  by_contra turn
  have ahead := (walking.asked front m [] rfl).ahead_of_turn turn
  rcases ended with stranded | ⟨front', same, -⟩
  · have nowhere := stranded.ahead
    rw [Pose.along_append] at nowhere
    exact absurd (ahead.symm.trans nowhere) (by decide)
  · exact turn (List.cons.inj (List.append_inj' same rfl).2).1

end Scaffold

theorem Pose.length_entered (p : Pose) (ms : List Move) :
    (p.entered ms).length = ms.count .step := by
  induction ms generalizing p with
  | nil => rfl
  | cons m ms ih =>
      cases m with
      | left => simpa [Pose.entered] using ih p.turnLeft
      | right => simpa [Pose.entered] using ih p.turnRight
      | step => simpa [Pose.entered] using ih p.forward

namespace Scaffold

variable {s : Scaffold} {p : Pose} {ms : List Move}

theorem Walking.count_step_le (start : s.has p.cell = true) (walking : s.Walking p ms) :
    ms.count .step ≤ 4 * s.size := by
  have within : (p.reached ms).dropLast ⊆ s.poses := by
    intro q among
    exact mem_poses (walking.has_of_reached start (List.mem_of_mem_dropLast among))
  have bound := walking.distinct.length_le_of_subset within
  rw [length_poses, List.length_dropLast, Pose.reached, List.length_cons,
    Pose.length_entered] at bound
  exact bound

end Scaffold

theorem forward_lt_of_mem {s : Scaffold} {p : Pose} {r : Route} {n : UInt32}
    (start : s.has p.cell = true) (walking : s.Walking p r.moves) (among : .forward n ∈ r) :
    n.toNat < s.size := by
  obtain ⟨front, back, rfl⟩ := List.append_of_mem among
  apply walking.run_lt start
  refine ⟨Route.moves front, Route.moves back, ?_⟩
  rw [Route.moves_append, Route.moves_cons, List.append_assoc]
  rfl

/-- Where a frame shows a robot on a scaffold that is not too large, the loop that traces the
scaffold ends within eight passes for each cell and its counts stay in range. The route it finds
has at most four steps and eight commands for each cell; turns and runs of steps alternate on it,
every run has at least one step and fewer than there are cells, and a run comes last. -/
theorem trace_ends_alternating {codes : List Word} {s : Scaffold} {p : Pose}
    (shown : Scaffold.ofFrame codes = .ok s) (there : s.robot = some p) (small : s.size ≤ 2 ^ 32) :
    ∃ r : Route, s.route = .ok r ∧
      (∀ fuel, 8 * s.size < fuel → s.passes fuel (.start p) = some (.ok r)) ∧
      r.distance ≤ 4 * s.size ∧ r.length ≤ 8 * s.size ∧ r.Alternates ∧
      (∀ n, .forward n ∈ r → 1 ≤ n.toNat ∧ n.toNat ≤ s.size - 1) ∧
      (r ≠ [] → ∃ n, r.getLast? = some (.forward n)) := by
  have start := Scaffold.stands_of_ofFrame shown p there
  obtain ⟨walking, ended⟩ := Scaffold.walking_walk start
  have short : ∀ k, List.replicate k Move.step <:+: s.walk p → k < UInt32.size := fun k run =>
    Nat.lt_of_lt_of_le (walking.run_lt start run) small
  obtain ⟨r, route, made, moves⟩ := Scaffold.exists_route there start small
  have compact := Route.compact_of_ofMoves made
  have turns := walking.turnsToSteps
  have last := walking.last_step ended
  have steps := walking.count_step_le start
  have length := Route.length_le_two_mul_count turns last
  rw [← moves] at walking ended short turns last steps length
  rw [Route.count_moves] at steps length
  refine ⟨r, route, ?ends, steps, ?commands, ?alternates, ?runs, ?last⟩
  case ends =>
    intro fuel enough
    have begin : r.moves = [] → s.Stranded p := by
      intro none
      rw [none] at ended
      rcases ended with stranded | ⟨front, same, -⟩
      · exact stranded
      · simp at same
    have enough' : r.moves.length < fuel := by omega
    obtain ⟨r', passes, compact', same⟩ := Scaffold.passes_of_walking walking ended short
      (Trail.follows_start p) begin enough'
    rw [passes, compact'.eq_of_moves compact same]
  case commands =>
    have commands := Route.length_le_length_moves compact
    omega
  case alternates => exact Route.alternates_of_turnsToSteps compact turns
  case runs =>
    intro n among
    have positive := Command.moves_forward_ne_nil.mp (compact.moving _ among)
    have below := forward_lt_of_mem start walking among
    exact ⟨positive, Nat.le_sub_one_of_lt below⟩
  case last =>
    intro some_command
    exact Route.exists_run_at_end compact some_command last

/-- A way that crosses itself: the robot goes right across it, then around and down through it. -/
def crossingFrame : List Word :=
  [46, 46, 35, 35, 35, 10, 46, 46, 35, 46, 35, 10, 62, 35, 35, 35, 35, 10, 46, 46, 35, 10]

def crossingRoute : Route :=
  [.forward 4, .left, .forward 2, .left, .forward 2, .left, .forward 3]

theorem trace_ends_alternating_crossing :
    ∃ s, Scaffold.ofFrame crossingFrame = .ok s ∧ s.robot = some ⟨⟨0, 2⟩, .right⟩ ∧
      s.size = 11 ∧ s.route = .ok crossingRoute ∧
      s.passes 89 (.start ⟨⟨0, 2⟩, .right⟩) = some (.ok crossingRoute) ∧
      crossingRoute.distance ≤ 44 ∧ crossingRoute.Alternates := by
  have seen : ∃ s, Scaffold.ofFrame crossingFrame = .ok s ∧
      s.robot = some ⟨⟨0, 2⟩, .right⟩ ∧ s.size = 11 ∧ s.route = .ok crossingRoute :=
    ⟨_, rfl, rfl, by decide +kernel, by decide +kernel⟩
  obtain ⟨s, shown, there, size, route⟩ := seen
  obtain ⟨r, route', ends, steps, -, alternates, -, -⟩ :=
    trace_ends_alternating shown there (by rw [size]; decide)
  cases route.symm.trans route'
  rw [size] at ends steps
  exact ⟨s, shown, there, size, route, ends 89 (by decide), steps, alternates⟩

end Shipboard
