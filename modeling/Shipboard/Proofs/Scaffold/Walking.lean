import Mathlib.Algebra.Group.Nat.Defs
import Mathlib.Data.List.Nodup
import Shipboard.Proofs.Scaffold.Framing
import Shipboard.Proofs.Scaffold.Moving

/-!
The walk of the robot. At each pose it makes the move that the scaffold around it asks for, and it
is over where there is nowhere to go or a step has come to a pose for the second time. No pose but
the last is reached twice, so the walk ends and no run of steps in it is too long for a command.
-/

namespace Shipboard

namespace Scaffold

variable {s : Scaffold} {p q : Pose} {m : Move} {ms : List Move} {codes : List Word}

def Stands (s : Scaffold) : Prop := ∀ p, s.robot = some p → s.has p.cell = true

theorem stands_of_ofFrame (shown : ofFrame codes = .ok s) : s.Stands := by
  obtain ⟨sweep, read, rfl⟩ := ok_of_map shown
  exact fun p there => (Sweep.reads_of_foldlM read).stands there

/-- The move `m` is the one to make at `p`: a step if the cell ahead is scaffold, else a right turn
if the cell to the right is, else a left turn if the cell to the left is. -/
structure Asks (s : Scaffold) (p : Pose) (m : Move) : Prop where
  step : m = .step ↔ s.has p.ahead = true
  right : m = .right ↔ s.has p.ahead = false ∧ s.has p.onRight = true
  left : m = .left ↔ s.has p.ahead = false ∧ s.has p.onRight = false ∧ s.has p.onLeft = true

structure Stranded (s : Scaffold) (p : Pose) : Prop where
  ahead : s.has p.ahead = false
  right : s.has p.onRight = false
  left : s.has p.onLeft = false

/-- A walk from `p` is over after `ms`: there is nowhere to go, or its last step came to a pose that
had been reached before. -/
def Over (s : Scaffold) (p : Pose) (ms : List Move) : Prop :=
  s.Stranded (p.along ms) ∨ ∃ front, ms = front ++ [.step] ∧ p.along ms ∈ p.reached front

/-- The moves `ms` are the first of a walk from `p`: each is the one that is asked for and leads
where it should, none is made once the walk is over, and only scaffold is entered. -/
structure Walking (s : Scaffold) (p : Pose) (ms : List Move) : Prop where
  supported : ∀ q ∈ p.entered ms, s.has q.cell = true
  asked : ∀ front m back, ms = front ++ m :: back → s.Asks (p.along front) m
  moved : ∀ front m back, ms = front ++ m :: back →
    (p.along front).LeadsTo m (p.along (front ++ [m]))
  goesOn : ∀ front m back, ms = front ++ m :: back → ¬ s.Over p front
  distinct : (p.reached ms).dropLast.Nodup

theorem asks_step (ahead : s.has p.ahead = true) : s.Asks p .step := by
  constructor <;> simp [ahead]

theorem asks_right (ahead : s.has p.ahead = false) (right : s.has p.onRight = true) :
    s.Asks p .right := by
  constructor <;> simp [ahead, right]

theorem asks_left (ahead : s.has p.ahead = false) (right : s.has p.onRight = false)
    (left : s.has p.onLeft = true) : s.Asks p .left := by
  constructor <;> simp [ahead, right, left]

theorem Asks.not_stranded (asks : s.Asks p m) : ¬ s.Stranded p := by
  intro stranded
  cases m with
  | left =>
      have left := (asks.left.mp rfl).2.2
      rw [stranded.left] at left
      cases left
  | right =>
      have right := (asks.right.mp rfl).2
      rw [stranded.right] at right
      cases right
  | step =>
      have ahead := asks.step.mp rfl
      rw [stranded.ahead] at ahead
      cases ahead

/-- After `turns`, none or the one that is asked for at `p`, there is scaffold ahead. -/
structure Clears (s : Scaffold) (p : Pose) (turns : List Move) : Prop where
  ahead : s.has (p.along turns).ahead = true
  turned : turns = [] ∨ ∃ turn, turns = [turn] ∧ turn ≠ .step ∧ s.Asks p turn

theorem onward?_cases (s : Scaffold) (p : Pose) :
    (s.onward? p = none ∧ s.Stranded p) ∨
      ∃ turns, s.onward? p = some (turns ++ [.step], (p.along turns).forward) ∧
        s.Clears p turns := by
  cases ahead : s.has p.ahead with
  | true =>
      refine .inr ⟨[], ?_, ahead, .inl rfl⟩
      simp [onward?, ahead, Pose.along]
  | false =>
      cases right : s.has p.onRight with
      | true =>
          refine .inr ⟨[.right], ?_, ?_, .inr ⟨.right, rfl, by decide, asks_right ahead right⟩⟩
          · simp [onward?, ahead, right, Pose.along, Pose.move, Pose.ahead_turnRight]
          · exact (congrArg s.has p.ahead_turnRight).trans right
      | false =>
          cases left : s.has p.onLeft with
          | true =>
              have asks := asks_left ahead right left
              refine .inr ⟨[.left], ?_, ?_, .inr ⟨.left, rfl, by decide, asks⟩⟩
              · simp [onward?, ahead, right, left, Pose.along, Pose.move, Pose.ahead_turnRight,
                  Pose.ahead_turnLeft]
              · exact (congrArg s.has p.ahead_turnLeft).trans left
          | false =>
              refine .inl ⟨?_, ahead, right, left⟩
              simp [onward?, ahead, right, left, Pose.ahead_turnRight, Pose.ahead_turnLeft]

theorem walking_nil (s : Scaffold) (p : Pose) : s.Walking p [] :=
  { supported := nofun
    asked := by simp
    moved := by simp
    goesOn := by simp
    distinct := List.nodup_nil }

theorem not_over (distinct : (p.reached ms).Nodup) (free : ¬ s.Stranded (p.along ms)) :
    ¬ s.Over p ms := by
  intro ended
  rcases ended with stranded | ⟨front, rfl, again⟩
  · exact free stranded
  · rw [Pose.along_append] at again
    rw [Pose.reached_snoc_step, List.nodup_append] at distinct
    exact distinct.2.2 _ again _ (List.mem_singleton_self _) rfl

theorem split_snoc {front back : List Move} {m' : Move} (split : ms ++ [m] = front ++ m' :: back) :
    (front = ms ∧ m' = m) ∨ ∃ back', ms = front ++ m' :: back' := by
  rcases List.eq_nil_or_concat back with rfl | ⟨back, last, rfl⟩
  · have same := List.append_inj' split rfl
    exact .inl ⟨same.1.symm, (List.head_eq_of_cons_eq same.2).symm⟩
  · rw [List.concat_eq_append, ← List.cons_append, ← List.append_assoc] at split
    exact .inr ⟨back, (List.append_inj' split rfl).1⟩

theorem Walking.snoc (walking : s.Walking p ms) (distinct : (p.reached ms).Nodup)
    (asks : s.Asks (p.along ms) m) : s.Walking p (ms ++ [m]) := by
  refine { supported := ?_, asked := ?_, moved := ?_, goesOn := ?_, distinct := ?_ }
  · intro q among
    rw [Pose.entered_append] at among
    rcases List.mem_append.mp among with before | new
    · exact walking.supported q before
    · cases m with
      | left => cases new
      | right => cases new
      | step =>
          rw [List.mem_singleton.mp new]
          exact asks.step.mp rfl
  · intro front m' back split
    rcases split_snoc split with ⟨rfl, rfl⟩ | ⟨back', before⟩
    · exact asks
    · exact walking.asked front m' back' before
  · intro front m' back _
    rw [Pose.along_append]
    exact Pose.leadsTo_move _ m'
  · intro front m' back split
    rcases split_snoc split with ⟨rfl, rfl⟩ | ⟨back', before⟩
    · exact not_over distinct asks.not_stranded
    · exact walking.goesOn front m' back' before
  · by_cases step : m = .step
    · rw [step, Pose.reached_snoc_step, List.dropLast_concat]
      exact distinct
    · rw [Pose.reached_snoc_turn p ms step]
      exact distinct.sublist (List.dropLast_sublist _)

/-- Going onward makes the moves that are asked for, and a step reaches one pose more. If that had
been reached before, the walk is over. -/
theorem Walking.onward {turns : List Move} (walking : s.Walking p ms)
    (distinct : (p.reached ms).Nodup) (clears : s.Clears (p.along ms) turns)
    (place : ((p.along ms).along turns).forward = q) :
    s.Walking p (ms ++ (turns ++ [.step])) ∧ p.along (ms ++ (turns ++ [.step])) = q ∧
      p.reached (ms ++ (turns ++ [.step])) = p.reached ms ++ [q] ∧
      (q ∈ p.reached ms → s.Over p (ms ++ (turns ++ [.step]))) := by
  have turning : s.Walking p (ms ++ turns) ∧ p.reached (ms ++ turns) = p.reached ms := by
    rcases clears.turned with rfl | ⟨turn, rfl, notStep, asks⟩
    · rw [List.append_nil]
      exact ⟨walking, rfl⟩
    · exact ⟨walking.snoc distinct asks, Pose.reached_snoc_turn p ms notStep⟩
  obtain ⟨walking, same⟩ := turning
  have ahead := clears.ahead
  rw [← Pose.along_append] at ahead place
  have next : p.along (ms ++ turns ++ [.step]) = q := by
    rw [Pose.along_append]
    exact place
  rw [← same] at distinct ⊢
  rw [← List.append_assoc]
  refine ⟨walking.snoc distinct (asks_step ahead), next, ?_, ?_⟩
  · rw [Pose.reached_snoc_step, place]
  · intro again
    exact .inr ⟨ms ++ turns, rfl, by rw [next]; exact again⟩

theorem Walking.has_of_reached (start : s.has p.cell = true) (walking : s.Walking p ms)
    (among : q ∈ p.reached ms) : s.has q.cell = true := by
  rcases List.mem_cons.mp among with rfl | entered
  · exact start
  · exact walking.supported q entered

theorem Walking.has_along {front : List Move} (start : s.has p.cell = true)
    (walking : s.Walking p ms) (before : front <+: ms) : s.has (p.along front).cell = true := by
  obtain ⟨back, rfl⟩ := before
  obtain ⟨q, among, same⟩ := Pose.exists_reached p front
  rw [← same]
  apply walking.has_of_reached start
  rw [Pose.reached, Pose.entered_append, ← List.cons_append]
  exact List.mem_append_left _ among

def poses (s : Scaffold) : List Pose := s.cells.toList.flatMap fun c => Facing.all.map (⟨c, ·⟩)

theorem length_poses (s : Scaffold) : s.poses.length = 4 * s.size := by
  have four : ∀ c : Point, (Facing.all.map (Pose.mk c)).length = 4 := fun _ => rfl
  simp only [poses, List.length_flatMap, four, List.map_const', List.sum_replicate_nat,
    Std.ExtTreeSet.length_toList, size, Nat.mul_comm]

theorem mem_poses (stands : s.has p.cell = true) : p ∈ s.poses := by
  apply List.mem_flatMap.mpr
  refine ⟨p.cell, ?_, ?_⟩
  · simpa [has] using stands
  · apply List.mem_map.mpr
    exact ⟨p.facing, p.facing.mem_all, rfl⟩

theorem length_reached_le (start : s.has p.cell = true) (walking : s.Walking p ms)
    (distinct : (p.reached ms).Nodup) : (p.reached ms).length ≤ 4 * s.size := by
  have within : p.reached ms ⊆ s.poses := by
    intro q among
    exact mem_poses (walking.has_of_reached start among)
  rw [← length_poses]
  exact distinct.length_le_of_subset within

/-- With fuel for every pose that has not been reached, the walk goes on until it is over. -/
theorem walking_walkFrom {fuel : Nat} {seen : Std.ExtTreeSet Pose} (start : s.has p.cell = true)
    (walking : s.Walking p ms) (distinct : (p.reached ms).Nodup)
    (same : ∀ q, q ∈ seen ↔ q ∈ p.reached ms)
    (enough : 4 * s.size < fuel + (p.reached ms).length) :
    s.Walking p (ms ++ s.walkFrom fuel seen (p.along ms)) ∧
      s.Over p (ms ++ s.walkFrom fuel seen (p.along ms)) := by
  -- The walk so far grows as the fuel goes down; there are only so many poses to reach.
  induction fuel generalizing ms seen with
  | zero =>
      have bound := length_reached_le start walking distinct
      omega
  | succ fuel ih =>
      rcases onward?_cases s (p.along ms) with ⟨nowhere, stranded⟩ | ⟨turns, onward, clears⟩
      · rw [walkFrom, nowhere, List.append_nil]
        exact ⟨walking, .inl stranded⟩
      · obtain ⟨further, place, reached, ends⟩ := walking.onward distinct clears rfl
        rw [walkFrom, onward]
        dsimp only
        split
        · rename_i known
          exact ⟨further, ends ((same _).mp known)⟩
        · rename_i fresh
          rw [same] at fresh
          rw [← List.append_assoc, ← place]
          apply ih further
          · rw [reached, ← List.concat_eq_append]
            exact List.Nodup.concat fresh distinct
          · intro q'
            rw [reached, Std.ExtTreeSet.mem_insert, Std.LawfulEqOrd.compare_eq_iff_eq, same,
              List.mem_append, List.mem_singleton, place, or_comm, eq_comm]
          · rw [reached, List.length_append, List.length_singleton]
            omega

theorem walking_walk (start : s.has p.cell = true) :
    s.Walking p (s.walk p) ∧ s.Over p (s.walk p) := by
  have only : ∀ q, q ∈ (∅ : Std.ExtTreeSet Pose).insert p ↔ q ∈ p.reached [] := by
    intro q
    rw [Std.ExtTreeSet.mem_insert, Std.LawfulEqOrd.compare_eq_iff_eq, Pose.reached, Pose.entered,
      List.mem_singleton, eq_comm]
    simp
  exact walking_walkFrom start (walking_nil s p) (List.nodup_singleton p) only (Nat.lt_succ_self _)

/-- A run of steps has a cell for each step and one more. -/
theorem Walking.run_lt {k : Nat} (start : s.has p.cell = true) (walking : s.Walking p ms)
    (run : List.replicate k Move.step <:+: ms) : k < s.size := by
  obtain ⟨front, back, rfl⟩ := run
  -- The cells along the run are all scaffold and all different.
  have cells : ∀ j ≤ k, s.has ((p.along front).along (List.replicate j .step)).cell = true := by
    intro j upto
    have shorter : List.replicate j Move.step <+: List.replicate k .step := by
      obtain ⟨i, rfl⟩ := Nat.exists_eq_add_of_le upto
      rw [List.replicate_add]
      exact List.prefix_append _ _
    have further := (List.prefix_append_right_inj front).mpr shorter
    rw [← Pose.along_append]
    exact walking.has_along start (further.trans (List.prefix_append _ back))
  have distinct : ((List.range (k + 1)).map fun j =>
      ((p.along front).along (List.replicate j .step)).cell).Nodup := by
    apply List.Nodup.map _ List.nodup_range
    intro i j same
    exact Pose.steps_injective same
  have within : ((List.range (k + 1)).map fun j =>
      ((p.along front).along (List.replicate j .step)).cell) ⊆ s.cells.toList := by
    intro c among
    obtain ⟨j, below, rfl⟩ := List.mem_map.mp among
    have there := cells j (Nat.le_of_lt_succ (List.mem_range.mp below))
    simpa [has] using there
  have bound := distinct.length_le_of_subset within
  rw [List.length_map, List.length_range, Std.ExtTreeSet.length_toList] at bound
  exact bound

theorem exists_route (there : s.robot = some p) (start : s.has p.cell = true)
    (small : s.size ≤ 2 ^ 32) :
    ∃ r, s.route = .ok r ∧ Route.ofMoves (s.walk p) = .ok r ∧ r.moves = s.walk p := by
  have walking := (walking_walk start).1
  obtain ⟨r, made, moves⟩ := Route.ofMoves_eq_ok fun k run =>
    Nat.lt_of_lt_of_le (walking.run_lt start run) small
  refine ⟨r, ?_, made, moves⟩
  rw [route, there]
  dsimp only
  rw [made]
  rfl

end Scaffold

/-- Where a frame shows a robot on a scaffold that is not too large, there is a route, and its moves
are the walk: from the robot's place each is the one that the scaffold asks for, up to where the
walk is over and no further. Every cell that is entered is scaffold, and no pose but the last is
reached twice. Without a robot there is no route. -/
theorem route_is_walk {codes : List Word} {s : Scaffold}
    (shown : Scaffold.ofFrame codes = .ok s) :
    (s.robot = none → s.route = .error .noRobot) ∧
    ∀ p, s.robot = some p → s.size ≤ 2 ^ 32 →
      ∃ r, s.route = .ok r ∧ s.Walking p r.moves ∧ s.Over p r.moves := by
  constructor
  · intro missing
    rw [Scaffold.route, missing]
  · intro p there small
    have start := Scaffold.stands_of_ofFrame shown p there
    obtain ⟨r, route, -, moves⟩ := Scaffold.exists_route there start small
    refine ⟨r, route, ?_⟩
    rw [moves]
    exact Scaffold.walking_walk start

/-- A ring of eight cells around an empty one; the robot stands in its corner and faces outwards. -/
def ringFrame : List Word := [94, 35, 35, 10, 35, 46, 35, 10, 35, 35, 35, 10]

def ringRoute : Route :=
  [.right, .forward 2, .right, .forward 2, .right, .forward 2, .right, .forward 2]

/-- A bend to the right and one to the left, then an end:
```
.#
##
^.
``` -/
def zigzagFrame : List Word := [46, 35, 10, 35, 35, 10, 94, 46, 10]

def zigzagRoute : Route := [.forward 1, .right, .forward 1, .left, .forward 1]

theorem route_is_walk_ring_zigzag :
    (∃ s, Scaffold.ofFrame ringFrame = .ok s ∧ s.robot = some ⟨.origin, .up⟩ ∧ s.size ≤ 2 ^ 32 ∧
      s.route = .ok ringRoute ∧ s.Walking ⟨.origin, .up⟩ ringRoute.moves ∧
      s.Over ⟨.origin, .up⟩ ringRoute.moves) ∧
    ∃ s, Scaffold.ofFrame zigzagFrame = .ok s ∧ s.robot = some ⟨⟨0, 2⟩, .up⟩ ∧ s.size ≤ 2 ^ 32 ∧
      s.route = .ok zigzagRoute ∧ s.Walking ⟨⟨0, 2⟩, .up⟩ zigzagRoute.moves ∧
      s.Stranded (Pose.along ⟨⟨0, 2⟩, .up⟩ zigzagRoute.moves) ∧
      Pose.LeadsTo ⟨⟨1, 1⟩, .right⟩ .left (Pose.along ⟨⟨0, 2⟩, .up⟩ [.step, .right, .step, .left]) ∧
      Pose.along ⟨⟨0, 2⟩, .up⟩ zigzagRoute.moves = ⟨⟨1, 0⟩, .up⟩ := by
  constructor
  · have seen : ∃ s, Scaffold.ofFrame ringFrame = .ok s ∧ s.robot = some ⟨.origin, .up⟩ ∧
        s.size ≤ 2 ^ 32 ∧ s.route = .ok ringRoute :=
      ⟨_, rfl, rfl, by decide +kernel, by decide +kernel⟩
    obtain ⟨s, shown, there, small, route⟩ := seen
    obtain ⟨r, route', walking, ended⟩ := (route_is_walk shown).2 _ there small
    cases route.symm.trans route'
    exact ⟨s, shown, there, small, route, walking, ended⟩
  · have seen : ∃ s, Scaffold.ofFrame zigzagFrame = .ok s ∧ s.robot = some ⟨⟨0, 2⟩, .up⟩ ∧
        s.size ≤ 2 ^ 32 ∧ s.route = .ok zigzagRoute :=
      ⟨_, rfl, rfl, by decide +kernel, by decide +kernel⟩
    obtain ⟨s, shown, there, small, route⟩ := seen
    obtain ⟨r, route', walking, ended⟩ := (route_is_walk shown).2 _ there small
    cases route.symm.trans route'
    have turned := walking.moved [.step, .right, .step] .left [.step] rfl
    have fresh : Pose.along ⟨⟨0, 2⟩, .up⟩ zigzagRoute.moves ∉
        Pose.reached ⟨⟨0, 2⟩, .up⟩ [.step, .right, .step, .left] := by decide +kernel
    refine ⟨s, shown, there, small, route, walking, ?_, turned, rfl⟩
    rcases ended with stranded | ⟨front, same, again⟩
    · exact stranded
    · have split : [.step, .right, .step, .left] ++ [.step] = front ++ [.step] := same
      rw [← (List.append_inj' split rfl).1] at again
      exact absurd again fresh

end Shipboard
