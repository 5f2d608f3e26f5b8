import Mathlib.Data.List.Perm.Basic
import Mathlib.Logic.Function.Iterate
import Shipboard.Proofs.Scaffold.Walking

/-!
Rigid motions of the plane. A scaffold that is turned and shifted together with its robot is walked
in the same way: the robot's commands say where to go as seen from the robot.
-/

namespace Shipboard

namespace Point

def quarterTurn (p : Point) : Point := ⟨-p.y, p.x⟩

theorem quarterTurn_add (p q : Point) :
    (p + q).quarterTurn = p.quarterTurn + q.quarterTurn := by
  simp only [add_def, quarterTurn, Int.neg_add]

theorem quarterTurn_injective : Function.Injective quarterTurn := by
  intro p q same
  rcases p with ⟨a, b⟩
  rcases q with ⟨c, d⟩
  simp only [quarterTurn, Point.mk.injEq] at same ⊢
  omega

theorem iterate_quarterTurn_add (n : Nat) (p q : Point) :
    quarterTurn^[n] (p + q) = quarterTurn^[n] p + quarterTurn^[n] q := by
  induction n generalizing p q with
  | zero => rfl
  | succ n ih =>
      rw [Function.iterate_succ_apply, quarterTurn_add, ih]
      rfl

theorem add_right_comm (p q d : Point) : p + q + d = p + d + q := by
  simp only [add_def, Int.add_right_comm]

theorem add_right_injective (d : Point) : Function.Injective fun p : Point => p + d := by
  intro p q same
  rcases p with ⟨a, b⟩
  rcases q with ⟨c, e⟩
  simp only [add_def, Point.mk.injEq] at same ⊢
  omega

end Point

namespace Facing

theorem delta_turnRight (f : Facing) : f.turnRight.delta = f.delta.quarterTurn := by
  cases f <;> rfl

theorem iterate_turnRight_delta (n : Nat) (f : Facing) :
    (turnRight^[n] f).delta = Point.quarterTurn^[n] f.delta := by
  induction n generalizing f with
  | zero => rfl
  | succ n ih => rw [Function.iterate_succ_apply, ih, delta_turnRight, Function.iterate_succ_apply]

theorem turnRight_injective : Function.Injective turnRight := by
  intro f g same
  rw [← f.turnLeft_turnRight, same, g.turnLeft_turnRight]

theorem turnLeft_commute : Function.Commute turnRight turnLeft := by
  intro f
  rw [turnLeft_turnRight, turnRight_turnLeft]

end Facing

/-- So many quarter turns clockwise around the origin, then a shift. -/
structure Motion where
  quarters : Nat
  shift : Point

namespace Motion

def cell (m : Motion) (p : Point) : Point := Point.quarterTurn^[m.quarters] p + m.shift

def facing (m : Motion) (f : Facing) : Facing := Facing.turnRight^[m.quarters] f

def pose (m : Motion) (p : Pose) : Pose := ⟨m.cell p.cell, m.facing p.facing⟩

theorem cell_injective (m : Motion) : Function.Injective m.cell :=
  (Point.add_right_injective m.shift).comp (Point.quarterTurn_injective.iterate m.quarters)

theorem pose_injective (m : Motion) : Function.Injective m.pose := by
  intro p q same
  rcases p with ⟨a, f⟩
  rcases q with ⟨b, g⟩
  simp only [pose, Pose.mk.injEq] at same ⊢
  exact ⟨m.cell_injective same.1, Facing.turnRight_injective.iterate m.quarters same.2⟩

theorem ahead_pose (m : Motion) (p : Pose) : (m.pose p).ahead = m.cell p.ahead := by
  rw [Pose.ahead, Pose.ahead, pose, cell, cell, facing, Point.iterate_quarterTurn_add,
    Facing.iterate_turnRight_delta, Point.add_right_comm]

theorem forward_pose (m : Motion) (p : Pose) : (m.pose p).forward = m.pose p.forward := by
  rw [Pose.forward, ahead_pose]
  rfl

theorem turnRight_pose (m : Motion) (p : Pose) : (m.pose p).turnRight = m.pose p.turnRight := by
  have same : (m.facing p.facing).turnRight = m.facing p.facing.turnRight :=
    (Function.Commute.refl Facing.turnRight).iterate_right m.quarters p.facing
  rw [Pose.turnRight, pose, same]
  rfl

theorem turnLeft_pose (m : Motion) (p : Pose) : (m.pose p).turnLeft = m.pose p.turnLeft := by
  have same : m.facing p.facing.turnLeft = (m.facing p.facing).turnLeft :=
    Facing.turnLeft_commute.iterate_left m.quarters p.facing
  rw [Pose.turnLeft, pose, ← same]
  rfl

end Motion

namespace Scaffold

/-- The scaffold `s'` is `s` moved by `m`, and so is the robot. -/
structure Moved (m : Motion) (s s' : Scaffold) : Prop where
  cells : ∀ q, s'.has q = true ↔ ∃ p, s.has p = true ∧ m.cell p = q
  robot : s'.robot = s.robot.map m.pose

variable {m : Motion} {s s' : Scaffold}

theorem Moved.has (moved : Moved m s s') (c : Point) : s'.has (m.cell c) = s.has c := by
  rw [Bool.eq_iff_iff, moved.cells]
  constructor
  · intro there
    obtain ⟨c', has, same⟩ := there
    rw [← m.cell_injective same]
    exact has
  · intro has
    exact ⟨c, has, rfl⟩

theorem moved_iff : Moved m s s' ↔
    s'.cells.toList.Perm (s.cells.toList.map m.cell) ∧ s'.robot = s.robot.map m.pose := by
  have distinct := s.nodup_cells.map m.cell_injective
  rw [List.perm_ext_iff_of_nodup s'.nodup_cells distinct]
  constructor
  · intro moved
    refine ⟨?_, moved.robot⟩
    intro q
    have image := moved.cells q
    simpa [Scaffold.has] using image
  · intro both
    obtain ⟨same, robot⟩ := both
    refine ⟨?_, robot⟩
    intro q
    have image := same q
    simpa [Scaffold.has] using image

theorem Moved.size (moved : Moved m s s') : s'.size = s.size := by
  have same := (moved_iff.mp moved).1
  rw [Scaffold.size, Scaffold.size, ← Std.ExtTreeSet.length_toList, same.length_eq,
    List.length_map, Std.ExtTreeSet.length_toList]

theorem Moved.onward? (moved : Moved m s s') (p : Pose) :
    s'.onward? (m.pose p) = (s.onward? p).map fun way => (way.1, m.pose way.2) := by
  simp only [Scaffold.onward?, m.turnRight_pose, m.turnLeft_pose, m.ahead_pose, m.forward_pose,
    moved.has]
  split
  · rfl
  · split
    · rfl
    · split <;> rfl

theorem Moved.walkFrom (moved : Moved m s s') (fuel : Nat) {seen seen' : Std.ExtTreeSet Pose}
    (same : ∀ q, m.pose q ∈ seen' ↔ q ∈ seen) (p : Pose) :
    s'.walkFrom fuel seen' (m.pose p) = s.walkFrom fuel seen p := by
  -- The poses reached so far correspond as well, so both walks end at the same moment.
  induction fuel generalizing seen seen' p with
  | zero => rfl
  | succ fuel ih =>
      rw [Scaffold.walkFrom, Scaffold.walkFrom, moved.onward?]
      cases s.onward? p with
      | none => rfl
      | some way =>
          obtain ⟨ms, q⟩ := way
          have further : ∀ q', m.pose q' ∈ seen'.insert (m.pose q) ↔ q' ∈ seen.insert q := by
            intro q'
            rw [Std.ExtTreeSet.mem_insert, Std.ExtTreeSet.mem_insert,
              Std.LawfulEqOrd.compare_eq_iff_eq, Std.LawfulEqOrd.compare_eq_iff_eq, same,
              m.pose_injective.eq_iff]
          dsimp only [Option.map_some]
          rw [ih further]
          simp only [same]

theorem Moved.walk (moved : Moved m s s') (p : Pose) : s'.walk (m.pose p) = s.walk p := by
  have start : ∀ q, m.pose q ∈ (∅ : Std.ExtTreeSet Pose).insert (m.pose p) ↔
      q ∈ (∅ : Std.ExtTreeSet Pose).insert p := by
    intro q
    simp [Std.ExtTreeSet.mem_insert, m.pose_injective.eq_iff]
  rw [Scaffold.walk, Scaffold.walk, moved.size]
  exact moved.walkFrom _ start p

theorem Moved.route (moved : Moved m s s') : s'.route = s.route := by
  rw [Scaffold.route, Scaffold.route, moved.robot]
  cases s.robot with
  | none => rfl
  | some p =>
      dsimp only [Option.map_some]
      rw [moved.walk]

end Scaffold

/-- A scaffold that is turned and shifted together with its robot, and is not too large, gives the
robot the same route: how the frame lies does not matter. If no robot is shown there is no route
either way. -/
theorem route_moves_along {codes : List Word} {m : Motion} {s s' : Scaffold}
    (shown : Scaffold.ofFrame codes = .ok s) (small : s.size ≤ 2 ^ 32)
    (moved : Scaffold.Moved m s s') :
    (s.robot = none → s.route = .error .noRobot ∧ s'.route = .error .noRobot) ∧
    ∀ p, s.robot = some p → ∃ r, s.route = .ok r ∧ s'.route = .ok r := by
  rw [moved.route]
  constructor
  · intro missing
    have none : s.route = .error .noRobot := by
      rw [Scaffold.route, missing]
    exact ⟨none, none⟩
  · intro p there
    have start := Scaffold.stands_of_ofFrame shown p there
    obtain ⟨r, route, -, -⟩ := Scaffold.exists_route there start small
    exact ⟨r, route, route⟩

def acrossFrame : List Word := [62, 35, 35, 10, 46, 46, 35, 10]

def downFrame : List Word := [10, 46, 46, 118, 10, 46, 46, 35, 10, 46, 35, 35, 10]

def cornerRoute : Route := [.forward 2, .right, .forward 1]

theorem route_moves_along_corner :
    ∃ s s', Scaffold.ofFrame acrossFrame = .ok s ∧ Scaffold.ofFrame downFrame = .ok s' ∧
      s.size ≤ 2 ^ 32 ∧ Scaffold.Moved ⟨1, ⟨2, 1⟩⟩ s s' ∧
      s.route = .ok cornerRoute ∧ s'.route = .ok cornerRoute := by
  have seen : ∃ s s', Scaffold.ofFrame acrossFrame = .ok s ∧
      Scaffold.ofFrame downFrame = .ok s' ∧ s.size ≤ 2 ^ 32 ∧ s.robot = some ⟨.origin, .right⟩ ∧
      s.route = .ok cornerRoute ∧
      s'.cells.toList.Perm (s.cells.toList.map (Motion.cell ⟨1, ⟨2, 1⟩⟩)) ∧
      s'.robot = s.robot.map (Motion.pose ⟨1, ⟨2, 1⟩⟩) :=
    ⟨_, _, rfl, rfl, by decide +kernel, rfl, by decide +kernel, by decide +kernel,
      by decide +kernel⟩
  obtain ⟨s, s', shown, shown', small, there, route, cells, robot⟩ := seen
  have moved := Scaffold.moved_iff.mpr ⟨cells, robot⟩
  obtain ⟨r, found, found'⟩ := (route_moves_along shown small moved).2 _ there
  rw [route] at found
  cases found
  exact ⟨s, s', shown, shown', small, moved, route, found'⟩

end Shipboard
