import Mathlib.Data.List.Infix
import Shipboard.Scaffold.Route

/-!
Going along moves. A turn stays on its cell, steps in a row lead away from theirs, and a route whose
runs of steps are not too long stands for exactly the moves it was made of.
-/

namespace Shipboard

namespace Pose

variable {p q : Pose} {m : Move} {ms front back : List Move}

/-- The cell to the right, for `y` growing downwards. -/
def onRight (p : Pose) : Point := ⟨p.cell.x - p.facing.delta.y, p.cell.y + p.facing.delta.x⟩

def onLeft (p : Pose) : Point := ⟨p.cell.x + p.facing.delta.y, p.cell.y - p.facing.delta.x⟩

theorem ahead_turnRight (p : Pose) : p.turnRight.ahead = p.onRight := by
  obtain ⟨⟨x, y⟩, f⟩ := p
  cases f <;> simp [ahead, turnRight, onRight, Point.add_def, Facing.turnRight, Facing.delta,
    Int.sub_eq_add_neg]

theorem ahead_turnLeft (p : Pose) : p.turnLeft.ahead = p.onLeft := by
  obtain ⟨⟨x, y⟩, f⟩ := p
  cases f <;> simp [ahead, turnLeft, onLeft, Point.add_def, Facing.turnLeft, Facing.delta,
    Int.sub_eq_add_neg]

/-- The move `m` takes a robot from `p` to `q`: a turn leaves it on its cell and brings the cell at
its side in front of it, a step takes it to the cell in front. -/
def LeadsTo (p : Pose) (m : Move) (q : Pose) : Prop :=
  match m with
  | .left => q.cell = p.cell ∧ q.ahead = p.onLeft
  | .right => q.cell = p.cell ∧ q.ahead = p.onRight
  | .step => q.cell = p.ahead ∧ q.facing = p.facing

def move (p : Pose) : Move → Pose
  | .left => p.turnLeft
  | .right => p.turnRight
  | .step => p.forward

theorem leadsTo_move (p : Pose) (m : Move) : p.LeadsTo m (p.move m) := by
  cases m with
  | left => exact ⟨rfl, p.ahead_turnLeft⟩
  | right => exact ⟨rfl, p.ahead_turnRight⟩
  | step => exact ⟨rfl, rfl⟩

def along (p : Pose) (ms : List Move) : Pose := ms.foldl move p

/-- The poses that are entered by steps, in order. -/
def entered : Pose → List Move → List Pose
  | _, [] => []
  | p, .step :: ms => p.forward :: entered p.forward ms
  | p, .left :: ms => entered p.turnLeft ms
  | p, .right :: ms => entered p.turnRight ms

def reached (p : Pose) (ms : List Move) : List Pose := p :: p.entered ms

theorem along_append (p : Pose) (front back : List Move) :
    p.along (front ++ back) = (p.along front).along back := by
  simp [along]

theorem entered_append (p : Pose) (front back : List Move) :
    p.entered (front ++ back) = p.entered front ++ (p.along front).entered back := by
  induction front generalizing p with
  | nil => rfl
  | cons m front ih =>
      cases m with
      | left => exact ih p.turnLeft
      | right => exact ih p.turnRight
      | step => exact congrArg (p.forward :: ·) (ih p.forward)

theorem reached_snoc_step (p : Pose) (ms : List Move) :
    p.reached (ms ++ [.step]) = p.reached ms ++ [(p.along ms).forward] := by
  simp [reached, entered_append, entered]

theorem reached_snoc_turn (p : Pose) (ms : List Move) (turn : m ≠ .step) :
    p.reached (ms ++ [m]) = p.reached ms := by
  cases m with
  | left => simp [reached, entered_append, entered]
  | right => simp [reached, entered_append, entered]
  | step => exact absurd rfl turn

theorem exists_reached (p : Pose) (ms : List Move) :
    ∃ q ∈ p.reached ms, q.cell = (p.along ms).cell := by
  induction ms using List.reverseRecOn with
  | nil => exact ⟨p, List.mem_cons_self, rfl⟩
  | append_singleton ms m ih =>
      obtain ⟨q, among, same⟩ := ih
      rw [along_append]
      cases m with
      | left => exact ⟨q, by rwa [reached_snoc_turn p ms (by decide)], same⟩
      | right => exact ⟨q, by rwa [reached_snoc_turn p ms (by decide)], same⟩
      | step =>
          refine ⟨(p.along ms).forward, ?_, rfl⟩
          rw [reached_snoc_step]
          exact List.mem_append_right _ (List.mem_singleton_self _)

theorem along_steps_succ (p : Pose) (k : Nat) :
    p.along (List.replicate (k + 1) .step) = (p.along (List.replicate k .step)).forward := by
  rw [List.replicate_succ', along_append]
  rfl

theorem facing_along_steps (p : Pose) (k : Nat) :
    (p.along (List.replicate k .step)).facing = p.facing := by
  induction k with
  | zero => rfl
  | succ k ih =>
      rw [along_steps_succ]
      exact ih

theorem cell_along_steps (p : Pose) (k : Nat) :
    (p.along (List.replicate k .step)).cell =
      ⟨p.cell.x + k * p.facing.delta.x, p.cell.y + k * p.facing.delta.y⟩ := by
  induction k with
  | zero => simp [along]
  | succ k ih =>
      have ahead : (p.along (List.replicate (k + 1) .step)).cell =
          (p.along (List.replicate k .step)).cell + p.facing.delta := by
        rw [along_steps_succ, ← facing_along_steps p k]
        rfl
      rw [ahead, ih, Point.add_def]
      simp only [Int.natCast_succ, Int.add_mul, Int.one_mul, Int.add_assoc]

theorem steps_injective {j k : Nat} (same : (p.along (List.replicate j .step)).cell =
    (p.along (List.replicate k .step)).cell) : j = k := by
  rw [cell_along_steps, cell_along_steps, Point.mk.injEq] at same
  obtain ⟨across, down⟩ := same
  cases facing : p.facing <;> simp only [facing, Facing.delta] at across down <;> omega

end Pose

namespace Route

theorem moves_cons (c : Command) (r : Route) : moves (c :: r) = c.moves ++ moves r := rfl

theorem moves_forward_succ {n : UInt32} (room : n.toNat + 1 < UInt32.size) (r : Route) :
    moves (.forward (n + 1) :: r) = .step :: moves (.forward n :: r) := by
  have counts : (n + 1).toNat = n.toNat + 1 := by
    rw [UInt32.toNat_add]
    exact Nat.mod_eq_of_lt room
  rw [moves_cons, moves_cons, Command.moves, Command.moves, counts, List.replicate_succ,
    List.cons_append]

theorem prepend_eq_ok {m : Move} {r : Route}
    (short : ∀ k, List.replicate k Move.step <+: m :: r.moves → k < UInt32.size) :
    ∃ r', prepend m r = .ok r' ∧ r'.moves = m :: r.moves := by
  cases m with
  | left => exact ⟨_, rfl, rfl⟩
  | right => exact ⟨_, rfl, rfl⟩
  | step =>
      cases r with
      | nil => exact ⟨_, rfl, rfl⟩
      | cons c r =>
          cases c with
          | left => exact ⟨_, rfl, rfl⟩
          | right => exact ⟨_, rfl, rfl⟩
          | forward n =>
              have run : List.replicate (n.toNat + 1) Move.step <+:
                  .step :: moves (.forward n :: r) := by
                rw [List.replicate_succ, moves_cons, Command.moves, ← List.cons_append]
                exact List.prefix_append _ _
              have room := short _ run
              refine ⟨.forward (n + 1) :: r, ?_, moves_forward_succ room r⟩
              rw [prepend, if_pos room]

theorem ofMoves_eq_ok {ms : List Move}
    (short : ∀ k, List.replicate k Move.step <:+: ms → k < UInt32.size) :
    ∃ r, ofMoves ms = .ok r ∧ r.moves = ms := by
  induction ms with
  | nil => exact ⟨[], rfl, rfl⟩
  | cons m ms ih =>
      have later : ∀ k, List.replicate k Move.step <:+: ms → k < UInt32.size := by
        intro k inside
        exact short k (inside.trans (List.suffix_cons m ms).isInfix)
      obtain ⟨r, made, same⟩ := ih later
      have front : ∀ k, List.replicate k Move.step <+: m :: r.moves → k < UInt32.size := by
        intro k first
        rw [same] at first
        exact short k first.isInfix
      obtain ⟨r', longer, moves⟩ := prepend_eq_ok front
      rw [same] at moves
      refine ⟨r', ?_, moves⟩
      rw [ofMoves, List.foldrM_cons, ← ofMoves, made]
      exact longer

end Route

end Shipboard
