import Mathlib.Algebra.BigOperators.Group.List.Basic
import Mathlib.Algebra.Order.Ring.Int
import Mathlib.Tactic.Linarith
import Shipboard.Proofs.Core.Failing
import Shipboard.Scaffold.Survey

/-!
The cells of a frame are near its corner, so the alignment sum of a frame that is not too long is a
plain sum: neither a product nor a partial sum leaves the range of words.
-/

namespace Shipboard

/-- Inside the upper left corner of the plane that is cut off by a diagonal. -/
structure Point.Near (n : Int) (p : Point) : Prop where
  right : 0 ≤ p.x
  below : 0 ≤ p.y
  close : p.x + p.y < n

structure Sweep.Within (n : Nat) (s : Sweep) : Prop where
  cell : s.cell.Near (n + 1)
  cells : ∀ p ∈ s.scaffold.cells, p.Near n
  few : s.scaffold.cells.size ≤ n

theorem Point.Near.mono {m n : Int} {p : Point} (near : p.Near m) (le : m ≤ n) : p.Near n :=
  { near with close := Int.lt_of_lt_of_le near.close le }

namespace Sweep

variable {n : Nat} {s s' : Sweep} {p : Point} {code : Word}

theorem within_start : Within 0 {} :=
  { cell := by constructor <;> decide
    cells := by
      intro p drawn
      exact absurd drawn Std.ExtTreeSet.not_mem_empty
    few := by
      rw [Std.ExtTreeSet.size_empty] }

theorem near_right (near : p.Near n) : (right p).Near (n + 1) := by
  obtain ⟨right, below, close⟩ := near
  constructor <;> dsimp only [Sweep.right] <;> omega

theorem Within.insert (within : Within n s) {scaffold : Scaffold}
    (drawn : scaffold.cells = s.scaffold.cells.insert s.cell) :
    Within (n + 1) ⟨scaffold, right s.cell⟩ := by
  refine { cell := near_right within.cell, cells := ?_, few := ?_ }
  · intro p among
    rw [drawn, Std.ExtTreeSet.mem_insert, Std.LawfulEqOrd.compare_eq_iff_eq] at among
    rcases among with rfl | among
    · exact within.cell
    · exact (within.cells p among).mono (by omega)
  · rw [drawn]
    have grown := Std.ExtTreeSet.size_insert_le (t := s.scaffold.cells) (k := s.cell)
    have few := within.few
    omega

theorem Within.same (within : Within n s) {cell : Point} (near : cell.Near (n + 1 + 1)) :
    Within (n + 1) { s with cell } :=
  { cell := near
    cells := fun p among => (within.cells p among).mono (by omega)
    few := Nat.le_succ_of_le within.few }

theorem Within.draw (within : Within n s) (pixel : Pixel) : Within (n + 1) (s.draw pixel) := by
  cases pixel with
  | rowEnd =>
      obtain ⟨right, below, close⟩ := within.cell
      refine within.same ?_
      constructor <;> dsimp only <;> omega
  | empty => exact within.same (near_right within.cell)
  | scaffold => exact within.insert rfl
  | robot f => exact within.insert rfl

theorem Within.read (within : Within n s) (h : s.read code = .ok s') : Within (n + 1) s' := by
  obtain ⟨pixel, -, rfl⟩ := ok_of_map h
  exact within.draw pixel

theorem within_of_foldlM {codes : List Word} (within : Within n s)
    (h : codes.foldlM read s = .ok s') : Within (n + codes.length) s' := by
  induction codes generalizing n s with
  | nil =>
      cases h
      exact within
  | cons code codes ih =>
      rw [List.foldlM_cons] at h
      obtain ⟨next, first, rest⟩ := ok_of_bind h
      have all := ih (within.read first) rest
      rw [List.length_cons, Nat.add_comm codes.length, ← Nat.add_assoc]
      exact all

end Sweep

namespace Scaffold

variable {codes : List Word} {s : Scaffold} {cells : List Point} {p : Point}

theorem within_of_ofFrame (shown : ofFrame codes = .ok s) :
    (∀ p ∈ s.cells, p.Near codes.length) ∧ s.cells.size ≤ codes.length := by
  obtain ⟨sweep, read, rfl⟩ := ok_of_map shown
  have within := Sweep.within_of_foldlM Sweep.within_start read
  rw [Nat.zero_add] at within
  exact ⟨within.cells, within.few⟩

theorem nodup_cells (s : Scaffold) : s.cells.toList.Nodup := by
  apply Std.ExtTreeSet.distinct_toList.imp
  intro p q apart
  rwa [Std.LawfulEqOrd.compare_eq_iff_eq] at apart

/-- The sum of `x * y` over the crossings. -/
def alignmentSum (s : Scaffold) : Int := (s.crossings.map fun p => p.x * p.y).sum

theorem mul_le_of_near (near : p.Near (2 ^ 21)) : 0 ≤ p.x * p.y ∧ p.x * p.y ≤ 2 ^ 40 := by
  obtain ⟨right, below, close⟩ := near
  constructor
  · exact Int.mul_nonneg right below
  · have apart := mul_self_nonneg (p.x - p.y)
    have square : (p.x + p.y) * (p.x + p.y) ≤ 2 ^ 21 * 2 ^ 21 := by
      exact mul_self_le_mul_self (by omega) (by omega)
    linarith

theorem inWordRange_mul (near : p.Near (2 ^ 21)) : inWordRange (p.x * p.y) = true := by
  obtain ⟨low, high⟩ := mul_le_of_near near
  simp only [inWordRange, Bool.and_eq_true, decide_eq_true_eq]
  constructor
  · exact Int.le_trans (by decide) low
  · exact Int.le_trans high (by decide)

theorem foldlM_addAlignment {sum : Int} (near : ∀ p ∈ cells, p.Near (2 ^ 21)) (positive : 0 ≤ sum)
    (room : sum + cells.length * 2 ^ 40 < 2 ^ 63) :
    cells.foldlM addAlignment sum = .ok (sum + (cells.map fun p => p.x * p.y).sum) := by
  -- The room left shrinks by the largest product with each cell, whatever the product is.
  induction cells generalizing sum with
  | nil =>
      rw [List.map_nil, List.sum_nil, Int.add_zero]
      rfl
  | cons p cells ih =>
      obtain ⟨low, high⟩ := mul_le_of_near (near p List.mem_cons_self)
      rw [List.length_cons] at room
      push_cast at room
      have product : mulInRange p.x p.y = .ok (p.x * p.y) := by
        rw [mulInRange, if_pos (inWordRange_mul (near p List.mem_cons_self))]
      have partialSum : addInRange sum (p.x * p.y) = .ok (sum + p.x * p.y) := by
        rw [addInRange, if_pos]
        simp only [inWordRange, Bool.and_eq_true, decide_eq_true_eq, Int64.toInt_minValue,
          Int64.toInt_maxValue]
        constructor <;> omega
      have first : addAlignment sum p = .ok (sum + p.x * p.y) := by
        rw [addAlignment, product]
        exact partialSum
      have later : ∀ q ∈ cells, q.Near (2 ^ 21) := fun q among =>
        near q (List.mem_cons_of_mem p among)
      have rest := ih later (by omega : 0 ≤ sum + p.x * p.y) (by omega)
      rw [List.foldlM_cons, first, List.map_cons, List.sum_cons, ← Int.add_assoc]
      exact rest

theorem alignmentOf_eq_sum (near : ∀ p ∈ cells, p.Near (2 ^ 21)) (few : cells.length ≤ 2 ^ 21) :
    alignmentOf cells = .ok (cells.map fun p => p.x * p.y).sum := by
  have exact_sum := foldlM_addAlignment near (Int.le_refl 0) (by omega)
  rw [Int.zero_add] at exact_sum
  exact exact_sum

theorem near_of_perm (shown : ofFrame codes = .ok s) (short : codes.length ≤ 2 ^ 21)
    (complete : cells.Perm s.cells.toList) :
    (∀ p ∈ cells.filter s.isCrossing, p.Near (2 ^ 21)) ∧
      (cells.filter s.isCrossing).length ≤ 2 ^ 21 := by
  obtain ⟨near, few⟩ := within_of_ofFrame shown
  constructor
  · intro p crossing
    have there := complete.mem_iff.mp (List.mem_of_mem_filter crossing)
    rw [Std.ExtTreeSet.mem_toList] at there
    exact (near p there).mono (by exact_mod_cast short)
  · have filtered := List.length_filter_le s.isCrossing cells
    rw [complete.length_eq, Std.ExtTreeSet.length_toList] at filtered
    exact filtered.trans (few.trans short)

theorem alignmentOf_perm (shown : ofFrame codes = .ok s) (short : codes.length ≤ 2 ^ 21)
    (complete : cells.Perm s.cells.toList) :
    alignmentOf (cells.filter s.isCrossing) = .ok s.alignmentSum := by
  obtain ⟨near, few⟩ := near_of_perm shown short complete
  have crossing : (cells.filter s.isCrossing).Perm s.crossings := complete.filter _
  rw [alignmentOf_eq_sum near few, alignmentSum, (crossing.map _).sum_eq]

theorem alignment_eq_sum (shown : ofFrame codes = .ok s) (short : codes.length ≤ 2 ^ 21) :
    s.alignment = .ok s.alignmentSum := alignmentOf_perm shown short (.refl _)

end Scaffold

end Shipboard
