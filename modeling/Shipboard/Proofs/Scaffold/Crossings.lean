import Mathlib.Algebra.Order.BigOperators.Group.Finset
import Mathlib.Algebra.Order.Ring.Int
import Shipboard.Proofs.Scaffold.Framing

/-!
The crossings of a frame and the sum of their products. The sum does not depend on the order of the
cells, none of its parts leaves the range of words, and every crossing counts for one at least.
-/

namespace Shipboard

namespace Frame

/-- The frame shows scaffold in the cell and in the four cells around it. -/
structure Crosses (codes : List Word) (p : Point) : Prop where
  here : Supports codes p
  left : Supports codes ⟨p.x - 1, p.y⟩
  right : Supports codes ⟨p.x + 1, p.y⟩
  above : Supports codes ⟨p.x, p.y - 1⟩
  below : Supports codes ⟨p.x, p.y + 1⟩

variable {codes : List Word} {p : Point}

theorem Supports.nonneg (supports : Supports codes p) : 0 ≤ p.x ∧ 0 ≤ p.y := by
  obtain ⟨code, -, x, y, row, rfl, -, -⟩ := supports
  exact ⟨Int.natCast_nonneg x, Int.natCast_nonneg y⟩

theorem Crosses.positive (crosses : Crosses codes p) : 1 ≤ p.x ∧ 1 ≤ p.y := by
  have left := crosses.left.nonneg.1
  have above := crosses.above.nonneg.2
  dsimp only at left above
  omega

end Frame

namespace Scaffold

open Shipboard.Frame

variable {codes : List Word} {s : Scaffold} {p : Point}

theorem has_iff_supports (shown : ofFrame codes = .ok s) : s.has p = true ↔ Supports codes p := by
  obtain ⟨sweep, read, rfl⟩ := ok_of_map shown
  rw [← (Sweep.reads_of_foldlM read).cells p]
  simp [has]

theorem isCrossing_iff_crosses (shown : ofFrame codes = .ok s) :
    s.isCrossing p = true ↔ Crosses codes p := by
  have around : p.neighbours =
      [⟨p.x, p.y - 1⟩, ⟨p.x + 1, p.y⟩, ⟨p.x, p.y + 1⟩, ⟨p.x - 1, p.y⟩] := by
    simp [Point.neighbours, Facing.all, Point.add_def, Facing.delta, Int.sub_eq_add_neg]
  rw [isCrossing, around]
  simp only [List.all_cons, List.all_nil, Bool.and_true, Bool.and_eq_true, has_iff_supports shown]
  constructor
  · intro h
    obtain ⟨here, above, right, below, left⟩ := h
    exact ⟨here, left, right, above, below⟩
  · intro crosses
    exact ⟨crosses.here, crosses.above, crosses.right, crosses.below, crosses.left⟩

theorem neighbours?_eq_ok (near : p.Near (2 ^ 21)) : p.neighbours? = .ok p.neighbours := by
  obtain ⟨right, below, close⟩ := near
  have step : ∀ f : Facing, p.add? f.delta = .ok (p + f.delta) := by
    intro f
    rw [Point.add?, if_pos]
    simp only [Point.inRange, inWordRange, Bool.and_eq_true, decide_eq_true_eq,
      Int64.toInt_minValue, Int64.toInt_maxValue]
    cases f <;> simp only [Point.add_def, Facing.delta] <;> omega
  simp only [Point.neighbours?, Facing.all, List.mapM_cons, step]
  rfl

theorem inWordRange_sum {cells : List Point} (near : ∀ p ∈ cells, p.Near (2 ^ 21))
    (few : cells.length ≤ 2 ^ 21) : inWordRange (cells.map fun p => p.x * p.y).sum = true := by
  have low : 0 ≤ (cells.map fun p => p.x * p.y).sum := by
    apply List.sum_nonneg
    intro product among
    obtain ⟨p, there, rfl⟩ := List.mem_map.mp among
    exact (mul_le_of_near (near p there)).1
  have high : (cells.map fun p => p.x * p.y).sum ≤
      (cells.map fun p => p.x * p.y).length • (2 ^ 40 : Int) := by
    apply List.sum_le_card_nsmul
    intro product among
    obtain ⟨p, there, rfl⟩ := List.mem_map.mp among
    exact (mul_le_of_near (near p there)).2
  rw [List.length_map, nsmul_eq_mul] at high
  simp only [inWordRange, Bool.and_eq_true, decide_eq_true_eq, Int64.toInt_minValue,
    Int64.toInt_maxValue]
  omega

theorem mem_crossings_iff (shown : ofFrame codes = .ok s) : p ∈ s.crossings ↔ Crosses codes p := by
  rw [crossings, List.mem_filter, Std.ExtTreeSet.mem_toList, isCrossing_iff_crosses shown]
  constructor
  · exact And.right
  · intro crosses
    have there := (has_iff_supports shown).mpr crosses.here
    exact ⟨by simpa [has] using there, crosses⟩

theorem nodup_crossings (s : Scaffold) : s.crossings.Nodup := s.nodup_cells.filter _

theorem alignmentSum_eq (s : Scaffold) :
    s.alignmentSum = ∑ p ∈ s.crossings.toFinset, p.x * p.y :=
  (List.sum_toFinset _ s.nodup_crossings).symm

theorem card_le_alignmentSum (shown : ofFrame codes = .ok s) :
    (s.crossings.toFinset.card : Int) ≤ s.alignmentSum := by
  rw [alignmentSum_eq]
  calc (s.crossings.toFinset.card : Int)
      = ∑ _p ∈ s.crossings.toFinset, 1 := by rw [Finset.sum_const, nsmul_one]
    _ ≤ ∑ p ∈ s.crossings.toFinset, p.x * p.y := by
      apply Finset.sum_le_sum
      intro p among
      have crosses := (mem_crossings_iff shown).mp (List.mem_toFinset.mp among)
      obtain ⟨right, down⟩ := crosses.positive
      exact one_le_mul_of_one_le_of_one_le right down

end Scaffold

open Shipboard.Frame in
/-- The alignment sum of a frame of at most `2 ^ 21` codes is the sum of `x * y` over the cells that
the frame shows as crossings. That is so in whatever order the cells are gone through, and nothing
that is computed on the way leaves the range of words. No crossing is at the edge, so the sum is at
least the number of crossings, and it is zero only where there are none. -/
theorem alignment_exact {codes : List Word} {s : Scaffold} (shown : Scaffold.ofFrame codes = .ok s)
    (short : codes.length ≤ 2 ^ 21) :
    ∃ crossings : Finset Point, (∀ p, p ∈ crossings ↔ Crosses codes p) ∧
      s.crossings.length = crossings.card ∧
      s.alignment = .ok (∑ p ∈ crossings, p.x * p.y) ∧
      (∀ cells : List Point, cells.Perm s.cells.toList →
        Scaffold.alignmentOf (cells.filter s.isCrossing) = .ok (∑ p ∈ crossings, p.x * p.y) ∧
        ∀ front back, cells.filter s.isCrossing = front ++ back →
          inWordRange (front.map fun p => p.x * p.y).sum = true) ∧
      (∀ p ∈ s.cells, p.neighbours? = .ok p.neighbours) ∧
      (∀ p ∈ crossings, inWordRange (p.x * p.y) = true ∧ 1 ≤ p.x ∧ 1 ≤ p.y) ∧
      (crossings.card : Int) ≤ ∑ p ∈ crossings, p.x * p.y ∧
      (∑ p ∈ crossings, p.x * p.y = 0 → crossings = ∅) := by
  have sum := s.alignmentSum_eq
  have count := Scaffold.card_le_alignmentSum shown
  have crosses : ∀ p, p ∈ s.crossings.toFinset ↔ Crosses codes p := by
    intro p
    rw [List.mem_toFinset, Scaffold.mem_crossings_iff shown]
  have near : ∀ p ∈ s.cells, p.Near (2 ^ 21) := by
    intro p there
    exact ((Scaffold.within_of_ofFrame shown).1 p there).mono (by exact_mod_cast short)
  refine ⟨s.crossings.toFinset, crosses, ?card, ?sum, ?orders, ?around, ?each, ?least, ?zero⟩
  case card => rw [List.toFinset_card_of_nodup s.nodup_crossings]
  case sum => rw [Scaffold.alignment_eq_sum shown short, sum]
  case orders =>
    intro cells complete
    obtain ⟨close, few⟩ := Scaffold.near_of_perm shown short complete
    refine ⟨by rw [Scaffold.alignmentOf_perm shown short complete, sum], ?_⟩
    intro front back split
    rw [split] at close few
    apply Scaffold.inWordRange_sum
    · exact fun p among => close p (List.mem_append_left back among)
    · rw [List.length_append] at few
      omega
  case around =>
    intro p there
    exact Scaffold.neighbours?_eq_ok (near p there)
  case each =>
    intro p among
    refine ⟨?_, ((crosses p).mp among).positive⟩
    have there := List.mem_of_mem_filter (List.mem_toFinset.mp among)
    rw [Std.ExtTreeSet.mem_toList] at there
    exact Scaffold.inWordRange_mul (near p there)
  case least => rw [← sum]; exact count
  case zero =>
    intro zero
    rw [sum, zero] at count
    apply Finset.card_eq_zero.mp
    omega

/-- Two crossings, one of them next to the robot, and a row that ends early beside a third cell. -/
def crossedFrame : List Word :=
  [46, 46, 35, 10, 35, 35, 35, 35, 35, 10, 46, 46, 35, 46, 35, 10, 46, 46, 35, 35, 35, 35, 35,
   10, 46, 46, 35, 46, 94, 10]

open Shipboard.Frame in
theorem alignment_exact_crossed :
    ∃ s, Scaffold.ofFrame crossedFrame = .ok s ∧ crossedFrame.length ≤ 2 ^ 21 ∧
      Scaffold.alignmentOf (s.cells.toList.reverse.filter s.isCrossing) = .ok 14 ∧
      ∃ crossings : Finset Point, (∀ p, p ∈ crossings ↔ Crosses crossedFrame p) ∧
        crossings.card = 2 ∧ ∑ p ∈ crossings, p.x * p.y = 14 := by
  have seen : ∃ s, Scaffold.ofFrame crossedFrame = .ok s ∧ s.alignment = .ok 14 ∧
      s.crossings.length = 2 := ⟨_, rfl, by decide +kernel, by decide +kernel⟩
  obtain ⟨s, shown, total, two⟩ := seen
  have short : crossedFrame.length ≤ 2 ^ 21 := by decide
  obtain ⟨crossings, crosses, count, sum, orders, -⟩ := alignment_exact shown short
  rw [total, Except.ok.injEq] at sum
  obtain ⟨backwards, -⟩ := orders _ s.cells.toList.reverse_perm
  rw [← sum] at backwards
  exact ⟨s, shown, short, backwards, crossings, crosses, count.symm.trans two, sum.symm⟩

end Shipboard
