import Mathlib.Algebra.GroupWithZero.Nat
import Mathlib.Data.List.Basic
import Shipboard.Proofs.Core.Failing
import Shipboard.Scaffold.Compression

/-!
The lengths of lines. The length that the search counts is that of the line the robot is sent, and
it grows with every command, so the pieces whose lines fit are exactly the short ones. A main line
has a name for every call and a comma between two of them.
-/

namespace Shipboard

theorem length_intercalate_comma (ls : List (List Char)) :
    ([','].intercalate ls).length = (ls.map List.length).sum + (ls.length - 1) := by
  induction ls with
  | nil => rfl
  | cons l ls ih =>
      cases ls with
      | nil => simp [List.intercalate_singleton]
      | cons l' ls =>
          simp only [List.intercalate_cons_cons, List.length_append, ih, List.map_cons,
            List.sum_cons, List.length_cons, List.length_nil]
          omega

theorem Command.length_text_pos (c : Command) : 0 < c.text.length := by
  cases c with
  | left => decide
  | right => decide
  | forward n => exact Nat.length_toDigits_pos

namespace Route

variable {f g : Route}

theorem lineLength_eq (f : Route) :
    f.lineLength = (f.map fun c => c.text.length).sum + (f.length - 1) := by
  rw [lineLength, List.sum_eq_foldl, List.foldl_map]

theorem length_line (f : Route) : f.line.length = f.lineLength := by
  rw [line, length_intercalate_comma, lineLength_eq, List.map_map, List.length_map]
  rfl

theorem lineLength_pos (nonempty : f ≠ []) : 0 < f.lineLength := by
  cases f with
  | nil => exact absurd rfl nonempty
  | cons c f =>
      have first := c.length_text_pos
      rw [lineLength_eq, List.map_cons, List.sum_cons]
      omega

theorem lineLength_lt_append (f : Route) (nonempty : g ≠ []) :
    f.lineLength < (f ++ g).lineLength := by
  have more := lineLength_pos nonempty
  rw [lineLength_eq] at more
  simp only [lineLength_eq, List.map_append, List.sum_append, List.length_append]
  omega

theorem lineLength_le_append (f g : Route) : f.lineLength ≤ (f ++ g).lineLength := by
  cases g with
  | nil => exact Nat.le_of_eq (congrArg lineLength (List.append_nil f).symm)
  | cons c g => exact Nat.le_of_lt (lineLength_lt_append f (List.cons_ne_nil c g))

theorem lineLength_take_le (f : Route) {j k : Nat} (le : j ≤ k) :
    lineLength (f.take j) ≤ lineLength (f.take k) := by
  obtain ⟨behind, split⟩ := List.take_prefix_take_left le (l := f)
  rw [← split]
  exact lineLength_le_append _ _

end Route

theorem mem_takeWhile_iff {α : Type} {p : α → Bool} {xs : List α}
    (closed : xs.Pairwise fun a b => p b = true → p a = true) {x : α} :
    x ∈ xs.takeWhile p ↔ x ∈ xs ∧ p x = true := by
  induction xs with
  | nil => simp
  | cons a xs ih =>
      obtain ⟨before, closed⟩ := List.pairwise_cons.mp closed
      cases passes : p a with
      | true => grind [List.takeWhile_cons]
      | false => grind [List.takeWhile_cons]

theorem ascending_range_succ (n : Nat) : ((List.range n).map (· + 1)).Pairwise (· < ·) := by
  refine List.Pairwise.map _ ?_ List.pairwise_lt_range
  intro a b below
  omega

theorem Draft.mem_fitting_iff {rest : Route} {k : Nat} :
    k ∈ fitting rest ↔
      0 < k ∧ k ≤ rest.length ∧ Route.lineLength (rest.take k) ≤ Routines.maxLine := by
  have closed : ((List.range rest.length).map (· + 1)).Pairwise fun j k =>
      decide (Route.lineLength (rest.take k) ≤ Routines.maxLine) = true →
        decide (Route.lineLength (rest.take j) ≤ Routines.maxLine) = true := by
    refine (ascending_range_succ rest.length).imp ?_
    intro j k below fits
    rw [decide_eq_true_eq] at fits ⊢
    exact Nat.le_trans (Route.lineLength_take_le rest (Nat.le_of_lt below)) fits
  rw [fitting, mem_takeWhile_iff closed, decide_eq_true_eq, List.mem_map, ← and_assoc]
  refine and_congr_left fun _ => ?_
  constructor
  · rintro ⟨j, inside, rfl⟩
    rw [List.mem_range] at inside
    omega
  · rintro ⟨positive, inside⟩
    refine ⟨k - 1, ?_, ?_⟩
    · rw [List.mem_range]
      omega
    · omega

namespace Routines

theorem mapM_lookUp {α : Type} {xs : List α} {is : List Nat} {entry : Nat → α}
    (found : ∀ i ∈ is, xs[i]? = some (entry i)) : is.mapM (lookUp xs) = .ok (is.map entry) := by
  induction is with
  | nil => rfl
  | cons i is ih =>
      have here : lookUp xs i = .ok (entry i) := by rw [lookUp, found i List.mem_cons_self]
      rw [List.mapM_cons, here, ih fun j later => found j (List.mem_cons_of_mem i later)]
      rfl

/-- The name of a function; of those that have none it is that of the first. -/
def nameOf (i : Nat) : Char := names[i]?.getD 'A'

def mainText (r : Routines) : List Char := [','].intercalate (r.main.map fun i => [nameOf i])

theorem mainLine_eq {r : Routines} (named : ∀ i ∈ r.main, i < names.length) :
    r.mainLine = .ok r.mainText := by
  have found : ∀ i ∈ r.main, names[i]? = some (nameOf i) := by
    intro i called
    rw [nameOf, List.getElem?_eq_getElem (named i called)]
    rfl
  rw [mainLine, mapM_lookUp found, Except.map, List.map_map]
  rfl

theorem length_mainLine {r : Routines} (named : ∀ i ∈ r.main, i < names.length) :
    ∃ line, r.mainLine = .ok line ∧ line.length = 2 * r.main.length - 1 := by
  refine ⟨_, mainLine_eq named, ?_⟩
  have ones : (r.main.map (List.length ∘ fun i => [nameOf i])).sum = r.main.length := by
    simp [Function.comp_def]
  rw [mainText, length_intercalate_comma, List.map_map, List.length_map, ones]
  omega

theorem length_lines {r : Routines} {lines : List (List Char)} (written : r.lines = .ok lines) :
    lines.length = 4 := by
  obtain ⟨main, -, rfl⟩ := ok_of_map written
  rfl

end Routines

end Shipboard
