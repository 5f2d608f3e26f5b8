import Shipboard.Proofs.Scaffold.Compression
import Shipboard.Proofs.Scaffold.Lines

/-!
Routines that are found can be sent. Every choice of the search keeps a draft within the limits: at
most three functions, each a piece of the route on a line that fits, and at most ten calls, of
functions that are there and that are called in the order in which they were made.
-/

namespace Shipboard

namespace Draft

variable {r rest behind f : Route} {d d' d₁ : Draft} {c : Choice} {cs : List Choice} {i : Nat}

structure Proper (r : Route) (d : Draft) : Prop where
  few : d.functions.length ≤ 3
  pieces : ∀ f ∈ d.functions, f ≠ [] ∧ f <:+: r ∧ f.lineLength ≤ Routines.maxLine
  short : d.main.length ≤ 10
  called : ∀ i, i ∈ d.main ↔ i < d.functions.length
  /-- Of two functions that are called the earlier one is called first. -/
  ordered : ∀ i j, i < j → j ∈ d.main → d.main.idxOf i < d.main.idxOf j

theorem proper_nil (r : Route) : Proper r {} :=
  { few := by decide
    pieces := nofun
    short := by decide
    called := by simp
    ordered := nofun }

theorem Proper.call (proper : Proper r d) (inside : i < d.functions.length)
    (room : d.main.length < 10) : Proper r (d.call i) := by
  have known : i ∈ d.main := (proper.called i).mpr inside
  have same : ∀ j, j ∈ (d.call i).main ↔ j ∈ d.main := by
    intro j
    rw [Draft.call, List.mem_append, List.mem_singleton]
    constructor
    · rintro (before | rfl)
      · exact before
      · exact known
    · exact .inl
  refine { few := proper.few, pieces := proper.pieces, short := ?_, called := ?_, ordered := ?_ }
  · rw [Draft.call, List.length_append, List.length_singleton]
    omega
  · intro j
    rw [same]
    exact proper.called j
  · intro j k below later
    rw [same] at later
    have earlier : j ∈ d.main := by
      have bound := (proper.called k).mp later
      exact (proper.called j).mpr (by omega)
    rw [Draft.call, List.idxOf_append_of_mem earlier, List.idxOf_append_of_mem later]
    exact proper.ordered j k below later

theorem Proper.introduce (proper : Proper r d) (few : d.functions.length < 3)
    (room : d.main.length < 10) (nonempty : f ≠ []) (piece : f <:+: r)
    (fits : f.lineLength ≤ Routines.maxLine) : Proper r (d.introduce f) := by
  have fresh : d.functions.length ∉ d.main := by
    intro known
    exact Nat.lt_irrefl _ ((proper.called _).mp known)
  refine { few := ?_, pieces := ?_, short := ?_, called := ?_, ordered := ?_ }
  · rw [Draft.introduce, List.length_append, List.length_singleton]
    omega
  · intro g among
    rcases List.mem_append.mp among with before | new
    · exact proper.pieces g before
    · rw [List.mem_singleton] at new
      subst new
      exact ⟨nonempty, piece, fits⟩
  · rw [Draft.introduce, List.length_append, List.length_singleton]
    omega
  · intro i
    have before := proper.called i
    simp only [Draft.introduce, List.mem_append, List.mem_singleton, List.length_append,
      List.length_singleton, before]
    omega
  · intro i j below later
    rcases List.mem_append.mp later with before | new
    · have bound := (proper.called j).mp before
      have earlier : i ∈ d.main := (proper.called i).mpr (by omega)
      rw [Draft.introduce, List.idxOf_append_of_mem earlier, List.idxOf_append_of_mem before]
      exact proper.ordered i j below before
    · rw [List.mem_singleton] at new
      subst new
      have earlier : i ∈ d.main := (proper.called i).mpr below
      rw [Draft.introduce, List.idxOf_append_of_mem earlier, List.idxOf_append_of_notMem fresh]
      exact Nat.lt_add_right _ (List.idxOf_lt_length_of_mem earlier)

theorem Proper.of_makes (proper : Proper r d) (room : d.isFull = false) (part : rest <:+ r)
    (makes : Makes d rest c d₁ behind) : Proper r d₁ ∧ behind <:+ r := by
  have short := isFull_eq_false_iff.mp room
  cases makes with
  | @call i f behind found front =>
      subst front
      refine ⟨proper.call (List.getElem?_eq_some_iff.mp found).1 short, ?_⟩
      exact (List.suffix_append f behind).trans part
  | @introduce k few fits =>
      obtain ⟨positive, inside, fits⟩ := mem_fitting_iff.mp fits
      have nonempty : rest.take k ≠ [] := by
        intro nothing
        have length := congrArg List.length nothing
        rw [List.length_take, List.length_nil] at length
        omega
      have piece : rest.take k <:+: r := (List.take_prefix k rest).isInfix.trans part.isInfix
      exact ⟨proper.introduce few short nonempty piece fits, (List.drop_suffix k rest).trans part⟩

theorem Proper.of_leads (leads : Leads d rest cs d') (proper : Proper r d) (part : rest <:+ r) :
    Proper r d' := by
  induction leads with
  | done d => exact proper
  | choose left room first later ih =>
      obtain ⟨next, part'⟩ := proper.of_makes room part first
      exact ih next part'

end Draft

theorem Route.proper_of_compress? {r : Route} {routines : Routines}
    (found : r.compress? = some routines) :
    Draft.Proper r ⟨routines.functions, routines.main⟩ := by
  obtain ⟨cs, leads⟩ := leads_of_compress? found
  exact .of_leads leads (Draft.proper_nil r) List.suffix_rfl

theorem Route.ne_nil_of_compress? {r : Route} {routines : Routines}
    (found : r.compress? = some routines) : r ≠ [] := by
  rintro rfl
  cases found

namespace Routines

theorem main_ne_nil {routines : Routines} {r : Route} (expands : routines.expand = .ok r)
    (nonempty : r ≠ []) : routines.main ≠ [] := by
  intro none
  rw [expand, none] at expands
  cases expands
  exact nonempty rfl

theorem functionLine_cases {routines : Routines} (some_function : routines.functions ≠ [])
    (i : Nat) : ∃ f ∈ routines.functions, routines.functionLine i = f.line := by
  rw [functionLine]
  cases there : routines.functions[i]? with
  | some f => exact ⟨f, List.mem_of_getElem? there, rfl⟩
  | none =>
      cases first : routines.functions.head? with
      | none => exact absurd (List.head?_eq_none_iff.mp first) some_function
      | some f => exact ⟨f, List.mem_of_head? first, rfl⟩

theorem lines_of_compress? {r : Route} {routines : Routines}
    (found : r.compress? = some routines) :
    ∃ lines, routines.lines = .ok lines ∧ lines.length = 4 ∧
      ∀ line ∈ lines, line ≠ [] ∧ line.length ≤ maxLine := by
  have proper := Route.proper_of_compress? found
  have calls : routines.main ≠ [] :=
    main_ne_nil (Route.expand_of_compress? found) (Route.ne_nil_of_compress? found)
  have bounds := fun i => (proper.called i).mp
  have short := proper.short
  have few := proper.few
  dsimp only at bounds short few
  obtain ⟨mainLine, written, length⟩ : ∃ line, routines.mainLine = .ok line ∧
      line.length = 2 * routines.main.length - 1 := by
    refine length_mainLine fun i called => ?_
    exact Nat.lt_of_lt_of_le (bounds i called) few
  have some_function : routines.functions ≠ [] := by
    intro none
    obtain ⟨i, called⟩ := List.exists_mem_of_ne_nil _ calls
    have inside := bounds i called
    rw [none] at inside
    cases inside
  have function : ∀ i, routines.functionLine i ≠ [] ∧
      (routines.functionLine i).length ≤ maxLine := by
    intro i
    obtain ⟨f, among, same⟩ := functionLine_cases some_function i
    obtain ⟨nonempty, -, fits⟩ := proper.pieces f among
    have positive := Route.lineLength_pos nonempty
    rw [← Route.length_line] at fits positive
    rw [same]
    exact ⟨List.ne_nil_of_length_pos positive, fits⟩
  have main : mainLine ≠ [] ∧ mainLine.length ≤ maxLine := by
    have positive := List.length_pos_iff.mpr calls
    rw [← List.length_pos_iff, maxLine]
    omega
  refine ⟨[mainLine, routines.functionLine 0, routines.functionLine 1, routines.functionLine 2],
    ?_, rfl, ?_⟩
  · rw [lines, written]
    rfl
  · simp only [List.mem_cons, List.not_mem_nil, or_false]
    rintro line (rfl | rfl | rfl | rfl)
    · exact main
    · exact function 0
    · exact function 1
    · exact function 2

end Routines

/-- Routines that are found for a route make it again, from at most three pieces of it and at most
ten calls; no function is missing or superfluous, and none is called before an earlier one. All of
it can be looked up and fits on the four lines that the robot accepts. -/
theorem compress?_sound {r : Route} {routines : Routines} (found : r.compress? = some routines) :
    routines.expand = .ok r ∧
    (1 ≤ routines.functions.length ∧ routines.functions.length ≤ 3 ∧
      ∀ f ∈ routines.functions, f ≠ [] ∧ f <:+: r) ∧
    (routines.main ≠ [] ∧ routines.main.length ≤ 10 ∧
      (∀ i ∈ routines.main, i < routines.functions.length) ∧
      (∀ i, i < routines.functions.length → i ∈ routines.main) ∧
      ∀ i j, i < j → j < routines.functions.length →
        routines.main.idxOf i < routines.main.idxOf j) ∧
    (∃ line, routines.mainLine = .ok line) ∧
    ∃ lines, routines.lines = .ok lines ∧ lines.length = 4 ∧
      ∀ line ∈ lines, line ≠ [] ∧ line.length ≤ 20 := by
  have proper := Route.proper_of_compress? found
  have expands := Route.expand_of_compress? found
  have calls := Routines.main_ne_nil expands (Route.ne_nil_of_compress? found)
  obtain ⟨lines, written, count, fit⟩ := Routines.lines_of_compress? found
  refine ⟨expands, ⟨?_, proper.few, ?_⟩, ⟨calls, proper.short, ?_, ?_, ?_⟩, ?_, ?_⟩
  · obtain ⟨i, called⟩ := List.exists_mem_of_ne_nil _ calls
    exact Nat.lt_of_le_of_lt (Nat.zero_le i) ((proper.called i).mp called)
  · intro f among
    obtain ⟨nonempty, piece, -⟩ := proper.pieces f among
    exact ⟨nonempty, piece⟩
  · intro i called
    exact (proper.called i).mp called
  · intro i inside
    exact (proper.called i).mpr inside
  · intro i j below inside
    exact proper.ordered i j below ((proper.called j).mpr inside)
  · obtain ⟨line, main, -⟩ := ok_of_map written
    exact ⟨line, main⟩
  · exact ⟨lines, written, count, fit⟩

def zigzag : Route := (List.replicate 4 [.right, .forward 12, .left, .forward 4]).flatten

/-- Nine of the sixteen commands fill a line; the other seven make a second function. -/
theorem compress?_sound_zigzag :
    ∃ routines : Routines, zigzag.compress? = some routines ∧ routines.main = [0, 1] ∧
      routines.functions = [zigzag.take 9, zigzag.drop 9] ∧ routines.expand = .ok zigzag ∧
      (∀ f ∈ routines.functions, f ≠ [] ∧ f <:+: zigzag) ∧
      routines.main.idxOf 0 < routines.main.idxOf 1 ∧
      ∃ lines, routines.lines = .ok lines ∧ lines.length = 4 ∧
        ∀ line ∈ lines, line ≠ [] ∧ line.length ≤ 20 := by
  have found : zigzag.compress? = some ⟨[0, 1], [zigzag.take 9, zigzag.drop 9]⟩ := by
    decide +kernel
  obtain ⟨expands, ⟨-, -, pieces⟩, ⟨-, -, -, -, ordered⟩, -, lines⟩ := compress?_sound found
  exact ⟨_, found, rfl, rfl, expands, pieces, ordered 0 1 (by decide) (by decide), lines⟩

end Shipboard
