import Mathlib.Algebra.Group.Nat.Defs
import Mathlib.Data.Finset.Card
import Mathlib.Data.List.Induction
import Shipboard.Painter.Robot
import Shipboard.Proofs.Core.Failing

/-!
The painting robot after any strokes. Those with a wrong colour or a wrong turn leave no trace. Of
the others, the turns give the way, the way gives the panels, and the last colour on a panel stays.
-/

namespace Shipboard

theorem Hull.getElem?_paint (h : Hull) (p q : Point) (c : Color) :
    (h.insert p c)[q]? = if q = p then some c else h[q]? := by
  by_cases here : q = p
  · simp [here]
  · have apart : ¬ compare p q = .eq := by
      rw [Std.LawfulEqOrd.compare_eq_iff_eq]
      exact Ne.symm here
    simp [Std.ExtTreeMap.getElem?_insert, here, apart]

/-- What the robot is told, whatever the words are. -/
structure Stroke where
  paint : Word
  turn : Word
  deriving DecidableEq, Repr

namespace Stroke

variable {s : Stroke} {ss : List Stroke} {p : Point}

/-- Zero and one are the words that mean a colour, and they are those that mean a turn. -/
def Meant (v : Word) : Prop := v = 0 ∨ v = 1

instance : DecidablePred Meant := fun v => inferInstanceAs (Decidable (v = 0 ∨ v = 1))

def Accepted (s : Stroke) : Prop := Meant s.paint ∧ Meant s.turn

instance : DecidablePred Accepted := fun s => inferInstanceAs (Decidable (Meant s.paint ∧ _))

def verdict (s : Stroke) : Except ControllerError Unit :=
  if ¬ Meant s.paint then .error (.unexpected .colour s.paint)
  else if ¬ Meant s.turn then .error (.unexpected .turn s.turn)
  else .ok ()

def color (s : Stroke) : Color := if s.paint = 0 then .black else .white

def turning (f : Facing) (s : Stroke) : Facing := if s.turn = 0 then f.turnLeft else f.turnRight

def accepted (ss : List Stroke) : List Stroke := ss.filter Accepted

theorem verdict_of_accepted (accepted : s.Accepted) : s.verdict = .ok () := by
  simp [verdict, accepted.1, accepted.2]

theorem ofWord_paint (meant : Meant s.paint) : Color.ofWord s.paint = .ok s.color := by
  rcases meant with zero | one
  · simp [Color.ofWord, color, zero]
  · simp [Color.ofWord, color, one]

theorem turned_turn (r : Robot) (meant : Meant s.turn) :
    r.turned s.turn = .ok (turning r.facing s) := by
  rcases meant with zero | one
  · simp [Robot.turned, turning, zero]
  · simp [Robot.turned, turning, one]

theorem ofWord_of_refused (refused : ¬ Meant s.paint) :
    Color.ofWord s.paint = .error (.unexpected .colour s.paint) := by
  rw [Meant, not_or] at refused
  rw [Color.ofWord, if_neg refused.1, if_neg refused.2]

theorem turned_of_refused (r : Robot) (refused : ¬ Meant s.turn) :
    r.turned s.turn = .error (.unexpected .turn s.turn) := by
  rw [Meant, not_or] at refused
  rw [Robot.turned, if_neg refused.1, if_neg refused.2]

theorem verdict_of_colour (refused : ¬ Meant s.paint) :
    s.verdict = .error (.unexpected .colour s.paint) := by
  rw [verdict, if_pos refused]

theorem verdict_of_turn (colour : Meant s.paint) (refused : ¬ Meant s.turn) :
    s.verdict = .error (.unexpected .turn s.turn) := by
  rw [verdict, if_neg (not_not.mpr colour), if_pos refused]

theorem verdict_of_refused (refused : ¬ s.Accepted) : ∃ e, s.verdict = .error e := by
  by_cases colour : Meant s.paint
  · have turn : ¬ Meant s.turn := fun turn => refused ⟨colour, turn⟩
    exact ⟨_, verdict_of_turn colour turn⟩
  · exact ⟨_, verdict_of_colour colour⟩

theorem verdict_eq_ok_iff : s.verdict = .ok () ↔ s.Accepted := by
  constructor
  · intro verdict
    by_contra refused
    obtain ⟨e, other⟩ := verdict_of_refused refused
    rw [verdict] at other
    cases other
  · exact verdict_of_accepted

def heading (ss : List Stroke) : Facing := ss.foldl turning .up

def headings (ss : List Stroke) : List Facing :=
  (List.range ss.length).map fun k => heading (ss.take (k + 1))

/-- The sum of the steps that are made, one after each turn. -/
def place (ss : List Stroke) : Point := ((headings ss).map Facing.delta).foldl (· + ·) .origin

/-- The panel and the colour of each stroke: it is made where the strokes before it have led. -/
def marks (ss : List Stroke) : List (Point × Color) :=
  ss.zipIdx.map fun (s, k) => (place (ss.take k), s.color)

def panels (ss : List Stroke) : List Point := (marks ss).map Prod.fst

def ground (start : Color) (p : Point) : Color := if p = .origin then start else .black

def lastColor? (ss : List Stroke) (p : Point) : Option Color := (marks ss).reverse.lookup p

theorem heading_snoc (ss : List Stroke) (s : Stroke) :
    heading (ss ++ [s]) = turning (heading ss) s := by
  simp [heading]

theorem headings_snoc (ss : List Stroke) (s : Stroke) :
    headings (ss ++ [s]) = headings ss ++ [heading (ss ++ [s])] := by
  have before : ∀ k ∈ List.range ss.length,
      heading ((ss ++ [s]).take (k + 1)) = heading (ss.take (k + 1)) := by
    intro k below
    rw [List.take_append_of_le_length (Nat.succ_le_of_lt (List.mem_range.mp below))]
  rw [headings, List.length_append, List.length_singleton, List.range_succ, List.map_append,
    List.map_congr_left before, List.map_singleton, List.take_of_length_le (by simp)]
  rfl

theorem place_snoc (ss : List Stroke) (s : Stroke) :
    place (ss ++ [s]) = place ss + (heading (ss ++ [s])).delta := by
  simp [place, headings_snoc]

theorem marks_snoc (ss : List Stroke) (s : Stroke) :
    marks (ss ++ [s]) = marks ss ++ [(place ss, s.color)] := by
  have before : ∀ m ∈ ss.zipIdx,
      (place ((ss ++ [s]).take m.2), m.1.color) = (place (ss.take m.2), m.1.color) := by
    intro m among
    have below := List.snd_lt_of_mem_zipIdx among
    rw [List.take_append_of_le_length (by omega)]
  rw [marks, List.zipIdx_append, List.map_append, List.map_congr_left before]
  simp [marks]

theorem panels_snoc (ss : List Stroke) (s : Stroke) :
    panels (ss ++ [s]) = panels ss ++ [place ss] := by
  simp [panels, marks_snoc]

theorem lastColor?_snoc (ss : List Stroke) (s : Stroke) (p : Point) :
    lastColor? (ss ++ [s]) p = if p = place ss then some s.color else lastColor? ss p := by
  simp only [lastColor?, marks_snoc, List.reverse_append, List.reverse_singleton,
    List.singleton_append, List.lookup_cons]
  by_cases here : p = place ss
  · simp [here]
  · simp [here, beq_false_of_ne here]

theorem mem_panels_iff : p ∈ panels ss ↔ (lastColor? ss p).isSome = true := by
  induction ss using List.reverseRecOn with
  | nil => simp [panels, marks, lastColor?]
  | append_singleton ss s ih =>
      rw [panels_snoc, lastColor?_snoc, List.mem_append, List.mem_singleton, ih]
      split <;> simp_all

theorem distance_place_le (ss : List Stroke) :
    (place ss).x.natAbs + (place ss).y.natAbs ≤ ss.length := by
  induction ss using List.reverseRecOn with
  | nil => simp [place, headings, Point.origin]
  | append_singleton ss s ih =>
      rw [place_snoc, Point.add_def, List.length_append, List.length_singleton]
      cases heading (ss ++ [s]) <;> simp only [Facing.delta] <;> omega

theorem parity_place (ss : List Stroke) :
    ((place ss).x + (place ss).y) % 2 = (ss.length : Int) % 2 := by
  induction ss using List.reverseRecOn with
  | nil => simp [place, headings, Point.origin]
  | append_singleton ss s ih =>
      rw [place_snoc, Point.add_def, List.length_append, List.length_singleton]
      cases heading (ss ++ [s]) <;> simp only [Facing.delta] <;> omega

theorem inRange_place (few : ss.length < 2 ^ 63) : (place ss).inRange = true := by
  have near := distance_place_le ss
  simp only [Point.inRange, inWordRange, Bool.and_eq_true, decide_eq_true_eq, Int64.toInt_minValue,
    Int64.toInt_maxValue]
  omega

end Stroke

namespace Robot

open Stroke

variable {r : Robot} {s : Stroke} {ss : List Stroke}

def attempt (r : Robot) (s : Stroke) : Robot := (r.apply s.paint s.turn).toOption.getD r

def after (start : Color) (ss : List Stroke) : Robot := ss.foldl attempt (startingOn start)

def panel (r : Robot) (p : Point) : Color := (r.hull[p]?).getD .black

/-- A stroke made on the robot itself, one part after the other: a refusal undoes nothing, and the
next cell has to be in range. -/
def carryOut (s : Stroke) : ExceptT ControllerError (StateM Robot) Unit := do
  let color ← (Color.ofWord s.paint : Except _ _)
  let facing ← (← get).turned s.turn
  modify fun r => { r with hull := r.hull.insert r.position color }
  modify fun r => { r with facing }
  let r ← get
  let position ← (r.position.add? r.facing.delta).mapError ControllerError.trap
  set { r with position }

def make (r : Robot) (s : Stroke) : Robot :=
  { position := r.position + (turning r.facing s).delta
    facing := turning r.facing s
    hull := r.hull.insert r.position s.color }

theorem apply_eq (r : Robot) (s : Stroke) :
    r.apply s.paint s.turn = s.verdict.map fun _ => r.make s := by
  by_cases colour : Meant s.paint
  · by_cases turn : Meant s.turn
    · rw [apply, ofWord_paint colour, verdict_of_accepted ⟨colour, turn⟩]
      dsimp only [bind, Except.bind]
      rw [turned_turn r turn]
      rfl
    · rw [apply, ofWord_paint colour, verdict_of_turn colour turn]
      dsimp only [bind, Except.bind]
      rw [turned_of_refused r turn]
      rfl
  · rw [apply, ofWord_of_refused colour, verdict_of_colour colour]
    rfl

theorem attempt_of_accepted (r : Robot) (accepted : s.Accepted) : r.attempt s = r.make s := by
  rw [attempt, apply_eq, verdict_of_accepted accepted]
  rfl

theorem attempt_of_refused (r : Robot) (refused : ¬ s.Accepted) : r.attempt s = r := by
  obtain ⟨e, verdict⟩ := verdict_of_refused refused
  rw [attempt, apply_eq, verdict]
  rfl

/-- If the cell that it leads to is in range, a stroke is carried out as a whole or not at all. -/
theorem carryOut_run (room : s.Accepted → (r.make s).position.inRange = true) :
    (carryOut s).run.run r = (s.verdict, r.attempt s) := by
  -- Both checks, of the colour and of the turn, come before the first change.
  rw [attempt, apply_eq, carryOut, run_check]
  by_cases colour : Meant s.paint
  · rw [ofWord_paint colour]
    dsimp only
    rw [run_get, run_check]
    by_cases turn : Meant s.turn
    · have step : r.position.add? (turning r.facing s).delta = .ok (r.make s).position := by
        rw [Point.add?]
        exact if_pos (room ⟨colour, turn⟩)
      rw [turned_turn r turn, verdict_of_accepted ⟨colour, turn⟩]
      dsimp only
      rw [run_modify, run_modify, run_get, run_check, step]
      rfl
    · rw [turned_of_refused r turn, verdict_of_turn colour turn]
      rfl
  · rw [ofWord_of_refused colour, verdict_of_colour colour]
    rfl

theorem after_snoc (start : Color) (ss : List Stroke) (s : Stroke) :
    after start (ss ++ [s]) = (after start ss).attempt s := by
  simp [after]

theorem after_accepted (start : Color) (ss : List Stroke) :
    after start ss = (accepted ss).foldl make (startingOn start) := by
  have attempted : attempt = fun r s => if decide s.Accepted = true then r.make s else r := by
    funext r s
    by_cases accepted : s.Accepted
    · simp [accepted, attempt_of_accepted r accepted]
    · simp [accepted, attempt_of_refused r accepted]
  rw [accepted, List.foldl_filter, after, attempted]

theorem facing_make (start : Color) (ss : List Stroke) :
    (ss.foldl make (startingOn start)).facing = heading ss := by
  induction ss using List.reverseRecOn with
  | nil => cases start <;> rfl
  | append_singleton ss s ih =>
      rw [List.foldl_concat, heading_snoc, ← ih]
      rfl

theorem position_make (start : Color) (ss : List Stroke) :
    (ss.foldl make (startingOn start)).position = place ss := by
  induction ss using List.reverseRecOn with
  | nil => cases start <;> rfl
  | append_singleton ss s ih =>
      rw [List.foldl_concat, place_snoc, heading_snoc, ← facing_make start, ← ih]
      rfl

theorem hull_startingOn (start : Color) (p : Point) :
    (startingOn start).hull[p]? = if start = .white ∧ p = .origin then some .white else none := by
  cases start with
  | black => simp [startingOn]
  | white => simp [startingOn, Hull.getElem?_paint]

theorem hull_make (start : Color) (ss : List Stroke) (p : Point) :
    (ss.foldl make (startingOn start)).hull[p]? =
      (lastColor? ss p).or (startingOn start).hull[p]? := by
  induction ss using List.reverseRecOn with
  | nil => rfl
  | append_singleton ss s ih =>
      rw [List.foldl_concat, lastColor?_snoc, make, Hull.getElem?_paint, position_make, ih]
      split
      · rw [Option.some_or]
      · rfl

theorem panel_after (start : Color) (ss : List Stroke) (p : Point) :
    (after start ss).panel p = (lastColor? (accepted ss) p).getD (ground start p) := by
  rw [panel, after_accepted, hull_make, hull_startingOn, ground]
  cases lastColor? (accepted ss) p with
  | some c => rfl
  | none => cases start <;> by_cases p = .origin <;> simp_all

theorem mem_hull_after (start : Color) (ss : List Stroke) (p : Point) :
    p ∈ (after start ss).hull ↔
      p ∈ panels (accepted ss) ∨ start = .white ∧ p = .origin := by
  rw [Std.ExtTreeMap.mem_iff_isSome_getElem?, after_accepted, hull_make, hull_startingOn,
    mem_panels_iff]
  cases lastColor? (accepted ss) p <;> simp

theorem painted_after (start : Color) (ss : List Stroke) :
    (after start ss).painted = (panels (accepted ss)).toFinset.card +
      if start = .white ∧ .origin ∉ panels (accepted ss) then 1 else 0 := by
  have distinct : (after start ss).hull.keys.Nodup := Std.ExtTreeMap.nodup_keys
  have count : (after start ss).painted = (after start ss).hull.keys.toFinset.card := by
    rw [List.toFinset_card_of_nodup distinct, painted, Std.ExtTreeMap.length_keys]
  rw [count]
  -- The start is painted without a stroke only if it is white.
  split
  · rename_i fresh
    have same : (after start ss).hull.keys.toFinset =
        insert .origin (panels (accepted ss)).toFinset := by
      ext p
      simp [mem_hull_after, fresh.1, or_comm]
    rw [same, Finset.card_insert_of_notMem (by simpa using fresh.2)]
  · rename_i known
    have same : (after start ss).hull.keys.toFinset = (panels (accepted ss)).toFinset := by
      ext p
      rw [List.mem_toFinset, Std.ExtTreeMap.mem_keys, mem_hull_after, List.mem_toFinset]
      constructor
      · intro there
        rcases there with there | ⟨white, rfl⟩
        · exact there
        · by_contra fresh
          exact known ⟨white, fresh⟩
      · exact .inl
    rw [same, Nat.add_zero]

theorem position_after (start : Color) (ss : List Stroke) :
    (after start ss).position = place (accepted ss) := by
  rw [after_accepted, position_make]

theorem facing_after (start : Color) (ss : List Stroke) :
    (after start ss).facing = heading (accepted ss) := by
  rw [after_accepted, facing_make]

theorem inRange_after (start : Color) (few : ss.length < 2 ^ 63) :
    (after start ss).position.inRange = true := by
  rw [position_after]
  exact inRange_place (Nat.lt_of_le_of_lt (List.length_filter_le _ _) few)

/-- Of fewer than `2 ^ 63` strokes that a robot is told, exactly those with a meaningless colour or
a meaningless turn are refused, the colour first, and they leave the robot as it was. No step leaves
the range of words. The accepted ones alone decide the rest: the robot is where the steps after
their turns lead, no further away than there are such strokes and on a cell of the same parity; a
panel has the last colour painted on it, else that of the start; and the painted panels are those
where strokes were made, and the origin if the start was white. -/
theorem strokes_determine_robot (start : Color) (ss : List Stroke) (few : ss.length < 2 ^ 63) :
    (∀ front s back, ss = front ++ s :: back →
      (s.verdict = .ok () ↔ s.Accepted) ∧
      (after start front).apply s.paint s.turn =
        s.verdict.map (fun _ => after start (front ++ [s])) ∧
      (carryOut s).run.run (after start front) = (s.verdict, after start (front ++ [s])) ∧
      (¬ s.Accepted → after start (front ++ [s]) = after start front)) ∧
    (after start ss).facing = heading (accepted ss) ∧
    (after start ss).position = place (accepted ss) ∧
    (place (accepted ss)).x.natAbs + (place (accepted ss)).y.natAbs ≤ (accepted ss).length ∧
    ((place (accepted ss)).x + (place (accepted ss)).y) % 2 = ((accepted ss).length : Int) % 2 ∧
    (after start ss).position.inRange = true ∧
    (∀ p, (after start ss).panel p = (lastColor? (accepted ss) p).getD (ground start p)) ∧
    (after start ss).color = (after start ss).panel (place (accepted ss)) ∧
    (after start ss).painted = (panels (accepted ss)).toFinset.card +
      if start = .white ∧ .origin ∉ panels (accepted ss) then 1 else 0 := by
  refine ⟨?told, facing_after start ss, position_after start ss, distance_place_le _,
    parity_place _, inRange_after start few, panel_after start ss, ?seen, painted_after start ss⟩
  case seen => rw [← position_after, color, panel]
  case told =>
    intro front s back split
    have shorter : (front ++ [s]).length < 2 ^ 63 := by
      rw [split, List.length_append, List.length_cons] at few
      rw [List.length_append, List.length_singleton]
      omega
    have room : s.Accepted → ((after start front).make s).position.inRange = true := by
      intro accepted
      rw [← attempt_of_accepted _ accepted, ← after_snoc]
      exact inRange_after start shorter
    have refused : ¬ s.Accepted → after start (front ++ [s]) = after start front := by
      intro refused
      rw [after_snoc, attempt_of_refused _ refused]
    refine ⟨verdict_eq_ok_iff, ?_, ?_, refused⟩
    · rw [apply_eq, after_snoc]
      by_cases accepted : s.Accepted
      · rw [attempt_of_accepted _ accepted]
      · obtain ⟨e, verdict⟩ := verdict_of_refused accepted
        rw [verdict]
        rfl
    · rw [after_snoc]
      exact carryOut_run room

def loopAndNonsense : List Stroke :=
  [⟨1, 0⟩, ⟨2, 7⟩, ⟨0, 0⟩, ⟨1, 0⟩, ⟨1, 0⟩, ⟨1, -1⟩, ⟨0, 1⟩, ⟨1, 0⟩, ⟨1, 0⟩]

theorem strokes_determine_robot_loopAndNonsense :
    loopAndNonsense.length < 2 ^ 63 ∧
      (carryOut ⟨2, 7⟩).run.run (after .white [⟨1, 0⟩]) =
        (.error (.unexpected .colour 2), after .white [⟨1, 0⟩]) ∧
      (after .white loopAndNonsense).position = ⟨0, -1⟩ ∧
      (after .white loopAndNonsense).facing = .left ∧
      (after .white loopAndNonsense).panel .origin = .black ∧
      (after .white loopAndNonsense).panel ⟨1, 0⟩ = .white ∧
      (after .white loopAndNonsense).painted = 6 := by
  have few : loopAndNonsense.length < 2 ^ 63 := by decide
  obtain ⟨told, facing, position, -, -, -, panel, -, painted⟩ :=
    strokes_determine_robot .white loopAndNonsense few
  obtain ⟨-, -, refused, same⟩ := told [⟨1, 0⟩] ⟨2, 7⟩ _ rfl
  rw [same (by decide)] at refused
  refine ⟨few, refused, ?_, ?_, ?_, ?_, ?_⟩
  · rw [position]
    decide
  · rw [facing]
    decide
  · rw [panel]
    decide
  · rw [panel]
    decide
  · rw [painted]
    decide

end Robot
end Shipboard
