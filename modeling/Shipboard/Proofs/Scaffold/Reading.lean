import Shipboard.Proofs.Scaffold.Soundness
import Shipboard.Proofs.Text.Pieces

/-!
Lines as the robot reads them. It takes each call on the first line for the line that has that
name, and each field of such a line for a command; so the lines that are written for routines lead
it along the route of the routines.
-/

namespace Shipboard

/-- A command as the robot reads it: a turn, or the decimal number of steps. -/
def Command.read? (text : List Char) : Option Command :=
  if text = ['L'] then some .left
  else if text = ['R'] then some .right
  else do
    let n ← Text.readNat? text
    if n < UInt32.size then some (.forward (.ofNat n)) else none

def Route.read? (line : List Char) : Option Route := (Text.fields line).mapM Command.read?

def Routines.called? (functions : List (List Char)) (name : List Char) : Option (List Char) :=
  if name = ['A'] then functions[0]?
  else if name = ['B'] then functions[1]?
  else if name = ['C'] then functions[2]?
  else none

def Routines.read? : List (List Char) → Option Route
  | [] => none
  | main :: functions => do
      let called ← (Text.fields main).mapM (called? functions)
      let routes ← called.mapM Route.read?
      return routes.flatten

def Routines.isPlain (c : Char) : Bool := c ∈ ['A', 'B', 'C', 'L', 'R', ','] || c.isDigit

theorem mapM_map_of_each {α β γ : Type} {f : β → Option γ} {g : α → β} {h : α → γ} {xs : List α}
    (each : ∀ a ∈ xs, f (g a) = some (h a)) : (xs.map g).mapM f = some (xs.map h) := by
  induction xs with
  | nil => rfl
  | cons a xs ih =>
      have others := ih fun b later => each b (List.mem_cons_of_mem a later)
      rw [List.map_cons, List.mapM_cons, each a List.mem_cons_self, others]
      rfl

namespace Command

theorem isPlain_of_mem_text {command : Command} {c : Char} (among : c ∈ command.text) :
    Routines.isPlain c = true ∧ c ≠ ',' := by
  cases command with
  | left =>
      rw [List.mem_singleton.mp among]
      decide
  | right =>
      rw [List.mem_singleton.mp among]
      decide
  | forward n =>
      have digit := Text.isDigit_of_mem_digits among
      refine ⟨by rw [Routines.isPlain, digit, Bool.or_true], ?_⟩
      rintro rfl
      cases digit

theorem text_ne_nil (command : Command) : command.text ≠ [] :=
  List.ne_nil_of_length_pos command.length_text_pos

theorem read?_text (command : Command) : read? command.text = some command := by
  cases command with
  | left => rfl
  | right => rfl
  | forward n =>
      have number : ∀ c : Char, c.isDigit = false → Text.digits n.toNat ≠ [c] := by
        intro c other same
        have digit : c.isDigit = true := by
          apply Text.isDigit_of_mem_digits (n := n.toNat)
          rw [same]
          exact List.mem_singleton_self c
        rw [other] at digit
        cases digit
      rw [read?, text, if_neg (number 'L' rfl), if_neg (number 'R' rfl), Text.readNat?_digits]
      simp [UInt32.toNat_lt_size]

end Command

namespace Route

theorem fields_line (r : Route) : Text.fields r.line = r.map Command.text := by
  apply Text.fields_intercalate
  intro text among
  obtain ⟨command, -, rfl⟩ := List.mem_map.mp among
  refine ⟨command.text_ne_nil, ?_⟩
  intro comma
  exact (Command.isPlain_of_mem_text comma).2 rfl

theorem read?_line (r : Route) : read? r.line = some r := by
  have each : ∀ command ∈ r, Command.read? command.text = some (id command) := fun command _ =>
    command.read?_text
  rw [read?, fields_line, mapM_map_of_each each, List.map_id]

theorem isPlain_of_mem_line {r : Route} {c : Char} (among : c ∈ r.line) :
    Routines.isPlain c = true := by
  rcases Text.mem_intercalate among with rfl | ⟨text, there, inside⟩
  · decide
  · obtain ⟨command, -, rfl⟩ := List.mem_map.mp there
    exact (Command.isPlain_of_mem_text inside).1

end Route

namespace Routines

variable {r : Routines} {i : Nat} {c : Char} {line : List Char}

theorem nameOf_cases (named : i < 3) :
    (i = 0 ∧ nameOf i = 'A') ∨ (i = 1 ∧ nameOf i = 'B') ∨ (i = 2 ∧ nameOf i = 'C') := by
  match i, named with
  | 0, _ => exact .inl ⟨rfl, rfl⟩
  | 1, _ => exact .inr (.inl ⟨rfl, rfl⟩)
  | 2, _ => exact .inr (.inr ⟨rfl, rfl⟩)

theorem called?_nameOf (lines : List (List Char)) (named : i < 3) :
    called? lines [nameOf i] = lines[i]? := by
  rcases nameOf_cases named with ⟨rfl, -⟩ | ⟨rfl, -⟩ | ⟨rfl, -⟩ <;> rfl

theorem isPlain_nameOf (named : i < 3) : isPlain (nameOf i) = true ∧ nameOf i ≠ ',' := by
  rcases nameOf_cases named with ⟨-, name⟩ | ⟨-, name⟩ | ⟨-, name⟩ <;> rw [name] <;> decide

/-- The function that a call makes; a call of a function that is missing makes nothing. -/
def callee (r : Routines) (i : Nat) : Route := r.functions[i]?.getD []

theorem getElem?_functions (here : i < r.functions.length) :
    r.functions[i]? = some (r.callee i) := by
  rw [callee, List.getElem?_eq_getElem here]
  rfl

theorem expand_eq (inside : ∀ i ∈ r.main, i < r.functions.length) :
    r.expand = .ok (r.main.map r.callee).flatten := by
  have found : ∀ i ∈ r.main, r.functions[i]? = some (r.callee i) := fun i called =>
    getElem?_functions (inside i called)
  rw [expand, mapM_lookUp found]
  rfl

theorem named_of_inside (few : r.functions.length ≤ 3)
    (inside : ∀ i ∈ r.main, i < r.functions.length) : ∀ i ∈ r.main, i < 3 := by
  intro i called
  exact Nat.lt_of_lt_of_le (inside i called) few

/-- The robot goes the route if it finds the lines of the functions that are called. -/
theorem read?_eq {lines : List (List Char)} (few : r.functions.length ≤ 3)
    (inside : ∀ i ∈ r.main, i < r.functions.length)
    (written : ∀ i < r.functions.length, lines[i]? = some (r.callee i).line) :
    read? (r.mainText :: lines) = some (r.main.map r.callee).flatten := by
  have named := named_of_inside few inside
  -- The names on the first line are single letters, so the commas are where the fields part.
  have names : Text.fields r.mainText = r.main.map fun i => [nameOf i] := by
    apply Text.fields_intercalate
    intro name among
    obtain ⟨i, called, rfl⟩ := List.mem_map.mp among
    have other := (isPlain_nameOf (named i called)).2
    exact ⟨List.cons_ne_nil _ _, by simpa using other.symm⟩
  have calls : ∀ i ∈ r.main, called? lines [nameOf i] = some (r.callee i).line := by
    intro i called
    rw [called?_nameOf lines (named i called)]
    exact written i (inside i called)
  have routes : ∀ i ∈ r.main, Route.read? (r.callee i).line = some (r.callee i) := fun i _ =>
    Route.read?_line (r.callee i)
  rw [read?, names, mapM_map_of_each calls]
  simp only [Option.bind_eq_bind, Option.bind_some, mapM_map_of_each routes]
  rfl

def functionLines (r : Routines) : List (List Char) :=
  [r.functionLine 0, r.functionLine 1, r.functionLine 2]

theorem lines_eq (named : ∀ i ∈ r.main, i < 3) :
    r.lines = .ok (r.mainText :: r.functionLines) := by
  rw [lines, mainLine_eq named]
  rfl

theorem getElem?_functionLines (named : i < 3) :
    r.functionLines[i]? = some (r.functionLine i) := by
  match i, named with
  | 0, _ => rfl
  | 1, _ => rfl
  | 2, _ => rfl

theorem functionLine_of_lt (here : i < r.functions.length) :
    r.functionLine i = (r.callee i).line := by
  rw [functionLine, getElem?_functions here]
  rfl

theorem functionLine_of_ge (missing : r.functions.length ≤ i) :
    r.functionLine i = r.functionLine 0 := by
  rw [functionLine, functionLine, List.getElem?_eq_none missing, Option.none_or,
    List.head?_eq_getElem?, Option.or_self]

theorem read?_take_append (few : r.functions.length ≤ 3)
    (inside : ∀ i ∈ r.main, i < r.functions.length) (others : List (List Char)) :
    read? ((r.mainText :: r.functionLines).take (r.functions.length + 1) ++ others) =
      some (r.main.map r.callee).flatten := by
  rw [List.take_succ_cons, List.cons_append]
  apply read?_eq few inside
  intro i here
  have known : i < (r.functionLines.take r.functions.length).length := by
    rw [List.length_take]
    exact Nat.lt_min.mpr ⟨here, Nat.lt_of_lt_of_le here few⟩
  rw [List.getElem?_append_left known, List.getElem?_take, if_pos here,
    getElem?_functionLines (Nat.lt_of_lt_of_le here few), functionLine_of_lt here]

theorem read?_lines (few : r.functions.length ≤ 3)
    (inside : ∀ i ∈ r.main, i < r.functions.length) :
    read? (r.mainText :: r.functionLines) = some (r.main.map r.callee).flatten := by
  have whole := read?_take_append few inside
    ((r.mainText :: r.functionLines).drop (r.functions.length + 1))
  rw [List.take_append_drop] at whole
  exact whole

theorem isPlain_of_mem_mainText (named : ∀ i ∈ r.main, i < 3) (among : c ∈ r.mainText) :
    isPlain c = true := by
  rcases Text.mem_intercalate among with rfl | ⟨name, there, inside⟩
  · decide
  · obtain ⟨i, called, rfl⟩ := List.mem_map.mp there
    rw [List.mem_singleton.mp inside]
    exact (isPlain_nameOf (named i called)).1

theorem isPlain_of_mem_functionLines (some_function : r.functions ≠ [])
    (among : line ∈ r.functionLines) (inside : c ∈ line) : isPlain c = true := by
  have written : ∃ i, line = r.functionLine i := by
    simp only [functionLines, List.mem_cons, List.not_mem_nil, or_false] at among
    rcases among with rfl | rfl | rfl <;> exact ⟨_, rfl⟩
  obtain ⟨i, rfl⟩ := written
  obtain ⟨f, -, same⟩ := functionLine_cases some_function i
  rw [same] at inside
  exact Route.isPlain_of_mem_line inside

theorem low_of_isPlain {c : Char} (plain : isPlain c = true) : c.toNat < 128 ∧ c ≠ '\n' := by
  rw [isPlain, Bool.or_eq_true, decide_eq_true_eq] at plain
  rcases plain with letter | digit
  · simp only [List.mem_cons, List.not_mem_nil, or_false] at letter
    rcases letter with rfl | rfl | rfl | rfl | rfl | rfl <;> decide
  · constructor
    · simp only [Char.isDigit, Bool.and_eq_true, decide_eq_true_eq] at digit
      have top : c.val.toNat ≤ 57 := digit.2
      exact Nat.lt_of_le_of_lt top (by decide)
    · rintro rfl
      cases digit

end Routines

/-- The four lines written for routines consist of plain characters, so that newlines keep them
apart, and the robot reads from them the route of the routines, whatever stands in place of the
lines of functions that are missing, where the first function's line is repeated. So routes with
the same line are the same, and routines found for a route lead the robot along it. -/
theorem lines_lead_along_route :
    (∀ r : Routines, 1 ≤ r.functions.length → r.functions.length ≤ 3 →
      (∀ i ∈ r.main, i < r.functions.length) →
      ∃ lines route, r.lines = .ok lines ∧ r.expand = .ok route ∧
        Routines.read? lines = some route ∧ lines.length = 4 ∧
        (∀ line ∈ lines, ∀ c ∈ line, Routines.isPlain c = true) ∧
        Text.received (lines.flatMap Text.lineCodes) = lines ∧
        (∀ i, r.functions.length ≤ i → i < 3 → lines[i + 1]? = lines[1]?) ∧
        ∀ others, Routines.read? (lines.take (r.functions.length + 1) ++ others) = some route) ∧
    (∀ r r' : Route, r.line = r'.line → r = r') ∧
    ∀ (r : Route) (routines : Routines), r.compress? = some routines →
      ∃ lines, routines.lines = .ok lines ∧ Routines.read? lines = some r := by
  refine ⟨?sent, ?line, ?found⟩
  case sent =>
    intro r positive few inside
    have named := Routines.named_of_inside few inside
    have some_function : r.functions ≠ [] := List.ne_nil_of_length_pos positive
    have plain : ∀ line ∈ r.mainText :: r.functionLines, ∀ c ∈ line,
        Routines.isPlain c = true := by
      intro line among c
      rcases List.mem_cons.mp among with rfl | function
      · exact Routines.isPlain_of_mem_mainText named
      · exact Routines.isPlain_of_mem_functionLines some_function function
    refine ⟨_, _, Routines.lines_eq named, Routines.expand_eq inside,
      Routines.read?_lines few inside, rfl, plain, ?_, ?_,
      Routines.read?_take_append few inside⟩
    · apply Text.received_lineCodes
      intro line among c inside
      exact Routines.low_of_isPlain (plain line among c inside)
    · intro i missing small
      rw [List.getElem?_cons_succ, List.getElem?_cons_succ, Routines.getElem?_functionLines small,
        Routines.functionLine_of_ge missing, Routines.getElem?_functionLines (by decide)]
  case line =>
    intro r r' same
    have reads := Route.read?_line r
    rw [same, Route.read?_line r'] at reads
    exact (Option.some.inj reads).symm
  case found =>
    intro r routines found
    have proper := Route.proper_of_compress? found
    have inside : ∀ i ∈ routines.main, i < routines.functions.length := fun i =>
      (proper.called i).mp
    have named := Routines.named_of_inside proper.few inside
    have route := (Routines.expand_eq inside).symm.trans (Route.expand_of_compress? found)
    have reads := Routines.read?_lines proper.few inside
    rw [Except.ok.inj route] at reads
    exact ⟨_, Routines.lines_eq named, reads⟩

def twoCalls : Routines := ⟨[1, 0, 0], [[.right, .forward 12], []]⟩

theorem lines_lead_along_route_twoCalls :
    (∃ lines, twoCalls.lines = .ok lines ∧
      lines = ["B,A,A".toList, "R,12".toList, [], "R,12".toList] ∧
      Routines.read? lines = some [.right, .forward 12, .right, .forward 12] ∧
      Routines.read? (lines.take 3 ++ ["?".toList]) =
        some [.right, .forward 12, .right, .forward 12]) ∧
    ∃ routines lines, zigzag.compress? = some routines ∧ routines.lines = .ok lines ∧
      Routines.read? lines = some zigzag := by
  obtain ⟨sent, -, found⟩ := lines_lead_along_route
  constructor
  · obtain ⟨lines, route, written, expands, reads, -, -, -, -, others⟩ :=
      sent twoCalls (by decide) (by decide) (by decide)
    have lines_eq : twoCalls.lines =
        .ok ["B,A,A".toList, "R,12".toList, [], "R,12".toList] := by
      decide +kernel
    have route_eq : twoCalls.expand = .ok [.right, .forward 12, .right, .forward 12] := rfl
    cases written.symm.trans lines_eq
    cases expands.symm.trans route_eq
    exact ⟨_, written, rfl, reads, others _⟩
  · have compressed : zigzag.compress? = some ⟨[0, 1], [zigzag.take 9, zigzag.drop 9]⟩ := by
      decide +kernel
    obtain ⟨lines, written, reads⟩ := found zigzag _ compressed
    exact ⟨_, lines, compressed, written, reads⟩

end Shipboard
