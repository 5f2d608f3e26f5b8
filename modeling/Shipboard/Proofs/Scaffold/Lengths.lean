import Shipboard.Proofs.Scaffold.Reading

/-!
The lengths that the search goes by, in bytes of the text that is sent. Every character of a line is
one byte, so the length that is counted for a line is its length in bytes, and the search passes
over a piece or a call exactly if its line, or the main line with it, would be too long for the
robot.
-/

namespace Shipboard

namespace Text

variable {line : List Char}

def bytes (line : List Char) : Nat := (String.ofList line).utf8ByteSize

theorem bytes_eq_sum (line : List Char) : bytes line = (line.map Char.utf8Size).sum := by
  simp [bytes, String.utf8ByteSize, String.toByteArray_ofList, List.utf8Encode,
    List.length_flatMap]

theorem length_lineCodes (line : List Char) : (lineCodes line).length = bytes line + 1 := by
  simp [bytes_eq_sum, lineCodes, charCodes, List.length_flatMap]

theorem bytes_of_low (low : ∀ c ∈ line, c.toNat < 128) : bytes line = line.length := by
  have ones : line.map Char.utf8Size = line.map fun _ => 1 := by
    apply List.map_congr_left
    intro c inside
    exact Char.utf8Size_eq_one_iff.mpr (Nat.le_of_lt_succ (low c inside))
  simp [bytes_eq_sum, ones]

end Text

open Text

theorem bytes_of_isPlain {line : List Char} (plain : ∀ c ∈ line, Routines.isPlain c = true) :
    bytes line = line.length :=
  bytes_of_low fun c inside => (Routines.low_of_isPlain (plain c inside)).1

theorem Command.bytes_text (c : Command) : bytes c.text = c.text.length :=
  bytes_of_isPlain fun _ inside => (isPlain_of_mem_text inside).1

theorem Route.bytes_line (r : Route) : bytes r.line = r.lineLength := by
  rw [bytes_of_isPlain fun _ => isPlain_of_mem_line, length_line]

theorem Draft.fitting_front (rest : Route) :
    fitting rest <+: (List.range rest.length).map (· + 1) := List.takeWhile_prefix _

theorem Draft.length_fitting_le (rest : Route) : (fitting rest).length ≤ rest.length := by
  have short := (fitting_front rest).length_le
  rw [List.length_map, List.length_range] at short
  exact short

theorem Draft.fitting_eq_range (rest : Route) :
    fitting rest = (List.range (fitting rest).length).map (· + 1) :=
  calc fitting rest
      = ((List.range rest.length).map (· + 1)).take (fitting rest).length :=
        List.prefix_iff_eq_take.mp (fitting_front rest)
    _ = (List.range (fitting rest).length).map (· + 1) := by
        rw [← List.map_take, List.take_range, Nat.min_eq_left (length_fitting_le rest)]

theorem Draft.le_length_fitting_iff {rest : Route} {k : Nat} (inside : k ≤ rest.length) :
    k ≤ (fitting rest).length ↔ Route.lineLength (rest.take k) ≤ Routines.maxLine := by
  cases k with
  | zero => exact iff_of_true (Nat.zero_le _) (Nat.zero_le _)
  | succ k =>
      have among : k + 1 ∈ fitting rest ↔ k < (fitting rest).length := by
        conv_lhs => rw [fitting_eq_range]
        simp only [List.mem_map, List.mem_range, Nat.add_right_cancel_iff, exists_eq_right]
      rw [Nat.succ_le_iff, ← among, mem_fitting_iff]
      exact ⟨fun fits => fits.2.2, fun fits => ⟨Nat.succ_pos k, inside, fits⟩⟩

theorem Routines.bytes_mainText {r : Routines} (named : ∀ i ∈ r.main, i < 3) :
    bytes r.mainText = 2 * r.main.length - 1 := by
  obtain ⟨line, written, length⟩ := length_mainLine named
  rw [mainLine_eq named] at written
  cases written
  rw [bytes_of_isPlain fun _ => isPlain_of_mem_mainText named, length]

/-- The length that is counted for a line, a sum over its commands and the commas between them, is
its length in bytes, and so many values are sent before the newline. Each further command makes it
longer, so the pieces that are tried as functions, those up to some longest one, are the pieces with
a line that the robot accepts. A main line has a byte for each call and each comma, so one more call
is tried exactly if the robot accepts the main line with it. -/
theorem counted_length_is_sent :
    (∀ r : Route,
      r.lineLength = (r.map fun c => bytes c.text).sum + (r.length - 1) ∧
      bytes r.line = r.lineLength ∧ (lineCodes r.line).length = r.lineLength + 1) ∧
    (∀ f g : Route, f <+: g → f ≠ g → f.lineLength < g.lineLength) ∧
    (∀ rest : Route, ∃ longest ≤ rest.length,
      Draft.fitting rest = (List.range longest).map (· + 1) ∧
      ∀ k ≤ rest.length, k ≤ longest ↔ bytes (Route.line (rest.take k)) ≤ Routines.maxLine) ∧
    (∀ r : Routines, r.main ≠ [] → (∀ i ∈ r.main, i < 3) →
      ∃ line, r.mainLine = .ok line ∧ bytes line = 2 * r.main.length - 1) ∧
    ∀ (d : Draft) (i : Nat), (∀ j ∈ d.main, j < 3) → i < 3 →
      ∃ line, Routines.mainLine ⟨d.main ++ [i], d.functions⟩ = .ok line ∧
        (d.isFull = false ↔ bytes line ≤ Routines.maxLine) := by
  refine ⟨?counted, ?grows, ?pieces, ?main, ?room⟩
  case counted =>
    intro r
    refine ⟨?_, r.bytes_line, ?_⟩
    · simp only [Route.lineLength_eq, Command.bytes_text]
    · rw [length_lineCodes, r.bytes_line]
  case grows =>
    rintro f g ⟨more, rfl⟩ other
    apply Route.lineLength_lt_append
    rintro rfl
    exact other (List.append_nil f).symm
  case pieces =>
    intro rest
    refine ⟨_, Draft.length_fitting_le rest, Draft.fitting_eq_range rest, ?_⟩
    intro k inside
    rw [Route.bytes_line]
    exact Draft.le_length_fitting_iff inside
  case main =>
    intro r some_call named
    exact ⟨_, Routines.mainLine_eq named, Routines.bytes_mainText named⟩
  case room =>
    intro d i named fresh
    have all_named : ∀ j ∈ d.main ++ [i], j < 3 := by
      rw [List.forall_mem_append, List.forall_mem_singleton]
      exact ⟨named, fresh⟩
    refine ⟨_, Routines.mainLine_eq (r := ⟨d.main ++ [i], d.functions⟩) all_named, ?_⟩
    rw [Routines.bytes_mainText all_named, Draft.isFull_eq_false_iff, Routines.maxLine,
      List.length_append, List.length_singleton]
    omega

/-- Nineteen bytes are enough for nine commands of the zigzag and for ten calls; one more of either
takes the line past the limit. -/
theorem counted_length_is_sent_zigzag :
    (∃ longest, Draft.fitting zigzag = (List.range longest).map (· + 1) ∧ 9 ≤ longest ∧
      ¬ 10 ≤ longest) ∧
    Route.lineLength (zigzag.take 9) < Route.lineLength (zigzag.take 10) ∧
    (∃ line, Routines.mainLine ⟨List.replicate 10 2, []⟩ = .ok line ∧ bytes line = 19) ∧
    ∃ line, Routines.mainLine ⟨List.replicate 10 2 ++ [0], []⟩ = .ok line ∧
      ¬ bytes line ≤ Routines.maxLine := by
  obtain ⟨-, grows, pieces, main, room⟩ := counted_length_is_sent
  refine ⟨?pieces, ?grows, ?main, ?room⟩
  case pieces =>
    obtain ⟨longest, -, fits, iff⟩ := pieces zigzag
    refine ⟨longest, fits, (iff 9 (by decide)).mpr (by decide +kernel), ?_⟩
    rw [iff 10 (by decide)]
    decide +kernel
  case grows =>
    exact grows (zigzag.take 9) (zigzag.take 10) (by decide) (by decide)
  case main =>
    exact main ⟨List.replicate 10 2, []⟩ (by decide) (by decide)
  case room =>
    obtain ⟨line, written, iff⟩ := room ⟨[], List.replicate 10 2⟩ 0 (by decide) (by decide)
    refine ⟨line, written, ?_⟩
    rw [← iff]
    decide

end Shipboard
