import Mathlib.Data.List.Induction
import Shipboard.Proofs.Core.Failing
import Shipboard.Proofs.Scaffold.Alignment
import Shipboard.Text

/-!
Frames by their rows. A frame is read exactly as it is drawn: the cell in some column of some row is
scaffold if the code there is a scaffold or an arrow, the robot is where the last arrow is, and the
first code that draws nothing is what the frame is refused for.
-/

namespace Shipboard

def Facing.arrow : Facing → Char
  | .up => '^'
  | .right => '>'
  | .down => 'v'
  | .left => '<'

namespace Pixel

variable {pixel : Pixel} {c : Char} {code : Word}

def codeOf (c : Char) : Word := Int64.ofNat c.toNat

def footings : List Word := codeOf '#' :: Facing.all.map fun f => codeOf f.arrow

def alphabet : List Word := ['\n', '.', 'X'].map codeOf ++ footings

def characters : Pixel → List Char
  | .rowEnd => ['\n']
  | .empty => ['.', 'X']
  | .scaffold => ['#']
  | .robot f => [f.arrow]

theorem ofChar?_eq_some_iff : ofChar? c = some pixel ↔ c ∈ pixel.characters := by
  constructor
  · intro drawn
    unfold ofChar? at drawn
    split at drawn
    · cases drawn
      decide
    · cases drawn
      decide
    · cases drawn
      decide
    · cases drawn
      decide
    · obtain ⟨f, arrow, rfl⟩ := Option.map_eq_some_iff.mp drawn
      unfold Facing.ofArrow? at arrow
      split at arrow <;> cases arrow <;> decide
  · intro among
    cases pixel with
    | rowEnd => simp_all [characters, ofChar?]
    | empty =>
        simp only [characters, List.mem_cons, List.not_mem_nil, or_false] at among
        rcases among with h | h <;> rw [h] <;> rfl
    | scaffold => simp_all [characters, ofChar?]
    | robot f =>
        rw [List.mem_singleton.mp among]
        cases f <;> rfl

theorem toNat_lt_of_mem (among : c ∈ pixel.characters) : c.toNat < 128 := by
  cases pixel with
  | rowEnd => simp_all [characters]
  | empty =>
      simp only [characters, List.mem_cons, List.not_mem_nil, or_false] at among
      rcases among with h | h <;> rw [h] <;> decide
  | scaffold => simp_all [characters]
  | robot f =>
      rw [List.mem_singleton.mp among]
      cases f <;> decide

theorem toInt_codeOf (low : c.toNat < 128) : (codeOf c).toInt = c.toNat :=
  Int64.toInt_ofNat_of_lt (Nat.lt_trans low (by decide))

theorem codeOf_ofNat (low : 0 ≤ code) (high : code < 256) :
    codeOf (Char.ofNat code.toInt.toNat) = code := by
  rw [Int64.le_iff_toInt_le, Int64.toInt_zero] at low
  rw [Int64.lt_iff_toInt_lt] at high
  change code.toInt < 256 at high
  have valid : code.toInt.toNat.isValidChar := .inl (by omega)
  have value : (Char.ofNat code.toInt.toNat).toNat = code.toInt.toNat := by
    rw [Char.ofNat, dif_pos valid]
    rfl
  apply Int64.toInt_inj.mp
  rw [codeOf, value, Int64.toInt_ofNat_of_lt (by omega), Int.toNat_of_nonneg low]

theorem ofCode_eq_ok_iff : ofCode code = .ok pixel ↔ ∃ c ∈ pixel.characters, code = codeOf c := by
  have drawn_iff : ofCode code = .ok pixel ↔
      (0 ≤ code ∧ code < 256) ∧ ofChar? (Char.ofNat code.toInt.toNat) = some pixel := by
    unfold ofCode
    split
    · cases ofChar? (Char.ofNat code.toInt.toNat) <;> simp_all
    · simp_all
  rw [drawn_iff, ofChar?_eq_some_iff]
  constructor
  · intro h
    exact ⟨_, h.2, (codeOf_ofNat h.1.1 h.1.2).symm⟩
  · intro h
    obtain ⟨c, among, rfl⟩ := h
    have low := toNat_lt_of_mem among
    have value := toInt_codeOf low
    rw [Int64.le_iff_toInt_le, Int64.lt_iff_toInt_lt, value]
    refine ⟨⟨Int.natCast_nonneg _, ?_⟩, ?_⟩
    · change (c.toNat : Int) < 256
      omega
    · rw [Int.toNat_natCast, Char.ofNat_toNat]
      exact among

theorem eq_newline (drawn : ofCode code = .ok .rowEnd) : code = Text.newline := by
  simp only [ofCode_eq_ok_iff, characters, List.mem_singleton, exists_eq_left] at drawn
  exact drawn

theorem ne_newline (drawn : ofCode code = .ok pixel) (inside : pixel ≠ .rowEnd) :
    code ≠ Text.newline := by
  intro newline
  rw [newline] at drawn
  cases drawn
  exact inside rfl

theorem ofCode_arrow (f : Facing) : ofCode (codeOf f.arrow) = .ok (.robot f) := by
  simp [ofCode_eq_ok_iff, characters]

theorem mem_footings_iff : code ∈ footings ↔
    ofCode code = .ok .scaffold ∨ ∃ f, ofCode code = .ok (.robot f) := by
  simp only [ofCode_eq_ok_iff, characters, footings, List.mem_cons, List.mem_map,
    List.not_mem_nil, or_false, exists_eq_left, Facing.mem_all, true_and]
  simp only [eq_comm]

theorem mem_alphabet_iff : code ∈ alphabet ↔ ∃ pixel, ofCode code = .ok pixel := by
  rw [alphabet, List.mem_append, mem_footings_iff]
  simp only [List.map_cons, List.map_nil, List.mem_cons, List.not_mem_nil, or_false]
  constructor
  · intro known
    rcases known with (newline | dot | cross) | step | ⟨f, arrow⟩
    · exact ⟨.rowEnd, ofCode_eq_ok_iff.mpr ⟨_, by simp [characters], newline⟩⟩
    · exact ⟨.empty, ofCode_eq_ok_iff.mpr ⟨_, by simp [characters], dot⟩⟩
    · exact ⟨.empty, ofCode_eq_ok_iff.mpr ⟨_, by simp [characters], cross⟩⟩
    · exact ⟨_, step⟩
    · exact ⟨_, arrow⟩
  · intro h
    obtain ⟨pixel, drawn⟩ := h
    cases pixel with
    | rowEnd =>
        simp only [ofCode_eq_ok_iff, characters, List.mem_singleton, exists_eq_left] at drawn
        exact .inl (.inl drawn)
    | empty =>
        simp only [ofCode_eq_ok_iff, characters, List.mem_cons, List.not_mem_nil, or_false,
          exists_eq_or_imp, exists_eq_left] at drawn
        exact .inl (.inr drawn)
    | scaffold => exact .inr (.inl drawn)
    | robot f => exact .inr (.inr ⟨f, drawn⟩)

theorem ofCode_of_unknown (unknown : code ∉ alphabet) :
    ofCode code = .error (.unexpected .cameraPixel code) := by
  rw [mem_alphabet_iff] at unknown
  unfold ofCode at unknown ⊢
  dsimp only at unknown ⊢
  split <;> simp_all

end Pixel

namespace Frame

open Pixel

variable {codes front : List Word} {code c : Word} {p q : Point}

/-- The rows of a frame; there is always one. -/
def rows (codes : List Word) : List (List Word) := codes.splitOn Text.newline

/-- The frame has `code` in the cell `p`: row `y` exists and has it in column `x`. -/
def Holds (codes : List Word) (p : Point) (code : Word) : Prop :=
  ∃ (x y : Nat) (row : List Word), p = ⟨x, y⟩ ∧ (rows codes)[y]? = some row ∧ row[x]? = some code

def next (codes : List Word) : Point :=
  ⟨((rows codes).getLast?.getD []).length, ((rows codes).length - 1 : Nat)⟩

/-- In reading order. -/
def Before (p q : Point) : Prop := p.y < q.y ∨ p.y = q.y ∧ p.x < q.x

theorem rows_snoc_newline (codes : List Word) :
    rows (codes ++ [Text.newline]) = rows codes ++ [[]] := by
  simp [rows, List.splitOn_append_cons_self]

theorem rows_snoc (codes : List Word) (other : c ≠ Text.newline) :
    ∃ above row, rows codes = above ++ [row] ∧ rows (codes ++ [c]) = above ++ [row ++ [c]] := by
  induction codes with
  | nil =>
      refine ⟨[], [], rfl, ?_⟩
      simp [rows, List.splitOn_cons_eq_if_modifyHead, other]
  | cons first codes ih =>
      obtain ⟨above, row, before, after⟩ := ih
      rw [rows] at before after
      by_cases mark : first = Text.newline
      · refine ⟨[] :: above, row, ?_, ?_⟩
        · simp [rows, List.splitOn_cons_eq_if_modifyHead, mark, before]
        · simp [rows, List.splitOn_cons_eq_if_modifyHead, mark, after]
      · cases above with
        | nil =>
            refine ⟨[], first :: row, ?_, ?_⟩
            · simp [rows, List.splitOn_cons_eq_if_modifyHead, mark, before]
            · simp [rows, List.splitOn_cons_eq_if_modifyHead, mark, after]
        | cons top above =>
            refine ⟨(first :: top) :: above, row, ?_, ?_⟩
            · simp [rows, List.splitOn_cons_eq_if_modifyHead, mark, before]
            · simp [rows, List.splitOn_cons_eq_if_modifyHead, mark, after]

theorem getElem?_snoc {α : Type} {l : List α} {a b : α} {i : Nat} :
    (l ++ [a])[i]? = some b ↔ l[i]? = some b ∨ i = l.length ∧ a = b := by
  rw [List.getElem?_append]
  split
  · rename_i inside
    simp [Nat.ne_of_lt inside]
  · rename_i outside
    rw [List.getElem?_eq_none (Nat.le_of_not_lt outside), List.getElem?_singleton]
    split <;> simp <;> omega

theorem next_of_rows {above : List (List Word)} {row : List Word}
    (split : rows codes = above ++ [row]) : next codes = ⟨row.length, above.length⟩ := by
  simp [next, split]

theorem holds_iff_of_rows {above : List (List Word)} {last : List Word}
    (split : rows codes = above ++ [last]) :
    Holds codes p code ↔
      (∃ (x y : Nat) (row : List Word), p = ⟨x, y⟩ ∧ above[y]? = some row ∧ row[x]? = some code) ∨
        ∃ x : Nat, p = ⟨x, above.length⟩ ∧ last[x]? = some code := by
  simp only [Holds, split, getElem?_snoc]
  constructor
  · intro h
    obtain ⟨x, y, row, place, there | ⟨bottom, same⟩, held⟩ := h
    · exact .inl ⟨x, y, row, place, there, held⟩
    · rw [bottom] at place
      rw [← same] at held
      exact .inr ⟨x, place, held⟩
  · intro h
    rcases h with ⟨x, y, row, place, there, held⟩ | ⟨x, place, held⟩
    · exact ⟨x, y, row, place, .inl there, held⟩
    · exact ⟨x, _, last, place, .inr ⟨rfl, rfl⟩, held⟩

theorem not_holds_nil (p : Point) (code : Word) : ¬ Holds [] p code := by
  have one : rows [] = [] ++ [[]] := rfl
  rw [holds_iff_of_rows one]
  simp

theorem holds_snoc_newline : Holds (codes ++ [Text.newline]) p code ↔ Holds codes p code := by
  rw [holds_iff_of_rows (rows_snoc_newline codes)]
  simp [Holds]

theorem holds_snoc (other : c ≠ Text.newline) :
    Holds (codes ++ [c]) p code ↔ Holds codes p code ∨ p = next codes ∧ code = c := by
  obtain ⟨above, row, before, after⟩ := rows_snoc codes other
  rw [holds_iff_of_rows before, holds_iff_of_rows after, next_of_rows before]
  simp only [getElem?_snoc]
  constructor
  · intro h
    rcases h with higher | ⟨x, place, held | ⟨behind, same⟩⟩
    · exact .inl (.inl higher)
    · exact .inl (.inr ⟨x, place, held⟩)
    · rw [behind] at place
      exact .inr ⟨place, same.symm⟩
  · intro h
    rcases h with (higher | ⟨x, place, held⟩) | ⟨place, same⟩
    · exact .inl higher
    · exact .inr ⟨x, place, .inl held⟩
    · exact .inr ⟨_, place, .inr ⟨rfl, same.symm⟩⟩

theorem next_snoc_newline (codes : List Word) :
    next (codes ++ [Text.newline]) = ⟨0, (next codes).y + 1⟩ := by
  have some_row : 0 < (rows codes).length := List.length_pos_iff.mpr (List.splitOn_ne_nil _ _)
  rw [next_of_rows (rows_snoc_newline codes), next]
  simp
  omega

theorem next_snoc (codes : List Word) (other : c ≠ Text.newline) :
    next (codes ++ [c]) = Sweep.right (next codes) := by
  obtain ⟨above, row, before, after⟩ := rows_snoc codes other
  rw [next_of_rows before, next_of_rows after]
  simp [Sweep.right]

theorem before_next (held : Holds codes p code) : Before p (next codes) := by
  have some_row : rows codes ≠ [] := List.splitOn_ne_nil _ _
  have split := (List.dropLast_concat_getLast some_row).symm
  rw [next_of_rows split]
  rcases (holds_iff_of_rows split).mp held with ⟨x, y, row, rfl, there, -⟩ | ⟨x, rfl, there⟩
  · have higher := (List.getElem?_eq_some_iff.mp there).1
    left
    dsimp only
    omega
  · have further := (List.getElem?_eq_some_iff.mp there).1
    right
    dsimp only
    omega

theorem not_before_self (p : Point) : ¬ Before p p := by
  simp [Before]

theorem Before.asymm (before : Before p q) : ¬ Before q p := by
  simp only [Before] at before ⊢
  omega

/-- The frame draws a scaffold cell, with or without the robot on it. -/
def Supports (codes : List Word) (p : Point) : Prop := ∃ code ∈ footings, Holds codes p code

/-- The arrow of `r` is in its cell, and there is no arrow behind it. -/
def LastArrow (codes : List Word) (r : Pose) : Prop :=
  Holds codes r.cell (codeOf r.facing.arrow) ∧
    ∀ p f, Holds codes p (codeOf (Facing.arrow f)) → ¬ Before r.cell p

theorem holds_snoc_of_ne (ne : code ≠ c) : Holds (codes ++ [c]) p code ↔ Holds codes p code := by
  by_cases newline : c = Text.newline
  · rw [newline]
    exact holds_snoc_newline
  · simp [holds_snoc newline, ne]

theorem supports_snoc_of_notMem (blank : c ∉ footings) :
    Supports (codes ++ [c]) p ↔ Supports codes p := by
  apply exists_congr
  intro code
  apply and_congr_right
  intro among
  apply holds_snoc_of_ne
  rintro rfl
  exact blank among

theorem newline_notMem_footings : Text.newline ∉ footings := by decide

theorem supports_snoc (among : c ∈ footings) :
    Supports (codes ++ [c]) p ↔ p = next codes ∨ Supports codes p := by
  have other : c ≠ Text.newline := by
    rintro rfl
    exact newline_notMem_footings among
  simp only [Supports, holds_snoc other]
  constructor
  · intro h
    obtain ⟨code, footing, held | ⟨place, -⟩⟩ := h
    · exact .inr ⟨code, footing, held⟩
    · exact .inl place
  · intro h
    rcases h with place | ⟨code, footing, held⟩
    · exact ⟨c, among, .inr ⟨place, rfl⟩⟩
    · exact ⟨code, footing, .inl held⟩

theorem not_supports_next (codes : List Word) : ¬ Supports codes (next codes) := by
  intro h
  obtain ⟨code, -, held⟩ := h
  exact not_before_self _ (before_next held)

theorem codeOf_arrow_injective {f g : Facing} (same : codeOf f.arrow = codeOf g.arrow) :
    f = g := by
  revert same
  cases f <;> cases g <;> decide

theorem codeOf_arrow_mem (f : Facing) : codeOf f.arrow ∈ footings := by cases f <;> decide

theorem lastArrow_snoc_of_ne {r : Pose} (ne : ∀ f, codeOf (Facing.arrow f) ≠ c) :
    LastArrow (codes ++ [c]) r ↔ LastArrow codes r := by
  simp only [LastArrow, holds_snoc_of_ne (ne _)]

theorem lastArrow_snoc_arrow {r : Pose} (f : Facing) :
    LastArrow (codes ++ [codeOf f.arrow]) r ↔ r = ⟨next codes, f⟩ := by
  have other : codeOf f.arrow ≠ Text.newline := by cases f <;> decide
  simp only [LastArrow, holds_snoc other]
  constructor
  · intro h
    obtain ⟨held | ⟨place, same⟩, last⟩ := h
    · exact absurd (before_next held) (last _ f (.inr ⟨rfl, rfl⟩))
    · rw [← place, ← codeOf_arrow_injective same]
  · intro h
    rw [h]
    refine ⟨.inr ⟨rfl, rfl⟩, ?_⟩
    intro p g held
    rcases held with held | ⟨place, -⟩
    · exact (before_next held).asymm
    · rw [place]
      exact not_before_self _

end Frame

namespace Sweep

open Shipboard.Frame Pixel

variable {s : Sweep} {codes : List Word} {c : Word}

structure Reads (s : Sweep) (codes : List Word) : Prop where
  cell : s.cell = next codes
  cells : ∀ p, p ∈ s.scaffold.cells ↔ Supports codes p
  size : s.scaffold.cells.size = codes.countP (· ∈ footings)
  robot : ∀ r, s.scaffold.robot = some r ↔ LastArrow codes r
  missing : s.scaffold.robot = none ↔ ∀ f : Facing, codeOf f.arrow ∉ codes

theorem reads_start : Reads {} [] :=
  { cell := rfl
    cells := by simp [Supports, not_holds_nil]
    size := Std.ExtTreeSet.size_empty
    robot := by simp [LastArrow, not_holds_nil]
    missing := by simp }

theorem Reads.blank (reads : s.Reads codes) (blank : c ∉ footings) :
    Reads { s with cell := next (codes ++ [c]) } (codes ++ [c]) := by
  have noArrow : ∀ f, codeOf (Facing.arrow f) ≠ c := by
    rintro f rfl
    exact blank (codeOf_arrow_mem f)
  refine { cell := rfl, cells := ?_, size := ?_, robot := ?_, missing := ?_ }
  · intro p
    rw [supports_snoc_of_notMem blank]
    exact reads.cells p
  · simp [blank, reads.size]
  · intro r
    rw [lastArrow_snoc_of_ne noArrow]
    exact reads.robot r
  · simp [reads.missing, noArrow]

theorem Reads.footing (reads : s.Reads codes) (among : c ∈ footings) :
    (∀ p, p ∈ s.scaffold.cells.insert s.cell ↔ Supports (codes ++ [c]) p) ∧
      (s.scaffold.cells.insert s.cell).size = (codes ++ [c]).countP (· ∈ footings) := by
  constructor
  · intro p
    rw [Std.ExtTreeSet.mem_insert, Std.LawfulEqOrd.compare_eq_iff_eq, supports_snoc among,
      reads.cells, reads.cell, eq_comm]
  · have fresh : s.cell ∉ s.scaffold.cells := by
      rw [reads.cells, reads.cell]
      exact not_supports_next codes
    rw [Std.ExtTreeSet.mem_iff_contains, Bool.not_eq_true] at fresh
    simp [Std.ExtTreeSet.size_insert, fresh, reads.size, among]

theorem Reads.draw {pixel : Pixel} (reads : s.Reads codes) (drawn : ofCode c = .ok pixel) :
    (s.draw pixel).Reads (codes ++ [c]) := by
  have moves : pixel ≠ .rowEnd → right s.cell = next (codes ++ [c]) := by
    intro inside
    rw [next_snoc codes (ne_newline drawn inside), reads.cell]
  cases pixel with
  | rowEnd =>
      rw [eq_newline drawn]
      have further := reads.blank newline_notMem_footings
      rw [next_snoc_newline, ← reads.cell] at further
      exact further
  | empty =>
      have blank : c ∉ footings := by simp [mem_footings_iff, drawn]
      have further := reads.blank blank
      rw [← moves (by decide)] at further
      exact further
  | scaffold =>
      have among : c ∈ footings := by simp [mem_footings_iff, drawn]
      have noArrow : ∀ f, codeOf (Facing.arrow f) ≠ c := by
        rintro f rfl
        rw [ofCode_arrow] at drawn
        cases drawn
      obtain ⟨cells, size⟩ := reads.footing among
      refine { cell := moves (by decide), cells, size, robot := ?_, missing := ?_ }
      · intro r
        rw [lastArrow_snoc_of_ne noArrow]
        exact reads.robot r
      · have missing : s.scaffold.robot = none ↔ ∀ f : Facing, codeOf f.arrow ∉ codes ++ [c] := by
          simpa [noArrow] using reads.missing
        exact missing
  | robot f =>
      have among : c ∈ footings := by simp [mem_footings_iff, drawn]
      obtain ⟨cells, size⟩ := reads.footing among
      have arrow : c = codeOf f.arrow := by
        simpa [ofCode_eq_ok_iff, characters] using drawn
      refine { cell := moves (by simp), cells, size, robot := ?_, missing := ?_ }
      · intro r
        rw [arrow, lastArrow_snoc_arrow, ← reads.cell]
        simp [Sweep.draw, eq_comm]
      · constructor
        · intro shown
          cases shown
        · intro missing
          exact absurd (missing f) (by simp [arrow])

theorem reads_of_foldlM {s' : Sweep} (read : codes.foldlM Sweep.read {} = .ok s') :
    s'.Reads codes := by
  induction codes using List.reverseRecOn generalizing s' with
  | nil =>
      cases read
      exact reads_start
  | append_singleton codes c ih =>
      rw [List.foldlM_append] at read
      obtain ⟨s, before, last⟩ := ok_of_bind read
      obtain ⟨s'', last, same⟩ := ok_of_bind last
      cases same
      obtain ⟨pixel, drawn, rfl⟩ := ok_of_map last
      exact (ih before).draw drawn

theorem Reads.stands (reads : s.Reads codes) {r : Pose} (there : s.scaffold.robot = some r) :
    s.scaffold.has r.cell = true := by
  have arrow := ((reads.robot r).mp there).1
  have drawn := (reads.cells r.cell).mpr ⟨_, codeOf_arrow_mem r.facing, arrow⟩
  simpa [Scaffold.has] using drawn

theorem foldlM_of_known (known : ∀ code ∈ codes, code ∈ alphabet) (s : Sweep) :
    ∃ s', codes.foldlM Sweep.read s = .ok s' := by
  induction codes generalizing s with
  | nil => exact ⟨s, rfl⟩
  | cons code codes ih =>
      obtain ⟨pixel, drawn⟩ := mem_alphabet_iff.mp (known code List.mem_cons_self)
      obtain ⟨s', rest⟩ := ih (fun c among => known c (List.mem_cons_of_mem code among))
        (s.draw pixel)
      refine ⟨s', ?_⟩
      rw [List.foldlM_cons, Sweep.read, drawn]
      exact rest

theorem known_of_foldlM {s' : Sweep} (read : codes.foldlM Sweep.read s = .ok s') :
    ∀ code ∈ codes, code ∈ alphabet := by
  induction codes generalizing s with
  | nil => simp
  | cons code codes ih =>
      rw [List.foldlM_cons] at read
      obtain ⟨next, first, rest⟩ := ok_of_bind read
      obtain ⟨pixel, drawn, -⟩ := ok_of_map first
      exact List.forall_mem_cons.mpr ⟨mem_alphabet_iff.mpr ⟨pixel, drawn⟩, ih rest⟩

theorem inRange_of_foldlM {s' : Sweep} (read : codes.foldlM Sweep.read {} = .ok s')
    (short : codes.length < 2 ^ 63) : s'.cell.inRange = true := by
  obtain ⟨right, below, close⟩ := (within_of_foldlM within_start read).cell
  simp only [Point.inRange, inWordRange, Bool.and_eq_true, decide_eq_true_eq, Int64.toInt_minValue,
    Int64.toInt_maxValue]
  omega

end Sweep

namespace Scaffold

open Shipboard.Frame Pixel

theorem ofFrame_eq_ok_iff {codes : List Word} :
    (∃ s, ofFrame codes = .ok s) ↔ ∀ code ∈ codes, code ∈ alphabet := by
  constructor
  · intro h
    obtain ⟨s, shown⟩ := h
    obtain ⟨sweep, read, -⟩ := ok_of_map shown
    exact Sweep.known_of_foldlM read
  · intro known
    obtain ⟨sweep, read⟩ := Sweep.foldlM_of_known known {}
    exact ⟨sweep.scaffold, by rw [ofFrame, read]; rfl⟩

theorem ofFrame_of_unknown {front back : List Word} {code : Word}
    (known : ∀ c ∈ front, c ∈ alphabet) (unknown : code ∉ alphabet) :
    ofFrame (front ++ code :: back) = .error (.unexpected .cameraPixel code) := by
  obtain ⟨sweep, read⟩ := Sweep.foldlM_of_known known {}
  rw [ofFrame, List.foldlM_append, read]
  dsimp only [bind, Except.bind]
  rw [List.foldlM_cons, Sweep.read, ofCode_of_unknown unknown]
  rfl

/-- A frame is read if and only if each of its codes draws something; otherwise the first that draws
nothing is reported. What is read is the scaffold that the rows show, no more and no less, with as
many cells as there are scaffolds and arrows, and the robot is on scaffold where the last arrow in
reading order is. The place of the next code never leaves the range of words. -/
theorem frame_shows_scaffold {codes : List Word} (short : codes.length < 2 ^ 63) :
    ((∃ s, ofFrame codes = .ok s) ↔ ∀ code ∈ codes, code ∈ alphabet) ∧
    (∀ front code back, codes = front ++ code :: back → (∀ c ∈ front, c ∈ alphabet) →
      code ∉ alphabet → ofFrame codes = .error (.unexpected .cameraPixel code)) ∧
    (∀ front back sweep, codes = front ++ back → front.foldlM Sweep.read {} = .ok sweep →
      sweep.cell.inRange = true) ∧
    ∀ s, ofFrame codes = .ok s →
      (∀ p, s.has p = true ↔ Supports codes p) ∧ s.size = codes.countP (· ∈ footings) ∧
      (∀ r, s.robot = some r ↔ LastArrow codes r) ∧
      (s.robot = none ↔ ∀ f : Facing, codeOf f.arrow ∉ codes) ∧
      ∀ r, s.robot = some r → s.has r.cell = true := by
  refine ⟨ofFrame_eq_ok_iff, ?refused, ?range, ?shown⟩
  case refused =>
    rintro front code back rfl known unknown
    exact ofFrame_of_unknown known unknown
  case range =>
    rintro front back sweep rfl read
    rw [List.length_append] at short
    exact Sweep.inRange_of_foldlM read (by omega)
  case shown =>
    intro s shown
    obtain ⟨sweep, read, rfl⟩ := ok_of_map shown
    have reads := Sweep.reads_of_foldlM read
    have cells : ∀ p, sweep.scaffold.has p = true ↔ Supports codes p := by
      intro p
      rw [← reads.cells p]
      simp [has]
    exact ⟨cells, reads.size, reads.robot, reads.missing, fun r there => reads.stands there⟩

/-- Rows of three, no and four codes, the last one without an end, and two arrows. -/
def raggedFrame : List Word := [35, 46, 94, 10, 10, 62, 88, 35, 118]

theorem frame_shows_scaffold_ragged :
    (∃ s, ofFrame raggedFrame = .ok s ∧ s.has ⟨2, 0⟩ = true ∧ s.size = 5 ∧
      s.robot = some ⟨⟨3, 2⟩, .down⟩ ∧ LastArrow raggedFrame ⟨⟨3, 2⟩, .down⟩) ∧
    ofFrame [35, 300, -1] = .error (.unexpected .cameraPixel 300) := by
  have short : raggedFrame.length < 2 ^ 63 := by decide
  have short' : ([35, 300, -1] : List Word).length < 2 ^ 63 := by decide
  have shows := (frame_shows_scaffold short).2.2.2
  have refused := (frame_shows_scaffold short').2.1
  have shown : ∃ s, ofFrame raggedFrame = .ok s ∧ s.robot = some ⟨⟨3, 2⟩, .down⟩ := ⟨_, rfl, rfl⟩
  obtain ⟨s, shown, there⟩ := shown
  obtain ⟨cells, size, robot, -⟩ := shows s shown
  refine ⟨⟨s, shown, ?_, ?_, there, (robot _).mp there⟩, ?_⟩
  · exact (cells ⟨2, 0⟩).mpr ⟨94, by decide, 2, 0, [35, 46, 94], rfl, rfl, rfl⟩
  · rw [size]
    decide
  · exact refused [35] 300 [-1] rfl (List.forall_mem_singleton.mpr (by decide)) (by decide)

end Scaffold

end Shipboard
