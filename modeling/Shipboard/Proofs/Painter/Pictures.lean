import Mathlib.Data.List.Induction
import Mathlib.Data.Set.Defs
import Shipboard.Painter.Robot
import Shipboard.Proofs.Painter.Strokes
import Shipboard.Proofs.Text.Pieces

/-!
The picture of a hull. It fills the smallest box around the painted panels, whatever the order they
are gone through in, and the white panels can be read off it again.
-/

namespace Shipboard

namespace Extent

variable {e e' : Extent} {ps seen : List Point} {cells : Set Point}

def Covers (e : Extent) (p : Point) : Prop :=
  (e.low.x ≤ p.x ∧ p.x ≤ e.high.x) ∧ e.low.y ≤ p.y ∧ p.y ≤ e.high.y

instance (e : Extent) : DecidablePred e.Covers := fun p =>
  inferInstanceAs (Decidable ((e.low.x ≤ p.x ∧ p.x ≤ e.high.x) ∧ e.low.y ≤ p.y ∧ p.y ≤ e.high.y))

/-- The box holds all of the cells, and there is one of them along each of its sides. -/
structure Bounds (e : Extent) (cells : Set Point) : Prop where
  within : ∀ p ∈ cells, e.Covers p
  left : ∃ p ∈ cells, p.x = e.low.x
  right : ∃ p ∈ cells, p.x = e.high.x
  top : ∃ p ∈ cells, p.y = e.low.y
  bottom : ∃ p ∈ cells, p.y = e.high.y

theorem Bounds.upright (bounds : e.Bounds cells) : e.low.x ≤ e.high.x ∧ e.low.y ≤ e.high.y := by
  obtain ⟨p, among, -⟩ := bounds.left
  have covers := bounds.within p among
  simp only [Covers] at covers
  omega

theorem Bounds.inside (bounds : e.Bounds cells) (around : ∀ p ∈ cells, e'.Covers p) :
    e'.Covers e.low ∧ e'.Covers e.high := by
  obtain ⟨a, amongA, left⟩ := bounds.left
  obtain ⟨b, amongB, right⟩ := bounds.right
  obtain ⟨c, amongC, top⟩ := bounds.top
  obtain ⟨d, amongD, bottom⟩ := bounds.bottom
  have coversA := around a amongA
  have coversB := around b amongB
  have coversC := around c amongC
  have coversD := around d amongD
  simp only [Covers] at coversA coversB coversC coversD ⊢
  omega

theorem Bounds.unique (bounds : e.Bounds cells) (bounds' : e'.Bounds cells) : e = e' := by
  obtain ⟨low, high⟩ := bounds.inside bounds'.within
  obtain ⟨low', high'⟩ := bounds'.inside bounds.within
  rcases e with ⟨⟨a, b⟩, ⟨c, d⟩⟩
  rcases e' with ⟨⟨a', b'⟩, ⟨c', d'⟩⟩
  simp only [Covers] at low high low' high'
  simp only [Extent.mk.injEq, Point.mk.injEq]
  omega

theorem bounds_ofPoint (p : Point) : (ofPoint p).Bounds {q | q ∈ [p]} := by
  have among : p ∈ [p] := List.mem_singleton_self p
  refine ⟨?_, ⟨p, among, rfl⟩, ⟨p, among, rfl⟩, ⟨p, among, rfl⟩, ⟨p, among, rfl⟩⟩
  intro q same
  rw [List.mem_singleton.mp same]
  simp [Covers, ofPoint]

theorem Bounds.snoc (bounds : e.Bounds {q | q ∈ seen}) (p : Point) :
    (e.cover p).Bounds {q | q ∈ seen ++ [p]} := by
  have new : p ∈ seen ++ [p] := List.mem_append_right seen (List.mem_singleton_self p)
  have old : ∀ q ∈ seen, q ∈ seen ++ [p] := fun q => List.mem_append_left [p]
  -- Each side is where it was, bounded by an old cell, or has moved out to the new one.
  refine { within := ?within, left := ?left, right := ?right, top := ?top, bottom := ?bottom }
  case within =>
    intro q among
    rcases List.mem_append.mp among with before | same
    · have covers := bounds.within q before
      simp only [Covers, cover] at covers ⊢
      omega
    · rw [List.mem_singleton.mp same]
      simp only [Covers, cover]
      omega
  case left =>
    obtain ⟨q, among, same⟩ := bounds.left
    rcases Int.le_total e.low.x p.x with further | nearer
    · exact ⟨q, old q among, by simp [cover, same, further]⟩
    · exact ⟨p, new, by simp [cover, nearer]⟩
  case right =>
    obtain ⟨q, among, same⟩ := bounds.right
    rcases Int.le_total e.high.x p.x with further | nearer
    · exact ⟨p, new, by simp [cover, further]⟩
    · exact ⟨q, old q among, by simp [cover, same, nearer]⟩
  case top =>
    obtain ⟨q, among, same⟩ := bounds.top
    rcases Int.le_total e.low.y p.y with further | nearer
    · exact ⟨q, old q among, by simp [cover, same, further]⟩
    · exact ⟨p, new, by simp [cover, nearer]⟩
  case bottom =>
    obtain ⟨q, among, same⟩ := bounds.bottom
    rcases Int.le_total e.high.y p.y with further | nearer
    · exact ⟨p, new, by simp [cover, further]⟩
    · exact ⟨q, old q among, by simp [cover, same, nearer]⟩

theorem Bounds.append (bounds : e.Bounds {q | q ∈ seen}) (ps : List Point) :
    (ps.foldl cover e).Bounds {q | q ∈ seen ++ ps} := by
  induction ps generalizing e seen with
  | nil =>
      rw [List.append_nil]
      exact bounds
  | cons p ps ih =>
      have further := ih (bounds.snoc p)
      rw [List.append_assoc] at further
      exact further

theorem ofPoints_eq_some_iff : ofPoints ps = some e ↔ e.Bounds {q | q ∈ ps} := by
  cases ps with
  | nil =>
      constructor
      · intro found
        cases found
      · intro bounds
        obtain ⟨q, among, -⟩ := bounds.left
        cases among
  | cons p ps =>
      have bounds := (bounds_ofPoint p).append ps
      rw [ofPoints, Option.some_inj]
      constructor
      · intro found
        rw [← found]
        exact bounds
      · exact bounds.unique

theorem ofPoints_congr {ps' : List Point} (same : ∀ p, p ∈ ps ↔ p ∈ ps') :
    ofPoints ps = ofPoints ps' := by
  have cells : {p | p ∈ ps} = {p | p ∈ ps'} := Set.ext same
  ext e
  rw [ofPoints_eq_some_iff, ofPoints_eq_some_iff, cells]

theorem width_eq (left : e.low.x ≤ e.high.x) : (e.width : Int) = e.high.x - e.low.x + 1 := by
  rw [width, Int.toNat_of_nonneg (by omega)]

theorem height_eq (top : e.low.y ≤ e.high.y) : (e.height : Int) = e.high.y - e.low.y + 1 := by
  rw [height, Int.toNat_of_nonneg (by omega)]

end Extent

namespace Picture

variable {lines : List (List Char)}

def at? (corner : Point) (text : List Char) (p : Point) : Option Char :=
  if corner.x ≤ p.x ∧ corner.y ≤ p.y then
    (Text.split '\n' text)[(p.y - corner.y).toNat]?.bind fun row => row[(p.x - corner.x).toNat]?
  else none

theorem split_lines (unbroken : ∀ line ∈ lines, '\n' ∉ line) :
    Text.split '\n' (lines.flatMap (· ++ ['\n'])) = lines ++ [[]] := by
  induction lines with
  | nil => rfl
  | cons line lines ih =>
      have first := unbroken line List.mem_cons_self
      have others := ih fun l later => unbroken l (List.mem_cons_of_mem line later)
      rw [List.flatMap_cons, List.append_assoc, List.singleton_append,
        Text.split_append_mark first, others, List.cons_append]

end Picture

namespace Hull

variable {h : Hull} {e : Extent} {p : Point} {order : List Point}

def lines (h : Hull) (e : Extent) : List (List Char) :=
  (List.range e.height).map fun (line : Nat) => h.row e (e.low.y + line)

theorem rows_eq (h : Hull) (e : Extent) : h.rows e = (h.lines e).flatMap (· ++ ['\n']) := by
  rw [rows, lines, List.flatMap_map]

theorem mark_ne_newline (h : Hull) (p : Point) : h.mark p ≠ '\n' := by
  rw [mark]
  split <;> decide

theorem mark_eq_hash_iff : h.mark p = '#' ↔ h[p]? = some .white := by
  rw [mark]
  split <;> simp_all

theorem newline_notMem_row (h : Hull) (e : Extent) (y : Int) : '\n' ∉ h.row e y := by
  intro among
  obtain ⟨column, -, same⟩ := List.mem_map.mp among
  exact h.mark_ne_newline _ same

theorem getElem?_row {y : Int} {column : Nat} (inside : column < e.width) :
    (h.row e y)[column]? = some (h.mark ⟨e.low.x + column, y⟩) := by
  simp [row, inside]

theorem getElem?_lines {line : Nat} (inside : line < e.height) :
    (h.lines e)[line]? = some (h.row e (e.low.y + line)) := by
  simp [lines, inside]

theorem length_lines (h : Hull) (e : Extent) : (h.lines e).length = e.height := by
  simp [lines]

theorem length_row (h : Hull) (e : Extent) (y : Int) : (h.row e y).length = e.width := by
  simp [row]

theorem newline_notMem_line {line : List Char} (among : line ∈ h.lines e) : '\n' ∉ line := by
  obtain ⟨y, -, rfl⟩ := List.mem_map.mp among
  exact h.newline_notMem_row e _

theorem at?_rows (h : Hull) (e : Extent) (p : Point) :
    Picture.at? e.low (h.rows e) p = if e.Covers p then some (h.mark p) else none := by
  rw [Picture.at?, rows_eq, Picture.split_lines fun line among => newline_notMem_line among]
  by_cases behind : e.low.x ≤ p.x ∧ e.low.y ≤ p.y
  · rw [if_pos behind]
    have covers_iff : e.Covers p ↔
        (p.x - e.low.x).toNat < e.width ∧ (p.y - e.low.y).toNat < e.height := by
      simp only [Extent.Covers, Extent.width, Extent.height]
      omega
    by_cases above : (p.y - e.low.y).toNat < e.height
    · rw [List.getElem?_append_left (by rwa [length_lines]), getElem?_lines above, Option.bind_some]
      by_cases inside : (p.x - e.low.x).toNat < e.width
      · have across : e.low.x + ((p.x - e.low.x).toNat : Int) = p.x := by omega
        have down : e.low.y + ((p.y - e.low.y).toNat : Int) = p.y := by omega
        rw [getElem?_row inside, across, down, if_pos (covers_iff.mpr ⟨inside, above⟩)]
      · rw [List.getElem?_eq_none (by rw [length_row]; omega),
          if_neg fun covers => inside (covers_iff.mp covers).1]
    · rw [List.getElem?_append_right (by rw [length_lines]; omega), List.getElem?_singleton,
        if_neg fun covers => above (covers_iff.mp covers).2]
      split <;> rfl
  · rw [if_neg behind, if_neg fun covers => behind ⟨covers.1.1, covers.2.1⟩]

theorem pictureOver_of_bounds (bounds : e.Bounds {p | p ∈ order}) :
    h.pictureOver order = h.rows e := by
  rw [pictureOver, Extent.ofPoints_eq_some_iff.mpr bounds]

theorem pictureOver_perm (complete : order.Perm h.keys) : h.pictureOver order = h.picture := by
  rw [picture, pictureOver, pictureOver, Extent.ofPoints_congr fun p => complete.mem_iff]

theorem exists_lines (some_panel : h.size ≠ 0) :
    ∃ e : Extent, e.Bounds {p | p ∈ h} ∧ h.picture = h.rows e := by
  cases found : Extent.ofPoints h.keys with
  | none =>
      rw [← Std.ExtTreeMap.length_keys] at some_panel
      cases keys : h.keys with
      | nil => exact absurd (congrArg List.length keys) some_panel
      | cons p ps =>
          rw [keys] at found
          cases found
  | some e =>
      have bounds := Extent.ofPoints_eq_some_iff.mp found
      have cells : {p | p ∈ h.keys} = {p | p ∈ h} := Set.ext fun p => Std.ExtTreeMap.mem_keys
      refine ⟨e, ?_, pictureOver_of_bounds bounds⟩
      rw [← cells]
      exact bounds

theorem picture_empty (no_panel : h.size = 0) : h.picture = [] := by
  have none : h.keys = [] := by
    rw [← List.length_eq_zero_iff, Std.ExtTreeMap.length_keys, no_panel]
  rw [picture, none]
  rfl

end Hull

namespace Robot

theorem panel_eq_white_iff (r : Robot) (p : Point) :
    r.panel p = .white ↔ r.hull[p]? = some .white := by
  rw [panel]
  cases r.hull[p]? <;> simp

theorem mark_eq (r : Robot) (p : Point) :
    r.hull.mark p = if r.panel p = .white then '#' else ' ' := by
  simp only [Hull.mark, panel_eq_white_iff]

/-- Where no panel is painted the picture is empty. Elsewhere it has a line for each row and a
character for each column of the smallest box around the painted panels, whatever the order they are
gone through in, and shows the white ones as `#`, so they can be read off the picture by one who
knows where its corner is. Robots whose hulls are painted alike have the same picture. -/
theorem picture_shows_hull (r : Robot) (order : List Point) (complete : order.Perm r.hull.keys) :
    r.render = String.ofList (r.hull.pictureOver order) ∧
    (r.painted = 0 → r.hull.pictureOver order = []) ∧
    (r.painted ≠ 0 → ∃ (e : Extent) (lines : List (List Char)), e.Bounds {p | p ∈ r.hull} ∧
      r.hull.pictureOver order = lines.flatMap (· ++ ['\n']) ∧
      (lines.length : Int) = e.high.y - e.low.y + 1 ∧
      (∀ line ∈ lines, (line.length : Int) = e.high.x - e.low.x + 1 ∧ '\n' ∉ line) ∧
      (∀ (down across : Nat) row c, lines[down]? = some row → row[across]? = some c →
        c = if r.panel ⟨e.low.x + across, e.low.y + down⟩ = .white then '#' else ' ') ∧
      ∀ p, Picture.at? e.low (r.hull.pictureOver order) p = some '#' ↔ r.panel p = .white) ∧
    ∀ r' : Robot, (∀ p : Point, r'.hull[p]? = r.hull[p]?) → ∀ order', order'.Perm r'.hull.keys →
      r'.hull.pictureOver order' = r.hull.pictureOver order ∧ r'.render = r.render := by
  rw [Hull.pictureOver_perm complete]
  refine ⟨rfl, Hull.picture_empty, ?shown, ?alike⟩
  case shown =>
    intro some_panel
    obtain ⟨e, bounds, picture⟩ := Hull.exists_lines some_panel
    obtain ⟨left, top⟩ := bounds.upright
    refine ⟨e, r.hull.lines e, bounds, ?_, ?_, ?_, ?_, ?_⟩
    · rw [picture, Hull.rows_eq]
    · rw [Hull.length_lines, Extent.height_eq top]
    · intro line among
      refine ⟨?_, Hull.newline_notMem_line among⟩
      obtain ⟨y, -, rfl⟩ := List.mem_map.mp among
      rw [Hull.length_row, Extent.width_eq left]
    · intro down across row c there held
      have above := (List.getElem?_eq_some_iff.mp there).1
      rw [Hull.length_lines] at above
      rw [Hull.getElem?_lines above, Option.some_inj] at there
      rw [← there] at held
      have inside := (List.getElem?_eq_some_iff.mp held).1
      rw [Hull.length_row] at inside
      rw [Hull.getElem?_row inside, Option.some_inj] at held
      rw [← held, mark_eq]
    · intro p
      rw [picture, Hull.at?_rows, panel_eq_white_iff, ← Hull.mark_eq_hash_iff]
      constructor
      · intro read
        split at read
        · exact Option.some.inj read
        · cases read
      · intro hash
        have painted : p ∈ r.hull := by
          rw [Std.ExtTreeMap.mem_iff_isSome_getElem?, Hull.mark_eq_hash_iff.mp hash]
          rfl
        rw [if_pos (bounds.within p painted), hash]
  case alike =>
    intro r' alike order' complete'
    have same : r'.hull = r.hull := Std.ExtTreeMap.ext_getElem? alike
    rw [Hull.pictureOver_perm complete', render, render, same]
    exact ⟨rfl, rfl⟩

def acrossCorner : Robot := after .white [⟨1, 1⟩, ⟨0, 1⟩, ⟨1, 1⟩]

theorem picture_shows_hull_acrossCorner :
    acrossCorner.hull.keys.reverse.Perm acrossCorner.hull.keys ∧ acrossCorner.painted = 3 ∧
      acrossCorner.hull.pictureOver acrossCorner.hull.keys.reverse = "# \n #\n".toList ∧
      ∃ e : Extent, e.Bounds {p | p ∈ acrossCorner.hull} ∧
        Picture.at? e.low "# \n #\n".toList ⟨1, 1⟩ = some '#' ∧
        Picture.at? e.low "# \n #\n".toList ⟨1, 0⟩ ≠ some '#' := by
  have backwards := acrossCorner.hull.keys.reverse_perm
  have painted : acrossCorner.painted = 3 := by decide +kernel
  have text : acrossCorner.render = "# \n #\n" := by decide +kernel
  obtain ⟨render, -, shown, -⟩ := picture_shows_hull acrossCorner _ backwards
  have picture : acrossCorner.hull.pictureOver acrossCorner.hull.keys.reverse =
      "# \n #\n".toList := by
    rw [← text, render, String.toList_ofList]
  obtain ⟨e, -, bounds, -, -, -, -, white⟩ := shown (by rw [painted]; decide)
  rw [picture] at white
  refine ⟨backwards, painted, picture, e, bounds, ?_, ?_⟩
  · rw [white]
    decide +kernel
  · rw [Ne, white]
    decide +kernel

end Robot

end Shipboard
