import Mathlib.Data.List.Basic
import Shipboard.Text

/-!
Text in pieces. Pieces without the mark between them are what splitting gives back, and so are lines
that are sent one after another, each with a newline behind it.
-/

namespace Shipboard.Text

variable {mark : Char} {piece rest line : List Char} {pieces lines : List (List Char)}

theorem split_cons_mark (mark : Char) (rest : List Char) :
    split mark (mark :: rest) = [] :: split mark rest := by
  simp [split]

theorem split_cons_of_ne {c : Char} (other : c ≠ mark) (first : split mark rest = piece :: pieces) :
    split mark (c :: rest) = (c :: piece) :: pieces := by
  rw [split] at first
  simp [split, other, first]

theorem split_of_notMem (unmarked : mark ∉ piece) : split mark piece = [piece] := by
  induction piece with
  | nil => rfl
  | cons c piece ih =>
      rw [List.mem_cons, not_or] at unmarked
      exact split_cons_of_ne (Ne.symm unmarked.1) (ih unmarked.2)

theorem split_append_mark (unmarked : mark ∉ piece) (rest : List Char) :
    split mark (piece ++ mark :: rest) = piece :: split mark rest := by
  induction piece with
  | nil => exact split_cons_mark mark rest
  | cons c piece ih =>
      rw [List.mem_cons, not_or] at unmarked
      exact split_cons_of_ne (Ne.symm unmarked.1) (ih unmarked.2)

theorem split_intercalate (some_piece : pieces ≠ [])
    (unmarked : ∀ piece ∈ pieces, mark ∉ piece) :
    split mark ([mark].intercalate pieces) = pieces := by
  induction pieces with
  | nil => exact absurd rfl some_piece
  | cons piece pieces ih =>
      have first := unmarked piece List.mem_cons_self
      cases pieces with
      | nil =>
          rw [List.intercalate_singleton]
          exact split_of_notMem first
      | cons piece' pieces =>
          have others := ih (List.cons_ne_nil _ _) fun p later =>
            unmarked p (List.mem_cons_of_mem piece later)
          rw [List.intercalate_cons_cons, List.append_assoc, List.singleton_append,
            split_append_mark first, others]

theorem mem_intercalate {c : Char} (among : c ∈ [mark].intercalate pieces) :
    c = mark ∨ ∃ piece ∈ pieces, c ∈ piece := by
  induction pieces with
  | nil => cases among
  | cons piece pieces ih =>
      cases pieces with
      | nil =>
          rw [List.intercalate_singleton] at among
          exact .inr ⟨piece, List.mem_cons_self, among⟩
      | cons piece' pieces =>
          rw [List.intercalate_cons_cons, List.mem_append, List.mem_append,
            List.mem_singleton] at among
          rcases among with (first | between) | later
          · exact .inr ⟨piece, List.mem_cons_self, first⟩
          · exact .inl between
          · apply (ih later).imp_right
            rintro ⟨p, there, inside⟩
            exact ⟨p, List.mem_cons_of_mem piece there, inside⟩

/-- The fields of a line, with commas between them. An empty line has none. -/
def fields (line : List Char) : List (List Char) := if line = [] then [] else split ',' line

theorem fields_intercalate (whole : ∀ piece ∈ pieces, piece ≠ [] ∧ ',' ∉ piece) :
    fields ([','].intercalate pieces) = pieces := by
  cases pieces with
  | nil => rfl
  | cons piece pieces =>
      have some_text : [','].intercalate (piece :: pieces) ≠ [] := by
        have first := (whole piece List.mem_cons_self).1
        cases pieces with
        | nil => simpa using first
        | cons piece' pieces => simp [List.intercalate_cons_cons]
      rw [fields, if_neg some_text]
      exact split_intercalate (List.cons_ne_nil _ _) fun p there => (whole p there).2

def ofCodes (codes : List Word) : List Char := codes.map fun v => Char.ofNat v.toInt.toNat

/-- The lines of a text that is received, each ended by a newline. -/
def received (codes : List Word) : List (List Char) := (split '\n' (ofCodes codes)).dropLast

theorem ofCodes_append (front back : List Word) :
    ofCodes (front ++ back) = ofCodes front ++ ofCodes back := by
  simp [ofCodes]

theorem ofCodes_charCodes {c : Char} (low : c.toNat < 128) : ofCodes (charCodes c) = [c] := by
  have short : c.val.toNat ≤ 127 := Nat.le_of_lt_succ low
  have byte : (UInt8.ofNat c.val.toNat).toNat = c.toNat := by
    rw [UInt8.toNat_ofNat']
    exact Nat.mod_eq_of_lt (Nat.lt_trans low (by decide))
  have code : (Int64.ofNat c.toNat).toInt = c.toNat := by
    apply Int64.toInt_ofNat_of_lt
    exact Nat.lt_trans low (by decide)
  simp only [charCodes, String.utf8EncodeChar, if_pos short, List.map_cons, List.map_nil, ofCodes,
    byte, code, Int.toNat_natCast, Char.ofNat_toNat]

theorem ofCodes_lineCodes (low : ∀ c ∈ line, c.toNat < 128) :
    ofCodes (lineCodes line) = line ++ ['\n'] := by
  have text : ofCodes (line.flatMap charCodes) = line := by
    induction line with
    | nil => rfl
    | cons c line ih =>
        rw [List.flatMap_cons, ofCodes_append, ofCodes_charCodes (low c List.mem_cons_self),
          ih fun d later => low d (List.mem_cons_of_mem c later)]
        rfl
  rw [lineCodes, ofCodes_append, text]
  rfl

theorem received_lineCodes (low : ∀ line ∈ lines, ∀ c ∈ line, c.toNat < 128 ∧ c ≠ '\n') :
    received (lines.flatMap lineCodes) = lines := by
  have cut : split '\n' (ofCodes (lines.flatMap lineCodes)) = lines ++ [[]] := by
    induction lines with
    | nil => rfl
    | cons line lines ih =>
        have here := low line List.mem_cons_self
        have unbroken : '\n' ∉ line := fun among => (here _ among).2 rfl
        rw [List.flatMap_cons, ofCodes_append, ofCodes_lineCodes fun c among => (here c among).1,
          List.append_assoc, List.singleton_append, split_append_mark unbroken,
          ih fun l later => low l (List.mem_cons_of_mem line later), List.cons_append]
  rw [received, cut, List.dropLast_concat]

end Shipboard.Text
