import Mathlib.Data.List.DropRight
import Shipboard.Proofs.Text.Pieces

/-!
White space around text and around its pieces. What trimming leaves is the text between white space
that neither starts nor ends with any, and this says what it is. White space at the ends of a text
belongs to its first and last piece, so the trimmed pieces do not depend on it.
-/

namespace Shipboard.Text

variable {mark : Char} {cs front back inner piece : List Char} {pieces : List (List Char)}

def Blank (cs : List Char) : Prop := ∀ c ∈ cs, isBlank c = true

instance (cs : List Char) : Decidable (Blank cs) :=
  List.decidableBAll (fun c => isBlank c = true) cs

/-- The text `inner` is what `cs` has between the white space at its ends. -/
structure Trims (cs inner : List Char) : Prop where
  around : ∃ front back, cs = front ++ inner ++ back ∧ Blank front ∧ Blank back
  first : ∀ c ∈ inner.head?, isBlank c = false
  last : ∀ c ∈ inner.getLast?, isBlank c = false

theorem Blank.notMem (blank : Blank cs) (dark : isBlank mark = false) : mark ∉ cs := by
  intro among
  have light := blank mark among
  rw [dark] at light
  cases light

theorem trim_eq (cs : List Char) : trim cs = (cs.dropWhile isBlank).rdropWhile isBlank := rfl

theorem trim_append_left (blank : Blank front) (cs : List Char) : trim (front ++ cs) = trim cs := by
  rw [trim_eq, trim_eq, List.dropWhile_append_of_pos blank]

theorem trim_append_right (blank : Blank back) (cs : List Char) : trim (cs ++ back) = trim cs := by
  have gone : back.dropWhile isBlank = [] := List.dropWhile_eq_nil_iff.mpr blank
  have reversed : ∀ c ∈ back.reverse, isBlank c = true := fun c among =>
    blank c (List.mem_reverse.mp among)
  rw [trim_eq, trim_eq, List.dropWhile_append, gone]
  split
  · rename_i none
    rw [List.isEmpty_iff.mp none]
  · rw [List.rdropWhile, List.rdropWhile, List.reverse_append,
      List.dropWhile_append_of_pos reversed]

theorem trim_of_ends (first : ∀ c ∈ cs.head?, isBlank c = false)
    (last : ∀ c ∈ cs.getLast?, isBlank c = false) : trim cs = cs := by
  have start : cs.dropWhile isBlank = cs := by
    cases cs with
    | nil => rfl
    | cons c cs => exact List.dropWhile_cons_of_neg (by simp [first c rfl])
  rw [trim_eq, start, List.rdropWhile_eq_self_iff]
  intro some_text
  have dark := last _ (List.getLast?_eq_some_getLast some_text)
  simp [dark]

theorem trims_trim (cs : List Char) : Trims cs (trim cs) := by
  have start : cs.takeWhile isBlank ++ cs.dropWhile isBlank = cs := List.takeWhile_append_dropWhile
  have rest : trim cs ++ (cs.dropWhile isBlank).rtakeWhile isBlank = cs.dropWhile isBlank :=
    List.rdropWhile_append_rtakeWhile
  refine { around := ⟨cs.takeWhile isBlank, (cs.dropWhile isBlank).rtakeWhile isBlank, ?_, ?_, ?_⟩
           first := ?_
           last := ?_ }
  · rw [List.append_assoc, rest, start]
  · intro c among
    exact List.mem_takeWhile_imp among
  · intro c among
    exact List.mem_rtakeWhile_imp among
  · intro c head
    have dropped := List.head?_dropWhile_not isBlank cs
    rw [← rest, List.head?_append, Option.mem_def.mp head] at dropped
    exact dropped
  · intro c final
    have some_text : trim cs ≠ [] := by
      rintro none
      rw [none] at final
      cases final
    have stopped := List.rdropWhile_last_not isBlank (cs.dropWhile isBlank) some_text
    rw [List.getLast?_eq_some_getLast some_text] at final
    cases final
    simpa [trim_eq] using stopped

theorem Trims.eq_trim (trims : Trims cs inner) : trim cs = inner := by
  obtain ⟨front, back, rfl, before, behind⟩ := trims.around
  rw [trim_append_right behind, trim_append_left before, trim_of_ends trims.first trims.last]

theorem trims_iff : Trims cs inner ↔ trim cs = inner := by
  constructor
  · exact Trims.eq_trim
  · rintro rfl
    exact trims_trim cs

theorem trim_eq_nil_iff : trim cs = [] ↔ Blank cs := by
  constructor
  · intro none
    obtain ⟨front, back, same, before, behind⟩ := (trims_trim cs).around
    rw [none, List.append_nil] at same
    rw [same]
    intro c among
    rcases List.mem_append.mp among with left | right
    · exact before c left
    · exact behind c right
  · intro blank
    have none := trim_append_left blank []
    rwa [List.append_nil] at none

theorem intercalate_split (mark : Char) (cs : List Char) :
    [mark].intercalate (split mark cs) = cs := by
  induction cs with
  | nil => rfl
  | cons c cs ih =>
      obtain ⟨piece, pieces, cut⟩ := List.exists_cons_of_ne_nil (split_ne_nil mark cs)
      rw [cut] at ih
      by_cases here : c = mark
      · subst here
        rw [split_cons_mark, cut, List.intercalate_cons_cons, ih]
        rfl
      · rw [split_cons_of_ne here cut]
        cases pieces with
        | nil =>
            rw [List.intercalate_singleton] at ih ⊢
            rw [ih]
        | cons piece' pieces =>
            rw [List.intercalate_cons_cons] at ih ⊢
            rw [← ih]
            simp

theorem notMem_of_mem_split (among : piece ∈ split mark cs) : mark ∉ piece := by
  induction cs generalizing piece with
  | nil =>
      rw [List.mem_singleton.mp among]
      exact List.not_mem_nil
  | cons c cs ih =>
      obtain ⟨head, pieces, cut⟩ := List.exists_cons_of_ne_nil (split_ne_nil mark cs)
      rw [cut] at ih
      by_cases here : c = mark
      · subst here
        rw [split_cons_mark, cut] at among
        rcases List.mem_cons.mp among with rfl | later
        · exact List.not_mem_nil
        · exact ih later
      · rw [split_cons_of_ne here cut] at among
        rcases List.mem_cons.mp among with rfl | later
        · have before := ih List.mem_cons_self
          simp [Ne.symm here, before]
        · exact ih (List.mem_cons_of_mem head later)

theorem split_append_front (unmarked : mark ∉ front) (cut : split mark cs = piece :: pieces) :
    split mark (front ++ cs) = (front ++ piece) :: pieces := by
  induction front with
  | nil => exact cut
  | cons c front ih =>
      rw [List.mem_cons, not_or] at unmarked
      exact split_cons_of_ne (Ne.symm unmarked.1) (ih unmarked.2)

theorem split_append_back (unmarked : mark ∉ back) (cs : List Char) :
    ∃ pieces piece, split mark cs = pieces ++ [piece] ∧
      split mark (cs ++ back) = pieces ++ [piece ++ back] := by
  induction cs with
  | nil => exact ⟨[], [], rfl, split_of_notMem unmarked⟩
  | cons c cs ih =>
      obtain ⟨pieces, piece, cut, cut'⟩ := ih
      by_cases here : c = mark
      · subst here
        refine ⟨[] :: pieces, piece, ?_, ?_⟩
        · rw [split_cons_mark, cut]
          rfl
        · rw [List.cons_append, split_cons_mark, cut']
          rfl
      · cases pieces with
        | nil => exact ⟨[], c :: piece, split_cons_of_ne here cut, split_cons_of_ne here cut'⟩
        | cons head pieces =>
            exact ⟨(c :: head) :: pieces, piece, split_cons_of_ne here cut,
              split_cons_of_ne here cut'⟩

theorem split_append_cons_mark (mark : Char) (cs rest : List Char) :
    split mark (cs ++ mark :: rest) = split mark cs ++ split mark rest := by
  induction cs with
  | nil => exact split_cons_mark mark rest
  | cons c cs ih =>
      obtain ⟨piece, pieces, cut⟩ := List.exists_cons_of_ne_nil (split_ne_nil mark cs)
      rw [cut, List.cons_append] at ih
      by_cases here : c = mark
      · subst here
        rw [List.cons_append, split_cons_mark, split_cons_mark, ih, cut]
        rfl
      · rw [List.cons_append, split_cons_of_ne here ih, split_cons_of_ne here cut]
        rfl

def trimmedPieces (mark : Char) (cs : List Char) : List (List Char) := (split mark cs).map trim

theorem trimmedPieces_append_front (dark : isBlank mark = false) (blank : Blank front)
    (cs : List Char) : trimmedPieces mark (front ++ cs) = trimmedPieces mark cs := by
  obtain ⟨piece, pieces, cut⟩ := List.exists_cons_of_ne_nil (split_ne_nil mark cs)
  rw [trimmedPieces, trimmedPieces, split_append_front (blank.notMem dark) cut, cut, List.map_cons,
    List.map_cons, trim_append_left blank]

theorem trimmedPieces_append_back (dark : isBlank mark = false) (blank : Blank back)
    (cs : List Char) : trimmedPieces mark (cs ++ back) = trimmedPieces mark cs := by
  obtain ⟨pieces, piece, cut, cut'⟩ := split_append_back (blank.notMem dark) cs
  rw [trimmedPieces, trimmedPieces, cut, cut', List.map_append, List.map_append, List.map_singleton,
    List.map_singleton, trim_append_right blank]

theorem trimmedPieces_trim (dark : isBlank mark = false) (cs : List Char) :
    trimmedPieces mark (trim cs) = trimmedPieces mark cs := by
  obtain ⟨front, back, same, before, behind⟩ := (trims_trim cs).around
  conv_rhs => rw [same]
  rw [trimmedPieces_append_back dark behind, trimmedPieces_append_front dark before]

theorem trimmedPieces_append_cons_mark (mark : Char) (cs rest : List Char) :
    trimmedPieces mark (cs ++ mark :: rest) = trimmedPieces mark cs ++ trimmedPieces mark rest := by
  rw [trimmedPieces, trimmedPieces, trimmedPieces, split_append_cons_mark, List.map_append]

theorem trimmedPieces_intercalate (some_piece : pieces ≠ [])
    (unmarked : ∀ piece ∈ pieces, mark ∉ piece) :
    trimmedPieces mark ([mark].intercalate pieces) = pieces.map trim := by
  rw [trimmedPieces, split_intercalate some_piece unmarked]

theorem trimmedPieces_of_blank (dark : isBlank mark = false) (blank : Blank cs) :
    trimmedPieces mark cs = [[]] := by
  rw [trimmedPieces, split_of_notMem (blank.notMem dark), List.map_singleton,
    trim_eq_nil_iff.mpr blank]

end Shipboard.Text
