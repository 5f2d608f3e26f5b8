import Shipboard.Proofs.Listing.Grammar

/-!
Listings of numbers that are printed. The tokens of a text are its trimmed pieces between commas,
less an empty one at the end; so numbers in decimal with white space around them are read back with
or without a comma behind the last, and a comma too many or a sign without digits is reported at its
place.
-/

namespace Shipboard

open Text

variable {c : Char} {cs token piece space : List Char} {before after pieces : List (List Char)}

namespace Listing

/-- A number in decimal with white space in front of it and behind it. -/
structure Printed where
  front : List Char
  number : Word
  behind : List Char
  blank_front : Blank front
  blank_behind : Blank behind

def Printed.digits (p : Printed) : List Char := intDigits p.number.toInt

def Printed.text (p : Printed) : List Char := p.front ++ p.digits ++ p.behind

variable {p : Printed} {ps : List Printed}

theorem isBlank_comma : isBlank ',' = false := by decide

theorem trim_ne_nil_of_concat (dark : isBlank c = false) : trim (cs ++ [c]) ≠ [] := by
  intro none
  have light := trim_eq_nil_iff.mp none c (by simp)
  rw [dark] at light
  cases light

theorem getLast?_trimmedPieces (some_text : trim cs ≠ [])
    (unmarked : (trim cs).getLast? ≠ some ',') :
    (trimmedPieces ',' cs).getLast? ≠ some [] := by
  obtain ⟨front, c, same⟩ := List.eq_nil_or_concat' (trim cs) |>.resolve_left some_text
  have dark := (trims_trim cs).last c (by simp [same])
  have other : ',' ∉ [c] := by simpa [same, eq_comm] using unmarked
  obtain ⟨pieces, piece, -, cut⟩ := split_append_back other front
  rw [← trimmedPieces_trim isBlank_comma, same, trimmedPieces, cut]
  simpa using trim_ne_nil_of_concat dark

/-- What the trimmed pieces of a text have that its tokens do not. -/
theorem trimmedPieces_cases (cs : List Char) :
    trimmedPieces ',' cs = tokens cs ++ [[]] ∨
    (trimmedPieces ',' cs = tokens cs ∧ (tokens cs).getLast? ≠ some []) ∨
    (trimmedPieces ',' cs = [[], []] ∧ tokens cs = []) := by
  have trimmed := trimmedPieces_trim isBlank_comma cs
  have nothing : trimmedPieces ',' [] = [[]] := rfl
  -- A comma at the end leaves an empty piece behind it that is no token.
  rcases body_cases cs with comma | ⟨plain, unmarked⟩
  · have whole := trimmedPieces_append_cons_mark ',' (body cs) []
    rw [← comma, trimmed, nothing] at whole
    by_cases none : body cs = []
    · rw [none, nothing] at whole
      exact .inr (.inr ⟨whole, tokens_of_empty none⟩)
    · rw [← tokens_of_body none] at whole
      exact .inl whole
  · by_cases none : body cs = []
    · rw [plain, none, nothing] at trimmed
      rw [tokens_of_empty none]
      exact .inl trimmed.symm
    · have last := getLast?_trimmedPieces (by rwa [plain]) (by rwa [plain])
      rw [plain, ← tokens_of_body none] at trimmed
      rw [← trimmed] at last ⊢
      exact .inr (.inl ⟨rfl, last⟩)

theorem tokens_of_trimmedPieces (last : pieces.getLast? ≠ some [])
    (cut : trimmedPieces ',' cs = pieces ∨ trimmedPieces ',' cs = pieces ++ [[]]) :
    tokens cs = pieces := by
  rcases trimmedPieces_cases cs with whole | ⟨whole, own⟩ | ⟨whole, -⟩
  · rcases cut with cut | cut
    · rw [← cut, whole] at last
      simp at last
    · rw [whole] at cut
      exact List.append_cancel_right cut
  · rcases cut with cut | cut
    · rw [← whole, cut]
    · rw [← whole, cut] at own
      simp at own
  · rcases cut with cut | cut
    · rw [← cut, whole] at last
      simp at last
    · have alone : [[]] = pieces := List.append_cancel_right (whole.symm.trans cut)
      rw [← alone] at last
      simp at last

theorem tokens_of_trimmedPieces_append (cut : trimmedPieces ',' cs = before ++ token :: after)
    (stays : token ≠ [] ∨ after ≠ [] ∧ (before ≠ [] ∨ after ≠ [[]])) :
    ∃ after', tokens cs = before ++ token :: after' := by
  rcases trimmedPieces_cases cs with whole | ⟨whole, -⟩ | ⟨whole, -⟩
  · rw [cut] at whole
    rcases List.eq_nil_or_concat' after with rfl | ⟨after, last, rfl⟩
    · have empty : token = [] := by simpa using List.append_inj_right' whole rfl
      rcases stays with some_text | ⟨later, -⟩
      · exact absurd empty some_text
      · exact absurd rfl later
    · refine ⟨after, ?_⟩
      rw [← List.cons_append, ← List.append_assoc] at whole
      exact (List.append_inj_left' whole rfl).symm
  · exact ⟨after, whole.symm.trans cut⟩
  · rw [cut] at whole
    cases before with
    | nil =>
        obtain ⟨rfl, rfl⟩ := List.cons.inj whole
        simp at stays
    | cons first before =>
        obtain ⟨-, rest⟩ := List.cons.inj whole
        obtain ⟨rfl, rfl, rfl⟩ : before = [] ∧ token = [] ∧ after = [] := by
          simpa [List.append_eq_singleton_iff] using rest
        simp at stays

theorem tokens_comma (blank : Blank space) : tokens (',' :: space) = [] := by
  have comma : trim (',' :: space) = [','] := trim_append_right blank [',']
  apply tokens_of_empty
  simp [body, comma]

theorem isBlank_of_isDigit (digit : c.isDigit = true) : isBlank c = false := by
  obtain ⟨d, small, rfl⟩ := exists_digitChar digit
  revert d
  decide

theorem Printed.isBlank_digits (among : c ∈ p.digits) : isBlank c = false := by
  rcases mem_intDigits among with rfl | digit
  · decide
  · exact isBlank_of_isDigit digit

theorem Printed.comma_notMem (p : Printed) : ',' ∉ p.text := by
  have number : ',' ∉ p.digits := by
    intro among
    rcases mem_intDigits among with sign | digit
    · cases sign
    · cases digit
  simp only [Printed.text, List.mem_append, not_or]
  exact ⟨⟨p.blank_front.notMem isBlank_comma, number⟩, p.blank_behind.notMem isBlank_comma⟩

theorem Printed.trim_text (p : Printed) : trim p.text = p.digits := by
  rw [Printed.text, trim_append_right p.blank_behind, trim_append_left p.blank_front]
  apply trim_of_ends
  · intro c first
    exact Printed.isBlank_digits (List.mem_of_mem_head? first)
  · intro c last
    exact Printed.isBlank_digits (List.mem_of_mem_getLast? last)

theorem Printed.digits_ne_nil (p : Printed) : p.digits ≠ [] := intDigits_ne_nil _

theorem Printed.numeral (p : Printed) : Numeral p.digits p.number.toInt := numeral_intDigits _

theorem Printed.isWord (p : Printed) : IsWord p.digits :=
  isWord_iff.mpr ⟨p.number, readWord?_eq_some_iff.mpr p.numeral⟩

theorem trim_texts (ps : List Printed) :
    (ps.map Printed.text).map trim = ps.map Printed.digits := by
  rw [List.map_map]
  exact List.map_congr_left fun p _ => p.trim_text

theorem comma_notMem_texts (ps : List Printed) : ∀ piece ∈ ps.map Printed.text, ',' ∉ piece := by
  intro piece among
  obtain ⟨p, -, rfl⟩ := List.mem_map.mp among
  exact p.comma_notMem

theorem isWord_digits (ps : List Printed) : ∀ t ∈ ps.map Printed.digits, IsWord t := by
  intro t among
  obtain ⟨p, -, rfl⟩ := List.mem_map.mp among
  exact p.isWord

theorem trimmedPieces_texts (some_number : ps ≠ []) :
    trimmedPieces ',' ([','].intercalate (ps.map Printed.text)) = ps.map Printed.digits := by
  have some_piece : ps.map Printed.text ≠ [] := by simpa using some_number
  rw [trimmedPieces_intercalate some_piece (comma_notMem_texts ps), trim_texts]

theorem trimmedPieces_texts_append (ps : List Printed) (unmarked : ∀ piece ∈ pieces, ',' ∉ piece)
    (some_piece : pieces ≠ []) :
    trimmedPieces ',' ([','].intercalate (ps.map Printed.text ++ pieces)) =
      ps.map Printed.digits ++ pieces.map trim := by
  rw [trimmedPieces_intercalate, List.map_append, trim_texts]
  · exact List.append_ne_nil_of_right_ne_nil _ some_piece
  · intro piece among
    rcases List.mem_append.mp among with number | other
    · exact comma_notMem_texts ps piece number
    · exact unmarked piece other

theorem getLast?_digits (ps : List Printed) : (ps.map Printed.digits).getLast? ≠ some [] := by
  rw [List.getLast?_map]
  intro last
  obtain ⟨p, -, none⟩ := Option.map_eq_some_iff.mp last
  exact p.digits_ne_nil none

theorem tokens_texts (ps : List Printed) :
    tokens ([','].intercalate (ps.map Printed.text)) = ps.map Printed.digits := by
  by_cases none : ps = []
  · subst none
    rfl
  · exact tokens_of_trimmedPieces (getLast?_digits ps) (.inl (trimmedPieces_texts none))

theorem tokens_texts_comma (ps : List Printed) (blank : Blank space) :
    tokens ([','].intercalate (ps.map Printed.text) ++ ',' :: space) = ps.map Printed.digits := by
  by_cases none : ps = []
  · subst none
    exact tokens_comma blank
  · apply tokens_of_trimmedPieces (getLast?_digits ps) (.inr _)
    rw [trimmedPieces_append_cons_mark, trimmedPieces_texts none,
      trimmedPieces_of_blank isBlank_comma blank]

theorem read_eq_numbers (same : tokens cs = ps.map Printed.digits) :
    Listing.read (String.ofList cs) = .ok (ps.map Printed.number) := by
  have tokenized : Tokenized (String.ofList cs).toList (ps.map Printed.digits) := by
    rw [String.toList_ofList]
    exact tokenized_iff.mpr same
  apply (read_eq_ok_iff tokenized).mpr
  rw [List.forall₂_map_left_iff, List.forall₂_map_right_iff, List.forall₂_same]
  exact fun p _ => p.numeral

theorem read_eq_error (cut : trimmedPieces ',' cs = ps.map Printed.digits ++ token :: after)
    (stays : token ≠ [] ∨ after ≠ [] ∧ (ps ≠ [] ∨ after ≠ [[]])) (bad : ¬ IsWord token) :
    Listing.read (String.ofList cs) = .error ⟨ps.length, token⟩ := by
  have stays' : token ≠ [] ∨ after ≠ [] ∧ (ps.map Printed.digits ≠ [] ∨ after ≠ [[]]) := by
    simpa using stays
  obtain ⟨after', same⟩ := tokens_of_trimmedPieces_append cut stays'
  have tokenized : Tokenized (String.ofList cs).toList
      (ps.map Printed.digits ++ token :: after') := by
    rw [String.toList_ofList]
    exact tokenized_iff.mpr same
  apply read_eq_error_of_isFirst tokenized
  exact ⟨_, after', rfl, List.length_map _, isWord_digits ps, bad⟩

theorem not_isWord_empty : ¬ IsWord [] := not_isWord_of_no_digit nofun

theorem not_isWord_sign (sign : c = '+' ∨ c = '-') : ¬ IsWord [c] := by
  apply not_isWord_of_no_digit
  intro d alone
  rw [List.mem_singleton.mp alone]
  rcases sign with rfl | rfl <;> rfl

theorem read_second_comma {space' : List Char} (ps : List Printed) (blank : Blank space)
    (blank' : Blank space') :
    Listing.read (String.ofList ([','].intercalate (ps.map Printed.text) ++
      ',' :: space ++ ',' :: space')) = .error ⟨ps.length, []⟩ := by
  have cut : trimmedPieces ',' ([','].intercalate (ps.map Printed.text) ++
      ',' :: space ++ ',' :: space') =
      trimmedPieces ',' ([','].intercalate (ps.map Printed.text)) ++ [[], []] := by
    rw [trimmedPieces_append_cons_mark, trimmedPieces_append_cons_mark,
      trimmedPieces_of_blank isBlank_comma blank, trimmedPieces_of_blank isBlank_comma blank',
      List.append_assoc]
    rfl
  by_cases none : ps = []
  · subst none
    exact read_eq_error cut (.inr ⟨by simp, .inr (by simp)⟩) not_isWord_empty
  · rw [trimmedPieces_texts none] at cut
    exact read_eq_error cut (.inr ⟨by simp, .inl none⟩) not_isWord_empty

theorem read_empty_token (ps : List Printed) (blank : Blank space)
    (unmarked : ∀ piece ∈ pieces, ',' ∉ piece) (some_piece : pieces ≠ [])
    (inside : ps ≠ [] ∨ pieces.map trim ≠ [[]]) :
    Listing.read (String.ofList ([','].intercalate (ps.map Printed.text ++ space :: pieces))) =
      .error ⟨ps.length, []⟩ := by
  have unmarked' : ∀ piece ∈ space :: pieces, ',' ∉ piece :=
    List.forall_mem_cons.mpr ⟨blank.notMem isBlank_comma, unmarked⟩
  have cut := trimmedPieces_texts_append ps unmarked' (List.cons_ne_nil _ _)
  rw [List.map_cons, trim_eq_nil_iff.mpr blank] at cut
  exact read_eq_error cut (.inr ⟨by simpa using some_piece, inside⟩) not_isWord_empty

theorem read_lone_sign {front behind : List Char} (ps : List Printed) (sign : c = '+' ∨ c = '-')
    (blank : Blank front) (blank' : Blank behind) (unmarked : ∀ piece ∈ pieces, ',' ∉ piece) :
    Listing.read (String.ofList ([','].intercalate
      (ps.map Printed.text ++ (front ++ [c] ++ behind) :: pieces))) =
      .error ⟨ps.length, [c]⟩ := by
  have alone : trim (front ++ [c] ++ behind) = [c] := by
    rw [trim_append_right blank', trim_append_left blank]
    rcases sign with rfl | rfl <;> rfl
  have here : ',' ∉ front ++ [c] ++ behind := by
    have other : ',' ∉ [c] := by
      rcases sign with rfl | rfl <;> decide
    simp only [List.mem_append, not_or]
    exact ⟨⟨blank.notMem isBlank_comma, other⟩, blank'.notMem isBlank_comma⟩
  have unmarked' : ∀ piece ∈ (front ++ [c] ++ behind) :: pieces, ',' ∉ piece :=
    List.forall_mem_cons.mpr ⟨here, unmarked⟩
  have cut := trimmedPieces_texts_append ps unmarked' (List.cons_ne_nil _ _)
  rw [List.map_cons, alone] at cut
  exact read_eq_error cut (.inl (List.cons_ne_nil _ _)) (not_isWord_sign sign)

end Listing

open Listing

/-- Reading accepts exactly the texts whose tokens are numerals of words, and gives these words; for
any other text it gives the first token that is none. -/
theorem listing_reads_grammar :
    (∀ text : String, ∃ tokens, (∀ ts, Tokenized text.toList ts ↔ ts = tokens) ∧
      (∀ xs, read text = .ok xs ↔
        List.Forall₂ (fun token (v : Word) => Numeral token v.toInt) tokens xs) ∧
      ((∃ xs, read text = .ok xs) ↔ ∀ t ∈ tokens, IsWord t) ∧
      (∀ e, read text = .error e ↔ e.IsFirst tokens) ∧
      ∀ before t after, tokens = before ++ t :: after → (t = [] ∨ t = ['+'] ∨ t = ['-']) →
        ∃ e, read text = .error e ∧ e.index ≤ before.length) ∧
    (∀ (ps : List Printed) (space : List Char), Blank space →
      read (String.ofList ([','].intercalate (ps.map Printed.text))) =
        .ok (ps.map Printed.number) ∧
      read (String.ofList ([','].intercalate (ps.map Printed.text) ++ ',' :: space)) =
        .ok (ps.map Printed.number) ∧
      ∀ space', Blank space' →
        read (String.ofList ([','].intercalate (ps.map Printed.text) ++
          ',' :: space ++ ',' :: space')) = .error ⟨ps.length, []⟩) ∧
    ∀ (ps : List Printed) (pieces : List (List Char)), (∀ piece ∈ pieces, ',' ∉ piece) →
      (∀ space, Blank space → pieces ≠ [] → (ps ≠ [] ∨ pieces.map trim ≠ [[]]) →
        read (String.ofList ([','].intercalate (ps.map Printed.text ++ space :: pieces))) =
          .error ⟨ps.length, []⟩) ∧
      ∀ front c behind, Blank front → (c = '+' ∨ c = '-') → Blank behind →
        read (String.ofList ([','].intercalate
          (ps.map Printed.text ++ (front ++ [c] ++ behind) :: pieces))) =
          .error ⟨ps.length, [c]⟩ := by
  refine ⟨?_, ?_, ?_⟩
  · intro text
    have tokenized : Tokenized text.toList (tokens text.toList) := tokenized_iff.mpr rfl
    refine ⟨tokens text.toList, ?_, fun xs => read_eq_ok_iff tokenized, reads_iff tokenized,
      fun e => read_eq_error_iff tokenized, ?_⟩
    · intro ts
      rw [tokenized_iff, eq_comm]
    · intro before t after same bad
      rw [same] at tokenized
      apply read_fails tokenized
      rcases bad with rfl | rfl | rfl
      · exact not_isWord_empty
      · exact not_isWord_sign (.inl rfl)
      · exact not_isWord_sign (.inr rfl)
  · intro ps space blank
    refine ⟨?_, ?_, ?_⟩
    · exact read_eq_numbers (tokens_texts ps)
    · exact read_eq_numbers (tokens_texts_comma ps blank)
    · exact fun space' blank' => read_second_comma ps blank blank'
  · intro ps pieces unmarked
    constructor
    · intro space blank some_piece inside
      exact read_empty_token ps blank unmarked some_piece inside
    · intro front c behind blank sign blank'
      exact read_lone_sign ps sign blank blank' unmarked

def extremes : List Printed :=
  [⟨[' '], Int64.minValue, ['\n'], by decide, by decide⟩,
    ⟨[], Int64.maxValue, ['\u3000'], by decide, by decide⟩]

theorem listing_reads_grammar_extremes :
    Blank ['\t'] ∧
    read " -9223372036854775808\n,9223372036854775807\u3000,\t" =
      .ok [Int64.minValue, Int64.maxValue] ∧
    read " -9223372036854775808\n,9223372036854775807\u3000,\t,\t" = .error ⟨2, []⟩ ∧
    read " -9223372036854775808\n,9223372036854775807\u3000,\t, -0" = .error ⟨2, []⟩ ∧
    read " -9223372036854775808\n,9223372036854775807\u3000,\t+\t, -0" = .error ⟨2, ['+']⟩ := by
  have blank : Blank ['\t'] := by decide
  obtain ⟨-, printed, faulty⟩ := listing_reads_grammar
  obtain ⟨-, comma, second⟩ := printed extremes ['\t'] blank
  obtain ⟨empty, lone⟩ := faulty extremes [[' ', '-', '0']] (by decide)
  refine ⟨blank, comma, second ['\t'] blank, ?_, ?_⟩
  · exact empty ['\t'] blank (by decide) (.inl (by simp [extremes]))
  · exact lone ['\t'] '+' ['\t'] blank (.inl rfl) blank

end Shipboard
