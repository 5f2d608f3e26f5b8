import Mathlib.Data.List.Forall2
import Shipboard.Listing
import Shipboard.Proofs.Core.Failing
import Shipboard.Proofs.Text.Trimming
import Shipboard.Proofs.Text.Numerals

/-!
The grammar of listings. White space at both ends and then at most one comma at the end are no part
of a listing; what is left, if anything, is tokens with commas between them and white space around
each. A listing whose tokens are all numerals of words gives these words, and any other gives the
first token that is none.
-/

namespace Shipboard

open Text

variable {cs inner token : List Char} {before after pieces tokens : List (List Char)}
variable {v : Word} {xs : List Word}

namespace Listing

/-- What a text is without one comma at its end, if it has one there. -/
inductive Closes : List Char → List Char → Prop
  | comma (inner : List Char) : Closes (inner ++ [',']) inner
  | plain {cs : List Char} (unmarked : cs.getLast? ≠ some ',') : Closes cs cs

inductive Tokenized (cs : List Char) : List (List Char) → Prop
  | empty {text : List Char} (trims : Trims cs text) (closes : Closes text []) : Tokenized cs []
  | pieces {text : List Char} {pieces tokens : List (List Char)} (trims : Trims cs text)
      (closes : Closes text ([','].intercalate pieces)) (some_text : [','].intercalate pieces ≠ [])
      (unmarked : ∀ piece ∈ pieces, ',' ∉ piece) (each : List.Forall₂ Trims pieces tokens) :
      Tokenized cs tokens

/-- The first token that is no word, and how many words are in front of it. -/
def Unreadable.IsFirst (e : Unreadable) (tokens : List (List Char)) : Prop :=
  ∃ before after, tokens = before ++ e.token :: after ∧ before.length = e.index ∧
    (∀ t ∈ before, IsWord t) ∧ ¬ IsWord e.token

theorem Closes.eq (closes : Closes cs inner) :
    (if cs.getLast? = some ',' then cs.dropLast else cs) = inner := by
  cases closes with
  | comma inner => simp
  | plain unmarked => rw [if_neg unmarked]

theorem closes_body (cs : List Char) : Closes (trim cs) (body cs) := by
  simp only [body]
  split
  · rename_i marked
    obtain ⟨inner, same⟩ := List.getLast?_eq_some_iff.mp marked
    rw [same, List.dropLast_concat]
    exact .comma inner
  · rename_i unmarked
    exact .plain unmarked

theorem body_eq (closes : Closes (trim cs) inner) : body cs = inner := closes.eq

theorem tokens_of_empty (none : body cs = []) : Listing.tokens cs = [] := by
  rw [Listing.tokens, none]

theorem tokens_of_body (some_text : body cs ≠ []) :
    Listing.tokens cs = trimmedPieces ',' (body cs) := by
  unfold Listing.tokens
  split
  · contradiction
  · rfl

theorem forall₂_trims_iff : List.Forall₂ Trims pieces tokens ↔ pieces.map trim = tokens := by
  have each : Trims = fun piece token => trim piece = token := by
    funext piece token
    exact propext trims_iff
  rw [each, ← List.forall₂_map_left_iff (R := Eq), List.forall₂_eq_eq_eq]

theorem tokenized_iff : Tokenized cs tokens ↔ Listing.tokens cs = tokens := by
  constructor
  · intro tokenized
    cases tokenized with
    | empty trims closes =>
        rw [← trims.eq_trim] at closes
        exact tokens_of_empty (body_eq closes)
    | @pieces text pieces tokens trims closes some_text unmarked each =>
        rw [← trims.eq_trim] at closes
        have same := body_eq closes
        have some_piece : pieces ≠ [] := by
          rintro rfl
          exact some_text rfl
        rw [tokens_of_body (by rwa [same]), same, trimmedPieces_intercalate some_piece unmarked]
        exact forall₂_trims_iff.mp each
  · rintro rfl
    have closes := closes_body cs
    by_cases none : body cs = []
    · rw [none] at closes
      rw [tokens_of_empty none]
      exact .empty (trims_trim cs) closes
    · rw [tokens_of_body none]
      have text := intercalate_split ',' (body cs)
      refine .pieces (trims_trim cs) ?_ ?_ ?_ (forall₂_trims_iff.mpr rfl)
      · rwa [text]
      · rwa [text]
      · exact fun _ => notMem_of_mem_split

theorem body_cases (cs : List Char) : trim cs = body cs ++ [','] ∨
    (trim cs = body cs ∧ (body cs).getLast? ≠ some ',') := by
  have closes := closes_body cs
  generalize trim cs = text, body cs = inner at closes ⊢
  cases closes with
  | comma => exact .inl rfl
  | plain unmarked => exact .inr ⟨rfl, unmarked⟩

theorem readToken_eq_ok_iff {index : Nat} :
    readToken (token, index) = .ok v ↔ Numeral token v.toInt := by
  rw [← readWord?_eq_some_iff, readToken]
  cases readWord? token <;> simp

theorem readToken_eq_error_iff {index : Nat} {e : Unreadable} :
    readToken (token, index) = .error e ↔ e = ⟨index, token⟩ ∧ ¬ IsWord token := by
  rw [← readWord?_eq_none_iff, readToken]
  cases readWord? token <;> simp [eq_comm]

theorem readAll_eq_ok_iff (start : Nat) :
    (tokens.zipIdx start).mapM readToken = .ok xs ↔
      List.Forall₂ (fun token v => Numeral token v.toInt) tokens xs := by
  induction tokens generalizing start xs with
  | nil => cases xs <;> simp [pure, Except.pure]
  | cons token tokens ih =>
      rw [List.zipIdx_cons, List.mapM_cons]
      constructor
      · intro reads
        obtain ⟨v, first, reads⟩ := ok_of_bind reads
        obtain ⟨vs, others, same⟩ := ok_of_bind reads
        cases same
        exact .cons (readToken_eq_ok_iff.mp first) ((ih (start + 1)).mp others)
      · intro numerals
        cases numerals with
        | cons first others =>
            rw [readToken_eq_ok_iff.mpr first, (ih (start + 1)).mpr others]
            rfl

theorem readAll_append (words : ∀ t ∈ before, IsWord t) (bad : ¬ IsWord token) (start : Nat) :
    ((before ++ token :: after).zipIdx start).mapM readToken =
      .error ⟨start + before.length, token⟩ := by
  induction before generalizing start with
  | nil =>
      have reports : readToken (token, start) = .error ⟨start, token⟩ :=
        readToken_eq_error_iff.mpr ⟨rfl, bad⟩
      rw [List.nil_append, List.zipIdx_cons, List.mapM_cons, reports]
      rfl
  | cons first before ih =>
      obtain ⟨v, reads⟩ := isWord_iff.mp (words first List.mem_cons_self)
      have reads : readToken (first, start) = .ok v :=
        readToken_eq_ok_iff.mpr (readWord?_eq_some_iff.mp reads)
      have later := ih (fun t among => words t (List.mem_cons_of_mem first among)) (start + 1)
      rw [List.cons_append, List.zipIdx_cons, List.mapM_cons, reads, later, List.length_cons,
        Nat.add_right_comm, ← Nat.add_assoc]
      rfl

theorem forall₂_numeral_iff :
    (∃ xs, List.Forall₂ (fun token (v : Word) => Numeral token v.toInt) tokens xs) ↔
      ∀ t ∈ tokens, IsWord t := by
  constructor
  · rintro ⟨xs, numerals⟩
    induction numerals with
    | nil => nofun
    | cons first others ih =>
        intro t among
        rcases List.mem_cons.mp among with rfl | later
        · exact isWord_iff.mpr ⟨_, readWord?_eq_some_iff.mpr first⟩
        · exact ih t later
  · intro words
    induction tokens with
    | nil => exact ⟨[], .nil⟩
    | cons token tokens ih =>
        obtain ⟨v, reads⟩ := isWord_iff.mp (words token List.mem_cons_self)
        obtain ⟨xs, numerals⟩ := ih fun t later => words t (List.mem_cons_of_mem token later)
        exact ⟨v :: xs, .cons (readWord?_eq_some_iff.mp reads) numerals⟩

theorem exists_isFirst (some_bad : ¬ ∀ t ∈ tokens, IsWord t) :
    ∃ e : Unreadable, e.IsFirst tokens := by
  induction tokens with
  | nil => exact absurd nofun some_bad
  | cons token tokens ih =>
      by_cases word : IsWord token
      · have later : ¬ ∀ t ∈ tokens, IsWord t := by
          intro words
          apply some_bad
          simpa using ⟨word, words⟩
        obtain ⟨e, before, after, same, -, words, bad⟩ := ih later
        refine ⟨⟨before.length + 1, e.token⟩, token :: before, after, ?_, rfl, ?_, bad⟩
        · rw [same]
          rfl
        · simpa using ⟨word, words⟩
      · exact ⟨⟨0, token⟩, [], tokens, rfl, rfl, nofun, word⟩

variable {text : String} {e : Unreadable}

theorem read_eq_ok_iff (tokenized : Tokenized text.toList tokens) : Listing.read text = .ok xs ↔
    List.Forall₂ (fun token v => Numeral token v.toInt) tokens xs := by
  rw [Listing.read, tokenized_iff.mp tokenized]
  exact readAll_eq_ok_iff 0

theorem reads_iff (tokenized : Tokenized text.toList tokens) :
    (∃ xs, Listing.read text = .ok xs) ↔ ∀ t ∈ tokens, IsWord t := by
  rw [← forall₂_numeral_iff]
  exact exists_congr fun xs => read_eq_ok_iff tokenized

theorem read_eq_error_of_isFirst (tokenized : Tokenized text.toList tokens)
    (first : e.IsFirst tokens) : Listing.read text = .error e := by
  obtain ⟨before, after, rfl, place, words, bad⟩ := first
  rw [Listing.read, tokenized_iff.mp tokenized, readAll_append words bad, Nat.zero_add, place]

theorem read_eq_error_iff (tokenized : Tokenized text.toList tokens) :
    Listing.read text = .error e ↔ e.IsFirst tokens := by
  constructor
  · intro fails
    have some_bad : ¬ ∀ t ∈ tokens, IsWord t := by
      intro words
      obtain ⟨xs, reads⟩ := (reads_iff tokenized).mpr words
      rw [reads] at fails
      cases fails
    obtain ⟨e', first⟩ := exists_isFirst some_bad
    have fails' := read_eq_error_of_isFirst tokenized first
    rw [fails] at fails'
    cases fails'
    exact first
  · exact read_eq_error_of_isFirst tokenized

theorem read_fails (tokenized : Tokenized text.toList (before ++ token :: after))
    (bad : ¬ IsWord token) :
    ∃ e, Listing.read text = .error e ∧ e.index ≤ before.length := by
  have some_bad : ¬ ∀ t ∈ before ++ token :: after, IsWord t := fun words =>
    bad (words token (by simp))
  obtain ⟨e, first⟩ := exists_isFirst some_bad
  refine ⟨e, read_eq_error_of_isFirst tokenized first, ?_⟩
  obtain ⟨front, back, same, place, words, -⟩ := first
  by_contra beyond
  have inside : before.length < front.length := by omega
  have here : (front ++ e.token :: back)[before.length]? = some token := by simp [← same]
  rw [List.getElem?_append_left inside] at here
  exact bad (words token (List.mem_of_getElem? here))

end Listing

end Shipboard
