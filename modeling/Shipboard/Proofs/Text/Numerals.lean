import Mathlib.Algebra.Group.Int.Defs
import Mathlib.Data.List.Infix
import Shipboard.Text

/-!
Numbers in decimal. A numeral is at most one sign and then one or more digits, and its value is read
off its places; reading accepts the numerals whose value is in the range of words and no other text.
-/

namespace Shipboard.Text

variable {c : Char} {cs front : List Char} {n : Nat} {v : Word}

/-- One or more digits and their value, place by place. Leading zeros count for nothing. -/
inductive Places : List Char → Nat → Prop
  | digit {d : Nat} (small : d < 10) : Places [Nat.digitChar d] d
  | snoc {front : List Char} {n d : Nat} (before : Places front n) (small : d < 10) :
      Places (front ++ [Nat.digitChar d]) (10 * n + d)

/-- At most one sign in front of digits, and the value with that sign. -/
inductive Numeral : List Char → Int → Prop
  | plain {cs : List Char} {n : Nat} (places : Places cs n) : Numeral cs n
  | plus {cs : List Char} {n : Nat} (places : Places cs n) : Numeral ('+' :: cs) n
  | minus {cs : List Char} {n : Nat} (places : Places cs n) : Numeral ('-' :: cs) (-n)

def IsWord (cs : List Char) : Prop := ∃ n, Numeral cs n ∧ -2 ^ 63 ≤ n ∧ n ≤ 2 ^ 63 - 1

theorem exists_digitChar (digit : c.isDigit = true) : ∃ d < 10, c = Nat.digitChar d := by
  simp only [Char.isDigit, Bool.and_eq_true, decide_eq_true_eq] at digit
  have low : 48 ≤ c.toNat := digit.1
  have high : c.toNat ≤ 57 := digit.2
  refine ⟨c.toNat - 48, by omega, ?_⟩
  apply Char.toNat_inj.mp
  rw [Nat.toNat_digitChar_of_lt_ten (by omega)]
  omega

theorem isDigit_digitChar {d : Nat} (small : d < 10) : (Nat.digitChar d).isDigit = true := by
  rw [Nat.isDigit_digitChar, decide_eq_true small]

theorem Places.isDigit (places : Places cs n) : ∀ c ∈ cs, c.isDigit = true := by
  induction places with
  | digit small =>
      intro c among
      rw [List.mem_singleton.mp among]
      exact isDigit_digitChar small
  | snoc before small ih =>
      intro c among
      rcases List.mem_append.mp among with earlier | last
      · exact ih c earlier
      · rw [List.mem_singleton.mp last]
        exact isDigit_digitChar small

theorem Places.ne_nil (places : Places cs n) : cs ≠ [] := by
  cases places <;> simp

theorem Places.value (places : Places cs n) : Nat.ofDigitChars 10 cs 0 = n := by
  induction places with
  | digit small => simp [Nat.ofDigitChars_cons_digitChar_of_lt_ten small]
  | snoc before small ih =>
      rw [Nat.ofDigitChars_append, ih, Nat.ofDigitChars_cons_digitChar_of_lt_ten small,
        Nat.ofDigitChars_nil]

theorem places_of_isDigit (some_digit : cs ≠ []) (digits : ∀ c ∈ cs, c.isDigit = true) :
    Places cs (Nat.ofDigitChars 10 cs 0) := by
  induction cs using List.reverseRecOn with
  | nil => exact absurd rfl some_digit
  | append_singleton front c ih =>
      obtain ⟨d, small, rfl⟩ := exists_digitChar (digits c (by simp))
      rw [Nat.ofDigitChars_append, Nat.ofDigitChars_cons_digitChar_of_lt_ten small,
        Nat.ofDigitChars_nil]
      by_cases alone : front = []
      · subst alone
        simpa using Places.digit small
      · exact .snoc (ih alone fun c earlier => digits c (List.mem_append_left _ earlier)) small

theorem readNat?_eq_some_iff : readNat? cs = some n ↔ Places cs n := by
  constructor
  · intro reads
    unfold readNat? at reads
    split at reads
    · rename_i whole
      cases reads
      simp only [Bool.and_eq_true, Bool.not_eq_true', List.isEmpty_eq_false_iff, List.all_eq_true]
        at whole
      exact places_of_isDigit whole.1 whole.2
    · cases reads
  · intro places
    have whole : (!cs.isEmpty && cs.all Char.isDigit) = true := by
      simpa [places.ne_nil] using places.isDigit
    rw [readNat?, if_pos whole, places.value]

theorem Places.head_isDigit (places : Places (c :: cs) n) : c.isDigit = true :=
  places.isDigit c List.mem_cons_self

theorem exists_places {k : Int} (reads : (do let n ← readNat? cs; pure (n : Int)) = some k) :
    ∃ n : Nat, Places cs n ∧ (n : Int) = k := by
  obtain ⟨n, digits, same⟩ := Option.bind_eq_some_iff.mp reads
  exact ⟨n, readNat?_eq_some_iff.mp digits, Option.some.inj same⟩

theorem readInt?_eq_some_iff {n : Int} : readInt? cs = some n ↔ Numeral cs n := by
  constructor
  · intro reads
    unfold readInt? at reads
    split at reads
    · obtain ⟨k, digits, rfl⟩ := Option.map_eq_some_iff.mp reads
      obtain ⟨n, places, rfl⟩ := exists_places digits
      exact .minus places
    · obtain ⟨k, digits, rfl⟩ := Option.map_eq_some_iff.mp reads
      obtain ⟨n, places, rfl⟩ := exists_places digits
      exact .plus places
    · obtain ⟨k, digits, rfl⟩ := Option.map_eq_some_iff.mp reads
      obtain ⟨n, places, rfl⟩ := exists_places digits
      exact .plain places
  · intro numeral
    cases numeral with
    | plain places =>
        have reads := readNat?_eq_some_iff.mpr places
        unfold readInt?
        split
        · exact absurd places.head_isDigit (by decide)
        · exact absurd places.head_isDigit (by decide)
        · rw [reads]
          rfl
    | plus places =>
        rw [readInt?, readNat?_eq_some_iff.mpr places]
        rfl
    | minus places =>
        rw [readInt?, readNat?_eq_some_iff.mpr places]
        rfl

theorem inWordRange_iff {n : Int} : inWordRange n = true ↔ -2 ^ 63 ≤ n ∧ n ≤ 2 ^ 63 - 1 := by
  rw [inWordRange, Bool.and_eq_true, decide_eq_true_eq, decide_eq_true_eq]
  rfl

theorem readWord?_eq_some_iff : readWord? cs = some v ↔ Numeral cs v.toInt := by
  constructor
  · intro reads
    obtain ⟨n, number, kept⟩ := Option.bind_eq_some_iff.mp reads
    split at kept
    · rename_i range
      cases kept
      obtain ⟨low, high⟩ := inWordRange_iff.mp range
      rw [Int64.toInt_ofInt_of_le low (by omega)]
      exact readInt?_eq_some_iff.mp number
    · cases kept
  · intro numeral
    have low := Int64.le_toInt v
    have high := Int64.toInt_lt v
    have range : inWordRange v.toInt = true := inWordRange_iff.mpr ⟨low, by omega⟩
    apply Option.bind_eq_some_iff.mpr
    refine ⟨v.toInt, readInt?_eq_some_iff.mpr numeral, ?_⟩
    rw [if_pos range, Int64.ofInt_toInt]

theorem isWord_iff : IsWord cs ↔ ∃ v, readWord? cs = some v := by
  constructor
  · rintro ⟨n, numeral, low, high⟩
    refine ⟨Int64.ofInt n, readWord?_eq_some_iff.mpr ?_⟩
    rwa [Int64.toInt_ofInt_of_le low (by omega)]
  · rintro ⟨v, reads⟩
    have low := Int64.le_toInt v
    have high := Int64.toInt_lt v
    exact ⟨v.toInt, readWord?_eq_some_iff.mp reads, low, by omega⟩

theorem readWord?_eq_none_iff : readWord? cs = none ↔ ¬ IsWord cs := by
  rw [isWord_iff, Option.eq_none_iff_forall_ne_some, not_exists]

theorem not_isWord_of_no_digit (none : ∀ c ∈ cs, c.isDigit = false) : ¬ IsWord cs := by
  rintro ⟨n, numeral, -, -⟩
  have some_digit : ∀ {cs' : List Char} {n : Nat}, Places cs' n → (∀ c ∈ cs', c ∈ cs) → False := by
    intro cs' n places within
    obtain ⟨c, rest, rfl⟩ := List.exists_cons_of_ne_nil places.ne_nil
    have digit := places.head_isDigit
    rw [none c (within c List.mem_cons_self)] at digit
    cases digit
  cases numeral with
  | plain places => exact some_digit places fun c among => among
  | plus places => exact some_digit places fun c among => List.mem_cons_of_mem _ among
  | minus places => exact some_digit places fun c among => List.mem_cons_of_mem _ among

theorem places_digits (n : Nat) : Places (digits n) n := readNat?_eq_some_iff.mp (readNat?_digits n)

theorem numeral_intDigits (n : Int) : Numeral (intDigits n) n := by
  unfold intDigits
  by_cases negative : n < 0
  · have numeral := Numeral.minus (places_digits n.natAbs)
    rw [if_pos negative]
    rwa [Int.ofNat_natAbs_of_nonpos (Int.le_of_lt negative), Int.neg_neg] at numeral
  · have numeral := Numeral.plain (places_digits n.natAbs)
    rw [if_neg negative]
    rwa [Int.natAbs_of_nonneg (Int.not_lt.mp negative)] at numeral

theorem mem_intDigits {n : Int} (among : c ∈ intDigits n) : c = '-' ∨ c.isDigit = true := by
  unfold intDigits at among
  split at among
  · rcases List.mem_cons.mp among with sign | digit
    · exact .inl sign
    · exact .inr (isDigit_of_mem_digits digit)
  · exact .inr (isDigit_of_mem_digits among)

theorem intDigits_ne_nil (n : Int) : intDigits n ≠ [] := by
  unfold intDigits
  split
  · exact List.cons_ne_nil _ _
  · exact Nat.toDigits_ne_nil

end Shipboard.Text
