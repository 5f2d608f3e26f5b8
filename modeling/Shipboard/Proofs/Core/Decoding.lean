import Mathlib.Algebra.Group.Nat.Defs
import Shipboard.Core.Instruction
import Shipboard.Proofs.Core.Failing

/-!
Decoding undoes numbering. A word that is not negative decodes to the instruction whose number its
five lowest digits are, if there is one. Otherwise the first wrong part of the word is reported: its
sign, its opcode, or the lowest of its three mode digits that means nothing.
-/

namespace Shipboard

def Opcode.numbers : List Nat := [1, 2, 3, 4, 5, 6, 7, 8, 9, 99]

theorem Opcode.mem_numbers_iff {n : Nat} : n ∈ numbers ↔ ∃ o : Opcode, o.number = n := by
  constructor
  · intro among
    cases known : ofNumber? n with
    | some o => exact ⟨o, number_of_ofNumber? known⟩
    | none =>
        simp only [numbers, List.mem_cons, List.not_mem_nil, or_false] at among
        rcases among with h | h | h | h | h | h | h | h | h | h <;> subst h <;> cases known
  · intro h
    obtain ⟨o, rfl⟩ := h
    cases o <;> decide

theorem Opcode.number_lt (o : Opcode) : o.number < 100 := by cases o <;> decide

theorem Mode.number_le (m : Mode) : m.number ≤ 2 := by cases m <;> decide

namespace Instruction

variable {n k : Nat} {ip : Address} {i : Instruction} {m : Mode} {word : Word}

/-- The digit of `n` that is the mode of parameter `k`: hundreds, thousands or ten thousands. -/
def modeDigit (n k : Nat) : Nat := n / 10 ^ (k + 2) % 10

structure Spelled (n : Nat) : Prop where
  opcode : n % 100 ∈ Opcode.numbers
  modes : ∀ k < 3, modeDigit n k ≤ 2

theorem number_eq_iff (i : Instruction) (n : Nat) :
    i.number = n % 100000 ↔ i.opcode.number = n % 100 ∧ i.first.number = modeDigit n 0 ∧
      i.second.number = modeDigit n 1 ∧ i.third.number = modeDigit n 2 := by
  have opcode := i.opcode.number_lt
  have first := i.first.number_le
  have second := i.second.number_le
  have third := i.third.number_le
  simp only [number, modeDigit]
  omega

theorem number_lt (i : Instruction) : i.number < 100000 := by
  have opcode := i.opcode.number_lt
  have first := i.first.number_le
  have second := i.second.number_le
  have third := i.third.number_le
  simp only [number]
  omega

theorem decodeMode_eq_ok_iff {digit : Nat} : decodeMode digit ip = .ok m ↔ m.number = digit := by
  constructor
  · intro decoded
    unfold decodeMode at decoded
    split at decoded
    · rename_i known
      cases decoded
      exact Mode.number_of_ofNumber? known
    · cases decoded
  · intro h
    subst h
    simp [decodeMode, Mode.ofNumber?_number]

theorem exists_mode {digit : Nat} (small : digit ≤ 2) : ∃ m : Mode, m.number = digit := by
  cases known : Mode.ofNumber? digit with
  | some m => exact ⟨m, Mode.number_of_ofNumber? known⟩
  | none => exact absurd small ((Mode.ofNumber?_eq_none_iff digit).mp known)

theorem decodeMode_of_large {digit : Nat} (large : 2 < digit) :
    decodeMode digit ip = .error (.unknownMode digit ip) := by
  have unknown := (Mode.ofNumber?_eq_none_iff digit).mpr (Nat.not_le.mpr large)
  simp [decodeMode, unknown]

theorem decodeNumber_of_opcode {o : Opcode} (opcode : o.number = n % 100) :
    decodeNumber n ip = (do
      let first ← decodeMode (modeDigit n 0) ip
      let second ← decodeMode (modeDigit n 1) ip
      let third ← decodeMode (modeDigit n 2) ip
      return { opcode := o, first, second, third }) := by
  rw [decodeNumber, ← opcode, Opcode.ofNumber?_number]
  rfl

theorem decodeNumber_of_unknown (unknown : n % 100 ∉ Opcode.numbers) :
    decodeNumber n ip = .error (.unknownOpcode (n % 100 : Nat) ip) := by
  unfold decodeNumber
  split
  · rfl
  · rename_i o known
    exact absurd (Opcode.mem_numbers_iff.mpr ⟨o, Opcode.number_of_ofNumber? known⟩) unknown

theorem decodeNumber_eq_ok_iff : decodeNumber n ip = .ok i ↔ i.number = n % 100000 := by
  rw [number_eq_iff]
  constructor
  · intro decoded
    by_cases known : n % 100 ∈ Opcode.numbers
    · obtain ⟨o, opcode⟩ := Opcode.mem_numbers_iff.mp known
      rw [decodeNumber_of_opcode opcode] at decoded
      obtain ⟨first, one, decoded⟩ := ok_of_bind decoded
      obtain ⟨second, two, decoded⟩ := ok_of_bind decoded
      obtain ⟨third, three, decoded⟩ := ok_of_bind decoded
      cases decoded
      exact ⟨opcode, decodeMode_eq_ok_iff.mp one, decodeMode_eq_ok_iff.mp two,
        decodeMode_eq_ok_iff.mp three⟩
    · rw [decodeNumber_of_unknown known] at decoded
      cases decoded
  · intro h
    obtain ⟨opcode, first, second, third⟩ := h
    rw [decodeNumber_of_opcode opcode, decodeMode_eq_ok_iff.mpr first,
      decodeMode_eq_ok_iff.mpr second, decodeMode_eq_ok_iff.mpr third]
    rfl

theorem spelled_iff : Spelled n ↔ ∃ i, decodeNumber n ip = .ok i := by
  simp only [decodeNumber_eq_ok_iff, number_eq_iff]
  constructor
  · intro spelled
    obtain ⟨o, opcode⟩ := Opcode.mem_numbers_iff.mp spelled.opcode
    obtain ⟨first, one⟩ := exists_mode (spelled.modes 0 (by decide))
    obtain ⟨second, two⟩ := exists_mode (spelled.modes 1 (by decide))
    obtain ⟨third, three⟩ := exists_mode (spelled.modes 2 (by decide))
    exact ⟨⟨o, first, second, third⟩, opcode, one, two, three⟩
  · intro h
    obtain ⟨i, opcode, first, second, third⟩ := h
    refine { opcode := Opcode.mem_numbers_iff.mpr ⟨i.opcode, opcode⟩, modes := ?_ }
    intro k among
    match k with
    | 0 => exact first ▸ i.first.number_le
    | 1 => exact second ▸ i.second.number_le
    | 2 => exact third ▸ i.third.number_le

theorem decodeNumber_of_mode (opcode : n % 100 ∈ Opcode.numbers) (place : k < 3)
    (large : 2 < modeDigit n k) (lowest : ∀ j < k, modeDigit n j ≤ 2) :
    decodeNumber n ip = .error (.unknownMode (modeDigit n k) ip) := by
  obtain ⟨o, opcode⟩ := Opcode.mem_numbers_iff.mp opcode
  have bad : decodeMode (modeDigit n k) ip = .error (.unknownMode (modeDigit n k) ip) :=
    decodeMode_of_large large
  have good : ∀ j < k, ∃ m, decodeMode (modeDigit n j) ip = .ok m := by
    intro j below
    obtain ⟨m, known⟩ := exists_mode (lowest j below)
    exact ⟨m, decodeMode_eq_ok_iff.mpr known⟩
  rw [decodeNumber_of_opcode opcode]
  match k with
  | 0 =>
      rw [bad]
      rfl
  | 1 =>
      obtain ⟨first, one⟩ := good 0 (by decide)
      rw [one, bad]
      rfl
  | 2 =>
      obtain ⟨first, one⟩ := good 0 (by decide)
      obtain ⟨second, two⟩ := good 1 (by decide)
      rw [one, two, bad]
      rfl

theorem decode_of_nonneg (nonneg : 0 ≤ word) :
    decode word ip = decodeNumber word.toInt.toNat ip := by
  rw [decode, if_neg (Int64.not_lt.mpr nonneg)]

def Decodable (word : Word) : Prop := 0 ≤ word ∧ Spelled word.toInt.toNat

theorem toInt_nonneg (nonneg : 0 ≤ word) : 0 ≤ word.toInt := by
  simpa [Int64.le_iff_toInt_le] using nonneg

theorem decode_eq_ok_iff :
    decode word ip = .ok i ↔ 0 ≤ word ∧ (i.number : Int) = word.toInt % 100000 := by
  by_cases nonneg : 0 ≤ word
  · have same := toInt_nonneg nonneg
    rw [decode_of_nonneg nonneg, decodeNumber_eq_ok_iff]
    simp only [nonneg, true_and]
    omega
  · rw [decode, if_pos (Int64.not_le.mp nonneg)]
    simp [nonneg]

theorem decodable_iff : Decodable word ↔ ∃ i, decode word ip = .ok i := by
  by_cases nonneg : 0 ≤ word
  · rw [decode_of_nonneg nonneg, ← spelled_iff]
    simp [Decodable, nonneg]
  · simp [Decodable, decode_eq_ok_iff, nonneg]

theorem toInt_encode_add {k : Nat} (fits : i.number + 100000 * k < 2 ^ 63) :
    (i.encode + Int64.ofNat (100000 * k)).toInt = i.number + 100000 * k := by
  rw [encode, ← Int64.ofNat_add, Int64.toInt_ofNat_of_lt fits, Int.natCast_add, Int.natCast_mul]
  rfl

theorem decode_encode_add {k : Nat} (fits : i.number + 100000 * k < 2 ^ 63) :
    decode (i.encode + Int64.ofNat (100000 * k)) ip = .ok i := by
  have small := i.number_lt
  apply decode_eq_ok_iff.mpr
  rw [Int64.le_iff_toInt_le, toInt_encode_add fits, Int64.toInt_zero]
  omega

theorem decode_eq_decode_iff {word' : Word} {ip' : Address} (good : Decodable word)
    (good' : Decodable word') :
    decode word ip = decode word' ip' ↔ word.toInt % 100000 = word'.toInt % 100000 := by
  obtain ⟨i, decoded⟩ := decodable_iff.mp good
  obtain ⟨i', decoded'⟩ := decodable_iff.mp good'
  have number := (decode_eq_ok_iff.mp decoded).2
  have number' := (decode_eq_ok_iff.mp decoded').2
  rw [decoded, ← number, ← number', Int.natCast_inj]
  constructor
  · intro same
    rw [decoded'] at same
    cases same
    rfl
  · intro same
    symm
    apply decode_eq_ok_iff.mpr
    rw [same]
    exact ⟨good'.1, number'⟩

/-- A word can be decoded if and only if it is not negative and its lowest digits are an opcode and
three modes, and then its five lowest digits are the number of the instruction and of no other one.
So every multiple of 100000 may be added to the word that encodes an instruction, and what decodes
alike agrees in the five lowest digits. What cannot be decoded is reported by its sign, then by its
opcode, then by the lowest mode digit that means nothing, used or not. -/
theorem decode_undoes_number (word : Word) (ip : Address) :
    ((∃ i, decode word ip = .ok i) ↔ Decodable word) ∧
    (∀ i, decode word ip = .ok i ↔ 0 ≤ word ∧ (i.number : Int) = word.toInt % 100000) ∧
    (∀ (i : Instruction) (k : Nat), i.number + 100000 * k < 2 ^ 63 →
      decode (i.encode + Int64.ofNat (100000 * k)) ip = .ok i) ∧
    (∀ word' ip', Decodable word → Decodable word' →
      (decode word ip = decode word' ip' ↔ word.toInt % 100000 = word'.toInt % 100000)) ∧
    (word < 0 → decode word ip = .error (.unknownOpcode word.toInt ip)) ∧
    (0 ≤ word → word.toInt.toNat % 100 ∉ Opcode.numbers →
      decode word ip = .error (.unknownOpcode (word.toInt % 100) ip)) ∧
    ∀ k < 3, 0 ≤ word → word.toInt.toNat % 100 ∈ Opcode.numbers →
      2 < modeDigit word.toInt.toNat k → (∀ j < k, modeDigit word.toInt.toNat j ≤ 2) →
      decode word ip = .error (.unknownMode (modeDigit word.toInt.toNat k) ip) := by
  refine ⟨decodable_iff.symm, fun i => decode_eq_ok_iff, ?encoded, ?alike, ?negative, ?opcode,
    ?mode⟩
  case encoded =>
    intro i k fits
    exact decode_encode_add fits
  case alike =>
    intro word' ip' good good'
    exact decode_eq_decode_iff good good'
  case negative =>
    intro negative
    rw [decode, if_pos negative]
  case opcode =>
    intro nonneg unknown
    have remainder : ((word.toInt.toNat % 100 : Nat) : Int) = word.toInt % 100 := by
      have same := toInt_nonneg nonneg
      omega
    rw [decode_of_nonneg nonneg, decodeNumber_of_unknown unknown, remainder]
  case mode =>
    intro k place nonneg opcode large lowest
    rw [decode_of_nonneg nonneg, decodeNumber_of_mode opcode place large lowest]

/-- A product with a digit too many, a negative word, a word whose opcode and first mode are both
wrong, and a halt with three modes that mean nothing. -/
theorem decode_undoes_number_words :
    decode 321102 0 = .ok ⟨.mul, .immediate, .immediate, .relative⟩ ∧
    decode (encode ⟨.mul, .immediate, .immediate, .relative⟩ + Int64.ofNat (100000 * 3)) 0 =
      .ok ⟨.mul, .immediate, .immediate, .relative⟩ ∧
    decode 321102 0 = decode 21102 8 ∧
    decode (-5) 7 = .error (.unknownOpcode (-5) 7) ∧
    decode 1342 7 = .error (.unknownOpcode 42 7) ∧
    decode 47399 7 = .error (.unknownMode 3 7) := by
  obtain ⟨decodable, inverse, encoded, alike, -⟩ := decode_undoes_number 321102 0
  obtain ⟨decodable', inverse', -⟩ := decode_undoes_number 21102 8
  obtain ⟨-, -, -, -, negative, -⟩ := decode_undoes_number (-5) 7
  obtain ⟨-, -, -, -, -, opcode, -⟩ := decode_undoes_number 1342 7
  obtain ⟨-, -, -, -, -, -, mode⟩ := decode_undoes_number 47399 7
  have product := (inverse ⟨.mul, .immediate, .immediate, .relative⟩).mpr (by decide +kernel)
  have product' := (inverse' ⟨.mul, .immediate, .immediate, .relative⟩).mpr (by decide +kernel)
  refine ⟨product, encoded _ 3 (by decide), ?_, negative (by decide), ?_, ?_⟩
  · apply (alike 21102 8 (decodable.mp ⟨_, product⟩) (decodable'.mp ⟨_, product'⟩)).mpr
    decide +kernel
  · exact opcode (by decide) (by decide)
  · exact mode 0 (by decide) (by decide) (by decide) (by decide) (by decide)

end Instruction

end Shipboard
