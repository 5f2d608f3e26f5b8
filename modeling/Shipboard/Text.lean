import Shipboard.Word

/-!
Text: the codes in which a core reads and writes it, one word for each byte and a newline after each
line; white space, which is the character property and not a choice of ASCII characters; and decimal
numbers, with an optional sign where they are words.
-/

namespace Shipboard.Text

def newline : Word := 10

def charCodes (c : Char) : List Word :=
  (String.utf8EncodeChar c).map fun b => Int64.ofNat b.toNat

def lineCodes (line : List Char) : List Word := line.flatMap charCodes ++ [newline]

def isBlank (c : Char) : Bool :=
  let n := c.toNat
  (9 ≤ n && n ≤ 13) || n = 0x20 || n = 0x85 || n = 0xA0 || n = 0x1680
    || (0x2000 ≤ n && n ≤ 0x200A) || n = 0x2028 || n = 0x2029 || n = 0x202F || n = 0x205F
    || n = 0x3000

/-- Drops white space at both ends. -/
def trim (cs : List Char) : List Char :=
  ((cs.dropWhile isBlank).reverse.dropWhile isBlank).reverse

/-- The pieces between occurrences of `mark`, empty ones included; there is always one. -/
def split (mark : Char) (cs : List Char) : List (List Char) :=
  cs.foldr (fun c pieces =>
    if c = mark then [] :: pieces
    else match pieces with
      | [] => [[c]]
      | piece :: rest => (c :: piece) :: rest) [[]]

theorem split_ne_nil (mark : Char) (cs : List Char) : split mark cs ≠ [] := by
  cases cs with
  | nil => simp [split]
  | cons c cs =>
      simp only [split, List.foldr_cons]
      split
      · simp
      · split <;> simp

def digits (n : Nat) : List Char := Nat.toDigits 10 n

/-- One or more digits, leading zeros allowed. -/
def readNat? (cs : List Char) : Option Nat :=
  if !cs.isEmpty && cs.all Char.isDigit then some (Nat.ofDigitChars 10 cs 0) else none

/-- At most one sign, then one or more digits. -/
def readInt? : List Char → Option Int
  | '-' :: cs => (readNat? cs).map fun n => -(n : Int)
  | '+' :: cs => (readNat? cs).map fun n => (n : Int)
  | cs => (readNat? cs).map fun n => (n : Int)

/-- A number outside the range of words is no word. -/
def readWord? (cs : List Char) : Option Word := do
  let n ← readInt? cs
  if inWordRange n then some (Int64.ofInt n) else none

def intDigits (n : Int) : List Char :=
  if n < 0 then '-' :: digits n.natAbs else digits n.natAbs

theorem isDigit_of_mem_digits {n : Nat} {c : Char} (among : c ∈ digits n) : c.isDigit = true :=
  Nat.isDigit_of_mem_toDigits (by decide) (by decide) among

theorem readNat?_digits (n : Nat) : readNat? (digits n) = some n := by
  have allDigits : ∀ c ∈ Nat.toDigits 10 n, c.isDigit = true := fun c => isDigit_of_mem_digits
  simp [readNat?, digits, Nat.ofDigitChars_ten_toDigits]
  exact allDigits

end Shipboard.Text
