import Mathlib.Data.List.Forall2
import Mathlib.Data.Nat.Digits.Defs

set_option autoImplicit false

namespace FrogOS.Numeral

/-- The code of an ASCII character. -/
abbrev asciiOf (c : Char) : UInt8 := c.toUInt8

/-- The codes of the characters of a string. -/
def asciiText (s : String) : List UInt8 := s.toList.map asciiOf

/-- The character of a digit below 16. -/
def digitChar (upper : Bool) (digit : Nat) : UInt8 :=
  if digit < 10 then asciiOf '0' + UInt8.ofNat digit
  else (if upper then asciiOf 'A' else asciiOf 'a') + UInt8.ofNat digit - 10

/-- The digit a character stands for, in the bases up to 16. -/
def digitValue (c : UInt8) : Option Nat :=
  if asciiOf '0' ≤ c ∧ c ≤ asciiOf '9' then some (c - asciiOf '0').toNat
  else if asciiOf 'a' ≤ c ∧ c ≤ asciiOf 'f' then some (c - asciiOf 'a' + 10).toNat
  else if asciiOf 'A' ≤ c ∧ c ≤ asciiOf 'F' then some (c - asciiOf 'A' + 10).toNat
  else none

/-- The number at the start of a text, behind digits with the value `acc`, and the rest. -/
def readDigits (base : Nat) (acc : Nat) : List UInt8 → Nat × List UInt8
  | [] => (acc, [])
  | c :: text =>
      match digitValue c with
      | some digit =>
          if digit < base then readDigits base (base * acc + digit) text else (acc, c :: text)
      | none => (acc, c :: text)

/-- Whether a text starts with a minus sign, and what is behind the sign. -/
def readSign : List UInt8 → Bool × List UInt8
  | [] => (false, [])
  | c :: text =>
      if c = asciiOf '-' then (true, text)
      else if c = asciiOf '+' then (false, text)
      else (false, c :: text)

/-- The number at the start of a text, behind spaces and a sign, and the rest. -/
def readNumber (base : Nat) (text : List UInt8) : Int × List UInt8 :=
  let signed := readSign (text.dropWhile fun c => c = asciiOf ' ')
  let number := readDigits base 0 signed.2
  (if signed.1 then -(number.1 : Int) else number.1, number.2)

/-- So many numbers with a separator between them, and the rest of the text. -/
def readSeparated (base : Nat) (separator : UInt8) :
    Nat → List UInt8 → Option (List Nat × List UInt8)
  | 0, text => some ([], text)
  | 1, text =>
      let number := readDigits base 0 text
      some ([number.1], number.2)
  | count + 2, text =>
      match readDigits base 0 text with
      | (value, c :: rest) =>
          if c = separator then
            (readSeparated base separator (count + 1) rest).map fun read =>
              (value :: read.1, read.2)
          else none
      | _ => none

/-- The texts with a separator between them. -/
def separated (separator : UInt8) : List (List UInt8) → List UInt8
  | [] => []
  | [field] => field
  | field :: next :: fields => field ++ separator :: separated separator (next :: fields)

/-- The text does not go on with a digit. -/
def Ends (base : Nat) (text : List UInt8) : Prop :=
  ∀ c ∈ text.head?, ∀ digit ∈ digitValue c, base ≤ digit

/-- Digits that read as a value. -/
structure Spells (base : Nat) (text : List UInt8) (value : Nat) : Prop where
  read : ∀ rest, Ends base rest → readDigits base 0 (text ++ rest) = (value, rest)
  numerals : ∀ c ∈ text, (digitValue c).isSome

theorem digitValue_digitChar (upper : Bool) {digit : Nat} (small : digit < 16) :
    digitValue (digitChar upper digit) = some digit := by
  have table : ∀ upper : Bool, ∀ digit : Fin 16,
      digitValue (digitChar upper digit.val) = some digit.val := by decide
  exact table upper ⟨digit, small⟩

section Reading

variable {base : Nat} {text rest : List UInt8} (upper : Bool)

theorem ends_nil : Ends base [] := nofun

theorem ends_cons {c : UInt8} (none : digitValue c = none) : Ends base (c :: rest) := by
  intro d head digit value
  cases head
  rw [none] at value
  cases value

theorem readDigits_ends (acc : Nat) (ends : Ends base text) :
    readDigits base acc text = (acc, text) := by
  cases text with
  | nil => rfl
  | cons c text =>
      rw [readDigits]
      split
      · rename_i digit value
        rw [if_neg (Nat.not_lt.mpr (ends c rfl digit value))]
      · rfl

/-- The digits are read up to the end of the number. -/
theorem readDigits_append (small : base ≤ 16) {digits : List Nat} (inBase : ∀ d ∈ digits, d < base)
    (ends : Ends base rest) (acc : Nat) :
    readDigits base acc (digits.map (digitChar upper) ++ rest) =
      (digits.foldl (fun value digit => base * value + digit) acc, rest) := by
  induction digits generalizing acc with
  | nil => exact readDigits_ends acc ends
  | cons digit digits ih =>
      have inside := inBase digit List.mem_cons_self
      rw [List.map_cons, List.cons_append, readDigits,
        digitValue_digitChar upper (Nat.lt_of_lt_of_le inside small)]
      simp only [inside, ↓reduceIte, List.foldl_cons]
      exact ih (fun d member => inBase d (List.mem_cons_of_mem digit member)) _

theorem foldl_digits (digits : List Nat) :
    digits.reverse.foldl (fun value digit => base * value + digit) 0 =
      Nat.ofDigits base digits := by
  rw [List.foldl_reverse, Nat.ofDigits_eq_foldr]
  congr 1
  funext digit value
  exact Nat.add_comm _ _

theorem foldl_zeros (zeros : Nat) :
    (List.replicate zeros 0).foldl (fun value digit => base * value + digit) 0 = 0 := by
  induction zeros with
  | zero => rfl
  | succ zeros ih => rw [List.replicate_succ, List.foldl_cons, Nat.mul_zero, ih]

/-- What is written with some zeros in front reads as the number. -/
theorem readDigits_zeros (small : base ≤ 16) (zeros : Nat) {digits : List Nat}
    (inBase : ∀ d ∈ digits, d < base) (positive : 0 < base) (ends : Ends base rest) :
    readDigits base 0 (List.replicate zeros (asciiOf '0') ++
      digits.reverse.map (digitChar upper) ++ rest) = (Nat.ofDigits base digits, rest) := by
  have zero : asciiOf '0' = digitChar upper 0 := by
    cases upper <;> decide
  rw [zero, ← List.map_replicate, ← List.map_append, readDigits_append upper small ?_ ends,
    List.foldl_append, foldl_zeros, foldl_digits]
  intro d member
  rcases List.mem_append.mp member with front | back
  · rw [List.eq_of_mem_replicate front]
    exact positive
  · exact inBase d (List.mem_reverse.mp back)

theorem readNumber_spaces (front : Nat) (text : List UInt8) :
    readNumber base (List.replicate front (asciiOf ' ') ++ text) = readNumber base text := by
  induction front with
  | zero => rfl
  | succ front ih => exact ih

theorem readNumber_minus (text : List UInt8) : readNumber base (asciiOf '-' :: text) =
    (-((readDigits base 0 text).1 : Int), (readDigits base 0 text).2) := rfl

theorem readNumber_plus (text : List UInt8) : readNumber base (asciiOf '+' :: text) =
    (((readDigits base 0 text).1 : Int), (readDigits base 0 text).2) := rfl

/-- A text that starts with a digit has no sign. -/
theorem readNumber_digits {text : List UInt8} (digit : ∃ c ∈ text.head?, (digitValue c).isSome) :
    readNumber base text = (((readDigits base 0 text).1 : Int), (readDigits base 0 text).2) := by
  have other : ∀ c : UInt8, (digitValue c).isSome →
      c ≠ asciiOf ' ' ∧ c ≠ asciiOf '-' ∧ c ≠ asciiOf '+' := by
    intro c digit
    refine ⟨?_, ?_, ?_⟩ <;> (rintro rfl; revert digit; decide)
  cases text with
  | nil =>
      obtain ⟨c, head, -⟩ := digit
      cases head
  | cons c text =>
      obtain ⟨d, head, value⟩ := digit
      cases head
      obtain ⟨space, minus, plus⟩ := other c value
      rw [readNumber, List.dropWhile_cons_of_neg (by simpa using space), readSign, if_neg minus,
        if_neg plus]
      rfl

theorem digitChar_numeral {digit : Nat} (small : digit < 16) :
    (digitValue (digitChar upper digit)).isSome := by
  rw [digitValue_digitChar upper small]
  rfl

theorem spells_zeros (small : base ≤ 16) (positive : 0 < base) (zeros : Nat) {digits : List Nat}
    (inBase : ∀ d ∈ digits, d < base) :
    Spells base (List.replicate zeros (asciiOf '0') ++ digits.reverse.map (digitChar upper))
      (Nat.ofDigits base digits) where
  read _ ends := readDigits_zeros upper small zeros inBase positive ends
  numerals c member := by
    rcases List.mem_append.mp member with front | back
    · rw [List.eq_of_mem_replicate front]
      decide
    · obtain ⟨digit, inside, same⟩ := List.mem_map.mp back
      rw [← same]
      exact digitChar_numeral upper (Nat.lt_of_lt_of_le (inBase digit (List.mem_reverse.mp inside))
        small)

/-- Numbers with separators between them are read, and nothing behind them. -/
theorem readSeparated_separated {separator : UInt8} (none : digitValue separator = none)
    {fields : List (List UInt8)} {values : List Nat}
    (spell : List.Forall₂ (Spells base) fields values) (ends : Ends base rest) :
    readSeparated base separator values.length (separated separator fields ++ rest) =
      some (values, rest) := by
  induction spell with
  | nil => rfl
  | @cons field value fields values first others ih =>
      cases others with
      | nil =>
          rw [separated, List.length_singleton, readSeparated, first.read rest ends]
      | @cons next value' fields values second others =>
          have behind : Ends base (separator :: (separated separator (next :: fields) ++ rest)) :=
            ends_cons none
          rw [separated, List.append_assoc, List.cons_append, List.length_cons, List.length_cons,
            readSeparated, first.read _ behind]
          simp only [↓reduceIte]
          rw [List.length_cons] at ih
          rw [ih]
          rfl

theorem mem_separated {separator c : UInt8} {fields : List (List UInt8)}
    (member : c ∈ separated separator fields) : c = separator ∨ ∃ field ∈ fields, c ∈ field := by
  induction fields with
  | nil => cases member
  | cons field fields ih =>
      cases fields with
      | nil => exact Or.inr ⟨field, List.mem_cons_self, member⟩
      | cons next fields =>
          rcases List.mem_append.mp member with here | behind
          · exact Or.inr ⟨field, List.mem_cons_self, here⟩
          · rcases List.mem_cons.mp behind with same | later
            · exact Or.inl same
            · exact (ih later).imp_right fun ⟨other, inside, has⟩ =>
                ⟨other, List.mem_cons_of_mem field inside, has⟩

end Reading

end FrogOS.Numeral
