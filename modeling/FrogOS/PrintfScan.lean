import FrogOS.PrintfInteger
import FrogOS.PrintfSyntax

set_option autoImplicit false

namespace FrogOS.Printf

open ByteMemory BoundedAccess Numeral

/-- The base of a conversion, pointers included. -/
def Directive.base (d : Directive) : Nat :=
  if d.spec = asciiOf 'p' then 16 else (integerBase d.spec).toNat

/-- The flags of a directive without a width and a precision from the arguments. -/
def Directive.allFlags (d : Directive) : Flags := d.length.set (d.flags.foldl Flag.set {})

/-- The number that a directive writes, and the arguments it leaves. -/
def Directive.value (d : Directive) (args : List UInt32) : Except Fault (Int × List UInt32) :=
  if d.spec = asciiOf 'p' then do
    let (word, args) ← vaArg args
    return ((word.toNat : Int), args)
  else integerArg d.spec d.allFlags args

/-- The numbers of a format. -/
def values : List Piece → List UInt32 → Except Fault (List Int × List UInt32)
  | [], args => .ok ([], args)
  | .literal _ :: pieces, args => values pieces args
  | .directive d :: pieces, args => do
      let (value, args) ← d.value args
      let (rest, args) ← values pieces args
      return (value :: rest, args)

/-- What a format finds in a text: the literals have to be there, and where a directive stands a
number is read. The numbers and the text behind. -/
def scan : List Piece → List UInt8 → Option (List Int × List UInt8)
  | [], text => some ([], text)
  | .literal _ :: _, [] => none
  | .literal c :: pieces, d :: text => if d = c then scan pieces text else none
  | .directive d :: pieces, text =>
      let number := readNumber d.base text
      (scan pieces number.2).map fun read => (number.1 :: read.1, read.2)

/-- No width, or one up to the size of the buffer. -/
def Count.Narrow : Count → Prop
  | .none => True
  | .number digits => (digitsWord digits).toNat ≤ ntoaBufferSize
  | .star => False

instance : (width : Count) → Decidable width.Narrow
  | .none => inferInstanceAs (Decidable True)
  | .number digits => inferInstanceAs (Decidable ((digitsWord digits).toNat ≤ ntoaBufferSize))
  | .star => inferInstanceAs (Decidable False)

/-- A directive for a number that is written without a prefix, with all its digits and without
spaces behind: a pointer, or an integer with flags, a width up to the size of the buffer and a
length. -/
def Directive.Scannable (d : Directive) : Prop :=
  if d.spec = asciiOf 'p' then d.flags = [] ∧ d.width = .none ∧ d.precision = .none ∧ d.length = .none
  else d.spec ∈ [asciiOf 'd', asciiOf 'i', asciiOf 'u', asciiOf 'x', asciiOf 'X', asciiOf 'o'] ∧
    Flag.minus ∉ d.flags ∧ Flag.hash ∉ d.flags ∧ d.width.Narrow ∧ d.precision = .none

instance (d : Directive) : Decidable d.Scannable := by
  unfold Directive.Scannable
  infer_instance

/-- Behind every directive stands a character that is no digit in its base. -/
def Separate : List Piece → Prop
  | [] => True
  | .literal _ :: pieces => Separate pieces
  | .directive d :: .literal c :: pieces =>
      (d.Scannable ∧ ∀ digit ∈ digitValue c, d.base ≤ digit) ∧ Separate (.literal c :: pieces)
  | .directive _ :: _ => False

instance decidableSeparate : (pieces : List Piece) → Decidable (Separate pieces)
  | [] => inferInstanceAs (Decidable True)
  | .literal _ :: pieces => decidableSeparate pieces
  | .directive _ :: .literal c :: pieces =>
      have := decidableSeparate (.literal c :: pieces)
      inferInstanceAs (Decidable (_ ∧ _))
  | [.directive _] => inferInstanceAs (Decidable False)
  | .directive _ :: .directive _ :: _ => inferInstanceAs (Decidable False)

section Plain

theorem zeros_nonzero (n : Nat) : 0 ∉ zeros n :=
  fun zero => absurd (List.eq_of_mem_replicate zero) (by decide)

theorem spaces_nonzero (n : Nat) : 0 ∉ spaces n :=
  fun zero => absurd (List.eq_of_mem_replicate zero) (by decide)

theorem digitsText_nonzero {base : Nat} (small : base ≤ 16) (upper : Bool) {digits : List Nat}
    (inBase : ∀ digit ∈ digits, digit < base) : 0 ∉ digitsText upper digits := by
  intro zero
  obtain ⟨digit, member, same⟩ := List.mem_map.mp zero
  have below := inBase digit (List.mem_reverse.mp member)
  have numeral : (digitValue (digitChar upper digit)).isSome :=
    digitChar_numeral upper (by omega : digit < 16)
  rw [same] at numeral
  exact absurd numeral (by decide)

theorem signText_nonzero (negative : Bool) (flags : Flags) : 0 ∉ signText negative flags := by
  rw [signText]
  split_ifs <;> decide

/-- Neither the sign and the digits nor what stands around them are zero bytes. -/
theorem plainText_nonzero {sign digits : List UInt8} (noSign : 0 ∉ sign) (noDigit : 0 ∉ digits)
    (precision width : UInt32) (flags : Flags) :
    0 ∉ plainText sign digits precision width flags := by
  have kept (n : Nat) : 0 ∉ digits.drop n := fun zero => noDigit (List.mem_of_mem_drop zero)
  have number (wide : Nat) : 0 ∉ bufferNumber digits precision.toNat wide flags := by
    by_cases left : flags.left
    · rw [bufferNumber, if_pos left]
      exact kept _
    · rw [bufferNumber, if_neg left]
      exact fun zero => (List.mem_append.mp zero).elim (zeros_nonzero _) (kept _)
  have signed (wide : Nat) :
      0 ∉ bufferSign sign (bufferNumber digits precision.toNat wide flags) := by
    rw [bufferSign]
    split_ifs
    · exact fun zero => (List.mem_append.mp zero).elim noSign (number wide)
    · exact number wide
  rw [plainText, revText]
  split_ifs
  · exact signed _
  · rw [field]
    split_ifs
    · exact fun zero => (List.mem_append.mp zero).elim (signed _) (spaces_nonzero _)
    · exact fun zero => (List.mem_append.mp zero).elim (spaces_nonzero _) (signed _)

end Plain

section Integers

variable {spec : UInt8} {flags : Flags} {args rest : List UInt32} {value : Int}

/-- A number without a prefix, with all its digits and without spaces behind is a text without a
zero byte, and reads as it is up to the end of the number. -/
theorem integerText_scans (binary : spec ≠ asciiOf 'b') (noHash : flags.hash = false)
    (right : flags.left = false) (noPrecision : flags.precision = false) {width : UInt32}
    (narrow : width.toNat ≤ ntoaBufferSize)
    (read : integerArg spec flags args = .ok (value, rest)) :
    ∃ text, integerText spec flags width 0 args = .ok (text, rest) ∧ 0 ∉ text ∧
      ∀ tail, Ends (integerBase spec).toNat tail →
        readNumber (integerBase spec).toNat (text ++ tail) = (value, tail) := by
  obtain ⟨lower, small⟩ := integerBase_bounds spec
  refine ⟨_, integerText_plain (Or.inl noHash) width 0 read,
    plainText_nonzero (signText_nonzero _ _)
      (digitsText_nonzero small _ (digitList_lt lower _ _)) _ _ _, ?_⟩
  intro tail ends
  have parts := integer_number read
  have range := integerArg_range read
  have kept : (integerFlags spec flags).left = false ∧
      (integerFlags spec flags).precision = false := by
    simp [integerFlags_eq, right, noPrecision]
  have digits : digitList (integerBase spec).toNat value.natAbs
      (integerFlags spec flags).precision ≠ [] := by
    rw [kept.2, digitList, if_neg Bool.false_ne_true]
    split_ifs with zero
    · exact List.cons_ne_nil _ _
    · exact Nat.digits_ne_nil_iff_ne_zero.mpr zero
  obtain ⟨back, none, same⟩ := readNumber_plainText (integerFlags spec flags).uppercase lower small
    (digitList_lt lower value.natAbs (integerFlags spec flags).precision) ends (Or.inl digits)
    parts.oneOf 0 width (integerFlags spec flags)
  have base : 8 ≤ (integerBase spec).toNat := by
    rw [integerBase]
    split_ifs <;> decide
  have fits : value.natAbs < (integerBase spec).toNat ^ ntoaBufferSize :=
    Nat.lt_of_lt_of_le (Nat.lt_trans range.1 (by decide : 2 ^ 64 < 8 ^ ntoaBufferSize))
      (Nat.pow_le_pow_left base _)
  have minus : signText (value < 0) (integerFlags spec flags) = [asciiOf '-'] ↔ value < 0 :=
    (signText_minus _ _).trans decide_eq_true_iff
  rw [same, ofDigits_digitList lower, Nat.mod_eq_of_lt fits, none kept.1, spaces_zero,
    List.nil_append]
  congr 1
  by_cases negative : value < 0
  · have signed : signText (value < 0) (integerFlags spec flags) ≠ [] := by
      rw [minus.mpr negative]
      exact List.cons_ne_nil _ _
    have room := (bufferNumber_minus signed (parts.short signed) 0 width
      (integerFlags spec flags)).mpr fun _ => ⟨by decide, fun _ => narrow⟩
    rw [if_pos ⟨minus.mpr negative, room⟩]
    omega
  · rw [if_neg (fun both => negative (minus.mp both.1))]
    omega

end Integers

section Formats

variable (floats : FloatText) (strings : Mem) {args rest : List UInt32}

/-- A pointer is written as `%08X` would be. -/
theorem pointer_text (args : List UInt32) :
    specifierText floats strings (asciiOf 'p') {} 0 0 args =
      integerText (asciiOf 'x') { zeropad := true, uppercase := true } 8 0 args := by
  cases args with
  | nil => rfl
  | cons word args =>
      have positive : decide ((word.toNat : Int) < 0) = false := by simp
      have read : integerArg (asciiOf 'x') { zeropad := true, uppercase := true } (word :: args) =
          .ok ((word.toNat : Int), args) := rfl
      have flags : integerFlags (asciiOf 'x') { zeropad := true, uppercase := true } =
          { zeropad := true, uppercase := true } := by decide
      rw [integerText, flags, read, ok_bind]
      simp only [positive, Int.natAbs_natCast]
      rfl

theorem flags_kept (set : List Flag) (flags : Flags) (noMinus : Flag.minus ∉ set)
    (noHash : Flag.hash ∉ set) :
    (set.foldl Flag.set flags).left = flags.left ∧ (set.foldl Flag.set flags).hash = flags.hash ∧
      (set.foldl Flag.set flags).precision = flags.precision := by
  induction set generalizing flags with
  | nil => exact ⟨rfl, rfl, rfl⟩
  | cons flag set ih =>
      rw [List.mem_cons, not_or] at noMinus noHash
      obtain ⟨left, hash, precision⟩ := ih (flag.set flags) noMinus.2 noHash.2
      rw [List.foldl_cons, left, hash, precision]
      cases flag with
      | minus => exact absurd rfl noMinus.1
      | hash => exact absurd rfl noHash.1
      | _ => exact ⟨rfl, rfl, rfl⟩

theorem length_kept (length : Length) (flags : Flags) :
    (length.set flags).left = flags.left ∧ (length.set flags).hash = flags.hash ∧
      (length.set flags).precision = flags.precision := by
  cases length <;> exact ⟨rfl, rfl, rfl⟩

/-- One number. -/
theorem directive_scans {d : Directive} (scannable : d.Scannable) {value : Int}
    (read : d.value args = .ok (value, rest)) :
    ∃ text, d.meaning floats strings args = .ok (text, rest) ∧ 0 ∉ text ∧
      ∀ tail, Ends d.base tail → readNumber d.base (text ++ tail) = (value, tail) := by
  obtain ⟨set, width, precision, length, spec⟩ := d
  rw [Directive.Scannable] at scannable
  rw [Directive.value] at read
  by_cases pointer : spec = asciiOf 'p'
  · rw [if_pos pointer] at scannable read
    obtain ⟨rfl, rfl, rfl, rfl⟩ := scannable
    subst pointer
    have number : integerArg (asciiOf 'x') { zeropad := true, uppercase := true } args =
        .ok (value, rest) := read
    obtain ⟨text, written, reads⟩ := integerText_scans (by decide) rfl rfl rfl
      (by decide : (8 : UInt32).toNat ≤ ntoaBufferSize) number
    exact ⟨text, (pointer_text floats strings args).trans written, reads⟩
  · rw [if_neg pointer] at scannable read
    obtain ⟨member, noMinus, noHash, narrow, rfl⟩ := scannable
    obtain ⟨left, hash, given⟩ := flags_kept set {} noMinus noHash
    obtain ⟨left', hash', given'⟩ := length_kept length (set.foldl Flag.set {})
    have integer : isInteger spec = true ∧ spec ≠ asciiOf 'b' := by
      simp only [List.mem_cons, List.not_mem_nil, or_false] at member
      rcases member with rfl | rfl | rfl | rfl | rfl | rfl <;> decide
    have base : (Directive.mk set width .none length spec).base = (integerBase spec).toNat :=
      if_neg pointer
    have text (w : UInt32) (small : w.toNat ≤ ntoaBufferSize) :=
      integerText_scans integer.2 (hash'.trans hash) (left'.trans left) (given'.trans given)
        small read
    have conversion (w : UInt32) : specifierText floats strings spec
        (length.set (set.foldl Flag.set {})) w 0 args =
          integerText spec (length.set (set.foldl Flag.set {})) w 0 args := by
      rw [specifierText, if_pos integer.1]
    rw [base]
    cases width with
    | none =>
        obtain ⟨written, done, reads⟩ := text 0 (by decide)
        exact ⟨written, (conversion 0).trans done, reads⟩
    | number digits =>
        obtain ⟨written, done, reads⟩ := text (digitsWord digits) narrow
        exact ⟨written, (conversion (digitsWord digits)).trans done, reads⟩
    | star => exact absurd narrow id

/-- What a format writes reads as its numbers, and has no zero byte but the format's own. -/
theorem execute_scans {pieces : List Piece} (separate : Separate pieces) {numbers : List Int}
    (read : values pieces args = .ok (numbers, rest)) :
    ∃ text, execute floats strings pieces args = .ok (text, rest) ∧
      (.literal 0 ∉ pieces → 0 ∉ text) ∧
      ∀ tail, scan pieces (text ++ tail) = some (numbers, tail) := by
  induction pieces generalizing args numbers with
  | nil =>
      cases read
      exact ⟨[], rfl, fun _ => List.not_mem_nil, fun _ => rfl⟩
  | cons piece pieces ih =>
      cases piece with
      | literal c =>
          obtain ⟨text, written, nonzero, scans⟩ := ih separate read
          refine ⟨c :: text, ?_, ?_, ?_⟩
          · simp only [execute, Piece.meaning, ok_bind, written, pure, Except.pure,
              List.singleton_append]
          · intro noZero
            rw [List.mem_cons, not_or] at noZero ⊢
            exact ⟨fun zero => noZero.1 (zero ▸ rfl), nonzero noZero.2⟩
          · intro tail
            rw [List.cons_append, scan, if_pos rfl, scans]
      | directive d =>
          cases pieces with
          | nil => exact absurd separate id
          | cons next pieces =>
              cases next with
              | directive d' => exact absurd separate id
              | literal c =>
                  obtain ⟨⟨scannable, apart⟩, later⟩ := separate
                  rw [values] at read
                  obtain ⟨⟨value, left⟩, first, read⟩ := bind_eq_ok.mp read
                  obtain ⟨⟨others, left'⟩, behind, done⟩ := bind_eq_ok.mp read
                  cases done
                  obtain ⟨number, written, digits, reads⟩ :=
                    directive_scans floats strings scannable first
                  obtain ⟨text, written', nonzero, scans⟩ := ih later behind
                  -- The text goes on with the literal, and there the number ends.
                  obtain ⟨⟨front, left''⟩, one, whole⟩ := bind_eq_ok.mp written'
                  cases one
                  obtain ⟨⟨back, last⟩, -, whole⟩ := bind_eq_ok.mp whole
                  cases whole
                  refine ⟨number ++ ([c] ++ back), ?_, ?_, ?_⟩
                  · rw [execute, Piece.meaning, written, ok_bind]
                    simp only [written', ok_bind]
                    rfl
                  · intro noZero zero
                    exact (List.mem_append.mp zero).elim digits
                      (nonzero fun here => noZero (List.mem_cons_of_mem _ here))
                  · intro tail
                    have ends : Ends d.base ([c] ++ back ++ tail) := by
                      intro first head
                      cases head
                      exact apart
                    rw [scan, List.append_assoc, reads _ ends, scans]
                    rfl

end Formats

theorem formatted_scans (floats : FloatText) (strings : Mem) {format : List UInt8}
    {args rest : List UInt32} {numbers : List Int} (complete : Complete format)
    (separate : Separate (parse format).1)
    (read : values (parse format).1 args = .ok (numbers, rest)) :
    ∃ text, formatted floats strings format args = .ok (text, rest) ∧
      (.literal 0 ∉ (parse format).1 → 0 ∉ text) ∧
      ∀ tail, scan (parse format).1 (text ++ tail) = some (numbers, tail) := by
  obtain ⟨text, written, reads⟩ := execute_scans floats strings separate read
  refine ⟨text, ?_, reads⟩
  rw [formatted, written, ok_bind, if_pos complete]
  rfl

end FrogOS.Printf
