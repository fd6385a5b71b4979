import FrogOS.PrintfText
import Mathlib.Data.Nat.Digits.Lemmas

set_option autoImplicit false

namespace FrogOS.Printf

open ByteMemory BoundedAccess Emission Numeral

/-- The digits of a value, the lowest first: none for a zero with a precision. -/
def digitList (base value : Nat) (precision : Bool) : List Nat :=
  if value = 0 then (if precision then [] else [0]) else Nat.digits base value

def digitsText (upper : Bool) (digits : List Nat) : List UInt8 :=
  digits.reverse.map (digitChar upper)

def zeros (n : Nat) : List UInt8 := List.replicate n (asciiOf '0')

def signText (negative : Bool) (flags : Flags) : List UInt8 :=
  if negative then [asciiOf '-']
  else if flags.plus then [asciiOf '+']
  else if flags.space then [asciiOf ' ']
  else []

/-- What the C standard asks for: as many digits as the precision says, and the field filled with
spaces behind them, with zeros behind the sign, or with spaces in front of it. -/
def standardText (sign digits : List UInt8) (precision width : Nat) (flags : Flags) : List UInt8 :=
  let number := zeros (precision - digits.length) ++ digits
  let fill := width - (sign ++ number).length
  if flags.left then sign ++ number ++ spaces fill
  else if flags.zeropad then sign ++ zeros fill ++ number
  else spaces fill ++ (sign ++ number)

/-- The digits that have room in the buffer, behind the zeros for the precision and the width. -/
def bufferNumber (digits : List UInt8) (precision width : Nat) (flags : Flags) : List UInt8 :=
  let kept := digits.drop (digits.length - ntoaBufferSize)
  if flags.left then kept
  else
    let wanted := max precision (if flags.zeropad then width else 0)
    zeros (min wanted ntoaBufferSize - kept.length) ++ kept

/-- The sign goes in front if there is still room for it. -/
def bufferSign (sign number : List UInt8) : List UInt8 :=
  if number.length < ntoaBufferSize then sign ++ number else number

/-- The width, less the sign in front of zeros. -/
def reducedWidth (sign : List UInt8) (width : UInt32) (flags : Flags) : UInt32 :=
  if ¬ flags.left ∧ flags.zeropad ∧ width ≠ 0 ∧ sign ≠ [] then width - 1 else width

/-- What the code writes for a number without a prefix. -/
def plainText (sign digits : List UInt8) (precision width : UInt32) (flags : Flags) : List UInt8 :=
  let reduced := reducedWidth sign width flags
  revText (bufferSign sign (bufferNumber digits precision.toNat reduced.toNat flags)) reduced flags

@[simp] theorem zeros_zero : zeros 0 = [] := rfl

@[simp] theorem zeros_length (n : Nat) : (zeros n).length = n := List.length_replicate

theorem zeros_add (n k : Nat) : zeros n ++ zeros k = zeros (n + k) := List.replicate_append_replicate

@[simp] theorem digitsText_length (upper : Bool) (digits : List Nat) :
    (digitsText upper digits).length = digits.length := by
  rw [digitsText, List.length_map, List.length_reverse]

theorem digitsText_take (upper : Bool) (digits : List Nat) (n : Nat) :
    digitsText upper (digits.take n) =
      (digitsText upper digits).drop ((digitsText upper digits).length - n) := by
  rw [digitsText_length, digitsText, digitsText, List.reverse_take, List.map_drop]

section Buffer

/-- The digits that the loop appends, until it has all or the buffer is full. -/
theorem digitLoop_chars {base : Nat} (lower : 2 ≤ base) (upper : Bool) (fuel value : Nat)
    (b : NtoaBuf) (room : b.len < ntoaBufferSize) (enough : ntoaBufferSize - b.len ≤ fuel) :
    (digitLoop base upper fuel value b room).chars =
      digitsText upper ((value % base :: Nat.digits base (value / base)).take
        (ntoaBufferSize - b.len)) ++ b.chars := by
  induction fuel generalizing value b with
  | zero => omega
  | succ fuel ih =>
      have pushed : (b.push (digitChar upper (value % base)) room).len = b.len + 1 := rfl
      have left : ntoaBufferSize - b.len = ntoaBufferSize - (b.len + 1) + 1 := by omega
      rw [digitLoop, left, List.take_succ_cons, digitsText, List.reverse_cons, List.map_append]
      by_cases more : value / base ≠ 0 ∧ (b.push (digitChar upper (value % base)) room).len <
          ntoaBufferSize
      · have rest := ih (value / base) _ more.2 (by rw [pushed]; omega)
        rw [dif_pos more, rest, pushed,
          ← Nat.digits_def' lower (Nat.pos_of_ne_zero more.1), digitsText, List.append_assoc]
        rfl
      · rw [dif_neg more]
        have last : (Nat.digits base (value / base)).take (ntoaBufferSize - (b.len + 1)) = [] := by
          by_cases done : value / base = 0
          · rw [done, Nat.digits_zero, List.take_nil]
          · have full : ntoaBufferSize - (b.len + 1) = 0 := by
              rw [pushed] at more
              omega
            rw [full, List.take_zero]
        rw [last]
        rfl

theorem ntoaDigits_chars {base : Nat} (lower : 2 ≤ base) (value : Nat) (flags : Flags) :
    (ntoaDigits value base flags).1.chars =
      digitsText flags.uppercase ((digitList base value flags.precision).take ntoaBufferSize) := by
  have upper : (ntoaDigits value base flags).1 =
      if ¬ flags.precision ∨ value ≠ 0 then
        digitLoop base flags.uppercase ntoaBufferSize value .empty (by decide)
      else .empty := by
    simp only [ntoaDigits]
    by_cases zero : value = 0
    · simp only [zero, ↓reduceIte]
      split <;> rfl
    · simp only [zero, ↓reduceIte]
      split <;> rfl
  rw [upper]
  by_cases zero : value = 0
  · cases given : flags.precision with
    | true =>
        simp only [zero, not_true_eq_false, ne_eq, or_self, ↓reduceIte, digitList]
        rfl
    | false =>
        simp only [zero, Bool.false_eq_true, not_false_eq_true, true_or, ↓reduceIte, digitList]
        rw [digitLoop_chars lower _ _ _ _ _ (Nat.sub_le _ _)]
        simp [NtoaBuf.empty, NtoaBuf.len]
  · rw [if_pos (Or.inr zero), digitLoop_chars lower _ _ _ _ _ (Nat.sub_le _ _),
      ← Nat.digits_def' lower (Nat.pos_of_ne_zero zero), digitList, if_neg zero]
    exact List.append_nil _

theorem zeroLoop_chars (limit fuel : Nat) (b : NtoaBuf)
    (enough : ntoaBufferSize - b.len ≤ fuel) :
    (zeroLoop limit fuel b).chars = zeros (min limit ntoaBufferSize - b.len) ++ b.chars := by
  induction fuel generalizing b with
  | zero =>
      have full : min limit ntoaBufferSize - b.len = 0 := by omega
      rw [full]
      rfl
  | succ fuel ih =>
      rw [zeroLoop]
      split
      · rename_i room
        have pushed : (b.push (asciiOf '0') room.2).len = b.len + 1 := rfl
        have count : min limit ntoaBufferSize - b.len =
            min limit ntoaBufferSize - (b.len + 1) + 1 := by omega
        have behind : (b.push (asciiOf '0') room.2).chars = zeros 1 ++ b.chars := rfl
        rw [ih _ (by rw [pushed]; omega), pushed, behind, count, ← zeros_add, List.append_assoc]
      · rename_i done
        have none : min limit ntoaBufferSize - b.len = 0 := by omega
        rw [none]
        rfl

/-- Both loops together reach the larger of their limits. -/
theorem padZeros_chars (b : NtoaBuf) (prec width : UInt32) (flags : Flags) :
    (padZeros b prec width flags).chars =
      zeros (min (max prec.toNat (if flags.zeropad then width.toNat else 0)) ntoaBufferSize -
        b.len) ++ b.chars := by
  have first := zeroLoop_chars prec.toNat ntoaBufferSize b (Nat.sub_le _ _)
  have size : (zeroLoop prec.toNat ntoaBufferSize b).len =
      min prec.toNat ntoaBufferSize - b.len + b.len := by
    rw [NtoaBuf.len, first, List.length_append, zeros_length]
    rfl
  rw [padZeros]
  cases flags.zeropad with
  | false =>
      simp only [Bool.false_eq_true, ↓reduceIte, Nat.max_zero]
      exact first
  | true =>
      simp only [↓reduceIte]
      rw [zeroLoop_chars _ _ _ (Nat.sub_le _ _), size, first, ← List.append_assoc, zeros_add]
      congr 2
      omega

theorem add_chars (b : NtoaBuf) (c : UInt8) : (b.add c).chars = bufferSign [c] b.chars := by
  rw [NtoaBuf.add, bufferSign]
  split
  · rename_i room
    rw [if_pos (show b.chars.length < ntoaBufferSize from room)]
    rfl
  · rename_i full
    rw [if_neg (show ¬ b.chars.length < ntoaBufferSize from full)]

theorem putSign_chars (b : NtoaBuf) (negative : Bool) (flags : Flags) :
    (putSign b negative flags).chars = bufferSign (signText negative flags) b.chars := by
  rw [putSign, signText]
  cases negative with
  | true => exact add_chars b _
  | false =>
      cases flags.plus with
      | true => exact add_chars b _
      | false =>
          cases flags.space with
          | true => exact add_chars b _
          | false =>
              simp only [Bool.false_eq_true, ↓reduceIte, bufferSign, List.nil_append, ite_self]

end Buffer

/-- The text of a number without a prefix. -/
theorem ntoaText_plain (value : Nat) (negative : Bool) {base : UInt32} (lower : 2 ≤ base.toNat)
    (prec width : UInt32) {flags : Flags} (plain : flags.hash = false) :
    ntoaText value negative base prec width flags =
      plainText (signText negative flags)
        (digitsText flags.uppercase (digitList base.toNat value flags.precision)) prec width
        flags := by
  have kept : (ntoaDigits value base.toNat flags).2 = flags := by
    simp only [ntoaDigits]
    by_cases zero : value = 0
    · simp only [zero, ↓reduceIte]
      cases flags
      cases plain
      split <;> rfl
    · simp only [zero, ↓reduceIte]
      split <;> rfl
  have digits := ntoaDigits_chars lower value flags
  rw [digitsText_take] at digits
  have signed : signText negative flags ≠ [] ↔ negative ∨ flags.plus ∨ flags.space := by
    rw [signText]
    cases negative <;> cases flags.plus <;> cases flags.space <;> simp
  have width : (if flags.left then width else zeroWidth negative width flags) =
      reducedWidth (signText negative flags) width flags := by
    rw [reducedWidth, zeroWidth]
    simp only [ne_eq] at signed
    cases flags.left with
    | true => simp
    | false => simp [signed, and_left_comm]
  rw [ntoaText, kept, formatBuf, width, plain]
  simp only [Bool.false_eq_true, ↓reduceIte, putSign_chars]
  rw [plainText, bufferNumber]
  cases left : flags.left with
  | true =>
      simp only [↓reduceIte, digits]
  | false =>
      simp only [Bool.false_eq_true, ↓reduceIte, padZeros_chars, NtoaBuf.len, digits]

/-- How many characters of a text are digits. -/
def digitCount (text : List UInt8) : Nat := text.countP fun c => (digitValue c).isSome

/-- The field and the precision leave room for the text, or what has no room does not show. -/
def Fits (sign digits : List UInt8) (precision width : Nat) (flags : Flags) : Prop :=
  digits.length ≤ ntoaBufferSize ∧
    if flags.left then precision ≤ digits.length
    else if flags.zeropad then width ≤ ntoaBufferSize
    else precision ≤ ntoaBufferSize ∧
      (sign = [] ∨ precision < ntoaBufferSize ∨ sign = [asciiOf ' '] ∧ ntoaBufferSize < width)

/-- The sign and the digits of a number: a number with a sign is short. -/
structure Number (sign digits : List UInt8) : Prop where
  oneOf : sign ∈ [[], [asciiOf '-'], [asciiOf '+'], [asciiOf ' ']]
  numerals : ∀ c ∈ digits, (digitValue c).isSome
  short : sign ≠ [] → digits.length < ntoaBufferSize

section Counting

variable {sign digits number : List UInt8}

theorem digitCount_append (first second : List UInt8) :
    digitCount (first ++ second) = digitCount first + digitCount second := List.countP_append

@[simp] theorem digitCount_spaces (n : Nat) : digitCount (spaces n) = 0 := by
  rw [digitCount, spaces, List.countP_replicate]
  rfl

@[simp] theorem digitCount_zeros (n : Nat) : digitCount (zeros n) = n := by
  rw [digitCount, zeros, List.countP_replicate]
  rfl

theorem Number.count (parts : Number sign digits) :
    digitCount digits = digits.length := List.countP_eq_length.mpr parts.numerals

theorem Number.count_drop (parts : Number sign digits) (n : Nat) :
    digitCount (digits.drop n) = digits.length - n := by
  rw [← List.length_drop]
  exact List.countP_eq_length.mpr fun c member => parts.numerals c (List.mem_of_mem_drop member)

theorem Number.count_sign (parts : Number sign digits) : digitCount sign = 0 := by
  have table : ∀ sign ∈ [[], [asciiOf '-'], [asciiOf '+'], [asciiOf ' ']], digitCount sign = 0 := by
    decide
  exact table sign parts.oneOf

theorem Number.sign_length (parts : Number sign digits) (some : sign ≠ []) :
    ∃ c, sign = [c] := by
  have table : ∀ sign ∈ [[], [asciiOf '-'], [asciiOf '+'], [asciiOf ' ']], sign ≠ [] →
      sign.length = 1 := by decide
  exact List.length_eq_one_iff.mp (table sign parts.oneOf some)

theorem sub_one_toNat {width : UInt32} (some : width ≠ 0) :
    (width - 1).toNat = width.toNat - 1 := by
  have positive : 1 ≤ width.toNat := Nat.pos_of_ne_zero fun zero => some (UInt32.toNat_inj.mp zero)
  exact UInt32.toNat_sub_of_le width 1 (UInt32.le_iff_toNat_le.mpr positive)

theorem reducedWidth_signed {width : UInt32} {flags : Flags} (left : flags.left = false)
    (zeropad : flags.zeropad) (signed : sign ≠ []) :
    (reducedWidth sign width flags).toNat = width.toNat - 1 := by
  rw [reducedWidth]
  by_cases zero : width = 0
  · subst zero
    simp
  · rw [if_pos ⟨by simp [left], zeropad, zero, signed⟩]
    exact sub_one_toNat zero

theorem bufferNumber_length (digits : List UInt8) (precision width : Nat) (flags : Flags) :
    (bufferNumber digits precision width flags).length =
      max (min digits.length ntoaBufferSize) (if flags.left then 0
        else min (max precision (if flags.zeropad then width else 0)) ntoaBufferSize) := by
  simp only [bufferNumber]
  cases flags.left with
  | true =>
      simp only [↓reduceIte, List.length_drop]
      omega
  | false =>
      simp only [Bool.false_eq_true, ↓reduceIte, List.length_append, zeros_length,
        List.length_drop]
      omega

theorem bufferSign_room (room : sign ≠ [] → number.length < ntoaBufferSize) :
    bufferSign sign number = sign ++ number := by
  rw [bufferSign]
  split
  · rfl
  · rename_i full
    by_cases none : sign = []
    · rw [none, List.nil_append]
    · exact absurd (room none) full

theorem bufferSign_full (full : ntoaBufferSize ≤ number.length) :
    bufferSign sign number = number := if_neg (Nat.not_lt.mpr full)

theorem Number.count_bufferSign (parts : Number sign digits) (number : List UInt8) :
    digitCount (bufferSign sign number) = digitCount number := by
  rw [bufferSign]
  split
  · rw [digitCount_append, parts.count_sign, Nat.zero_add]
  · rfl

theorem bufferNumber_length_le (digits : List UInt8) (precision width : Nat) (flags : Flags) :
    (bufferNumber digits precision width flags).length ≤ ntoaBufferSize := by
  rw [bufferNumber_length]
  split <;> omega

theorem bufferSign_length_le (parts : Number sign digits)
    (short : number.length ≤ ntoaBufferSize) :
    (bufferSign sign number).length ≤ ntoaBufferSize := by
  rw [bufferSign]
  split
  · rename_i room
    by_cases none : sign = []
    · rw [none, List.nil_append]
      exact short
    · obtain ⟨c, one⟩ := parts.sign_length none
      rw [one]
      exact room
  · exact short

end Counting

section Standard

variable {sign digits : List UInt8} {precision width : UInt32} {flags : Flags}

theorem plainText_standard_left (parts : Number sign digits) (left : flags.left) :
    plainText sign digits precision width flags =
        standardText sign digits precision.toNat width.toNat flags ↔
      Fits sign digits precision.toNat width.toNat flags := by
  have same : reducedWidth sign width flags = width := by
    rw [reducedWidth, left]
    simp
  have plain : plainText sign digits precision width flags =
      field true width.toNat
        (bufferSign sign (digits.drop (digits.length - ntoaBufferSize))) := by
    rw [plainText, same, bufferNumber, left, revText, left]
    simp
  have standard : standardText sign digits precision.toNat width.toNat flags =
      field true width.toNat (sign ++ (zeros (precision.toNat - digits.length) ++ digits)) := by
    rw [standardText, left]
    rfl
  rw [plain, standard, Fits, left]
  simp only [↓reduceIte, field]
  constructor
  · intro equal
    have counts := congrArg digitCount equal
    simp only [digitCount_append, parts.count_bufferSign, parts.count_drop, digitCount_spaces,
      parts.count_sign, parts.count, digitCount_zeros] at counts
    omega
  · rintro ⟨room, enough⟩
    have kept : digits.drop (digits.length - ntoaBufferSize) = digits := by
      rw [Nat.sub_eq_zero_of_le room, List.drop_zero]
    rw [kept, bufferSign_room parts.short, Nat.sub_eq_zero_of_le enough, zeros_zero,
      List.nil_append]

theorem plainText_standard_zeropad (parts : Number sign digits) (left : flags.left = false)
    (zeropad : flags.zeropad) (none : precision = 0) :
    plainText sign digits precision width flags =
        standardText sign digits precision.toNat width.toNat flags ↔
      Fits sign digits precision.toNat width.toNat flags := by
  subst none
  have plain : plainText sign digits 0 width flags =
      bufferSign sign (bufferNumber digits 0 (reducedWidth sign width flags).toNat flags) := by
    rw [plainText, revText, if_pos (by simp [left, zeropad])]
    rfl
  have standard : standardText sign digits 0 width.toNat flags =
      sign ++ zeros (width.toNat - (sign ++ digits).length) ++ digits := by
    rw [standardText, left, zeropad]
    simp
  rw [UInt32.toNat_zero, plain, standard, Fits, left, zeropad]
  simp only [Bool.false_eq_true, ↓reduceIte]
  constructor
  · intro equal
    have short := bufferSign_length_le parts
      (bufferNumber_length_le digits 0 (reducedWidth sign width flags).toNat flags)
    rw [equal] at short
    simp only [List.length_append, zeros_length] at short
    omega
  · rintro ⟨room, enough⟩
    have number : bufferNumber digits 0 (reducedWidth sign width flags).toNat flags =
        zeros ((reducedWidth sign width flags).toNat - digits.length) ++ digits := by
      have smaller : (reducedWidth sign width flags).toNat ≤ width.toNat := by
        rw [reducedWidth]
        split
        · rename_i reduced
          rw [sub_one_toNat reduced.2.2.1]
          exact Nat.sub_le _ _
        · exact Nat.le_refl _
      rw [bufferNumber, left, zeropad, Nat.sub_eq_zero_of_le room]
      simp only [Bool.false_eq_true, ↓reduceIte, Nat.zero_max, List.drop_zero,
        Nat.min_eq_left (Nat.le_trans smaller enough)]
    by_cases unsigned : sign = []
    · have same : reducedWidth sign width flags = width := by
        rw [reducedWidth, unsigned]
        simp
      rw [number, same, unsigned, bufferSign_room (absurd rfl), List.nil_append, List.nil_append,
        List.nil_append]
    · obtain ⟨c, one⟩ := parts.sign_length unsigned
      have short := parts.short unsigned
      rw [number, reducedWidth_signed left zeropad unsigned, bufferSign_room, one, List.append_assoc]
      · congr 3
        rw [List.length_append, List.length_singleton]
        omega
      · intro _
        rw [List.length_append, zeros_length]
        have size : ntoaBufferSize = 32 := rfl
        omega

/-- A text that fills the buffer looks signed if the sign is a space and the field is wider. -/
theorem full_field_iff (c : UInt8) {filled : List UInt8} {width : Nat}
    (full : filled.length = ntoaBufferSize) :
    spaces (width - filled.length) ++ filled =
        spaces (width - ([c] ++ filled).length) ++ ([c] ++ filled) ↔
      c = asciiOf ' ' ∧ ntoaBufferSize < width := by
  have length : ([c] ++ filled).length = 1 + ntoaBufferSize := by
    rw [List.length_append, full, List.length_singleton]
  rw [full, length]
  by_cases wide : ntoaBufferSize < width
  · have last : width - ntoaBufferSize = width - (1 + ntoaBufferSize) + 1 := by omega
    rw [last, spaces, List.replicate_succ', List.append_assoc, ← spaces, List.append_cancel_left_eq,
      List.append_cancel_right_eq]
    simp [wide, eq_comm]
  · constructor
    · intro equal
      have lengths := congrArg List.length equal
      simp only [List.length_append, spaces_length, full, List.length_singleton] at lengths
      omega
    · exact fun both => absurd both.2 wide

theorem plainText_standard_spaces (parts : Number sign digits) (left : flags.left = false)
    (zeropad : flags.zeropad = false) :
    plainText sign digits precision width flags =
        standardText sign digits precision.toNat width.toNat flags ↔
      Fits sign digits precision.toNat width.toNat flags := by
  have same : reducedWidth sign width flags = width := by
    rw [reducedWidth, zeropad]
    simp
  have plain : plainText sign digits precision width flags = field false width.toNat
      (bufferSign sign (bufferNumber digits precision.toNat width.toNat flags)) := by
    rw [plainText, same, revText, left, zeropad]
    simp
  have standard : standardText sign digits precision.toNat width.toNat flags =
      field false width.toNat (sign ++ (zeros (precision.toNat - digits.length) ++ digits)) := by
    rw [standardText, left, zeropad]
    rfl
  have number : bufferNumber digits precision.toNat width.toNat flags =
      zeros (min precision.toNat ntoaBufferSize -
          (digits.drop (digits.length - ntoaBufferSize)).length) ++
        digits.drop (digits.length - ntoaBufferSize) := by
    rw [bufferNumber, left, zeropad]
    simp
  rw [plain, standard, Fits, left, zeropad]
  simp only [Bool.false_eq_true, ↓reduceIte, field]
  by_cases room : digits.length ≤ ntoaBufferSize ∧ precision.toNat ≤ ntoaBufferSize
  · obtain ⟨fits, enough⟩ := room
    have exact : bufferNumber digits precision.toNat width.toNat flags =
        zeros (precision.toNat - digits.length) ++ digits := by
      rw [number, Nat.sub_eq_zero_of_le fits, List.drop_zero, Nat.min_eq_left enough]
    have size : (zeros (precision.toNat - digits.length) ++ digits).length =
        max precision.toNat digits.length := by
      rw [List.length_append, zeros_length]
      omega
    rw [exact]
    by_cases short : sign = [] ∨ precision.toNat < ntoaBufferSize
    · rw [bufferSign_room]
      · simp only [true_iff]
        exact ⟨fits, enough, short.imp_right Or.inl⟩
      · intro signed
        have less := parts.short signed
        have below := short.resolve_left signed
        rw [size]
        omega
    · -- the zeros fill the buffer, and the sign is not written
      obtain ⟨signed, long⟩ := not_or.mp short
      obtain ⟨c, one⟩ := parts.sign_length signed
      have less := parts.short signed
      have full : (zeros (precision.toNat - digits.length) ++ digits).length =
          ntoaBufferSize := by omega
      generalize zeros (precision.toNat - digits.length) ++ digits = filled at full
      rw [bufferSign_full (Nat.le_of_eq full.symm), one, full_field_iff c full]
      simp [fits, enough, long]
  · constructor
    · intro equal
      have counts := congrArg digitCount equal
      simp only [number, digitCount_append, parts.count_bufferSign, parts.count_drop,
        digitCount_spaces, parts.count_sign, parts.count, digitCount_zeros,
        List.length_drop] at counts
      omega
    · rintro ⟨fits, enough, -⟩
      exact absurd ⟨fits, enough⟩ room

theorem plainText_standard_iff (parts : Number sign digits)
    (none : flags.zeropad → precision = 0) :
    plainText sign digits precision width flags =
        standardText sign digits precision.toNat width.toNat flags ↔
      Fits sign digits precision.toNat width.toNat flags := by
  cases left : flags.left with
  | true => exact plainText_standard_left parts left
  | false =>
      cases zeropad : flags.zeropad with
      | true => exact plainText_standard_zeropad parts left zeropad (none zeropad)
      | false => exact plainText_standard_spaces parts left zeropad

end Standard

theorem signText_minus (negative : Bool) (flags : Flags) :
    signText negative flags = [asciiOf '-'] ↔ negative := by
  rw [signText]
  cases negative <;> cases flags.plus <;> cases flags.space <;> decide

/-- A minus sign is lost where zeros fill the buffer. -/
theorem bufferNumber_minus {sign digits : List UInt8} (signed : sign ≠ [])
    (short : digits.length < ntoaBufferSize) (precision width : UInt32) (flags : Flags) :
    (bufferNumber digits precision.toNat (reducedWidth sign width flags).toNat flags).length <
        ntoaBufferSize ↔
      (flags.left = false → precision.toNat < ntoaBufferSize ∧
        (flags.zeropad → width.toNat ≤ ntoaBufferSize)) := by
  have size : ntoaBufferSize = 32 := rfl
  rw [bufferNumber_length]
  cases left : flags.left with
  | true =>
      simp
      omega
  | false =>
      cases zeropad : flags.zeropad with
      | true =>
          rw [reducedWidth_signed left zeropad signed]
          simp
          omega
      | false =>
          simp
          omega

section Reading

variable {base : Nat} {sign : List UInt8} {digits : List Nat} {tail : List UInt8}

theorem revText_spaces (buf : List UInt8) (width : UInt32) (flags : Flags) :
    ∃ front back, (flags.left = false → back = 0) ∧
      revText buf width flags = spaces front ++ (buf ++ spaces back) := by
  rw [revText]
  split
  · exact ⟨0, 0, fun _ => rfl, by simp⟩
  · cases flags.left with
    | true => exact ⟨0, _, (fun left => by cases left), rfl⟩
    | false => exact ⟨width.toNat - buf.length, 0, fun _ => rfl, by simp [field]⟩

theorem ends_spaces (back : Nat) (ends : Ends base tail) : Ends base (spaces back ++ tail) := by
  cases back with
  | zero => exact ends
  | succ back => exact ends_cons (by decide)

theorem bufferNumber_zeros (upper : Bool) (digits : List Nat) (precision width : Nat)
    (flags : Flags) : ∃ n, bufferNumber (digitsText upper digits) precision width flags =
      zeros n ++ digitsText upper (digits.take ntoaBufferSize) := by
  rw [bufferNumber, ← digitsText_take]
  split
  · exact ⟨0, rfl⟩
  · exact ⟨_, rfl⟩

/-- What a reader gets back from the text of a number. -/
theorem readNumber_plainText (upper : Bool) (lower : 2 ≤ base) (small : base ≤ 16)
    (inBase : ∀ digit ∈ digits, digit < base) (ends : Ends base tail)
    (some : digits ≠ [] ∨ tail = [])
    (oneOf : sign ∈ [[], [asciiOf '-'], [asciiOf '+'], [asciiOf ' ']]) (precision width : UInt32)
    (flags : Flags) :
    let number := bufferNumber (digitsText upper digits) precision.toNat
      (reducedWidth sign width flags).toNat flags
    let value := Nat.ofDigits base (digits.take ntoaBufferSize)
    ∃ back, (flags.left = false → back = 0) ∧
      readNumber base (plainText sign (digitsText upper digits) precision width flags ++ tail) =
        (if sign = [asciiOf '-'] ∧ number.length < ntoaBufferSize then -(value : Int) else value,
          spaces back ++ tail) := by
  intro number value
  obtain ⟨front, back, right, text⟩ := revText_spaces (bufferSign sign number)
    (reducedWidth sign width flags) flags
  obtain ⟨n, padded⟩ := bufferNumber_zeros upper digits precision.toNat
    (reducedWidth sign width flags).toNat flags
  have whole : plainText sign (digitsText upper digits) precision width flags ++ tail =
      spaces front ++ (bufferSign sign number ++ (spaces back ++ tail)) := by
    rw [plainText, text, List.append_assoc, List.append_assoc]
  have read : readDigits base 0 (number ++ (spaces back ++ tail)) =
      (Nat.ofDigits base (digits.take ntoaBufferSize), spaces back ++ tail) := by
    have kept : ∀ digit ∈ digits.take ntoaBufferSize, digit < base :=
      fun digit member => inBase digit (List.mem_of_mem_take member)
    rw [show number = _ from padded]
    exact readDigits_zeros upper small n kept (by omega) (ends_spaces back ends)
  -- without a minus sign in front, the number is read as it stands
  have unsigned : ∃ back', (flags.left = false → back' = 0) ∧
      readNumber base (number ++ (spaces back ++ tail)) =
        ((value : Int), spaces back' ++ tail) := by
    by_cases empty : number = []
    · have nothing : digits.take ntoaBufferSize = [] := by
        have none := padded.symm.trans empty
        simpa [digitsText] using (List.append_eq_nil_iff.mp none).2
      have last : tail = [] := by
        refine some.resolve_left fun present => present ?_
        exact (List.take_eq_nil_iff.mp nothing).resolve_left (by decide)
      refine ⟨0, fun _ => rfl, ?_⟩
      have zero : value = 0 := by
        show Nat.ofDigits base (digits.take ntoaBufferSize) = 0
        rw [nothing, Nat.ofDigits_nil]
      rw [empty, last, zero, List.nil_append]
      exact readNumber_spaces back []
    · refine ⟨back, right, ?_⟩
      rw [readNumber_digits, read]
      rw [show number = _ from padded]
      cases n with
      | succ n => exact ⟨asciiOf '0', rfl, by decide⟩
      | zero =>
          cases list : (digits.take ntoaBufferSize).reverse with
          | nil =>
              refine absurd ?_ empty
              rw [show number = _ from padded, digitsText, list]
              rfl
          | cons digit others =>
              have member : digit ∈ digits.take ntoaBufferSize := by
                rw [← List.mem_reverse, list]
                exact List.mem_cons_self
              have bound := inBase digit (List.mem_of_mem_take member)
              refine ⟨digitChar upper digit, ?_, ?_⟩
              · rw [digitsText, list]
                rfl
              · rw [digitValue_digitChar upper (Nat.lt_of_lt_of_le bound small)]
                rfl
  rw [whole, spaces, readNumber_spaces, bufferSign]
  by_cases room : number.length < ntoaBufferSize
  · rw [if_pos room, List.append_assoc]
    simp only [List.mem_cons, List.not_mem_nil, or_false] at oneOf
    rcases oneOf with none | minus | plus | space
    · rw [none]
      exact unsigned
    · refine ⟨back, right, ?_⟩
      rw [minus, if_pos ⟨rfl, room⟩, List.singleton_append, readNumber_minus, read]
    · refine ⟨back, right, ?_⟩
      rw [plus, if_neg (fun both => absurd both.1 (by decide)), List.singleton_append,
        readNumber_plus, read]
    · rw [space, if_neg (fun both => absurd both.1 (by decide))]
      have skip : readNumber base ([asciiOf ' '] ++ (number ++ (spaces back ++ tail))) = _ :=
        readNumber_spaces 1 (number ++ (spaces back ++ tail))
      exact unsigned.imp fun _ both => ⟨both.1, skip.trans both.2⟩
  · rw [if_neg room, if_neg (fun both => room both.2)]
    exact unsigned

end Reading

section Conversion

variable {spec : UInt8} {flags : Flags} {args rest : List UInt32} {value : Int}

theorem integerBase_cases (spec : UInt8) :
    integerBase spec = 16 ∨ integerBase spec = 8 ∨ integerBase spec = 2 ∨
      integerBase spec = 10 := by
  rw [integerBase]
  split_ifs <;> simp

theorem integerBase_bounds (spec : UInt8) :
    2 ≤ (integerBase spec).toNat ∧ (integerBase spec).toNat ≤ 16 := by
  rcases integerBase_cases spec with base | base | base | base <;> rw [base] <;> decide

theorem digitList_lt {base : Nat} (lower : 2 ≤ base) (value : Nat) (precision : Bool) :
    ∀ digit ∈ digitList base value precision, digit < base := by
  rw [digitList]
  split_ifs
  · nofun
  · intro digit member
    rw [List.mem_singleton.mp member]
    omega
  · exact fun digit => Nat.digits_lt_base (by omega)

/-- The buffer keeps the value up to a power of the base. -/
theorem ofDigits_digitList {base : Nat} (lower : 2 ≤ base) (value : Nat) (precision : Bool) :
    Nat.ofDigits base ((digitList base value precision).take ntoaBufferSize) =
      value % base ^ ntoaBufferSize := by
  rw [digitList]
  split_ifs with zero
  · rw [zero, List.take_nil, Nat.zero_mod]
    rfl
  · rw [zero, Nat.zero_mod, show [0].take ntoaBufferSize = [0] from rfl, Nat.ofDigits_singleton]
  · exact (Nat.self_mod_pow_eq_ofDigits_take ntoaBufferSize value lower).symm

/-- The flags that are left, all at once. -/
theorem integerFlags_eq (spec : UInt8) (flags : Flags) : integerFlags spec flags =
    { flags with
      hash := flags.hash && decide (integerBase spec ≠ 10)
      uppercase := flags.uppercase || decide (spec = asciiOf 'X')
      plus := flags.plus && decide (spec = asciiOf 'i' ∨ spec = asciiOf 'd')
      space := flags.space && decide (spec = asciiOf 'i' ∨ spec = asciiOf 'd')
      zeropad := flags.zeropad && !flags.precision } := by
  have upper : spec = asciiOf 'X' → integerBase spec ≠ 10 ∧ ¬ (spec = asciiOf 'i' ∨ spec = asciiOf 'd') := by
    rintro rfl
    decide
  simp only [integerFlags, ne_eq, ← not_or]
  obtain ⟨zeropad, left, plus, space, hash, uppercase, char, short, long, longLong, precision,
    adaptExp⟩ := flags
  split_ifs <;> simp_all

theorem integerArg_flags (spec : UInt8) (flags : Flags) (args : List UInt32) :
    integerArg spec (integerFlags spec flags) args = integerArg spec flags args := by
  rw [integerFlags_eq]
  rfl

/-- An argument has at most 64 bits, and only `%d` and `%i` take negative ones. -/
theorem integerArg_range (read : integerArg spec flags args = .ok (value, rest)) :
    value.natAbs < 2 ^ 64 ∧ (value < 0 → spec = asciiOf 'i' ∨ spec = asciiOf 'd') := by
  rw [integerArg] at read
  split at read
  · rename_i signed
    refine ⟨?_, fun _ => signed⟩
    split at read
    · obtain ⟨⟨word, args'⟩, -, done⟩ := bind_eq_ok.mp read
      cases done
      have lower := word.toInt64.le_toInt
      have upper := word.toInt64.toInt_lt
      omega
    · obtain ⟨⟨word, args'⟩, -, done⟩ := bind_eq_ok.mp read
      cases done
      have long := word.toInt32.le_toInt
      have long' := word.toInt32.toInt_lt
      have short := word.toInt32.toInt16.le_toInt
      have short' := word.toInt32.toInt16.toInt_lt
      have char := word.toInt32.toInt8.le_toInt
      have char' := word.toInt32.toInt8.toInt_lt
      split_ifs <;> omega
  · split at read
    · obtain ⟨⟨word, args'⟩, -, done⟩ := bind_eq_ok.mp read
      cases done
      have bound := word.toNat_lt
      omega
    · obtain ⟨⟨word, args'⟩, -, done⟩ := bind_eq_ok.mp read
      cases done
      have long := word.toNat_lt
      have short := word.toUInt16.toNat_lt
      have char := word.toUInt8.toNat_lt
      split_ifs <;> omega

/-- The sign and the digits of an argument. -/
theorem integer_number (read : integerArg spec flags args = .ok (value, rest)) :
    let flags := integerFlags spec flags
    Number (signText (value < 0) flags) (digitsText flags.uppercase
      (digitList (integerBase spec).toNat value.natAbs flags.precision)) := by
  intro flags'
  obtain ⟨range, signed⟩ := integerArg_range read
  obtain ⟨lower, small⟩ := integerBase_bounds spec
  refine ⟨?_, ?_, ?_⟩
  · rw [signText]
    split_ifs <;> simp
  · intro c member
    obtain ⟨digit, inside, same⟩ := List.mem_map.mp member
    have bound := digitList_lt lower _ _ digit (List.mem_reverse.mp inside)
    rw [← same, digitValue_digitChar _ (Nat.lt_of_lt_of_le bound small)]
    rfl
  · intro some
    have signedSpec : spec = asciiOf 'i' ∨ spec = asciiOf 'd' := by
      by_contra unsigned
      obtain ⟨notI, notD⟩ := not_or.mp unsigned
      have positive : ¬ value < 0 := mt signed unsigned
      have cleared : flags'.plus = false ∧ flags'.space = false := by
        simp [flags', integerFlags_eq, notI, notD]
      exact some (by simp [signText, positive, cleared])
    have decimal : integerBase spec = 10 := by
      rcases signedSpec with same | same <;> rw [same] <;> decide
    have length : (Nat.digits 10 value.natAbs).length ≤ 20 :=
      (Nat.digits_length_le_iff (by decide) _).mpr (Nat.lt_trans range (by decide))
    rw [digitsText_length, decimal, digitList]
    split_ifs
    · exact Nat.zero_lt_succ 31
    · exact Nat.lt_of_lt_of_le Nat.one_lt_two (by decide)
    · exact Nat.lt_of_le_of_lt length (by decide)

/-- What an argument without a prefix reads as. -/
theorem integerText_plain (plain : flags.hash = false ∨ integerBase spec = 10)
    (width precision : UInt32) (read : integerArg spec flags args = .ok (value, rest)) :
    let flags' := integerFlags spec flags
    integerText spec flags width precision args = .ok (plainText (signText (value < 0) flags')
      (digitsText flags'.uppercase
        (digitList (integerBase spec).toNat value.natAbs flags'.precision)) precision width
        flags', rest) := by
  intro flags'
  have noHash : flags'.hash = false := by
    rcases plain with none | decimal
    · simp [flags', integerFlags_eq, none]
    · simp [flags', integerFlags_eq, decimal]
  rw [integerText, integerArg_flags, read]
  simp only [ok_bind]
  rw [← ntoaText_plain _ _ (integerBase_bounds spec).1 _ _ noHash]
  rfl

theorem convertInteger_plain (plain : flags.hash = false ∨ integerBase spec = 10)
    (width precision : UInt32) (read : integerArg spec flags args = .ok (value, rest))
    {σ : Type} (sink : Sink σ) (o : Output σ) :
    let flags' := integerFlags spec flags
    convertInteger sink spec flags width precision args o = .ok (rest, sink.emit o
      (plainText (signText (value < 0) flags') (digitsText flags'.uppercase
        (digitList (integerBase spec).toNat value.natAbs flags'.precision)) precision width
        flags')) := by
  intro flags'
  rw [convertInteger_eq, integerText_plain plain width precision read]
  rfl

end Conversion

/-- An integer goes out as the C standard asks for, unless the code ignores the precision of a text
at the left end of its field, or its buffer has no room for the digits, for the zeros or for a
sign in front of them. -/
theorem convertInteger_standard_iff (spec : UInt8) (flags : Flags) (width precision : UInt32)
    (args rest : List UInt32) (value : Int) (plain : flags.hash = false ∨ integerBase spec = 10)
    (given : flags.precision = false → precision = 0)
    (read : integerArg spec flags args = .ok (value, rest)) :
    let flags' := integerFlags spec flags
    let sign := signText (value < 0) flags'
    let digits := digitsText flags'.uppercase
      (digitList (integerBase spec).toNat value.natAbs flags'.precision)
    ∃ text, (∀ {σ : Type} (sink : Sink σ) (o : Output σ),
        convertInteger sink spec flags width precision args o = .ok (rest, sink.emit o text)) ∧
      (text = standardText sign digits precision.toNat width.toNat flags' ↔
        Fits sign digits precision.toNat width.toNat flags') := by
  intro flags' sign digits
  refine ⟨_, fun sink o => convertInteger_plain plain width precision read sink o, ?_⟩
  apply plainText_standard_iff (integer_number read)
  intro zeropad
  apply given
  simp only [integerFlags_eq, Bool.and_eq_true, Bool.not_eq_true'] at zeropad
  exact zeropad.2

/-- `%033d` of -5 is not what the standard asks for. -/
theorem convertInteger_standard_wide :
    ∃ text, (∀ {σ : Type} (sink : Sink σ) (o : Output σ),
        convertInteger sink (asciiOf 'd') { zeropad := true } 33 0 [0xfffffffb] o =
          .ok ([], sink.emit o text)) ∧
      text ≠ standardText [asciiOf '-'] [asciiOf '5'] 0 33 { zeropad := true } := by
  obtain ⟨text, sent, iff⟩ := convertInteger_standard_iff (asciiOf 'd') { zeropad := true } 33 0
    [0xfffffffb] [] (-5) (Or.inl rfl) (fun _ => rfl) rfl
  refine ⟨text, sent, fun standard => ?_⟩
  exact absurd (iff.mp standard).2 (by decide)

/-- Reading an integer's text gives the integer back if the buffer had room for its digits, and,
where it is negative, for the minus sign in front of them. -/
theorem convertInteger_reads_back_iff (spec : UInt8) (flags : Flags) (width precision : UInt32)
    (args rest : List UInt32) (value : Int) (plain : flags.hash = false ∨ integerBase spec = 10)
    (read : integerArg spec flags args = .ok (value, rest)) :
    ∃ text, (∀ {σ : Type} (sink : Sink σ) (o : Output σ),
        convertInteger sink spec flags width precision args o = .ok (rest, sink.emit o text)) ∧
      ((readNumber (integerBase spec).toNat text).1 = value ↔
        value.natAbs < (integerBase spec).toNat ^ ntoaBufferSize ∧
          (value < 0 → flags.left = false → precision.toNat < ntoaBufferSize ∧
            (flags.zeropad → flags.precision = false → width.toNat ≤ ntoaBufferSize))) := by
  refine ⟨_, fun sink o => convertInteger_plain plain width precision read sink o, ?_⟩
  obtain ⟨lower, small⟩ := integerBase_bounds spec
  have parts := integer_number read
  have range := integerArg_range read
  obtain ⟨back, -, same⟩ := readNumber_plainText (integerFlags spec flags).uppercase lower small
    (digitList_lt lower value.natAbs (integerFlags spec flags).precision) ends_nil (Or.inr rfl)
    parts.oneOf precision width (integerFlags spec flags)
  rw [List.append_nil, ofDigits_digitList lower] at same
  rw [same]
  have minus : signText (value < 0) (integerFlags spec flags) = [asciiOf '-'] ↔ value < 0 :=
    (signText_minus _ _).trans decide_eq_true_iff
  simp only [minus]
  by_cases negative : value < 0
  · have decimal : integerBase spec = 10 := by
      rcases range.2 negative with same | same <;> rw [same] <;> decide
    have fits : value.natAbs < (integerBase spec).toNat ^ ntoaBufferSize := by
      rw [decimal]
      exact Nat.lt_trans range.1 (by decide)
    have signed : signText (value < 0) (integerFlags spec flags) ≠ [] := by
      rw [minus.mpr negative]
      exact List.cons_ne_nil _ _
    have room := bufferNumber_minus signed (parts.short signed) precision width
      (integerFlags spec flags)
    have kept : (integerFlags spec flags).left = flags.left ∧
        ((integerFlags spec flags).zeropad ↔ flags.zeropad ∧ flags.precision = false) := by
      simp [integerFlags_eq]
    rw [kept.1, kept.2, and_imp] at room
    rw [Nat.mod_eq_of_lt fits]
    constructor
    · intro same
      refine ⟨fits, fun _ => room.mp ?_⟩
      by_contra lost
      rw [if_neg (fun both => lost both.2)] at same
      omega
    · intro both
      rw [if_pos ⟨negative, room.mpr (both.2 negative)⟩]
      omega
  · have same : ((value.natAbs % (integerBase spec).toNat ^ ntoaBufferSize : Nat) : Int) = value ↔
        value.natAbs < (integerBase spec).toNat ^ ntoaBufferSize := by
      have positive : 0 < (integerBase spec).toNat ^ ntoaBufferSize := Nat.pow_pos (by omega)
      rw [← Nat.mod_eq_iff_lt (Nat.pos_iff_ne_zero.mp positive)]
      omega
    rw [if_neg (fun both => negative both.1)]
    exact same.trans ⟨fun fits => ⟨fits, fun less => absurd less negative⟩, fun both => both.1⟩

/-- `%.40d` of -7 reads as 7. -/
theorem convertInteger_reads_back_long :
    ∃ text, (∀ {σ : Type} (sink : Sink σ) (o : Output σ),
        convertInteger sink (asciiOf 'd') { precision := true } 0 40 [0xfffffff9] o =
          .ok ([], sink.emit o text)) ∧ (readNumber 10 text).1 ≠ -7 := by
  obtain ⟨text, sent, iff⟩ := convertInteger_reads_back_iff (asciiOf 'd') { precision := true } 0 40
    [0xfffffff9] [] (-7) (Or.inl rfl) rfl
  exact ⟨text, sent, fun same => absurd (iff.mp same).2 (by decide)⟩

end FrogOS.Printf
