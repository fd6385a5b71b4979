import FrogOS.PrintfInteger

set_option autoImplicit false

namespace FrogOS.Printf

open ByteMemory BoundedAccess Emission Numeral

/-- "handle hash" for base 16: where the text has the length of the field, two characters make
room for the prefix. -/
def hashNumber (number : List UInt8) (precision : Bool) (prec width : Nat) : List UInt8 :=
  if ¬ precision ∧ number.length ≠ 0 ∧ (number.length = prec ∨ number.length = width) then
    number.drop 2
  else number

/-- Each character of the prefix goes in front if there is room for it. -/
def hashText (upper : Bool) (number : List UInt8) : List UInt8 :=
  bufferSign [asciiOf '0'] (bufferSign [if upper then asciiOf 'X' else asciiOf 'x'] number)

/-- The hexadecimal number behind spaces and its prefix, and the rest of the text. -/
def readPrefixed (text : List UInt8) : Option (Nat × List UInt8) :=
  match text.dropWhile fun c => c = asciiOf ' ' with
  | zero :: x :: rest =>
      if zero = asciiOf '0' ∧ (x = asciiOf 'x' ∨ x = asciiOf 'X') then some (readDigits 16 0 rest)
      else none
  | _ => none

section Buffer

variable {flags : Flags} {value : Nat}

theorem handleHash_chars (b : NtoaBuf) (prec width : UInt32) (flags : Flags) :
    (handleHash b 16 prec width flags).chars = hashText flags.uppercase
      (hashNumber b.chars flags.precision prec.toNat width.toNat) := by
  have popped : (if ¬ flags.precision ∧ b.len ≠ 0 ∧ (b.len = prec.toNat ∨ b.len = width.toNat) then
      let b := b.pop
      if b.len ≠ 0 ∧ (16 : UInt32) = 16 then b.pop else b
    else b).chars = hashNumber b.chars flags.precision prec.toNat width.toNat := by
    rw [hashNumber, ← NtoaBuf.len]
    split
    · have twice : b.chars.drop 2 = b.chars.tail.tail := by
        rw [← List.drop_one, ← List.drop_one, List.drop_drop]
      rw [twice]
      by_cases two : b.pop.len ≠ 0
      · simp only [two, ne_eq, not_false_eq_true, and_self, ↓reduceIte]
        rfl
      · have empty : b.chars.tail = [] := List.length_eq_zero_iff.mp (not_not.mp two)
        simp only [two, false_and, ↓reduceIte]
        show b.chars.tail = _
        rw [empty]
        rfl
    · rfl
  rw [handleHash, ← popped]
  cases flags.uppercase with
  | true => simp [add_chars, hashText]
  | false => simp [add_chars, hashText]

/-- The text of a hexadecimal number with a prefix. -/
theorem ntoaText_hash (prec width : UInt32) (hash : flags.hash) (nonzero : value ≠ 0)
    (plus : flags.plus = false) (space : flags.space = false) :
    ntoaText value false 16 prec width flags =
      revText (hashText flags.uppercase (hashNumber (bufferNumber (digitsText flags.uppercase
        (Nat.digits 16 value)) prec.toNat width.toNat flags) flags.precision prec.toNat
          width.toNat)) width flags := by
  have kept : (ntoaDigits value 16 flags).2 = flags := by
    simp only [ntoaDigits, nonzero, ↓reduceIte]
    split <;> rfl
  have digits := ntoaDigits_chars (by decide : 2 ≤ 16) value flags
  rw [digitsText_take, digitList, if_neg nonzero] at digits
  have signed : signText false flags = [] := by
    rw [signText, plus, space]
    rfl
  have same : (if flags.left then width else zeroWidth false width flags) = width := by
    rw [zeroWidth, plus, space]
    simp
  rw [ntoaText, show (16 : UInt32).toNat = 16 from rfl, kept, formatBuf, same, hash]
  simp only [↓reduceIte, putSign_chars, signed, handleHash_chars]
  rw [bufferSign, List.nil_append, ite_self, bufferNumber]
  cases left : flags.left with
  | true =>
      simp only [↓reduceIte, digits]
  | false =>
      simp only [Bool.false_eq_true, ↓reduceIte, padZeros_chars, NtoaBuf.len, digits]

end Buffer

section Reading

theorem readPrefixed_spaces (front : Nat) (text : List UInt8) :
    readPrefixed (spaces front ++ text) = readPrefixed text := by
  induction front with
  | zero => rfl
  | succ front ih => exact ih

theorem readPrefixed_none {c d : UInt8} (text : List UInt8) (space : c ≠ asciiOf ' ')
    (other : c ≠ asciiOf '0' ∨ d ≠ asciiOf 'x' ∧ d ≠ asciiOf 'X') :
    readPrefixed (c :: d :: text) = none := by
  rw [readPrefixed, List.dropWhile_cons_of_neg (by simpa using space)]
  refine if_neg fun both => ?_
  rcases other with first | second
  · exact first both.1
  · exact both.2.elim second.1 second.2

/-- The prefix is there if there was room for both characters, and behind it is the number. -/
theorem readPrefixed_hashText (upper : Bool) {digits : List Nat}
    (inBase : ∀ digit ∈ digits, digit < 16) (n : Nat) (width : UInt32) (flags : Flags)
    (value : Nat) :
    (∃ rest, readPrefixed (revText (hashText upper (zeros n ++ digitsText upper digits)) width
        flags) = some (value, rest)) ↔
      n + digits.length + 2 ≤ ntoaBufferSize ∧ Nat.ofDigits 16 digits = value := by
  have size : ntoaBufferSize = 32 := rfl
  have numerals : ∀ c ∈ zeros n ++ digitsText upper digits, (digitValue c).isSome := by
    intro c member
    rcases List.mem_append.mp member with zero | digit
    · rw [List.eq_of_mem_replicate zero]
      decide
    · obtain ⟨digit, inside, same⟩ := List.mem_map.mp digit
      rw [← same, digitValue_digitChar _ (inBase digit (List.mem_reverse.mp inside))]
      rfl
  have read (back : Nat) : readDigits 16 0 (zeros n ++ digitsText upper digits ++ spaces back) =
      (Nat.ofDigits 16 digits, spaces back) :=
    readDigits_zeros upper (le_refl 16) n inBase (by decide)
      (by simpa using ends_spaces back ends_nil)
  have length : (zeros n ++ digitsText upper digits).length = n + digits.length := by
    rw [List.length_append, zeros_length, digitsText_length]
  obtain ⟨front, back, -, text⟩ := revText_spaces (hashText upper (zeros n ++ digitsText upper digits))
    width flags
  rw [text, readPrefixed_spaces]
  replace read := read back
  generalize zeros n ++ digitsText upper digits = number at numerals length read
  generalize shown : (if upper then asciiOf 'X' else asciiOf 'x') = x
  have letter : x = asciiOf 'x' ∨ x = asciiOf 'X' := by
    rw [← shown]
    cases upper
    · exact Or.inl rfl
    · exact Or.inr rfl
  rw [hashText, shown]
  by_cases room : number.length + 2 ≤ ntoaBufferSize
  · have whole : bufferSign [asciiOf '0'] (bufferSign [x] number) ++ spaces back =
        asciiOf '0' :: x :: (number ++ spaces back) := by
      have first : number.length < ntoaBufferSize := by omega
      have second : ([x] ++ number).length < ntoaBufferSize := by
        rw [List.length_append, List.length_singleton]
        omega
      rw [bufferSign_room fun _ => first, bufferSign_room fun _ => second]
      rfl
    have found : readPrefixed (asciiOf '0' :: x :: (number ++ spaces back)) =
        some (Nat.ofDigits 16 digits, spaces back) := by
      rw [← read]
      exact if_pos ⟨rfl, letter⟩
    rw [whole, found]
    simp [← length, room]
  · have absent : readPrefixed (bufferSign [asciiOf '0'] (bufferSign [x] number) ++ spaces back) =
        none := by
      by_cases last : number.length < ntoaBufferSize
      · -- there is room for the letter only
        have full : ([x] ++ number).length = ntoaBufferSize := by
          rw [List.length_append, List.length_singleton]
          omega
        rw [bufferSign_room fun _ => last, bufferSign_full (Nat.le_of_eq full.symm)]
        cases number with
        | nil => exact absurd (by decide) room
        | cons d number =>
            apply readPrefixed_none
            · rcases letter with small | large
              · rw [small]
                decide
              · rw [large]
                decide
            · left
              rcases letter with small | large
              · rw [small]
                decide
              · rw [large]
                decide
      · have full := Nat.le_of_not_lt last
        rw [bufferSign_full full, bufferSign_full full]
        have table : ∀ c : UInt8, (digitValue c).isSome →
            c ≠ asciiOf ' ' ∧ c ≠ asciiOf 'x' ∧ c ≠ asciiOf 'X' := by
          intro c digit
          refine ⟨?_, ?_, ?_⟩ <;> (rintro rfl; revert digit; decide)
        match number with
        | [] => exact absurd full (by decide)
        | [_] => exact absurd full (Nat.not_le.mpr (by decide : 1 < 32))
        | c :: d :: number =>
            exact readPrefixed_none _ (table c (numerals c List.mem_cons_self)).1
              (Or.inr (table d (numerals d (List.mem_cons_of_mem c List.mem_cons_self))).2)
    rw [absent]
    simp [← length, room]

/-- Two characters less are zeros, or digits of the number. -/
theorem drop_zeros (upper : Bool) (digits : List Nat) (n : Nat) :
    (zeros n ++ digitsText upper digits).drop 2 =
      zeros (n - 2) ++ digitsText upper (digits.take (digits.length - (2 - n))) := by
  have behind : (digitsText upper digits).drop (2 - n) =
      (digitsText upper digits).drop (digits.length - (digits.length - (2 - n))) := by
    by_cases inside : 2 - n ≤ digits.length
    · congr 1
      omega
    · rw [List.drop_eq_nil_of_le (by rw [digitsText_length]; omega),
        List.drop_eq_nil_of_le (by rw [digitsText_length]; omega)]
  rw [List.drop_append, zeros_length, zeros, List.drop_replicate, behind, digitsText_take,
    digitsText_length]
  rfl

/-- A number reads back behind its prefix if the characters that were dropped were zeros and what
is left has room for the prefix. -/
theorem readPrefixed_hashNumber (upper : Bool) {value : Nat} (nonzero : value ≠ 0) (n : Nat)
    (precision : Bool) (prec : Nat) (width : UInt32) (flags : Flags) :
    let length := n + (Nat.digits 16 value).length
    let dropped := ¬ precision ∧ (length = prec ∨ length = width.toNat)
    (∃ rest, readPrefixed (revText (hashText upper (hashNumber (zeros n ++ digitsText upper
        (Nat.digits 16 value)) precision prec width.toNat)) width flags) = some (value, rest)) ↔
      if dropped then 2 ≤ n ∧ length ≤ ntoaBufferSize else length + 2 ≤ ntoaBufferSize := by
  intro length dropped
  have inBase : ∀ digit ∈ Nat.digits 16 value, digit < 16 := fun _ => Nat.digits_lt_base (by decide)
  have some : 0 < (Nat.digits 16 value).length :=
    List.length_pos_iff.mpr (Nat.digits_ne_nil_iff_ne_zero.mpr nonzero)
  have size : (zeros n ++ digitsText upper (Nat.digits 16 value)).length = length := by
    rw [List.length_append, zeros_length, digitsText_length]
  rw [hashNumber, size]
  by_cases drop : dropped
  · have popped : ¬ precision = true ∧ length ≠ 0 ∧ (length = prec ∨ length = width.toNat) :=
      ⟨drop.1, by omega, drop.2⟩
    have kept : Nat.ofDigits 16 ((Nat.digits 16 value).take
        ((Nat.digits 16 value).length - (2 - n))) = value ↔ 2 ≤ n := by
      rw [← Nat.self_mod_pow_eq_ofDigits_take _ _ (by decide), Nat.mod_eq_iff_lt
        (Nat.pos_iff_ne_zero.mp (Nat.pow_pos (by decide))),
        ← Nat.digits_length_le_iff (by decide)]
      omega
    rw [if_pos popped, if_pos drop, drop_zeros, readPrefixed_hashText upper
      (fun digit member => inBase digit (List.mem_of_mem_take member)), kept, List.length_take]
    constructor
    · intro both
      exact ⟨both.2, by omega⟩
    · intro both
      exact ⟨by omega, both.1⟩
  · have stays : ¬ (¬ precision = true ∧ length ≠ 0 ∧ (length = prec ∨ length = width.toNat)) :=
      fun popped => drop ⟨popped.1, popped.2.2⟩
    rw [if_neg stays, if_neg drop, readPrefixed_hashText upper inBase, Nat.ofDigits_digits]
    exact and_iff_left rfl

end Reading

/-- `%#x` of a nonzero number reads back unless digits were dropped for the prefix, in a field that
the digits (or the zeros and the digits) just fill, or there was no room for the prefix. -/
theorem convertInteger_prefix_iff (spec : UInt8) (hex : spec = asciiOf 'x' ∨ spec = asciiOf 'X')
    (flags : Flags) (hash : flags.hash) (width precision : UInt32)
    (given : flags.precision = false → precision = 0) (args rest : List UInt32) (value : Int)
    (nonzero : value ≠ 0) (read : integerArg spec flags args = .ok (value, rest)) :
    ∃ text, (∀ {σ : Type} (sink : Sink σ) (o : Output σ),
        convertInteger sink spec flags width precision args o = .ok (rest, sink.emit o text)) ∧
      ((∃ behind, readPrefixed text = some (value.natAbs, behind)) ↔
        let digits := (Nat.digits 16 value.natAbs).length
        if flags.precision then flags.left ∨ precision.toNat + 2 ≤ ntoaBufferSize
        else if flags.zeropad ∧ flags.left = false then
          width.toNat < digits ∨ digits + 2 ≤ width.toNat ∧ width.toNat ≤ ntoaBufferSize
        else width.toNat ≠ digits) := by
  have base : integerBase spec = 16 := by
    rcases hex with same | same <;> rw [same] <;> decide
  have unsigned : ¬ (spec = asciiOf 'i' ∨ spec = asciiOf 'd') := by
    rcases hex with same | same <;> rw [same] <;> decide
  obtain ⟨range, signed⟩ := integerArg_range read
  have positive : decide (value < 0) = false := decide_eq_false (mt signed unsigned)
  have magnitude : value.natAbs ≠ 0 := Int.natAbs_ne_zero.mpr nonzero
  have small : (Nat.digits 16 value.natAbs).length ≤ 16 :=
    (Nat.digits_length_le_iff (by decide) _).mpr (Nat.lt_of_lt_of_le range (by decide))
  obtain ⟨kept, same⟩ : ∃ kept, integerFlags spec flags = kept := ⟨_, rfl⟩
  have fields := integerFlags_eq spec flags
  rw [same, base, hash] at fields
  simp only [unsigned, decide_false, Bool.and_false] at fields
  have number := bufferNumber_zeros kept.uppercase (Nat.digits 16 value.natAbs) precision.toNat
    width.toNat kept
  have length := bufferNumber_length (digitsText kept.uppercase (Nat.digits 16 value.natAbs))
    precision.toNat width.toNat kept
  obtain ⟨n, padded⟩ := number
  rw [List.take_of_length_le (Nat.le_trans small (by decide))] at padded
  rw [padded, List.length_append, zeros_length, digitsText_length] at length
  refine ⟨revText (hashText kept.uppercase (hashNumber (zeros n ++ digitsText kept.uppercase
    (Nat.digits 16 value.natAbs)) kept.precision precision.toNat width.toNat)) width kept, ?_, ?_⟩
  · intro σ sink o
    rw [convertInteger_eq, integerText, integerArg_flags, read]
    simp only [ok_bind]
    rw [same, base, positive, ntoaText_hash precision width (by rw [fields]; rfl) magnitude
      (by rw [fields]) (by rw [fields]), padded]
    rfl
  · refine (readPrefixed_hashNumber kept.uppercase magnitude n kept.precision precision.toNat width
      kept).trans ?_
    have size : ntoaBufferSize = 32 := rfl
    have some : 0 < (Nat.digits 16 value.natAbs).length :=
      List.length_pos_iff.mpr (Nat.digits_ne_nil_iff_ne_zero.mpr magnitude)
    have front : kept.left = flags.left := by rw [fields]
    have precise : kept.precision = flags.precision := by rw [fields]
    have zeropad : kept.zeropad = (flags.zeropad && !flags.precision) := by rw [fields]
    rw [front, zeropad] at length
    rw [precise]
    rw [size] at length ⊢
    generalize (Nat.digits 16 value.natAbs).length = digits at *
    cases precisely : flags.precision with
    | true =>
        cases left : flags.left with
        | true =>
            simp [left] at length ⊢
            omega
        | false =>
            simp [precisely, left] at length ⊢
            omega
    | false =>
        rw [given precisely] at length ⊢
        cases left : flags.left with
        | true =>
            simp [left] at length ⊢
            split <;> omega
        | false =>
            cases zeros : flags.zeropad with
            | true =>
                simp [precisely, left, zeros] at length ⊢
                split <;> omega
            | false =>
                simp [left, zeros] at length ⊢
                split <;> omega

/-- `%#4x` of 0x1234 does not show 0x1234. -/
theorem convertInteger_prefix_drops :
    ∃ text, (∀ {σ : Type} (sink : Sink σ) (o : Output σ),
        convertInteger sink (asciiOf 'x') { hash := true } 4 0 [0x1234] o =
          .ok ([], sink.emit o text)) ∧ ¬ ∃ behind, readPrefixed text = some (0x1234, behind) := by
  obtain ⟨text, sent, iff⟩ := convertInteger_prefix_iff (asciiOf 'x') (Or.inl rfl) { hash := true } rfl
    4 0 (fun _ => rfl) [0x1234] [] 0x1234 (by decide) rfl
  refine ⟨text, sent, fun shown => ?_⟩
  have fills := iff.mp shown
  simp at fills

end FrogOS.Printf
