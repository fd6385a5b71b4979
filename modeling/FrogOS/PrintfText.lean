import FrogOS.Printf

set_option autoImplicit false

namespace FrogOS.Printf

open ByteMemory BoundedAccess Emission Numeral

def spaces (n : Nat) : List UInt8 := List.replicate n (asciiOf ' ')

/-- A text at one end of a field. -/
def field (left : Bool) (width : Nat) (text : List UInt8) : List UInt8 :=
  if left then text ++ spaces (width - text.length) else spaces (width - text.length) ++ text

/-- What `_out_rev` writes: no spaces in front of zeros. -/
def revText (buf : List UInt8) (width : UInt32) (flags : Flags) : List UInt8 :=
  if ¬ flags.left ∧ flags.zeropad then buf else field flags.left width.toNat buf

def ntoaText (value : Nat) (negative : Bool) (base prec width : UInt32) (flags : Flags) :
    List UInt8 :=
  let digits := ntoaDigits value base.toNat flags
  let done := formatBuf digits.1 negative base prec width digits.2
  revText done.1.chars done.2 digits.2

/-- The bytes before the first zero, at most `n` of them. -/
def stringBytes (strings : Mem) : Nat → UInt32 → List UInt8
  | 0, _ => []
  | n + 1, p =>
      if strings p.toNat ≠ 0 then strings p.toNat :: stringBytes strings n (p + 1) else []

/-- What `%s` writes for the string at `p`; without a precision the string must end. -/
def stringText (strings : Mem) (flags : Flags) (width precision p : UInt32) :
    Except Fault (List UInt8) :=
  if flags.precision then
    .ok (field flags.left width.toNat (stringBytes strings precision.toNat p))
  else if (stringBytes strings (2 ^ 32) p).length < 2 ^ 32 then
    .ok (field flags.left width.toNat (stringBytes strings (2 ^ 32) p))
  else .error .diverges

/-- The number that an integer conversion takes from the arguments. -/
def integerArg (spec : UInt8) (flags : Flags) (args : List UInt32) :
    Except Fault (Int × List UInt32) :=
  if spec = asciiOf 'i' ∨ spec = asciiOf 'd' then
    if flags.longLong then do
      let (word, args) ← vaArgLong args
      return (word.toInt64.toInt, args)
    else do
      let (word, args) ← vaArg args
      return (if flags.long then word.toInt32.toInt
        else if flags.char then word.toInt32.toInt8.toInt
        else if flags.short then word.toInt32.toInt16.toInt
        else word.toInt32.toInt, args)
  else
    if flags.longLong then do
      let (word, args) ← vaArgLong args
      return ((word.toNat : Int), args)
    else do
      let (word, args) ← vaArg args
      return ((if flags.long then word.toNat
        else if flags.char then word.toUInt8.toNat
        else if flags.short then word.toUInt16.toNat
        else word.toNat : Nat), args)

def integerText (spec : UInt8) (flags : Flags) (width precision : UInt32) (args : List UInt32) :
    Except Fault (List UInt8 × List UInt32) := do
  let flags := integerFlags spec flags
  let (value, args) ← integerArg spec flags args
  return (ntoaText value.natAbs (value < 0) (integerBase spec) precision width flags, args)

/-- What a conversion writes, and the arguments it leaves. -/
def specifierText (floats : FloatText) (strings : Mem) (spec : UInt8) (flags : Flags)
    (width precision : UInt32) (args : List UInt32) : Except Fault (List UInt8 × List UInt32) :=
  if isInteger spec then integerText spec flags width precision args
  else if isFloat spec then do
    let (value, args) ← vaArgLong args
    return (floatText floats spec flags width precision value, args)
  else if spec = asciiOf 'c' then do
    let (word, args) ← vaArg args
    return (field flags.left width.toNat [word.toUInt8], args)
  else if spec = asciiOf 's' then do
    let (p, args) ← vaArg args
    let text ← stringText strings flags width precision p
    return (text, args)
  else if spec = asciiOf 'p' then do
    let (value, args) ← vaArg args
    let flags := { flags with zeropad := true, uppercase := true }
    return (ntoaText value.toNat false 16 precision 8 flags, args)
  else .ok ([spec], args)

@[simp] theorem spaces_zero : spaces 0 = [] := rfl

theorem spaces_succ (n : Nat) : spaces (n + 1) = asciiOf ' ' :: spaces n := rfl

@[simp] theorem spaces_length (n : Nat) : (spaces n).length = n := List.length_replicate

section Output

variable {σ : Type} (sink : Sink σ)

theorem padLoop_eq (width : UInt32) {fuel : Nat} {l : UInt32}
    (enough : width.toNat - l.toNat ≤ fuel) (o : Output σ) :
    padLoop sink width fuel l o = sink.emit o (spaces (width.toNat - l.toNat)) := by
  induction fuel generalizing l o with
  | zero =>
      rw [Nat.eq_zero_of_le_zero enough]
      rfl
  | succ fuel ih =>
      have bound := width.toNat_lt
      rw [padLoop]
      split
      · rename_i inside
        have less := UInt32.lt_iff_toNat_lt.mp inside
        have next : (l + 1).toNat = l.toNat + 1 := by
          rw [UInt32.toNat_add]
          change (l.toNat + 1) % 2 ^ 32 = _
          omega
        have count : width.toNat - l.toNat = width.toNat - (l + 1).toNat + 1 := by omega
        rw [ih (by omega), count, spaces_succ]
        rfl
      · rename_i outside
        have reached := Nat.le_of_not_lt (mt UInt32.lt_iff_toNat_lt.mpr outside)
        rw [Nat.sub_eq_zero_of_le reached]
        rfl

theorem padTo_eq (startIdx width : UInt32) {fuel : Nat} (o : Output σ)
    (enough : width.toNat - (o.idx - startIdx).toNat ≤ fuel) :
    padTo sink startIdx width fuel o =
      sink.emit o (spaces (width.toNat - (o.idx - startIdx).toNat)) := by
  induction fuel generalizing o with
  | zero =>
      rw [Nat.eq_zero_of_le_zero enough]
      rfl
  | succ fuel ih =>
      have bound := width.toNat_lt
      rw [padTo]
      split
      · rename_i inside
        have less := UInt32.lt_iff_toNat_lt.mp inside
        have next : ((sink.put o (asciiOf ' ')).idx - startIdx).toNat =
            (o.idx - startIdx).toNat + 1 := by
          have shifted : (sink.put o (asciiOf ' ')).idx - startIdx = o.idx - startIdx + 1 := by
            show o.idx + 1 - startIdx = _
            rw [UInt32.sub_eq_add_neg, UInt32.sub_eq_add_neg, UInt32.add_assoc, UInt32.add_assoc,
              UInt32.add_comm 1]
          rw [shifted, UInt32.toNat_add]
          change ((o.idx - startIdx).toNat + 1) % 2 ^ 32 = _
          omega
        have count : width.toNat - (o.idx - startIdx).toNat =
            width.toNat - ((sink.put o (asciiOf ' ')).idx - startIdx).toNat + 1 := by omega
        rw [ih _ (by omega), count, spaces_succ]
        rfl
      · rename_i outside
        have reached := Nat.le_of_not_lt (mt UInt32.lt_iff_toNat_lt.mpr outside)
        rw [Nat.sub_eq_zero_of_le reached]
        rfl

theorem outRev_eq {buf : List UInt8} (short : buf.length < 2 ^ 32) (width : UInt32)
    (flags : Flags) (o : Output σ) :
    outRev sink buf width flags o = sink.emit o (revText buf width flags) := by
  have len := UInt32.toNat_ofNat_of_lt' short
  cases left : flags.left with
  | true =>
      have gone := Output.emit_idx_sub sink.call o buf short
      have text : revText buf width flags = buf ++ spaces (width.toNat - buf.length) := by
        simp [revText, field, left]
      rw [text]
      simp only [outRev, left, not_true_eq_false, false_and, ↓reduceIte]
      rw [padTo_eq sink o.idx width _ (Nat.sub_le _ _), gone, Sink.emit, Sink.emit, Sink.emit,
        Output.emit_append]
  | false =>
      cases zero : flags.zeropad with
      | true =>
          simp [outRev, revText, left, zero]
      | false =>
          have text : revText buf width flags = spaces (width.toNat - buf.length) ++ buf := by
            simp [revText, field, left, zero]
          rw [text]
          simp only [outRev, left, zero, Bool.false_eq_true, not_false_eq_true, and_self,
            ↓reduceIte]
          rw [padLoop_eq sink width (Nat.sub_le _ _), len, Sink.emit, Sink.emit, Sink.emit,
            Output.emit_append]

/-- An integer goes out as its text. -/
theorem ntoa_eq (value : Nat) (negative : Bool) (base prec width : UInt32) (flags : Flags)
    (o : Output σ) : ntoa sink value negative base prec width flags o =
      sink.emit o (ntoaText value negative base prec width flags) := by
  apply outRev_eq
  exact Nat.lt_of_le_of_lt (NtoaBuf.bounded _) (by decide)

end Output

section Strings

variable (strings : Mem)

theorem strnlenS_eq (n : Nat) (p : UInt32) :
    strnlenS strings n p = (stringBytes strings n p).length := by
  induction n generalizing p with
  | zero => rfl
  | succ n ih =>
      rw [strnlenS, stringBytes]
      split
      · rw [List.length_cons, ih]
      · rfl

theorem stringBytes_length_le (n : Nat) (p : UInt32) :
    (stringBytes strings n p).length ≤ n := by
  induction n generalizing p with
  | zero => exact Nat.le_refl 0
  | succ n ih =>
      rw [stringBytes]
      split
      · exact Nat.succ_le_succ (ih (p + 1))
      · exact Nat.zero_le _

theorem stringBytes_less (n : Nat) (p : UInt32) :
    stringBytes strings n p = (stringBytes strings (n + 1) p).take n := by
  induction n generalizing p with
  | zero => rfl
  | succ n ih =>
      rw [stringBytes, stringBytes]
      split
      · rw [List.take_succ_cons, ih]
      · rfl

variable {σ : Type} (sink : Sink σ)

theorem stringLoop_bounded {fuel : Nat} {p precision : UInt32} (enough : precision.toNat < fuel)
    (o : Output σ) : stringLoop strings sink true fuel p precision o =
      .ok (sink.emit o (stringBytes strings precision.toNat p)) := by
  induction fuel generalizing p precision o with
  | zero => exact absurd enough (Nat.not_lt_zero _)
  | succ fuel ih =>
      rw [stringLoop]
      by_cases none : precision = 0
      · subst none
        simp [stringBytes]
      · have positive : precision.toNat ≠ 0 := fun zero => none (UInt32.toNat_inj.mp zero)
        have next : (precision - 1).toNat = precision.toNat - 1 :=
          UInt32.toNat_sub_of_le _ _ (UInt32.le_iff_toNat_le.mpr (Nat.one_le_iff_ne_zero.mpr positive))
        have count : precision.toNat = (precision - 1).toNat + 1 := by omega
        rw [count, stringBytes]
        by_cases present : strings p.toNat ≠ 0
        · rw [if_pos ⟨present, Or.inr none⟩, if_pos present, ih (by omega)]
          rfl
        · rw [if_neg (fun both => present both.1), if_neg present]
          rfl

theorem stringLoop_unbounded {fuel : Nat} {p precision : UInt32} (o : Output σ) :
    stringLoop strings sink false fuel p precision o =
      if (stringBytes strings fuel p).length < fuel then
        .ok (sink.emit o (stringBytes strings fuel p))
      else .error .diverges := by
  induction fuel generalizing p precision o with
  | zero => rfl
  | succ fuel ih =>
      rw [stringLoop, stringBytes]
      by_cases present : strings p.toNat ≠ 0
      · rw [if_pos ⟨present, Or.inl Bool.false_ne_true⟩, if_pos present, ih]
        simp only [List.length_cons, Nat.add_lt_add_iff_right]
        rfl
      · rw [if_neg (fun both => present both.1), if_neg present]
        rfl

/-- The bytes that `case 's'` pads for. -/
theorem string_length (flags : Flags) (precision p : UInt32)
    (given : flags.precision = false → precision = 0)
    (ends : flags.precision = false → (stringBytes strings (2 ^ 32) p).length < 2 ^ 32) :
    let l := UInt32.ofNat
      (strnlenS strings (if precision ≠ 0 then precision.toNat else 2 ^ 32 - 1) p)
    (if flags.precision then (if l < precision then l else precision) else l).toNat =
      (stringBytes strings (if flags.precision then precision.toNat else 2 ^ 32) p).length := by
  intro l
  cases bounded : flags.precision with
  | false =>
      have whole := ends bounded
      have none := given bounded
      have same : (stringBytes strings (2 ^ 32 - 1) p).length =
          (stringBytes strings (2 ^ 32) p).length := by
        have less := stringBytes_less strings (2 ^ 32 - 1) p
        rw [Nat.sub_add_cancel (by decide : 1 ≤ 2 ^ 32)] at less
        rw [less, List.length_take]
        omega
      show (UInt32.ofNat _).toNat = _
      rw [if_neg (not_not.mpr none), strnlenS_eq, same, UInt32.toNat_ofNat_of_lt' whole]
      rfl
  | true =>
      simp only [↓reduceIte]
      by_cases none : precision = 0
      · subst none
        rw [if_neg (UInt32.not_lt.mpr (UInt32.zero_le))]
        rfl
      · have limit := stringBytes_length_le strings precision.toNat p
        have bound := precision.toNat_lt
        have value : l.toNat = (stringBytes strings precision.toNat p).length := by
          show (UInt32.ofNat _).toNat = _
          rw [if_pos none, strnlenS_eq]
          exact UInt32.toNat_ofNat_of_lt' (Nat.lt_of_le_of_lt limit bound)
        split
        · exact value
        · rename_i notLess
          have atLeast := Nat.le_of_not_lt (mt UInt32.lt_iff_toNat_lt.mpr notLess)
          omega

end Strings

section Magnitude

/-- The magnitude that the code takes of a signed value, also of the lowest one. -/
theorem magnitude_bits {w : Nat} (v : BitVec w) :
    (if 0 < v.toInt then v else -v).toNat = v.toInt.natAbs := by
  have value := BitVec.toInt_eq_toNat_cond v
  have bound := v.isLt
  have whole : 0 < 2 ^ w := Nat.two_pow_pos w
  split
  · rename_i positive
    generalize 2 ^ w = size at value bound whole
    split at value <;> omega
  · rename_i negative
    rw [BitVec.toNat_neg]
    generalize 2 ^ w = size at value bound whole
    split at value
    · have zero : v.toNat = 0 := by omega
      rw [value, zero, Nat.sub_zero, Nat.mod_self]
      rfl
    · rw [Nat.mod_eq_of_lt (by omega)]
      omega

theorem magnitude32 (value : Int32) :
    (if value > 0 then value else 0 - value).toUInt32.toNat = value.toInt.natAbs := by
  have bits := magnitude_bits value.toBitVec
  have positive : value > 0 ↔ 0 < value.toBitVec.toInt := Int32.lt_iff_toInt_lt
  rw [Int32.zero_sub]
  by_cases sign : value > 0
  · rw [if_pos sign]
    rw [if_pos (positive.mp sign)] at bits
    exact bits
  · rw [if_neg sign]
    rw [if_neg (mt positive.mpr sign)] at bits
    exact bits

theorem magnitude64 (value : Int64) :
    (if value > 0 then value else 0 - value).toUInt64.toNat = value.toInt.natAbs := by
  have bits := magnitude_bits value.toBitVec
  have positive : value > 0 ↔ 0 < value.toBitVec.toInt := Int64.lt_iff_toInt_lt
  rw [Int64.zero_sub]
  by_cases sign : value > 0
  · rw [if_pos sign]
    rw [if_pos (positive.mp sign)] at bits
    exact bits
  · rw [if_neg sign]
    rw [if_neg (mt positive.mpr sign)] at bits
    exact bits

theorem negative32 (value : Int32) : decide (value < 0) = decide (value.toInt < 0) :=
  decide_eq_decide.mpr Int32.lt_iff_toInt_lt

theorem negative64 (value : Int64) : decide (value < 0) = decide (value.toInt < 0) :=
  decide_eq_decide.mpr Int64.lt_iff_toInt_lt

end Magnitude

section Specifier

variable {σ : Type} (floats : FloatText) (strings : Mem) (sink : Sink σ)

/-- What a conversion wrote goes out. -/
def deliver (o : Output σ) :
    Except Fault (List UInt8 × List UInt32) → Except Fault (List UInt32 × Output σ) :=
  Except.map fun written => (written.2, sink.emit o written.1)

theorem convertInteger_eq (spec : UInt8) (flags : Flags) (width precision : UInt32)
    (args : List UInt32) (o : Output σ) :
    convertInteger sink spec flags width precision args o =
      deliver sink o (integerText spec flags width precision args) := by
  unfold convertInteger integerText integerArg
  generalize integerFlags spec flags = flags
  by_cases signed : spec = asciiOf 'i' ∨ spec = asciiOf 'd'
  · simp only [signed, ↓reduceIte]
    cases long : flags.longLong with
    | true =>
        match args with
        | [] => rfl
        | [_] => rfl
        | low :: high :: args =>
            simp only [↓reduceIte, vaArgLong, pure, Except.pure, ok_bind, ntoaLongLong,
              magnitude64, negative64, ntoa_eq]
            rfl
    | false =>
        match args with
        | [] => cases flags.long <;> rfl
        | word :: args =>
            -- The narrower types promote to `int` without a change of the value.
            cases flags.long <;> cases flags.char <;> cases flags.short <;>
              simp only [Bool.false_eq_true, ↓reduceIte, vaArg, pure, Except.pure, ok_bind,
                ntoaLong, magnitude32, negative32, ntoa_eq, Int8.toInt_toInt32,
                Int16.toInt_toInt32] <;> rfl
  · simp only [signed, ↓reduceIte]
    cases long : flags.longLong with
    | true =>
        match args with
        | [] => rfl
        | [_] => rfl
        | low :: high :: args =>
            simp only [↓reduceIte, vaArgLong, pure, Except.pure, ok_bind, ntoaLongLong, ntoa_eq]
            rfl
    | false =>
        match args with
        | [] => cases flags.long <;> rfl
        | word :: args =>
            cases flags.long <;> cases flags.char <;> cases flags.short <;>
              simp only [Bool.false_eq_true, ↓reduceIte, vaArg, pure, Except.pure, ok_bind,
                ntoaLong, ntoa_eq] <;> rfl

/-- The padding around a text that counts its bytes in `l`. -/
theorem field_eq (left : Bool) (width : UInt32) {l : UInt32} (text : List UInt8)
    (length : l.toNat = text.length) (o : Output σ) :
    (let front := if ¬ left then padLoop sink width width.toNat l o else o
      if left then padLoop sink width width.toNat l (sink.emit front text)
      else sink.emit front text) = sink.emit o (field left width.toNat text) := by
  have pad (o : Output σ) := padLoop_eq sink width (l := l) (Nat.sub_le _ _) o
  cases left with
  | true =>
      simp only [not_true_eq_false, ↓reduceIte, pad, length, field, Sink.emit, Output.emit_append]
  | false =>
      simp only [Bool.false_eq_true, not_false_eq_true, ↓reduceIte, pad, length, field, Sink.emit,
        Output.emit_append]

theorem convertChar_eq (flags : Flags) (width : UInt32) (args : List UInt32) (o : Output σ) :
    convertChar sink flags width args o = deliver sink o (do
      let (word, args) ← vaArg args
      return (field flags.left width.toNat [word.toUInt8], args)) := by
  cases args with
  | nil => rfl
  | cons word args =>
      have padded := field_eq sink flags.left width (l := 1) [word.toUInt8] rfl o
      simp only [convertChar, vaArg, pure, Except.pure, ok_bind, deliver, Except.map]
      rw [← padded]
      rfl

theorem convertString_eq (flags : Flags) (width precision : UInt32)
    (given : flags.precision = false → precision = 0) (args : List UInt32) (o : Output σ) :
    convertString strings sink flags width precision args o = deliver sink o (do
      let (p, args) ← vaArg args
      let text ← stringText strings flags width precision p
      return (text, args)) := by
  cases args with
  | nil => rfl
  | cons p args =>
      simp only [convertString, vaArg, ok_bind]
      have length := string_length strings flags precision p given
      cases bounded : flags.precision with
      | true =>
          rw [bounded] at length
          have padded := field_eq sink flags.left width _ (length nofun) o
          simp only [↓reduceIte] at padded ⊢
          rw [stringLoop_bounded strings sink precision.toNat_lt, stringText, bounded, if_pos rfl]
          simp only [ok_bind, pure, Except.pure, deliver, Except.map]
          rw [← padded]
      | false =>
          rw [bounded] at length
          rw [stringLoop_unbounded, stringText, bounded]
          simp only [Bool.false_eq_true, ↓reduceIte] at length ⊢
          split
          · rename_i ends
            have padded := field_eq sink flags.left width _ (length fun _ => ends) o
            simp only [ok_bind, pure, Except.pure, deliver, Except.map]
            rw [← padded]
          · rfl

theorem convertPointer_eq (flags : Flags) (precision : UInt32) (args : List UInt32)
    (o : Output σ) : convertPointer sink flags precision args o = deliver sink o (do
      let (value, args) ← vaArg args
      let flags := { flags with zeropad := true, uppercase := true }
      return (ntoaText value.toNat false 16 precision 8 flags, args)) := by
  cases args with
  | nil => rfl
  | cons value args =>
      simp only [convertPointer, vaArg, pure, Except.pure, ok_bind, ntoaLong, ntoa_eq]
      rfl

theorem convertFloat_eq (spec : UInt8) (flags : Flags) (width precision : UInt32)
    (args : List UInt32) (o : Output σ) :
    convertFloat floats sink spec flags width precision args o = deliver sink o (do
      let (value, args) ← vaArgLong args
      return (floatText floats spec flags width precision value, args)) := by
  match args with
  | [] => rfl
  | [_] => rfl
  | low :: high :: args => rfl

/-- A conversion does what its text says. -/
theorem evalSpecifier_eq (spec : UInt8) (flags : Flags) (width precision : UInt32)
    (given : flags.precision = false → precision = 0) (args : List UInt32) (o : Output σ) :
    evalSpecifier floats strings sink spec flags width precision args o =
      deliver sink o (specifierText floats strings spec flags width precision args) := by
  unfold evalSpecifier specifierText
  split
  · exact convertInteger_eq sink spec flags width precision args o
  split
  · exact convertFloat_eq floats sink spec flags width precision args o
  split
  · exact convertChar_eq sink flags width args o
  split
  · exact convertString_eq strings sink flags width precision given args o
  split
  · exact convertPointer_eq sink flags precision args o
  split
  · rename_i percent
    rw [percent]
    rfl
  · rfl

end Specifier

end FrogOS.Printf
