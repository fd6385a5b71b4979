import FrogOS.PrintfGrammar

set_option autoImplicit false

namespace FrogOS.Printf

open ByteMemory BoundedAccess Emission Numeral

def Count.words : Count → Nat
  | star => 1
  | _ => 0

/-- The words that the conversion itself takes. -/
def specWords (spec : UInt8) (longLong : Bool) : Nat :=
  if isInteger spec then if longLong then 2 else 1
  else if isFloat spec then 2
  else if spec = asciiOf 'c' ∨ spec = asciiOf 's' ∨ spec = asciiOf 'p' then 1
  else 0

def Length.isLongLong (length : Length) : Bool := length = .ll ∨ length = .j

def Piece.words : Piece → Nat
  | literal _ => 0
  | directive d => d.width.words + d.precision.words + specWords d.spec d.length.isLongLong

/-- The words of arguments that a format takes. -/
def formatWords (pieces : List Piece) : Nat := (pieces.map Piece.words).sum

/-- What takes `words` words has a result exactly if there are as many. -/
structure Takes {α : Type} (words : Nat) (args : List UInt32)
    (run : Except Fault (α × List UInt32)) : Prop where
  enough : words ≤ args.length → ∃ a, run = .ok (a, args.drop words)
  short : args.length < words → run = .error .outOfBounds

section Takes

variable {α β : Type} {args : List UInt32}

theorem takes_ok (a : α) : Takes 0 args (.ok (a, args)) :=
  ⟨fun _ => ⟨a, rfl⟩, fun none => absurd none (Nat.not_lt_zero _)⟩

theorem takes_vaArg (args : List UInt32) : Takes 1 args (vaArg args) := by
  cases args with
  | nil => exact ⟨fun one => absurd one (by decide), fun _ => rfl⟩
  | cons word args => exact ⟨fun _ => ⟨word, rfl⟩, fun none => absurd none (by simp)⟩

theorem takes_vaArgLong (args : List UInt32) : Takes 2 args (vaArgLong args) := by
  match args with
  | [] => exact ⟨fun two => absurd two (by decide), fun _ => rfl⟩
  | [word] => exact ⟨fun two => absurd two (by simp), fun _ => rfl⟩
  | low :: high :: args => exact ⟨fun _ => ⟨_, rfl⟩, fun none => absurd none (by simp)⟩

/-- One after the other takes the words of both. -/
theorem Takes.bind {first : Nat} (second : Nat) {run : Except Fault (α × List UInt32)}
    (takes : Takes first args run) {next : α × List UInt32 → Except Fault (β × List UInt32)}
    (later : ∀ a, run = .ok (a, args.drop first) → Takes second (args.drop first)
      (next (a, args.drop first))) :
    Takes (first + second) args (run >>= next) := by
  by_cases fits : first ≤ args.length
  · obtain ⟨a, done⟩ := takes.enough fits
    have after := later a done
    rw [done, ok_bind]
    constructor
    · intro enough
      obtain ⟨b, result⟩ := after.enough (by rw [List.length_drop]; omega)
      exact ⟨b, by rw [result, List.drop_drop]⟩
    · intro short
      exact after.short (by rw [List.length_drop]; omega)
  · have error := takes.short (Nat.lt_of_not_le fits)
    rw [error]
    exact ⟨fun enough => absurd enough (by omega), fun _ => rfl⟩

/-- A pure step takes nothing. -/
theorem Takes.pure {words : Nat} {run : Except Fault (α × List UInt32)}
    (takes : Takes words args run) {next : α × List UInt32 → Except Fault (β × List UInt32)}
    (rest : ∀ a args, ∃ b, next (a, args) = .ok (b, args)) :
    Takes words args (run >>= next) := by
  refine takes.bind 0 fun a _ => ?_
  obtain ⟨b, done⟩ := rest a (args.drop words)
  rw [done]
  exact takes_ok b

end Takes

section Meaning

variable (floats : FloatText) (strings : Mem)

/-- Where some byte of the memory is zero every string ends. -/
theorem stringBytes_ends {strings : Mem} {k : Nat} {p : UInt32}
    (zero : strings (p + UInt32.ofNat k).toNat = 0) (n : Nat) :
    (stringBytes strings n p).length ≤ k := by
  induction n generalizing k p with
  | zero => exact Nat.zero_le k
  | succ n ih =>
      rw [stringBytes]
      split
      · rename_i present
        cases k with
        | zero => exact absurd zero (by rwa [show UInt32.ofNat 0 = 0 from rfl, UInt32.add_zero])
        | succ k =>
            apply Nat.succ_le_succ
            apply ih
            rw [← zero]
            congr 2
            rw [UInt32.ofNat_add, UInt32.add_assoc, UInt32.add_comm 1]
            rfl
      · exact Nat.zero_le _

theorem stringText_ends (terminated : ∃ q : UInt32, strings q.toNat = 0) (flags : Flags)
    (width precision p : UInt32) :
    ∃ text, stringText strings flags width precision p = .ok text := by
  obtain ⟨q, zero⟩ := terminated
  have here : strings (p + UInt32.ofNat (q - p).toNat).toNat = 0 := by
    rw [UInt32.ofNat_toNat, UInt32.add_comm, UInt32.sub_add_cancel]
    exact zero
  have short := Nat.lt_of_le_of_lt (stringBytes_ends here (2 ^ 32)) (q - p).toNat_lt
  rw [stringText, if_pos short]
  split
  · exact ⟨_, rfl⟩
  · exact ⟨_, rfl⟩

theorem takes_integerText (spec : UInt8) (flags : Flags) (width precision : UInt32)
    (args : List UInt32) :
    Takes (if flags.longLong then 2 else 1) args
      (integerText spec flags width precision args) := by
  have kept : (integerFlags spec flags).longLong = flags.longLong := by
    simp only [integerFlags]
    split_ifs <;> rfl
  have read : Takes (if flags.longLong then 2 else 1) args
      (integerArg spec (integerFlags spec flags) args) := by
    rw [integerArg, kept]
    cases flags.longLong with
    | true =>
        simp only [↓reduceIte]
        split
        · exact (takes_vaArgLong args).pure fun _ _ => ⟨_, rfl⟩
        · exact (takes_vaArgLong args).pure fun _ _ => ⟨_, rfl⟩
    | false =>
        simp only [Bool.false_eq_true, ↓reduceIte]
        split
        · exact (takes_vaArg args).pure fun _ _ => ⟨_, rfl⟩
        · exact (takes_vaArg args).pure fun _ _ => ⟨_, rfl⟩
  exact read.pure fun _ _ => ⟨_, rfl⟩

theorem takes_specifierText (terminated : ∃ q : UInt32, strings q.toNat = 0) (spec : UInt8)
    (flags : Flags) (width precision : UInt32) (args : List UInt32) :
    Takes (specWords spec flags.longLong) args
      (specifierText floats strings spec flags width precision args) := by
  unfold specWords specifierText
  split
  · exact takes_integerText spec flags width precision args
  split
  · exact (takes_vaArgLong args).pure fun _ _ => ⟨_, rfl⟩
  by_cases char : spec = asciiOf 'c'
  · rw [if_pos char, if_pos (Or.inl char)]
    exact (takes_vaArg args).pure fun _ _ => ⟨_, rfl⟩
  by_cases string : spec = asciiOf 's'
  · rw [if_neg char, if_pos string, if_pos (Or.inr (Or.inl string))]
    refine (takes_vaArg args).bind 0 fun p _ => ?_
    obtain ⟨text, ends⟩ := stringText_ends strings terminated flags width precision p
    simp only [ends, ok_bind]
    exact takes_ok text
  by_cases pointer : spec = asciiOf 'p'
  · rw [if_neg char, if_neg string, if_pos pointer, if_pos (Or.inr (Or.inr pointer))]
    exact (takes_vaArg args).pure fun _ _ => ⟨_, rfl⟩
  · rw [if_neg char, if_neg string, if_neg pointer, if_neg (by simp [char, string, pointer])]
    exact takes_ok [spec]

theorem takes_width (count : Count) (flags : Flags) (args : List UInt32) :
    (count.words ≤ args.length → ∃ flags' width, count.width flags args =
        .ok (flags', width, args.drop count.words) ∧ flags'.longLong = flags.longLong) ∧
      (args.length < count.words → count.width flags args = .error .outOfBounds) := by
  cases count with
  | none => exact ⟨fun _ => ⟨flags, 0, rfl, rfl⟩, fun none => absurd none (Nat.not_lt_zero _)⟩
  | number digits =>
      exact ⟨fun _ => ⟨flags, digitsWord digits, rfl, rfl⟩,
        fun none => absurd none (Nat.not_lt_zero _)⟩
  | star =>
      cases args with
      | nil => exact ⟨fun one => absurd one (by decide), fun _ => rfl⟩
      | cons word args =>
          refine ⟨fun _ => ?_, fun none => absurd none (by simp [Count.words])⟩
          simp only [Count.width, vaArg, ok_bind]
          split
          · exact ⟨_, _, rfl, rfl⟩
          · exact ⟨_, _, rfl, rfl⟩

theorem takes_precision (count : Count) (flags : Flags) (args : List UInt32) :
    (count.words ≤ args.length → ∃ flags' precision, count.precision flags args =
        .ok (flags', precision, args.drop count.words) ∧ flags'.longLong = flags.longLong) ∧
      (args.length < count.words → count.precision flags args = .error .outOfBounds) := by
  cases count with
  | none => exact ⟨fun _ => ⟨flags, 0, rfl, rfl⟩, fun none => absurd none (Nat.not_lt_zero _)⟩
  | number digits =>
      exact ⟨fun _ => ⟨_, digitsWord digits, rfl, rfl⟩,
        fun none => absurd none (Nat.not_lt_zero _)⟩
  | star =>
      cases args with
      | nil => exact ⟨fun one => absurd one (by decide), fun _ => rfl⟩
      | cons word args =>
          exact ⟨fun _ => ⟨_, _, rfl, rfl⟩, fun none => absurd none (by simp [Count.words])⟩

theorem flags_longLong (set : List Flag) (flags : Flags) :
    (set.foldl Flag.set flags).longLong = flags.longLong := by
  induction set generalizing flags with
  | nil => rfl
  | cons flag set ih =>
      rw [List.foldl_cons, ih]
      cases flag <;> rfl

theorem Length.set_longLong (length : Length) {flags : Flags} (none : flags.longLong = false) :
    (length.set flags).longLong = length.isLongLong := by
  cases length <;> first | exact none | rfl

theorem takes_meaning (terminated : ∃ q : UInt32, strings q.toNat = 0) (piece : Piece)
    (args : List UInt32) : Takes piece.words args (piece.meaning floats strings args) := by
  cases piece with
  | literal c => exact takes_ok [c]
  | directive d =>
      obtain ⟨widthEnough, widthShort⟩ := takes_width d.width (d.flags.foldl Flag.set {}) args
      have words : (Piece.directive d).words = d.width.words + d.precision.words +
        specWords d.spec d.length.isLongLong := rfl
      simp only [Piece.meaning, Directive.meaning]
      by_cases first : d.width.words ≤ args.length
      · obtain ⟨flags, width, read, kept⟩ := widthEnough first
        rw [read, ok_bind]
        obtain ⟨precisionEnough, precisionShort⟩ :=
          takes_precision d.precision flags (args.drop d.width.words)
        rw [List.length_drop] at precisionEnough precisionShort
        by_cases second : d.precision.words ≤ args.length - d.width.words
        · obtain ⟨flags', precision, read', kept'⟩ := precisionEnough second
          have longLong : (d.length.set flags').longLong = d.length.isLongLong := by
            apply Length.set_longLong
            rw [kept', kept, flags_longLong]
          have last := takes_specifierText floats strings terminated d.spec (d.length.set flags')
            width precision ((args.drop d.width.words).drop d.precision.words)
          rw [longLong] at last
          rw [read', ok_bind]
          rw [List.drop_drop] at last ⊢
          constructor
          · intro enough
            obtain ⟨text, done⟩ := last.enough (by rw [List.length_drop]; omega)
            exact ⟨text, by rw [done, List.drop_drop, words]⟩
          · intro short
            exact last.short (by rw [List.length_drop]; omega)
        · rw [precisionShort (Nat.lt_of_not_le second)]
          exact ⟨fun enough => absurd enough (by omega), fun _ => rfl⟩
      · rw [widthShort (Nat.lt_of_not_le first)]
        exact ⟨fun enough => absurd enough (by omega), fun _ => rfl⟩

theorem takes_execute (terminated : ∃ q : UInt32, strings q.toNat = 0) (pieces : List Piece)
    (args : List UInt32) : Takes (formatWords pieces) args (execute floats strings pieces args) := by
  induction pieces generalizing args with
  | nil => exact takes_ok []
  | cons piece pieces ih =>
      refine (takes_meaning floats strings terminated piece args).bind (formatWords pieces) ?_
      intro text _
      exact (ih _).pure fun _ _ => ⟨_, rfl⟩

end Meaning

/-- In a memory with a zero byte somewhere, `_vsnprintf` stays within its format and its arguments
if and only if the format does not end inside a directive and there are as many words of arguments
as its directives take. In no case does it go on for ever. -/
theorem vsnprintf_stays_inside_iff {σ : Type} (floats : FloatText) (strings : Mem)
    (terminated : ∃ q : UInt32, strings q.toNat = 0) (sink : Sink σ) (format : List UInt8)
    (args : List UInt32) (state : σ) :
    ((∃ result, vsnprintf floats strings sink format args state = .ok result) ↔
      Complete format ∧ formatWords (parse format).1 ≤ args.length) ∧
    vsnprintf floats strings sink format args state ≠ .error .diverges := by
  have takes := takes_execute floats strings terminated (parse format).1 args
  rw [vsnprintf_executes, formatted]
  by_cases enough : formatWords (parse format).1 ≤ args.length
  · obtain ⟨text, done⟩ := takes.enough enough
    rw [done, ok_bind]
    by_cases complete : Complete format
    · rw [if_pos complete]
      exact ⟨⟨fun _ => ⟨complete, enough⟩, fun _ => ⟨_, rfl⟩⟩, fun same => by cases same⟩
    · rw [if_neg complete]
      refine ⟨⟨?_, fun both => absurd both.1 complete⟩, fun same => by cases same⟩
      rintro ⟨_, same⟩
      cases same
  · rw [takes.short (Nat.lt_of_not_le enough)]
    refine ⟨⟨?_, fun both => absurd both.2 enough⟩, fun same => by cases same⟩
    rintro ⟨_, same⟩
    cases same

/-- Behind a lone percent sign the code leaves the format. -/
theorem percent_leaves_format :
    (¬ ∃ result, vsnprintf ⟨fun _ _ _ _ => [], fun _ _ _ _ => []⟩ (fun _ => 0)
        ⟨outBuffer, 0x1000, 16⟩ [asciiOf '%'] [] (fun _ => 0) = .ok result) ∧
    vsnprintf ⟨fun _ _ _ _ => [], fun _ _ _ _ => []⟩ (fun _ => 0) ⟨outBuffer, 0x1000, 16⟩
      [asciiOf '%'] [] (fun _ => 0) ≠ .error .diverges := by
  have stays := vsnprintf_stays_inside_iff ⟨fun _ _ _ _ => [], fun _ _ _ _ => []⟩ (fun _ => 0)
    ⟨0, rfl⟩ ⟨outBuffer, 0x1000, 16⟩ [asciiOf '%'] [] (fun _ => 0)
  exact ⟨fun done => absurd (stays.1.mp done).1 (by decide), stays.2⟩

end FrogOS.Printf
