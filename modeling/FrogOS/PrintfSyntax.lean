import FrogOS.PrintfText

set_option autoImplicit false

namespace FrogOS.Printf

open ByteMemory BoundedAccess Emission Numeral

inductive Flag
  | zero
  | minus
  | plus
  | space
  | hash
deriving DecidableEq, Repr

namespace Flag

def char : Flag → UInt8
  | zero => asciiOf '0'
  | minus => asciiOf '-'
  | plus => asciiOf '+'
  | space => asciiOf ' '
  | hash => asciiOf '#'

def ofChar (c : UInt8) : Option Flag :=
  if c = asciiOf '0' then some zero
  else if c = asciiOf '-' then some minus
  else if c = asciiOf '+' then some plus
  else if c = asciiOf ' ' then some space
  else if c = asciiOf '#' then some hash
  else none

def set (flags : Flags) : Flag → Flags
  | zero => { flags with zeropad := true }
  | minus => { flags with left := true }
  | plus => { flags with plus := true }
  | space => { flags with space := true }
  | hash => { flags with hash := true }

end Flag

/-- A width or a precision: none, its digits, or one from the arguments. A precision may be a dot
without digits. -/
inductive Count
  | none
  | number (digits : List UInt8)
  | star
deriving DecidableEq, Repr

inductive Length
  | none
  | l
  | ll
  | h
  | hh
  | t
  | j
  | z
deriving DecidableEq, Repr

/-- What follows a `%`. -/
structure Directive where
  flags : List Flag
  width : Count
  precision : Count
  length : Length
  spec : UInt8
deriving DecidableEq, Repr

inductive Piece
  | literal (c : UInt8)
  | directive (d : Directive)
deriving DecidableEq, Repr

section Text

def Count.text : Count → List UInt8
  | none => []
  | number digits => digits
  | star => [asciiOf '*']

/-- The dot belongs to the precision. -/
def Count.precisionText : Count → List UInt8
  | none => []
  | count => asciiOf '.' :: count.text

def Length.text : Length → List UInt8
  | none => []
  | l => [asciiOf 'l']
  | ll => [asciiOf 'l', asciiOf 'l']
  | h => [asciiOf 'h']
  | hh => [asciiOf 'h', asciiOf 'h']
  | t => [asciiOf 't']
  | j => [asciiOf 'j']
  | z => [asciiOf 'z']

def Directive.text (d : Directive) : List UInt8 :=
  d.flags.map Flag.char ++ (d.width.text ++ (d.precision.precisionText ++
    (d.length.text ++ [d.spec])))

def Piece.text : Piece → List UInt8
  | literal c => [c]
  | directive d => asciiOf '%' :: d.text

/-- The format that a list of pieces spells. -/
def textOf (pieces : List Piece) : List UInt8 := pieces.flatMap Piece.text

end Text

section Parse

def parseFlags : List UInt8 → List Flag × List UInt8
  | [] => ([], [])
  | c :: format =>
      match Flag.ofChar c with
      | some flag => (flag :: (parseFlags format).1, (parseFlags format).2)
      | none => ([], c :: format)

def parseCount (format : List UInt8) : Count × List UInt8 :=
  if isDigit (peek format) then
    (.number (format.takeWhile isDigit), format.dropWhile isDigit)
  else if peek format = asciiOf '*' then (.star, format.tail)
  else (.none, format)

def parsePrecision (format : List UInt8) : Count × List UInt8 :=
  if peek format = asciiOf '.' then
    match parseCount format.tail with
    | (.none, rest) => (.number [], rest)
    | read => read
  else (.none, format)

def parseLength : List UInt8 → Length × List UInt8
  | [] => (.none, [])
  | c :: format =>
      if c = asciiOf 'l' then if peek format = asciiOf 'l' then (.ll, format.tail) else (.l, format)
      else if c = asciiOf 'h' then
        if peek format = asciiOf 'h' then (.hh, format.tail) else (.h, format)
      else if c = asciiOf 't' then (.t, format)
      else if c = asciiOf 'j' then (.j, format)
      else if c = asciiOf 'z' then (.z, format)
      else (.none, c :: format)

/-- A directive and the format behind it; none if the format ends before its last character. -/
def parseDirective (format : List UInt8) : Option (Directive × List UInt8) :=
  let (flags, format) := parseFlags format
  let (width, format) := parseCount format
  let (precision, format) := parsePrecision format
  let (length, format) := parseLength format
  match format with
  | [] => none
  | spec :: format => some (⟨flags, width, precision, length, spec⟩, format)

/-- The pieces of a format, and what is left: the terminator, or a directive without an end. -/
def parseLoop : Nat → List UInt8 → List Piece × List UInt8
  | 0, format => ([], format)
  | fuel + 1, format =>
      if peek format = 0 then ([], format)
      else if peek format ≠ asciiOf '%' then
        (.literal (peek format) :: (parseLoop fuel format.tail).1, (parseLoop fuel format.tail).2)
      else
        match parseDirective format.tail with
        | none => ([], format)
        | some (d, rest) => (.directive d :: (parseLoop fuel rest).1, (parseLoop fuel rest).2)

def parse (format : List UInt8) : List Piece × List UInt8 := parseLoop (format.length + 1) format

/-- The format does not end inside a directive. -/
def Complete (format : List UInt8) : Prop := peek (parse format).2 = 0

instance (format : List UInt8) : Decidable (Complete format) :=
  inferInstanceAs (Decidable (_ = _))

end Parse

section Meaning

variable (floats : FloatText) (strings : Mem)

/-- The number that digits spell, as far as 32 bits go. -/
def digitsWord (digits : List UInt8) : UInt32 := UInt32.ofNat (readDigits 10 0 digits).1

/-- The flags, the width and the arguments left. A negative width from the arguments pads on the
right. -/
def Count.width (flags : Flags) (args : List UInt32) :
    Count → Except Fault (Flags × UInt32 × List UInt32)
  | none => .ok (flags, 0, args)
  | number digits => .ok (flags, digitsWord digits, args)
  | star => do
      let (word, args) ← vaArg args
      if word.toInt32 < 0 then return ({ flags with left := true }, (-word.toInt32).toUInt32, args)
      else return (flags, word, args)

/-- The same for the precision. A negative one from the arguments is zero. -/
def Count.precision (flags : Flags) (args : List UInt32) :
    Count → Except Fault (Flags × UInt32 × List UInt32)
  | none => .ok (flags, 0, args)
  | number digits => .ok ({ flags with precision := true }, digitsWord digits, args)
  | star => do
      let (word, args) ← vaArg args
      return ({ flags with precision := true }, if word.toInt32 > 0 then word else 0, args)

def Length.set (flags : Flags) : Length → Flags
  | none => flags
  | l => { flags with long := true }
  | ll => { flags with long := true, longLong := true }
  | h => { flags with short := true }
  | hh => { flags with short := true, char := true }
  | t => { flags with long := true }
  | j => { flags with longLong := true }
  | z => { flags with long := true }

/-- What a directive writes, and the arguments it leaves. -/
def Directive.meaning (d : Directive) (args : List UInt32) :
    Except Fault (List UInt8 × List UInt32) := do
  let (flags, width, args) ← d.width.width (d.flags.foldl Flag.set {}) args
  let (flags, precision, args) ← d.precision.precision flags args
  specifierText floats strings d.spec (d.length.set flags) width precision args

def Piece.meaning (args : List UInt32) : Piece → Except Fault (List UInt8 × List UInt32)
  | literal c => .ok ([c], args)
  | directive d => d.meaning floats strings args

/-- The pieces one after the other. -/
def execute : List Piece → List UInt32 → Except Fault (List UInt8 × List UInt32)
  | [], args => .ok ([], args)
  | piece :: pieces, args => do
      let (text, args) ← piece.meaning floats strings args
      let (rest, args) ← execute pieces args
      return (text ++ rest, args)

/-- What a format writes. -/
def formatted (format : List UInt8) (args : List UInt32) :
    Except Fault (List UInt8 × List UInt32) := do
  let written ← execute floats strings (parse format).1 args
  if Complete format then return written else .error .outOfBounds

end Meaning

section Stages

theorem evalFlags_eq (flags : Flags) (format : List UInt8) :
    evalFlags flags format = ((parseFlags format).1.foldl Flag.set flags, (parseFlags format).2) := by
  induction format generalizing flags with
  | nil => rfl
  | cons c format ih =>
      rw [evalFlags, parseFlags, Flag.ofChar]
      split
      · exact ih _
      split
      · exact ih _
      split
      · exact ih _
      split
      · exact ih _
      split
      · exact ih _
      · rfl

theorem digitValue_isDigit {c : UInt8} (digit : isDigit c) :
    digitValue c = some (c - asciiOf '0').toNat ∧ (c - asciiOf '0').toNat < 10 := by
  have table : ∀ n : Fin 256, isDigit (UInt8.ofNat n.val) →
      digitValue (UInt8.ofNat n.val) = some (UInt8.ofNat n.val - asciiOf '0').toNat ∧
        (UInt8.ofNat n.val - asciiOf '0').toNat < 10 := by decide +kernel
  have entry := table ⟨c.toNat, c.toNat_lt⟩
  rw [UInt8.ofNat_toNat] at entry
  exact entry digit

/-- `_atoi` reads the digits, and its number is theirs up to 32 bits. -/
theorem atoi_eq (acc : Nat) (format : List UInt8) :
    atoi (UInt32.ofNat acc) format =
      (UInt32.ofNat (readDigits 10 acc (format.takeWhile isDigit)).1, format.dropWhile isDigit) := by
  induction format generalizing acc with
  | nil => rfl
  | cons c format ih =>
      rw [atoi]
      split
      · rename_i digit
        obtain ⟨value, small⟩ := digitValue_isDigit digit
        rw [List.takeWhile_cons_of_pos digit, List.dropWhile_cons_of_pos digit, readDigits, value]
        simp only [small, ↓reduceIte]
        rw [← ih]
        congr 1
        rw [UInt32.ofNat_add, UInt32.ofNat_mul, UInt32.mul_comm]
        congr 1
        exact UInt32.toNat_inj.mp (by simp)
      · rename_i other
        rw [List.takeWhile_cons_of_neg other, List.dropWhile_cons_of_neg other]
        rfl

theorem evalWidth_eq (flags : Flags) (format : List UInt8) (args : List UInt32) :
    evalWidth flags format args = (do
      let (flags, width, args) ← (parseCount format).1.width flags args
      return (flags, width, (parseCount format).2, args)) := by
  rw [evalWidth, parseCount]
  split
  · have read := atoi_eq 0 format
    rw [show UInt32.ofNat 0 = 0 from rfl] at read
    rw [read]
    rfl
  split
  · rename_i star
    cases format with
    | nil => exact absurd star (by decide)
    | cons c format =>
        cases args with
        | nil => rfl
        | cons word args =>
            simp only [vaArg, ok_bind, advance, Count.width, List.tail_cons]
            split <;> rfl
  · rfl

theorem evalPrecision_eq (flags : Flags) (format : List UInt8) (args : List UInt32) :
    evalPrecision flags format args = (do
      let (flags, precision, args) ← (parsePrecision format).1.precision flags args
      return (flags, precision, (parsePrecision format).2, args)) := by
  rw [evalPrecision, parsePrecision]
  split
  · rename_i dot
    cases format with
    | nil => exact absurd dot (by decide)
    | cons c format =>
        simp only [advance, ok_bind, List.tail_cons]
        rw [parseCount]
        split
        · have read := atoi_eq 0 format
          rw [show UInt32.ofNat 0 = 0 from rfl] at read
          rw [read]
          rfl
        split
        · rename_i star
          cases format with
          | nil => exact absurd star (by decide)
          | cons d format =>
              cases args with
              | nil => rfl
              | cons word args => rfl
        · rfl
  · rfl

theorem evalLength_eq (flags : Flags) (format : List UInt8) :
    evalLength flags format = ((parseLength format).1.set flags, (parseLength format).2) := by
  cases format with
  | nil => rfl
  | cons c format =>
      simp only [evalLength, parseLength]
      split
      · split <;> rfl
      split
      · split <;> rfl
      split
      · rfl
      split
      · rfl
      split
      · rfl
      · rfl

/-- A conversion without the precision flag has no precision. -/
theorem Count.precision_given {count : Count} {flags flags' : Flags} {args args' : List UInt32}
    {value : UInt32} (read : count.precision flags args = .ok (flags', value, args'))
    (absent : flags'.precision = false) : value = 0 := by
  cases count with
  | none =>
      cases read
      rfl
  | number digits =>
      cases read
      exact absurd absent nofun
  | star =>
      cases args with
      | nil => cases read
      | cons word args =>
          cases read
          exact absurd absent nofun

theorem Length.set_precision (length : Length) (flags : Flags) :
    (length.set flags).precision = flags.precision := by
  cases length <;> rfl

end Stages

section Loop

variable {σ : Type} (floats : FloatText) (strings : Mem) (sink : Sink σ)

theorem Count.width_error {count : Count} {flags : Flags} {args : List UInt32} {fault : Fault}
    (read : count.width flags args = .error fault) : fault = .outOfBounds := by
  cases count with
  | none => cases read
  | number digits => cases read
  | star =>
      cases args with
      | nil =>
          cases read
          rfl
      | cons word args =>
          simp only [Count.width, vaArg, ok_bind] at read
          split at read <;> cases read

theorem Count.precision_error {count : Count} {flags : Flags} {args : List UInt32} {fault : Fault}
    (read : count.precision flags args = .error fault) : fault = .outOfBounds := by
  cases count with
  | none => cases read
  | number digits => cases read
  | star =>
      cases args with
      | nil =>
          cases read
          rfl
      | cons word args => cases read

/-- A directive does what its parts say. Behind a format that ends inside it the code goes on past
the terminator. -/
theorem evalDirective_eq (format : List UInt8) (args : List UInt32) (o : Output σ) :
    evalDirective floats strings sink format args o =
      match parseDirective format with
      | none => .error .outOfBounds
      | some (d, rest) => do
          let (text, args) ← d.meaning floats strings args
          return (rest, args, sink.emit o text) := by
  rw [evalDirective, parseDirective, evalFlags_eq]
  generalize parseFlags format = flagged
  obtain ⟨flags, format⟩ := flagged
  simp only
  rw [evalWidth_eq]
  generalize parseCount format = counted
  obtain ⟨width, format⟩ := counted
  simp only
  cases first : width.width (flags.foldl Flag.set {}) args with
  | error fault =>
      have outside := Count.width_error first
      subst outside
      split
      · rfl
      · rename_i d rest parsed
        split at parsed
        · cases parsed
        · cases parsed
          simp only [Directive.meaning, first]
          rfl
  | ok read =>
      obtain ⟨flags', w, args'⟩ := read
      simp only [ok_bind, pure, Except.pure]
      rw [evalPrecision_eq]
      generalize parsePrecision format = counted
      obtain ⟨precision, format⟩ := counted
      simp only
      cases second : precision.precision flags' args' with
      | error fault =>
          have outside := Count.precision_error second
          subst outside
          split
          · rfl
          · rename_i d rest parsed
            split at parsed
            · cases parsed
            · cases parsed
              simp only [Directive.meaning, first, ok_bind, second]
              rfl
      | ok read =>
          obtain ⟨flags'', p, args''⟩ := read
          simp only [ok_bind, pure, Except.pure]
          rw [evalLength_eq]
          generalize parseLength format = measured
          obtain ⟨length, format⟩ := measured
          have given : (length.set flags'').precision = false → p = 0 := by
            intro absent
            rw [Length.set_precision] at absent
            exact Count.precision_given second absent
          simp only
          rw [evalSpecifier_eq floats strings sink _ _ w p given]
          cases format with
          | nil =>
              -- The terminator is no conversion: it goes out, and the code steps past it.
              rfl
          | cons spec format =>
              simp only [Directive.meaning, first, second, ok_bind, peek, advance]
              cases specifierText floats strings spec (length.set flags'') w p args'' with
              | error fault => rfl
              | ok written => rfl

theorem parseFlags_length (format : List UInt8) : (parseFlags format).2.length ≤ format.length := by
  induction format with
  | nil => exact Nat.le_refl 0
  | cons c format ih =>
      rw [parseFlags]
      split
      · exact Nat.le_succ_of_le ih
      · exact Nat.le_refl _

theorem parseCount_length (format : List UInt8) : (parseCount format).2.length ≤ format.length := by
  rw [parseCount]
  split
  · exact (List.dropWhile_sublist isDigit).length_le
  split
  · rw [List.length_tail]
    exact Nat.sub_le _ _
  · exact Nat.le_refl _

theorem parsePrecision_length (format : List UInt8) :
    (parsePrecision format).2.length ≤ format.length := by
  have inner := parseCount_length format.tail
  rw [List.length_tail] at inner
  rw [parsePrecision]
  split
  · split
    · rename_i rest read
      rw [read] at inner
      exact Nat.le_trans inner (Nat.sub_le _ _)
    · exact Nat.le_trans inner (Nat.sub_le _ _)
  · exact Nat.le_refl _

theorem parseLength_length (format : List UInt8) :
    (parseLength format).2.length ≤ format.length := by
  cases format with
  | nil => exact Nat.le_refl 0
  | cons c format =>
      simp only [parseLength]
      split_ifs <;> simp only [List.length_cons, List.length_tail] <;> omega

/-- A directive has at least one character. -/
theorem parseDirective_shorter {format rest : List UInt8} {d : Directive}
    (parsed : parseDirective format = some (d, rest)) : rest.length < format.length := by
  have flags := parseFlags_length format
  have width := parseCount_length (parseFlags format).2
  have precision := parsePrecision_length (parseCount (parseFlags format).2).2
  have length := parseLength_length (parsePrecision (parseCount (parseFlags format).2).2).2
  simp only [parseDirective] at parsed
  split at parsed
  · cases parsed
  · rename_i spec format' split
    cases parsed
    rw [split, List.length_cons] at length
    omega

/-- The loop executes the pieces of the format. -/
theorem formatLoop_eq {fuel : Nat} {format : List UInt8} (enough : format.length < fuel)
    (args : List UInt32) (o : Output σ) :
    formatLoop floats strings sink fuel format args o = (do
      let (text, _) ← execute floats strings (parseLoop fuel format).1 args
      if peek (parseLoop fuel format).2 = 0 then return sink.emit o text
      else .error .outOfBounds) := by
  induction fuel generalizing format args o with
  | zero => exact absurd enough (Nat.not_lt_zero _)
  | succ fuel ih =>
      rw [formatLoop, parseLoop]
      split
      · rfl
      split
      · rename_i more literal
        have shorter : format.tail.length < fuel := by
          cases format with
          | nil => exact absurd rfl more
          | cons c format => exact Nat.lt_of_succ_lt_succ enough
        rw [ih shorter]
        simp only [execute, Piece.meaning, ok_bind]
        cases execute floats strings (parseLoop fuel format.tail).1 args with
        | error fault => rfl
        | ok written => rfl
      · rename_i more percent
        rw [evalDirective_eq]
        cases parsed : parseDirective format.tail with
        | none =>
            have unfinished : peek format ≠ 0 := more
            simp only [execute, ok_bind, unfinished, ↓reduceIte]
            rfl
        | some read =>
            obtain ⟨d, rest⟩ := read
            have shorter : rest.length < fuel := by
              have less := parseDirective_shorter parsed
              rw [List.length_tail] at less
              omega
            simp only [execute, Piece.meaning]
            cases d.meaning floats strings args with
            | error fault => rfl
            | ok written =>
                simp only [ok_bind, pure, Except.pure]
                rw [ih shorter]
                cases execute floats strings (parseLoop fuel rest).1 written.2 with
                | error fault => rfl
                | ok later =>
                    simp only [ok_bind, pure, Except.pure, Sink.emit, Output.emit_append]

end Loop

/-- What `_vsnprintf` does after `_out_null` has replaced `out` for a null buffer. -/
def Sink.actual {σ : Type} (sink : Sink σ) : Sink σ :=
  if sink.buffer = 0 then { sink with out := outNull } else sink

/-- The terminator after a text of some length. -/
def Sink.terminate {σ : Type} (sink : Sink σ) (o : Output σ) : σ :=
  sink.call 0 (if o.idx < sink.maxlen then o.idx else sink.maxlen - 1) o.state

/-- `_vsnprintf` reads its format once, with the arguments and the output in step. It does what
reading the whole format first, executing its directives and sending the text out would do. -/
theorem vsnprintf_executes {σ : Type} (floats : FloatText) (strings : Mem) (sink : Sink σ)
    (format : List UInt8) (args : List UInt32) (state : σ) :
    vsnprintf floats strings sink format args state = (do
      let (text, _) ← formatted floats strings format args
      let o := sink.actual.emit ⟨state, 0⟩ text
      return (sink.actual.terminate o, (UInt32.ofNat text.length).toInt32)) := by
  have idx (text : List UInt8) : (sink.actual.emit ⟨state, 0⟩ text).idx =
      UInt32.ofNat text.length := by
    rw [Sink.emit, Output.emit_idx, UInt32.zero_add]
  rw [vsnprintf, formatLoop_eq floats strings _ (Nat.lt_succ_self format.length), formatted]
  change _ = ((execute floats strings (parseLoop (format.length + 1) format).1 args >>= _) >>= _)
  cases execute floats strings (parseLoop (format.length + 1) format).1 args with
  | error fault => rfl
  | ok written =>
      simp only [ok_bind]
      by_cases complete : Complete format
      · have ends : peek (parseLoop (format.length + 1) format).2 = 0 := complete
        rw [if_pos complete, if_pos ends]
        simp only [ok_bind, pure, Except.pure]
        rw [← idx]
        rfl
      · have goesOn : ¬ peek (parseLoop (format.length + 1) format).2 = 0 := complete
        rw [if_neg complete, if_neg goesOn]
        rfl

end FrogOS.Printf
