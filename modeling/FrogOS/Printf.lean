import FrogOS.BoundedAccess
import FrogOS.Emission
import FrogOS.Numeral
import Mathlib

set_option autoImplicit false

namespace FrogOS.Printf

open ByteMemory BoundedAccess Emission Numeral

/-- The flags of a conversion, which the code keeps in the bits of a word. -/
structure Flags where
  zeropad : Bool := false
  left : Bool := false
  plus : Bool := false
  space : Bool := false
  hash : Bool := false
  uppercase : Bool := false
  char : Bool := false
  short : Bool := false
  long : Bool := false
  longLong : Bool := false
  precision : Bool := false
  adaptExp : Bool := false
deriving DecidableEq, Repr

/-- `out_fct_type`: a character, the buffer, the index and `maxlen`. -/
abbrev OutFct (σ : Type) := UInt8 → UInt32 → UInt32 → UInt32 → σ → σ

def outBuffer : OutFct Mem := fun character buffer idx maxlen m =>
  if idx < maxlen then store8 m (buffer.toNat + idx.toNat) character else m

def outNull {σ : Type} : OutFct σ := fun _ _ _ _ s => s

/-- `_out_char`, with what `putch` does to the console. -/
def outChar {σ : Type} (putch : σ → UInt8 → σ) : OutFct σ := fun character _ _ _ s =>
  if character ≠ 0 then putch s character else s

/-- Where `out` is called with its buffer and `maxlen`. -/
structure Sink (σ : Type) where
  out : OutFct σ
  buffer : UInt32
  maxlen : UInt32

namespace Sink

variable {σ : Type} (sink : Sink σ)

def call (character : UInt8) (idx : UInt32) : σ → σ :=
  sink.out character sink.buffer idx sink.maxlen

/-- `out(character, buffer, idx++, maxlen)`. -/
abbrev put (o : Output σ) (character : UInt8) : Output σ := o.put sink.call character

abbrev emit (o : Output σ) (text : List UInt8) : Output σ := o.emit sink.call text

end Sink

/-- `for (s = str; *s && maxsize--; ++s)`, which counts its rounds. -/
def strnlenS (strings : Mem) : Nat → UInt32 → Nat
  | 0, _ => 0
  | maxsize + 1, s => if strings s.toNat ≠ 0 then strnlenS strings maxsize (s + 1) + 1 else 0

def isDigit (ch : UInt8) : Bool := asciiOf '0' ≤ ch ∧ ch ≤ asciiOf '9'

/-- The number at the start of the format, and the format behind it. -/
def atoi (i : UInt32) : List UInt8 → UInt32 × List UInt8
  | [] => (i, [])
  | c :: format =>
      if isDigit c then atoi (i * 10 + (c - asciiOf '0').toUInt32) format else (i, c :: format)

/-- `PRINTF_NTOA_BUFFER_SIZE`. -/
def ntoaBufferSize : Nat := 32

/-- The characters in `buf`, the one with the highest index first. -/
structure NtoaBuf where
  chars : List UInt8
  bounded : chars.length ≤ ntoaBufferSize

namespace NtoaBuf

def empty : NtoaBuf := ⟨[], Nat.zero_le _⟩

def len (b : NtoaBuf) : Nat := b.chars.length

/-- `buf[len++] = c`. -/
def push (b : NtoaBuf) (c : UInt8) (room : b.len < ntoaBufferSize) : NtoaBuf := ⟨c :: b.chars, room⟩

/-- `if (len < PRINTF_NTOA_BUFFER_SIZE) buf[len++] = c`. -/
def add (b : NtoaBuf) (c : UInt8) : NtoaBuf :=
  if room : b.len < ntoaBufferSize then b.push c room else b

/-- `len--`. -/
def pop (b : NtoaBuf) : NtoaBuf where
  chars := b.chars.tail
  bounded := by
    rw [List.length_tail]
    exact Nat.le_trans (Nat.sub_le _ _) b.bounded

end NtoaBuf

section Output

variable {σ : Type} (sink : Sink σ)

/-- `while (l++ < width) out(' ', ...)`, and the same with the test of a `for`. -/
def padLoop (width : UInt32) : Nat → UInt32 → Output σ → Output σ
  | 0, _, o => o
  | fuel + 1, l, o =>
      if l < width then padLoop width fuel (l + 1) (sink.put o (asciiOf ' ')) else o

/-- `while (idx - start_idx < width) out(' ', ...)`. -/
def padTo (startIdx width : UInt32) : Nat → Output σ → Output σ
  | 0, o => o
  | fuel + 1, o =>
      if o.idx - startIdx < width then padTo startIdx width fuel (sink.put o (asciiOf ' ')) else o

/-- `_out_rev`. -/
def outRev (buf : List UInt8) (width : UInt32) (flags : Flags) (o : Output σ) : Output σ :=
  let startIdx := o.idx
  let o :=
    if ¬ flags.left ∧ ¬ flags.zeropad then
      padLoop sink width width.toNat (UInt32.ofNat buf.length) o
    else o
  let o := sink.emit o buf
  if flags.left then padTo sink startIdx width width.toNat o else o

end Output

/-- `while ((len < limit) && (len < PRINTF_NTOA_BUFFER_SIZE)) buf[len++] = '0'`. -/
def zeroLoop (limit : Nat) : Nat → NtoaBuf → NtoaBuf
  | 0, b => b
  | fuel + 1, b =>
      if room : b.len < limit ∧ b.len < ntoaBufferSize then
        zeroLoop limit fuel (b.push (asciiOf '0') room.2)
      else b

/-- The width that leaves room for a sign in front of the zeros. -/
def zeroWidth (negative : Bool) (width : UInt32) (flags : Flags) : UInt32 :=
  if width ≠ 0 ∧ flags.zeropad ∧ (negative ∨ flags.plus ∨ flags.space) then width - 1 else width

/-- "pad leading zeros". -/
def padZeros (b : NtoaBuf) (prec width : UInt32) (flags : Flags) : NtoaBuf :=
  let b := zeroLoop prec.toNat ntoaBufferSize b
  if flags.zeropad then zeroLoop width.toNat ntoaBufferSize b else b

/-- "handle hash". -/
def handleHash (b : NtoaBuf) (base prec width : UInt32) (flags : Flags) : NtoaBuf :=
  let b :=
    if ¬ flags.precision ∧ b.len ≠ 0 ∧ (b.len = prec.toNat ∨ b.len = width.toNat) then
      let b := b.pop
      if b.len ≠ 0 ∧ base = 16 then b.pop else b
    else b
  let b :=
    if base = 16 ∧ ¬ flags.uppercase then b.add (asciiOf 'x')
    else if base = 16 ∧ flags.uppercase then b.add (asciiOf 'X')
    else if base = 2 then b.add (asciiOf 'b')
    else b
  b.add (asciiOf '0')

def putSign (b : NtoaBuf) (negative : Bool) (flags : Flags) : NtoaBuf :=
  if negative then b.add (asciiOf '-')
  else if flags.plus then b.add (asciiOf '+')
  else if flags.space then b.add (asciiOf ' ')
  else b

/-- What `_ntoa_format` hands to `_out_rev`: the characters and the width. -/
def formatBuf (b : NtoaBuf) (negative : Bool) (base prec width : UInt32) (flags : Flags) :
    NtoaBuf × UInt32 :=
  let reduced := if flags.left then width else zeroWidth negative width flags
  let b := if flags.left then b else padZeros b prec reduced flags
  let b := if flags.hash then handleHash b base prec reduced flags else b
  (putSign b negative flags, reduced)

/-- `_ntoa_format`. -/
def ntoaFormat {σ : Type} (sink : Sink σ) (b : NtoaBuf) (negative : Bool)
    (base prec width : UInt32) (flags : Flags) (o : Output σ) : Output σ :=
  let done := formatBuf b negative base prec width flags
  outRev sink done.1.chars done.2 flags o

/-- The `do` loop of `_ntoa_long` and `_ntoa_long_long`. -/
def digitLoop (base : Nat) (upper : Bool) :
    Nat → Nat → (b : NtoaBuf) → b.len < ntoaBufferSize → NtoaBuf
  | 0, _, b, _ => b
  | fuel + 1, value, b, room =>
      let b := b.push (digitChar upper (value % base)) room
      let value := value / base
      if more : value ≠ 0 ∧ b.len < ntoaBufferSize then digitLoop base upper fuel value b more.2
      else b

/-- `buf` and the flags before `_ntoa_format`. -/
def ntoaDigits (value base : Nat) (flags : Flags) : NtoaBuf × Flags :=
  let flags := if value = 0 then { flags with hash := false } else flags
  if ¬ flags.precision ∨ value ≠ 0 then
    (digitLoop base flags.uppercase ntoaBufferSize value .empty (by decide), flags)
  else (.empty, flags)

/-- What `_ntoa_long` and `_ntoa_long_long` do with a value of either width. -/
def ntoa {σ : Type} (sink : Sink σ) (value : Nat) (negative : Bool) (base : UInt32)
    (prec width : UInt32) (flags : Flags) (o : Output σ) : Output σ :=
  let digits := ntoaDigits value base.toNat flags
  ntoaFormat sink digits.1 negative base prec width digits.2 o

section Long

variable {σ : Type} (sink : Sink σ)

def ntoaLong (value : UInt32) (negative : Bool) (base prec width : UInt32) (flags : Flags)
    (o : Output σ) : Output σ :=
  ntoa sink value.toNat negative base prec width flags o

def ntoaLongLong (value : UInt64) (negative : Bool) (base prec width : UInt32) (flags : Flags)
    (o : Output σ) : Output σ :=
  ntoa sink value.toNat negative base prec width flags o

end Long

/-- The characters that `_ftoa` and `_etoa` hand to `out`, from a `double`, the precision, the
width and the flags. -/
structure FloatText where
  ftoa : UInt64 → UInt32 → UInt32 → Flags → List UInt8
  etoa : UInt64 → UInt32 → UInt32 → Flags → List UInt8

/-- The next word of the arguments. -/
def vaArg : List UInt32 → Except Fault (UInt32 × List UInt32)
  | [] => .error .outOfBounds
  | word :: args => .ok (word, args)

/-- An argument of two words, the lower one first. -/
def vaArgLong : List UInt32 → Except Fault (UInt64 × List UInt32)
  | low :: high :: args => .ok (low.toUInt64 ||| high.toUInt64 <<< 32, args)
  | _ => .error .outOfBounds

/-- `*format`, with the terminator behind the text. -/
def peek : List UInt8 → UInt8
  | [] => 0
  | c :: _ => c

/-- `format++`, which must not pass the terminator. -/
def advance : List UInt8 → Except Fault (List UInt8)
  | [] => .error .outOfBounds
  | _ :: format => .ok format

/-- "evaluate flags". -/
def evalFlags (flags : Flags) : List UInt8 → Flags × List UInt8
  | [] => (flags, [])
  | c :: format =>
      if c = asciiOf '0' then evalFlags { flags with zeropad := true } format
      else if c = asciiOf '-' then evalFlags { flags with left := true } format
      else if c = asciiOf '+' then evalFlags { flags with plus := true } format
      else if c = asciiOf ' ' then evalFlags { flags with space := true } format
      else if c = asciiOf '#' then evalFlags { flags with hash := true } format
      else (flags, c :: format)

/-- "evaluate width field". -/
def evalWidth (flags : Flags) (format : List UInt8) (args : List UInt32) :
    Except Fault (Flags × UInt32 × List UInt8 × List UInt32) :=
  if isDigit (peek format) then
    let (width, format) := atoi 0 format
    .ok (flags, width, format, args)
  else if peek format = asciiOf '*' then do
    let (word, args) ← vaArg args
    let w := word.toInt32
    let format ← advance format
    if w < 0 then return ({ flags with left := true }, (-w).toUInt32, format, args)
    else return (flags, w.toUInt32, format, args)
  else .ok (flags, 0, format, args)

/-- "evaluate precision field". -/
def evalPrecision (flags : Flags) (format : List UInt8) (args : List UInt32) :
    Except Fault (Flags × UInt32 × List UInt8 × List UInt32) :=
  if peek format = asciiOf '.' then do
    let flags := { flags with precision := true }
    let format ← advance format
    if isDigit (peek format) then
      let (precision, format) := atoi 0 format
      return (flags, precision, format, args)
    else if peek format = asciiOf '*' then do
      let (word, args) ← vaArg args
      let prec := word.toInt32
      let format ← advance format
      return (flags, if prec > 0 then prec.toUInt32 else 0, format, args)
    else return (flags, 0, format, args)
  else .ok (flags, 0, format, args)

/-- "evaluate length field". `ptrdiff_t` and `size_t` are as wide as `long`, `intmax_t` as wide as
`long long`. -/
def evalLength (flags : Flags) : List UInt8 → Flags × List UInt8
  | [] => (flags, [])
  | c :: format =>
      if c = asciiOf 'l' then
        let flags := { flags with long := true }
        if peek format = asciiOf 'l' then ({ flags with longLong := true }, format.tail)
        else (flags, format)
      else if c = asciiOf 'h' then
        let flags := { flags with short := true }
        if peek format = asciiOf 'h' then ({ flags with char := true }, format.tail)
        else (flags, format)
      else if c = asciiOf 't' then ({ flags with long := true }, format)
      else if c = asciiOf 'j' then ({ flags with longLong := true }, format)
      else if c = asciiOf 'z' then ({ flags with long := true }, format)
      else (flags, c :: format)

/-- "set the base". -/
def integerBase (spec : UInt8) : UInt32 :=
  if spec = asciiOf 'x' ∨ spec = asciiOf 'X' then 16
  else if spec = asciiOf 'o' then 8
  else if spec = asciiOf 'b' then 2
  else 10

/-- The flags that an integer conversion keeps. -/
def integerFlags (spec : UInt8) (flags : Flags) : Flags :=
  let flags := if integerBase spec = 10 then { flags with hash := false } else flags
  let flags := if spec = asciiOf 'X' then { flags with uppercase := true } else flags
  let flags :=
    if spec ≠ asciiOf 'i' ∧ spec ≠ asciiOf 'd' then { flags with plus := false, space := false }
    else flags
  if flags.precision then { flags with zeropad := false } else flags

section Specifier

variable {σ : Type} (floats : FloatText) (strings : Mem) (sink : Sink σ)

/-- "convert the integer". -/
def convertInteger (spec : UInt8) (flags : Flags) (width precision : UInt32) (args : List UInt32)
    (o : Output σ) : Except Fault (List UInt32 × Output σ) :=
  let base := integerBase spec
  let flags := integerFlags spec flags
  if spec = asciiOf 'i' ∨ spec = asciiOf 'd' then
    if flags.longLong then do
      let (word, args) ← vaArgLong args
      let value := word.toInt64
      return (args, ntoaLongLong sink (if value > 0 then value else 0 - value).toUInt64 (value < 0)
        base precision width flags o)
    else if flags.long then do
      let (word, args) ← vaArg args
      let value := word.toInt32
      return (args, ntoaLong sink (if value > 0 then value else 0 - value).toUInt32 (value < 0)
        base precision width flags o)
    else do
      let (word, args) ← vaArg args
      let value :=
        if flags.char then word.toInt32.toInt8.toInt32
        else if flags.short then word.toInt32.toInt16.toInt32
        else word.toInt32
      return (args, ntoaLong sink (if value > 0 then value else 0 - value).toUInt32 (value < 0)
        base precision width flags o)
  else
    if flags.longLong then do
      let (value, args) ← vaArgLong args
      return (args, ntoaLongLong sink value false base precision width flags o)
    else if flags.long then do
      let (value, args) ← vaArg args
      return (args, ntoaLong sink value false base precision width flags o)
    else do
      let (word, args) ← vaArg args
      let value :=
        if flags.char then word.toUInt8.toUInt32
        else if flags.short then word.toUInt16.toUInt32
        else word
      return (args, ntoaLong sink value false base precision width flags o)

/-- `case 'c'`. -/
def convertChar (flags : Flags) (width : UInt32) (args : List UInt32) (o : Output σ) :
    Except Fault (List UInt32 × Output σ) := do
  let o := if ¬ flags.left then padLoop sink width width.toNat 1 o else o
  let (word, args) ← vaArg args
  let o := sink.put o word.toUInt8
  return (args, if flags.left then padLoop sink width width.toNat 1 o else o)

/-- `while ((*p != 0) && (!(flags & FLAGS_PRECISION) || precision--)) out(*(p++), ...)`. After as
many rounds as there are addresses it is where it started. -/
def stringLoop (bounded : Bool) : Nat → UInt32 → UInt32 → Output σ → Except Fault (Output σ)
  | 0, _, _, _ => .error .diverges
  | fuel + 1, p, precision, o =>
      if strings p.toNat ≠ 0 ∧ (¬ bounded ∨ precision ≠ 0) then
        stringLoop bounded fuel (p + 1) (precision - 1) (sink.put o (strings p.toNat))
      else .ok o

/-- `case 's'`. -/
def convertString (flags : Flags) (width precision : UInt32) (args : List UInt32)
    (o : Output σ) : Except Fault (List UInt32 × Output σ) := do
  let (p, args) ← vaArg args
  let l := UInt32.ofNat (strnlenS strings (if precision ≠ 0 then precision.toNat else 2 ^ 32 - 1) p)
  let l := if flags.precision then (if l < precision then l else precision) else l
  let o := if ¬ flags.left then padLoop sink width width.toNat l o else o
  let o ← stringLoop strings sink flags.precision (2 ^ 32) p precision o
  return (args, if flags.left then padLoop sink width width.toNat l o else o)

/-- `case 'p'`. -/
def convertPointer (flags : Flags) (precision : UInt32) (args : List UInt32) (o : Output σ) :
    Except Fault (List UInt32 × Output σ) := do
  let (value, args) ← vaArg args
  let flags := { flags with zeropad := true, uppercase := true }
  return (args, ntoaLong sink value false 16 precision (4 * 2) flags o)

/-- The flags that `case 'f'` to `case 'G'` pass on. -/
def floatFlags (spec : UInt8) (flags : Flags) : Flags :=
  if spec = asciiOf 'f' ∨ spec = asciiOf 'F' then
    if spec = asciiOf 'F' then { flags with uppercase := true } else flags
  else
    let flags :=
      if spec = asciiOf 'g' ∨ spec = asciiOf 'G' then { flags with adaptExp := true } else flags
    if spec = asciiOf 'E' ∨ spec = asciiOf 'G' then { flags with uppercase := true } else flags

/-- What the two functions write for one `double`. -/
def floatText (spec : UInt8) (flags : Flags) (width precision : UInt32) (value : UInt64) :
    List UInt8 :=
  if spec = asciiOf 'f' ∨ spec = asciiOf 'F' then
    floats.ftoa value precision width (floatFlags spec flags)
  else floats.etoa value precision width (floatFlags spec flags)

/-- `case 'f'` to `case 'G'`. -/
def convertFloat (spec : UInt8) (flags : Flags) (width precision : UInt32) (args : List UInt32)
    (o : Output σ) : Except Fault (List UInt32 × Output σ) := do
  let (value, args) ← vaArgLong args
  return (args, sink.emit o (floatText floats spec flags width precision value))

def isInteger (spec : UInt8) : Bool :=
  spec = asciiOf 'd' ∨ spec = asciiOf 'i' ∨ spec = asciiOf 'u' ∨ spec = asciiOf 'x' ∨ spec = asciiOf 'X' ∨
    spec = asciiOf 'o' ∨ spec = asciiOf 'b'

def isFloat (spec : UInt8) : Bool :=
  spec = asciiOf 'f' ∨ spec = asciiOf 'F' ∨ spec = asciiOf 'e' ∨ spec = asciiOf 'E' ∨ spec = asciiOf 'g' ∨
    spec = asciiOf 'G'

/-- "evaluate specifier". -/
def evalSpecifier (spec : UInt8) (flags : Flags) (width precision : UInt32) (args : List UInt32)
    (o : Output σ) : Except Fault (List UInt32 × Output σ) :=
  if isInteger spec then convertInteger sink spec flags width precision args o
  else if isFloat spec then convertFloat floats sink spec flags width precision args o
  else if spec = asciiOf 'c' then convertChar sink flags width args o
  else if spec = asciiOf 's' then convertString strings sink flags width precision args o
  else if spec = asciiOf 'p' then convertPointer sink flags precision args o
  else if spec = asciiOf '%' then .ok (args, sink.put o (asciiOf '%'))
  else .ok (args, sink.put o spec)

/-- What follows a `%`. -/
def evalDirective (format : List UInt8) (args : List UInt32) (o : Output σ) :
    Except Fault (List UInt8 × List UInt32 × Output σ) := do
  let (flags, format) := evalFlags {} format
  let (flags, width, format, args) ← evalWidth flags format args
  let (flags, precision, format, args) ← evalPrecision flags format args
  let (flags, format) := evalLength flags format
  let (args, o) ← evalSpecifier floats strings sink (peek format) flags width precision args o
  let format ← advance format
  return (format, args, o)

/-- The loop of `_vsnprintf`. -/
def formatLoop : Nat → List UInt8 → List UInt32 → Output σ → Except Fault (Output σ)
  | 0, _, _, _ => .error .diverges
  | fuel + 1, format, args, o =>
      if peek format = 0 then .ok o
      else if peek format ≠ asciiOf '%' then
        formatLoop fuel format.tail args (sink.put o (peek format))
      else do
        let (format, args, o) ← evalDirective floats strings sink format.tail args o
        formatLoop fuel format args o

end Specifier

/-- `_vsnprintf`: the state it leaves and the number it returns. Every round reads a character of
the format. -/
def vsnprintf {σ : Type} (floats : FloatText) (strings : Mem) (sink : Sink σ)
    (format : List UInt8) (args : List UInt32) (state : σ) : Except Fault (σ × Int32) := do
  let sink := if sink.buffer = 0 then { sink with out := outNull } else sink
  let o ← formatLoop floats strings sink (format.length + 1) format args ⟨state, 0⟩
  let last := if o.idx < sink.maxlen then o.idx else sink.maxlen - 1
  return (sink.call 0 last o.state, o.idx.toInt32)

/-- `snprintf_` and `vsnprintf_`. -/
def snprintf (floats : FloatText) (strings : Mem) (buffer count : UInt32) (format : List UInt8)
    (args : List UInt32) (m : Mem) : Except Fault (Mem × Int32) :=
  vsnprintf floats strings ⟨outBuffer, buffer, count⟩ format args m

/-- `sprintf_`. -/
def sprintf (floats : FloatText) (strings : Mem) (buffer : UInt32) (format : List UInt8)
    (args : List UInt32) (m : Mem) : Except Fault (Mem × Int32) :=
  vsnprintf floats strings ⟨outBuffer, buffer, 2 ^ 32 - 1⟩ format args m

/-- `printf_` and `vprintf_`, with a buffer of one byte on the stack. -/
def printf {σ : Type} (floats : FloatText) (strings : Mem) (putch : σ → UInt8 → σ)
    (buffer : UInt32) (format : List UInt8) (args : List UInt32) (state : σ) :
    Except Fault (σ × Int32) :=
  vsnprintf floats strings ⟨outChar putch, buffer, 2 ^ 32 - 1⟩ format args state

end FrogOS.Printf
