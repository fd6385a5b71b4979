import FrogOS.ConsoleText
import FrogOS.LittleEndian
import FrogOS.PrintfBuffer
import FrogOS.PrintfInteger

set_option autoImplicit false

namespace FrogOS

open ByteMemory BoundedAccess Numeral Printf

section Functions

variable (floats : FloatText) (buff : UInt32)

/-- `inet_ntoa`, with the address of its static buffer. -/
def inetNtoa (strings : Mem) (inAddr : UInt32) (m : Mem) : Except Fault (Mem × UInt32) := do
  let addr := (le32 inAddr).map UInt8.toUInt32
  let (m, _) ← sprintf floats strings buff (asciiText "%d.%d.%d.%d") addr m
  return (m, buff)

/-- `eth_ntoa`, with the address of its static buffer. -/
def ethNtoa (strings : Mem) (hwAddr : UInt32) (m : Mem) : Except Fault (Mem × UInt32) := do
  let addr := (bytes m hwAddr.toNat 6).map UInt8.toUInt32
  let (m, _) ← sprintf floats strings buff (asciiText "%02x:%02x:%02x:%02x:%02x:%02x") addr m
  return (m, buff)

/-- The Wake-on-LAN branch of `ether_process_frame`. Both addresses are written into the one static
buffer. -/
def wakeOnLan (stack frame : UInt32) (len : UInt16) (m : Mem) (s : Console) :
    Except Fault (Mem × Console) := do
  let (m, src) ← ethNtoa floats buff m (frame + 6) m
  let s ← s.printf floats m stack (asciiText "WOL: %d %s ") [len.toUInt32, src]
  let (m, dest) ← ethNtoa floats buff m frame m
  let s ← s.printf floats m stack (asciiText "-> %s\n") [dest]
  return (m, s)

end Functions

/-- The digits of `%d`. -/
def decimal (n : Nat) : List UInt8 := digitsText false (digitList 10 n false)

/-- The digits of `%02x` for a byte. -/
def hexByte (b : UInt8) : List UInt8 :=
  zeros (2 - (digitList 16 b.toNat false).length) ++ digitsText false (digitList 16 b.toNat false)

/-- An address with its bytes in decimal. -/
def dotted (octets : List UInt8) : List UInt8 :=
  separated (asciiOf '.') (octets.map fun b => decimal b.toNat)

/-- An address with its bytes in hexadecimal. -/
def colons (octets : List UInt8) : List UInt8 := separated (asciiOf ':') (octets.map hexByte)

section Bytes

theorem digitList_length {base n : Nat} (lower : 2 ≤ base) (positive : 0 < n) {value : Nat}
    (small : value < base ^ n) : (digitList base value false).length ≤ n := by
  simp only [digitList, Bool.false_eq_true, ↓reduceIte]
  split
  · exact positive
  · exact (Nat.digits_length_le_iff lower value).mpr small

theorem decimal_length {n k : Nat} (positive : 0 < k) (small : n < 10 ^ k) :
    (decimal n).length ≤ k := by
  rw [decimal, digitsText_length]
  exact digitList_length (by decide) positive small

theorem decimal_byte_length (b : UInt8) : (decimal b.toNat).length ≤ 3 :=
  decimal_length (by decide) (Nat.lt_trans b.toNat_lt (by decide))

theorem hexByte_length (b : UInt8) : (hexByte b).length = 2 := by
  have short : (digitList 16 b.toNat false).length ≤ 2 :=
    digitList_length (by decide) (by decide) b.toNat_lt
  rw [hexByte, List.length_append, zeros_length, digitsText_length]
  omega

theorem ofDigits_whole (base n : Nat) : Nat.ofDigits base (digitList base n false) = n := by
  simp only [digitList, Bool.false_eq_true, ↓reduceIte]
  split
  · rename_i zero
    rw [zero, Nat.ofDigits_singleton]
  · exact Nat.ofDigits_digits base n

theorem decimal_spells (n : Nat) : Spells 10 (decimal n) n := by
  have spells := spells_zeros false (by decide : 10 ≤ 16) (by decide) 0
    (digitList_lt (by decide : 2 ≤ 10) n false)
  rw [ofDigits_whole] at spells
  exact spells

theorem hexByte_spells (b : UInt8) : Spells 16 (hexByte b) b.toNat := by
  have spells := spells_zeros false (le_refl 16) (by decide)
    (2 - (digitList 16 b.toNat false).length) (digitList_lt (by decide : 2 ≤ 16) b.toNat false)
  rw [ofDigits_whole] at spells
  exact spells

end Bytes

section Meaning

variable (floats : FloatText) (strings : Mem)

/-- A field that fits is written as the C standard says. -/
theorem integerText_fits {spec : UInt8} {flags : Flags} (width : UInt32) {precision : UInt32}
    {args rest : List UInt32} {value : Int} (plain : flags.hash = false ∨ integerBase spec = 10)
    (none : precision = 0) (read : integerArg spec flags args = .ok (value, rest)) :
    let flags' := integerFlags spec flags
    let sign := signText (value < 0) flags'
    let digits := digitsText flags'.uppercase
      (digitList (integerBase spec).toNat value.natAbs flags'.precision)
    Fits sign digits precision.toNat width.toNat flags' →
      integerText spec flags width precision args =
        .ok (standardText sign digits precision.toNat width.toNat flags', rest) := by
  intro flags' sign digits fits
  rw [integerText_plain plain width precision read]
  exact congrArg (fun text => Except.ok (text, rest))
    ((plainText_standard_iff (integer_number read) fun _ => none).mpr fits)

theorem decimal_meaning {word : UInt32} (small : word.toNat < 2 ^ 31) (args : List UInt32) :
    (Piece.directive ⟨[], .none, .none, .none, asciiOf 'd'⟩).meaning floats strings (word :: args) =
      .ok (decimal word.toNat, args) := by
  have value : word.toInt32.toInt = word.toNat :=
    BitVec.toInt_eq_toNat_of_lt (show 2 * word.toNat < 2 ^ 32 by omega)
  have read : integerArg (asciiOf 'd') {} (word :: args) = .ok ((word.toNat : Int), args) := by
    rw [← value]
    rfl
  have short : (decimal word.toNat).length ≤ 10 :=
    decimal_length (by decide) (Nat.lt_trans small (by decide))
  have text := integerText_fits 0 (Or.inl rfl) rfl read
  have positive : decide ((word.toNat : Int) < 0) = false := by simp
  have flags : integerFlags (asciiOf 'd') {} = {} := by decide
  rw [positive, flags, Int.natAbs_natCast] at text
  have fits : Fits [] (decimal word.toNat) 0 0 {} :=
    ⟨Nat.le_trans short (by decide), Nat.zero_le _, Or.inl rfl⟩
  refine (text fits).trans ?_
  simp [standardText, signText, decimal]
  rfl

theorem decimal_byte_meaning (b : UInt8) (args : List UInt32) :
    (Piece.directive ⟨[], .none, .none, .none, asciiOf 'd'⟩).meaning floats strings
      (b.toUInt32 :: args) = .ok (decimal b.toNat, args) := by
  have small : b.toUInt32.toNat < 2 ^ 31 := by
    rw [UInt8.toNat_toUInt32]
    exact Nat.lt_trans b.toNat_lt (by decide)
  rw [decimal_meaning floats strings small, UInt8.toNat_toUInt32]

theorem hex_meaning (b : UInt8) (args : List UInt32) :
    (Piece.directive ⟨[.zero], .number [asciiOf '2'], .none, .none, asciiOf 'x'⟩).meaning floats
      strings (b.toUInt32 :: args) = .ok (hexByte b, args) := by
  have read : integerArg (asciiOf 'x') { zeropad := true } (b.toUInt32 :: args) =
      .ok ((b.toNat : Int), args) := by
    rw [← UInt8.toNat_toUInt32]
    rfl
  have text := integerText_fits 2 (Or.inl rfl) rfl read
  have positive : decide ((b.toNat : Int) < 0) = false := by simp
  have flags : integerFlags (asciiOf 'x') { zeropad := true } = { zeropad := true } := by decide
  rw [positive, flags, Int.natAbs_natCast] at text
  have short : (digitList 16 b.toNat false).length ≤ 2 :=
    digitList_length (by decide) (by decide) b.toNat_lt
  have fits : Fits [] (digitsText false (digitList 16 b.toNat false)) 0 2 { zeropad := true } := by
    refine ⟨?_, show 2 ≤ ntoaBufferSize by decide⟩
    rw [digitsText_length]
    exact Nat.le_trans short (by decide)
  refine (text fits).trans ?_
  simp [standardText, signText, hexByte]
  rfl

/-- `%s` writes a string that ends. -/
theorem string_meaning {p : UInt32} {text : List UInt8}
    (string : stringBytes strings (2 ^ 32) p = text) (short : text.length < 2 ^ 32)
    (args : List UInt32) :
    (Piece.directive ⟨[], .none, .none, .none, asciiOf 's'⟩).meaning floats strings (p :: args) =
      .ok (text, args) := by
  have whole : stringText strings {} 0 0 p = .ok text := by
    rw [stringText, if_neg Bool.false_ne_true, string, if_pos short, UInt32.toNat_zero, field,
      if_neg Bool.false_ne_true, Nat.zero_sub]
    rfl
  have specifier : (Piece.directive ⟨[], .none, .none, .none, asciiOf 's'⟩).meaning floats strings
      (p :: args) = stringText strings {} 0 0 p >>= fun text => .ok (text, args) := rfl
  rw [specifier, whole, ok_bind]

theorem formatted_dotted (a b c d : UInt8) :
    formatted floats strings (asciiText "%d.%d.%d.%d") ([a, b, c, d].map UInt8.toUInt32) =
      .ok (dotted [a, b, c, d], []) := by
  have pieces : (parse (asciiText "%d.%d.%d.%d")).1 =
      [.directive ⟨[], .none, .none, .none, asciiOf 'd'⟩, .literal (asciiOf '.'),
        .directive ⟨[], .none, .none, .none, asciiOf 'd'⟩, .literal (asciiOf '.'),
        .directive ⟨[], .none, .none, .none, asciiOf 'd'⟩, .literal (asciiOf '.'),
        .directive ⟨[], .none, .none, .none, asciiOf 'd'⟩] := by decide
  have complete : Complete (asciiText "%d.%d.%d.%d") := by decide
  have point (args : List UInt32) : (Piece.literal (asciiOf '.')).meaning floats strings args =
      .ok ([asciiOf '.'], args) := rfl
  rw [formatted, pieces]
  simp only [List.map_cons, List.map_nil, execute, decimal_byte_meaning, point, ok_bind, complete,
    ↓reduceIte, pure, Except.pure, dotted, separated, List.append_nil, List.singleton_append]

theorem formatted_colons (a b c d e f : UInt8) :
    formatted floats strings (asciiText "%02x:%02x:%02x:%02x:%02x:%02x")
      ([a, b, c, d, e, f].map UInt8.toUInt32) = .ok (colons [a, b, c, d, e, f], []) := by
  have pieces : (parse (asciiText "%02x:%02x:%02x:%02x:%02x:%02x")).1 =
      [.directive ⟨[.zero], .number [asciiOf '2'], .none, .none, asciiOf 'x'⟩,
        .literal (asciiOf ':'),
        .directive ⟨[.zero], .number [asciiOf '2'], .none, .none, asciiOf 'x'⟩,
        .literal (asciiOf ':'),
        .directive ⟨[.zero], .number [asciiOf '2'], .none, .none, asciiOf 'x'⟩,
        .literal (asciiOf ':'),
        .directive ⟨[.zero], .number [asciiOf '2'], .none, .none, asciiOf 'x'⟩,
        .literal (asciiOf ':'),
        .directive ⟨[.zero], .number [asciiOf '2'], .none, .none, asciiOf 'x'⟩,
        .literal (asciiOf ':'),
        .directive ⟨[.zero], .number [asciiOf '2'], .none, .none, asciiOf 'x'⟩] := by decide
  have complete : Complete (asciiText "%02x:%02x:%02x:%02x:%02x:%02x") := by decide
  have point (args : List UInt32) : (Piece.literal (asciiOf ':')).meaning floats strings args =
      .ok ([asciiOf ':'], args) := rfl
  rw [formatted, pieces]
  simp only [List.map_cons, List.map_nil, execute, hex_meaning, point, ok_bind, complete,
    ↓reduceIte, pure, Except.pure, colons, separated, List.append_nil, List.singleton_append]

theorem formatted_source {p : UInt32} {text : List UInt8} (len : UInt16)
    (string : stringBytes strings (2 ^ 32) p = text) (short : text.length < 2 ^ 32) :
    formatted floats strings (asciiText "WOL: %d %s ") [len.toUInt32, p] =
      .ok (asciiText "WOL: " ++ (decimal len.toNat ++ (asciiText " " ++ (text ++ asciiText " "))),
        []) := by
  have pieces : (parse (asciiText "WOL: %d %s ")).1 =
      (asciiText "WOL: ").map .literal ++ [.directive ⟨[], .none, .none, .none, asciiOf 'd'⟩,
        .literal (asciiOf ' '), .directive ⟨[], .none, .none, .none, asciiOf 's'⟩,
        .literal (asciiOf ' ')] := by decide
  have complete : Complete (asciiText "WOL: %d %s ") := by decide
  have small : len.toUInt32.toNat < 2 ^ 31 := by
    rw [UInt16.toNat_toUInt32]
    exact Nat.lt_trans len.toNat_lt (by decide)
  have number := decimal_meaning floats strings small [p]
  rw [UInt16.toNat_toUInt32] at number
  have literals : asciiText "WOL: " =
      [asciiOf 'W', asciiOf 'O', asciiOf 'L', asciiOf ':', asciiOf ' '] := by
    decide
  have space : asciiText " " = [asciiOf ' '] := by decide
  have literal (c : UInt8) (args : List UInt32) : (Piece.literal c).meaning floats strings args =
      .ok ([c], args) := rfl
  rw [formatted, pieces, literals, space]
  simp only [List.map_cons, List.map_nil, List.cons_append, List.nil_append, execute, literal,
    number, string_meaning floats strings string short, ok_bind, complete, ↓reduceIte, pure,
    Except.pure]

theorem formatted_target {p : UInt32} {text : List UInt8}
    (string : stringBytes strings (2 ^ 32) p = text) (short : text.length < 2 ^ 32) :
    formatted floats strings (asciiText "-> %s\n") [p] =
      .ok (asciiText "-> " ++ (text ++ asciiText "\n"), []) := by
  have pieces : (parse (asciiText "-> %s\n")).1 = (asciiText "-> ").map .literal ++
      [.directive ⟨[], .none, .none, .none, asciiOf 's'⟩, .literal (asciiOf '\n')] := by decide
  have complete : Complete (asciiText "-> %s\n") := by decide
  have literals : asciiText "-> " = [asciiOf '-', asciiOf '>', asciiOf ' '] := by decide
  have line : asciiText "\n" = [asciiOf '\n'] := by decide
  have literal (c : UInt8) (args : List UInt32) : (Piece.literal c).meaning floats strings args =
      .ok ([c], args) := rfl
  rw [formatted, pieces, literals, line]
  simp only [List.map_cons, List.map_nil, List.cons_append, List.nil_append, execute, literal,
    string_meaning floats strings string short, ok_bind, complete, ↓reduceIte, pure, Except.pure]

end Meaning

section Strings

/-- A terminated text in memory is a string. -/
theorem stringBytes_terminated {strings : Mem} {text : List UInt8} {p : UInt32} {n : Nat}
    (stored : bytes strings p.toNat (text ++ [0]).length = text ++ [0]) (nonzero : 0 ∉ text)
    (room : p.toNat + text.length < 2 ^ 32) (enough : text.length < n) :
    stringBytes strings n p = text := by
  induction text generalizing p n with
  | nil =>
      cases n with
      | zero => exact absurd enough (Nat.not_lt_zero _)
      | succ n =>
          have zero : strings p.toNat = 0 := (List.cons.inj stored).1
          rw [stringBytes, if_neg (not_not.mpr zero)]
  | cons c text ih =>
      cases n with
      | zero => exact absurd enough (Nat.not_lt_zero _)
      | succ n =>
          rw [List.length_cons] at room enough
          rw [List.cons_append, List.length_cons, bytes_succ] at stored
          obtain ⟨first, rest⟩ := List.cons.inj stored
          have next : (p + 1).toNat = p.toNat + 1 := by
            rw [UInt32.toNat_add]
            change (p.toNat + 1) % 2 ^ 32 = _
            omega
          have present : strings p.toNat ≠ 0 := by
            rw [first]
            exact fun zero => nonzero (zero ▸ List.mem_cons_self)
          rw [← next] at rest
          rw [stringBytes, if_pos present, first, ih rest
            (fun member => nonzero (List.mem_cons_of_mem c member)) (by omega) (by omega)]

theorem separated_nonzero {separator : UInt8} (some : separator ≠ 0) {fields : List (List UInt8)}
    (numerals : ∀ field ∈ fields, ∀ c ∈ field, (digitValue c).isSome) :
    0 ∉ separated separator fields := by
  intro zero
  rcases mem_separated zero with same | ⟨field, inside, member⟩
  · exact some same.symm
  · exact absurd (numerals field inside 0 member) (by decide)

/-- A static buffer receives a text that has room in it, and is a string then. -/
theorem sprintf_string {floats : FloatText} {strings : Mem} {buff : UInt32} {size : Nat}
    {format : List UInt8} {args rest : List UInt32} {text : List UInt8} (m : Mem)
    (present : buff ≠ 0) (room : buff.toNat + size ≤ 2 ^ 32)
    (writes : formatted floats strings format args = .ok (text, rest)) (fits : text.length < size)
    (nonzero : 0 ∉ text) :
    ∃ m' result, sprintf floats strings buff format args m = .ok (m', result) ∧
      Frame buff.toNat size m m' ∧ ∀ n, text.length < n → stringBytes m' n buff = text := by
  have size' : (text ++ [0]).length = text.length + 1 := by
    rw [List.length_append, List.length_singleton]
  have positive : 0 < buff.toNat := Nat.pos_of_ne_zero fun zero => present (UInt32.toNat_inj.mp zero)
  refine ⟨_, _, sprintf_stores floats strings m present writes (by omega), ?_, ?_⟩
  · exact (blit_frame _ _ _ _ _).mono (Nat.le_refl _) (by omega)
  · intro n enough
    exact stringBytes_terminated (bytes_blit_ofList _ _ _) nonzero (by omega) enough

end Strings

section Addresses

theorem dotted_spells (octets : List UInt8) :
    List.Forall₂ (Spells 10) (octets.map fun b => decimal b.toNat)
      (octets.map UInt8.toNat) := by
  rw [List.forall₂_map_left_iff, List.forall₂_map_right_iff]
  exact List.forall₂_same.mpr fun b _ => decimal_spells b.toNat

theorem colons_spells (octets : List UInt8) :
    List.Forall₂ (Spells 16) (octets.map hexByte) (octets.map UInt8.toNat) := by
  rw [List.forall₂_map_left_iff, List.forall₂_map_right_iff]
  exact List.forall₂_same.mpr fun b _ => hexByte_spells b

theorem dotted_nonzero (octets : List UInt8) : 0 ∉ dotted octets := by
  apply separated_nonzero (by decide)
  intro field inside
  obtain ⟨b, -, same⟩ := List.mem_map.mp inside
  rw [← same]
  exact (decimal_spells b.toNat).numerals

theorem colons_nonzero (octets : List UInt8) : 0 ∉ colons octets := by
  apply separated_nonzero (by decide)
  intro field inside
  obtain ⟨b, -, same⟩ := List.mem_map.mp inside
  rw [← same]
  exact (hexByte_spells b).numerals

theorem dotted_length (a b c d : UInt8) : (dotted [a, b, c, d]).length < 16 := by
  have first := decimal_byte_length a
  have second := decimal_byte_length b
  have third := decimal_byte_length c
  have fourth := decimal_byte_length d
  simp only [dotted, List.map_cons, List.map_nil, separated, List.length_append, List.length_cons]
  omega

theorem colons_length (a b c d e f : UInt8) : (colons [a, b, c, d, e, f]).length = 17 := by
  simp only [colons, List.map_cons, List.map_nil, separated, List.length_append, List.length_cons,
    hexByte_length]

/-- `inet_ntoa` stays in its 16 bytes, and what they hold reads as the address. -/
theorem inetNtoa_reads_back (floats : FloatText) (strings : Mem) (buff inAddr : UInt32) (m : Mem)
    (present : buff ≠ 0) (room : buff.toNat + 16 ≤ 2 ^ 32) :
    ∃ m', inetNtoa floats buff strings inAddr m = .ok (m', buff) ∧ Frame buff.toNat 16 m m' ∧
      readSeparated 10 (asciiOf '.') 4 (stringBytes m' 16 buff) =
        some ((le32 inAddr).map UInt8.toNat, []) := by
  obtain ⟨a, b, c, d, octets⟩ : ∃ a b c d, le32 inAddr = [a, b, c, d] := ⟨_, _, _, _, rfl⟩
  obtain ⟨m', result, done, frame, string⟩ := sprintf_string m present room
    (formatted_dotted floats strings a b c d) (dotted_length a b c d) (dotted_nonzero _)
  refine ⟨m', ?_, frame, ?_⟩
  · rw [inetNtoa, octets, done]
    rfl
  · rw [string 16 (dotted_length a b c d), octets]
    have read := readSeparated_separated (by decide : digitValue (asciiOf '.') = none)
      (dotted_spells [a, b, c, d]) ends_nil
    rw [List.append_nil] at read
    exact read

theorem bytes_six (m : Mem) (address : Nat) :
    ∃ a b c d e f, bytes m address 6 = [a, b, c, d, e, f] := ⟨_, _, _, _, _, _, rfl⟩

theorem ethNtoa_string (floats : FloatText) (strings : Mem) {buff : UInt32} (hwAddr : UInt32)
    (m : Mem) (present : buff ≠ 0) (room : buff.toNat + 18 ≤ 2 ^ 32) :
    ∃ m', ethNtoa floats buff strings hwAddr m = .ok (m', buff) ∧ Frame buff.toNat 18 m m' ∧
      ∀ n, 17 < n → stringBytes m' n buff = colons (bytes m hwAddr.toNat 6) := by
  obtain ⟨a, b, c, d, e, f, octets⟩ := bytes_six m hwAddr.toNat
  have length := colons_length a b c d e f
  obtain ⟨m', result, done, frame, string⟩ := sprintf_string m present room
    (formatted_colons floats strings a b c d e f) (by omega) (colons_nonzero _)
  refine ⟨m', ?_, frame, ?_⟩
  · rw [ethNtoa, octets, done]
    rfl
  · rw [octets, ← length]
    exact string

theorem readSeparated_colons (m : Mem) (address : Nat) :
    readSeparated 16 (asciiOf ':') 6 (colons (bytes m address 6)) =
      some ((bytes m address 6).map UInt8.toNat, []) := by
  have read := readSeparated_separated (by decide : digitValue (asciiOf ':') = none)
    (colons_spells (bytes m address 6)) ends_nil
  rw [List.append_nil, List.length_map, bytes_length] at read
  exact read

theorem inetNtoa_localhost :
    ∃ m', inetNtoa ⟨fun _ _ _ _ => [], fun _ _ _ _ => []⟩ 0x2000 (fun _ => 0) 0x0100007f
        (fun _ => 0) = .ok (m', 0x2000) ∧ Frame 0x2000 16 (fun _ => 0) m' ∧
      readSeparated 10 (asciiOf '.') 4 (stringBytes m' 16 0x2000) = some ([127, 0, 0, 1], []) :=
  inetNtoa_reads_back ⟨fun _ _ _ _ => [], fun _ _ _ _ => []⟩ (fun _ => 0) 0x2000 0x0100007f
    (fun _ => 0) (by decide) (by decide)

/-- `eth_ntoa` stays in its 18 bytes, and what they hold reads as the address. -/
theorem ethNtoa_reads_back (floats : FloatText) (strings : Mem) (buff hwAddr : UInt32) (m : Mem)
    (present : buff ≠ 0) (room : buff.toNat + 18 ≤ 2 ^ 32) :
    ∃ m', ethNtoa floats buff strings hwAddr m = .ok (m', buff) ∧ Frame buff.toNat 18 m m' ∧
      readSeparated 16 (asciiOf ':') 6 (stringBytes m' 18 buff) =
        some ((bytes m hwAddr.toNat 6).map UInt8.toNat, []) := by
  obtain ⟨m', done, frame, string⟩ := ethNtoa_string floats strings hwAddr m present room
  refine ⟨m', done, frame, ?_⟩
  rw [string 18 (by decide)]
  exact readSeparated_colons m hwAddr.toNat

/-- A frame for Wake-on-LAN at `0x3000`. -/
def wakeFrame : List UInt8 :=
  [0xff, 0xff, 0xff, 0xff, 0xff, 0xff, 0x52, 0x54, 0, 0x12, 0x34, 0x56, 0x08, 0x42]

def wakeMem : Mem := blit (fun _ => 0) 0x3000 (ofList wakeFrame) 0 14

theorem ethNtoa_sender :
    ∃ m', ethNtoa ⟨fun _ _ _ _ => [], fun _ _ _ _ => []⟩ 0x2000 wakeMem 0x3006 wakeMem =
        .ok (m', 0x2000) ∧ Frame 0x2000 18 wakeMem m' ∧
      readSeparated 16 (asciiOf ':') 6 (stringBytes m' 18 0x2000) =
        some ([0x52, 0x54, 0, 0x12, 0x34, 0x56], []) :=
  ethNtoa_reads_back ⟨fun _ _ _ _ => [], fun _ _ _ _ => []⟩ wakeMem 0x2000 0x3006 wakeMem
    (by decide) (by decide)

end Addresses

section WakeOnLan

open Console

variable {floats : FloatText} {strings : Mem} {stack : UInt32} {color : UInt8} {s : Console}
  {p : Page}

theorem filter_nonzero {text : List UInt8} (nonzero : 0 ∉ text) : text.filter (· ≠ 0) = text := by
  apply List.filter_eq_self.mpr
  intro c member
  exact decide_eq_true fun zero => nonzero (zero ▸ member)

theorem decimal_nonzero (n : Nat) : 0 ∉ decimal n :=
  fun zero => absurd ((decimal_spells n).numerals 0 zero) (by decide)

/-- A text without a zero byte goes onto the page. -/
theorem printf_page {format : List UInt8} {args rest : List UInt32} {text : List UInt8}
    (present : stack ≠ 0) (refines : Refines color s p)
    (writes : formatted floats strings format args = .ok (text, rest)) (nonzero : 0 ∉ text) :
    ∃ t, s.printf floats strings stack format args = .ok t ∧
      Refines color t (text.foldl Page.putch p) := by
  rw [printf_eq present, writes, ok_bind]
  simp only [filter_nonzero nonzero]
  exact putchAll_refines refines text

theorem wakeOnLan_shows (floats : FloatText) {buff stack frame : UInt32} (len : UInt16) (m : Mem)
    (refines : Refines color s p) (present : buff ≠ 0) (room : buff.toNat + 18 ≤ 2 ^ 32)
    (onStack : stack ≠ 0) (inside : frame.toNat + 14 ≤ 2 ^ 32)
    (apart : frame.toNat + 6 ≤ buff.toNat ∨ buff.toNat + 18 ≤ frame.toNat) :
    ∃ m' t, wakeOnLan floats buff stack frame len m s = .ok (m', t) ∧ Frame buff.toNat 18 m m' ∧
      Refines color t ((asciiText "WOL: " ++ (decimal len.toNat ++ (asciiText " " ++
        (colons (bytes m (frame.toNat + 6) 6) ++ (asciiText " -> " ++
          (colons (bytes m frame.toNat 6) ++ asciiText "\n")))))).foldl Page.putch p) := by
  have source : (frame + 6).toNat = frame.toNat + 6 := by
    rw [UInt32.toNat_add]
    change (frame.toNat + 6) % 2 ^ 32 = _
    omega
  obtain ⟨m₁, first, frame₁, string₁⟩ := ethNtoa_string floats m (frame + 6) m present room
  obtain ⟨m₂, second, frame₂, string₂⟩ := ethNtoa_string floats m₁ frame m₁ present room
  have kept : bytes m₁ frame.toNat 6 = bytes m frame.toNat 6 := bytes_congr (frame₁.agree apart)
  rw [source] at string₁
  rw [kept] at string₂
  have short (octets : Mem) (address : Nat) : (colons (bytes octets address 6)).length = 17 := by
    obtain ⟨a, b, c, d, e, f, same⟩ := bytes_six octets address
    rw [same, colons_length]
  have source := formatted_source floats m₁ len (string₁ (2 ^ 32) (by decide))
    (by rw [short]; decide)
  have target := formatted_target floats m₂ (string₂ (2 ^ 32) (by decide)) (by rw [short]; decide)
  obtain ⟨t₁, shown, refines₁⟩ := printf_page onStack refines source (by
    simp only [List.mem_append, not_or, decimal_nonzero, colons_nonzero, not_false_eq_true,
      true_and]
    decide)
  obtain ⟨t₂, shown₂, refines₂⟩ := printf_page onStack refines₁ target (by
    simp only [List.mem_append, not_or, colons_nonzero, not_false_eq_true, true_and]
    decide)
  refine ⟨m₂, t₂, ?_, frame₁.trans frame₂, ?_⟩
  · rw [wakeOnLan, first, ok_bind]
    simp only [shown, ok_bind, second, shown₂]
    rfl
  · rw [← List.foldl_append] at refines₂
    have arrow : asciiText " -> " = asciiText " " ++ asciiText "-> " := by decide
    rw [arrow]
    simpa only [List.append_assoc] using refines₂

/-- The Wake-on-LAN branch shows the address of the sender and that of the receiver, each from the
one static buffer. -/
theorem wakeOnLan_shows_addresses (floats : FloatText) (buff stack frame : UInt32) (len : UInt16)
    (m : Mem) (color : UInt8) (s : Console) (p : Page) (refines : Refines color s p)
    (present : buff ≠ 0) (room : buff.toNat + 18 ≤ 2 ^ 32) (onStack : stack ≠ 0)
    (inside : frame.toNat + 14 ≤ 2 ^ 32)
    (apart : frame.toNat + 6 ≤ buff.toNat ∨ buff.toNat + 18 ≤ frame.toNat) :
    ∃ m' t, wakeOnLan floats buff stack frame len m s = .ok (m', t) ∧ Frame buff.toNat 18 m m' ∧
      Refines color t ((asciiText "WOL: " ++ (decimal len.toNat ++ (asciiText " " ++
        (colons (bytes m (frame.toNat + 6) 6) ++ (asciiText " -> " ++
          (colons (bytes m frame.toNat 6) ++ asciiText "\n")))))).foldl Page.putch p) :=
  wakeOnLan_shows floats len m refines present room onStack inside apart

theorem wakeOnLan_shows_both :
    let s : Console :=
      { mem := fun _ => 0, csrX := 0, csrY := 0, attrib := 0xf, crtc := ⟨0, fun _ => 0⟩ }
    ∃ cleared m' t, s.cls = .ok cleared ∧
      wakeOnLan ⟨fun _ _ _ _ => [], fun _ _ _ _ => []⟩ 0x2000 0x1000 0x3000 60 wakeMem cleared =
        .ok (m', t) ∧ Frame 0x2000 18 wakeMem m' ∧
      Refines s.color t ((asciiText "WOL: 60 52:54:00:12:34:56 -> ff:ff:ff:ff:ff:ff\n").foldl
        Page.putch Page.empty) := by
  intro s
  obtain ⟨cleared, clsDone, start⟩ := cls_refines s
  obtain ⟨m', t, done, frame, shows⟩ := wakeOnLan_shows_addresses
    ⟨fun _ _ _ _ => [], fun _ _ _ _ => []⟩ 0x2000 0x1000 0x3000 60 wakeMem s.color cleared
    Page.empty start (by decide) (by decide) (by decide) (by decide) (by decide)
  have text : asciiText "WOL: 60 52:54:00:12:34:56 -> ff:ff:ff:ff:ff:ff\n" = asciiText "WOL: " ++
      (decimal 60 ++ (asciiText " " ++ (colons (bytes wakeMem 0x3006 6) ++ (asciiText " -> " ++
        (colons (bytes wakeMem 0x3000 6) ++ asciiText "\n"))))) := by decide
  exact ⟨cleared, m', t, clsDone, done, frame, by rw [text]; exact shows⟩

end WakeOnLan

end FrogOS
