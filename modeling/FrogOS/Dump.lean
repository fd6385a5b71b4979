import FrogOS.AddressText

set_option autoImplicit false

namespace FrogOS

open ByteMemory BoundedAccess Numeral Printf Console

section Functions

variable (floats : FloatText) (strings : Mem) (stack : UInt32) (m : Mem) (addr n : UInt32)

/-- The loop over the bytes of a row, with as many of the 16 left. -/
def dumpBytes (idx : UInt32) : Nat → UInt32 → Console → Except Fault Console
  | 0, _, s => .ok s
  | left + 1, i, s =>
      if idx + i < n then do
        let s ← s.printf floats strings stack (asciiText " %02x")
          [(m (addr + idx + i).toNat).toUInt32]
        dumpBytes idx left (i + 1) s
      else .ok s

def dumpRow (idx : UInt32) (s : Console) : Except Fault Console := do
  let s ← s.printf floats strings stack (asciiText "0x%p: ") [idx]
  let s ← dumpBytes floats strings stack m addr n idx 16 0 s
  s.printf floats strings stack (asciiText "\n") []

/-- `for(idx=0;idx<n;idx+=0x10)`. After 2 ^ 28 rounds `idx` is what it was at the start. -/
def dumpLoop : Nat → UInt32 → Console → Except Fault Console
  | 0, _, _ => .error .diverges
  | fuel + 1, idx, s =>
      if idx < n then do
        let s ← dumpRow floats strings stack m addr n idx s
        dumpLoop fuel (idx + 0x10) s
      else .ok s

def dump (s : Console) : Except Fault Console :=
  dumpLoop floats strings stack m addr n (2 ^ 28 + 1) 0 s

end Functions

/-- The digits of `%p`. -/
def hexWord (n : Nat) : List UInt8 :=
  zeros (8 - (digitList 16 n false).length) ++ digitsText true (digitList 16 n false)

def byteTexts (row : List UInt8) : List UInt8 := row.flatMap fun b => asciiOf ' ' :: hexByte b

def rowText (offset : Nat) (row : List UInt8) : List UInt8 :=
  asciiText "0x" ++ (hexWord offset ++ (asciiText ": " ++ (byteTexts row ++ [asciiOf '\n'])))

/-- The rows with the numbers from `k` on. -/
def dumpText (m : Mem) (addr n : Nat) (k rows : Nat) : List UInt8 :=
  (List.range' k rows).flatMap fun j =>
    rowText (16 * j) (bytes m (addr + 16 * j) (min 16 (n - 16 * j)))

section Reading

/-- The bytes of a row, up to the end of the line. -/
def readRowBytes : Nat → List UInt8 → Option (List Nat × List UInt8)
  | 0, _ => none
  | _, [] => none
  | fuel + 1, c :: text =>
      if c = asciiOf '\n' then some ([], text)
      else if c = asciiOf ' ' then
        let number := readDigits 16 0 text
        (readRowBytes fuel number.2).map fun row => (number.1 :: row.1, row.2)
      else none

/-- A row: its offset, its bytes and the text behind it. -/
def readRow (text : List UInt8) : Option (Nat × List Nat × List UInt8) :=
  let offset := readDigits 16 0 (text.drop 2)
  if text.take 2 = asciiText "0x" ∧ offset.2.take 2 = asciiText ": " then
    (readRowBytes 17 (offset.2.drop 2)).map fun row => (offset.1, row.1, row.2)
  else none

/-- The bytes of rows whose offsets count them. -/
def readRows : Nat → Nat → List UInt8 → Option (List Nat)
  | 0, _, _ => none
  | fuel + 1, offset, text =>
      if text = [] then some []
      else do
        let (here, row, text) ← readRow text
        if here = offset then do
          let rows ← readRows fuel (offset + row.length) text
          return row ++ rows
        else none

/-- The memory that a dump shows. -/
def readDump (text : List UInt8) : Option (List Nat) := readRows (text.length + 1) 0 text

theorem hexWord_spells (n : Nat) : Spells 16 (hexWord n) n := by
  have spells := spells_zeros true (le_refl 16) (by decide)
    (8 - (digitList 16 n false).length) (digitList_lt (by decide : 2 ≤ 16) n false)
  rw [ofDigits_whole] at spells
  exact spells

theorem readRowBytes_texts (row : List UInt8) (tail : List UInt8) {fuel : Nat}
    (enough : row.length < fuel) :
    readRowBytes fuel (byteTexts row ++ (asciiOf '\n' :: tail)) =
      some (row.map UInt8.toNat, tail) := by
  induction row generalizing fuel with
  | nil =>
      cases fuel with
      | zero => exact absurd enough (Nat.not_lt_zero _)
      | succ fuel => rfl
  | cons b row ih =>
      cases fuel with
      | zero => exact absurd enough (Nat.not_lt_zero _)
      | succ fuel =>
          have ends : Ends 16 (byteTexts row ++ (asciiOf '\n' :: tail)) := by
            cases row with
            | nil => exact ends_cons (by decide)
            | cons b row => exact ends_cons (by decide)
          have first : byteTexts (b :: row) ++ (asciiOf '\n' :: tail) =
              asciiOf ' ' :: (hexByte b ++ (byteTexts row ++ (asciiOf '\n' :: tail))) := by
            simp only [byteTexts, List.flatMap_cons, List.append_assoc, List.cons_append]
          rw [first, readRowBytes, if_neg (by decide), if_pos rfl, (hexByte_spells b).read _ ends]
          simp only [ih (Nat.lt_of_succ_lt_succ enough)]
          rfl

theorem readRow_text (offset : Nat) {row : List UInt8} (short : row.length ≤ 16)
    (tail : List UInt8) :
    readRow (rowText offset row ++ tail) = some (offset, row.map UInt8.toNat, tail) := by
  have ends : Ends 16 (asciiText ": " ++ (byteTexts row ++ (asciiOf '\n' :: tail))) :=
    ends_cons (by decide)
  have text : rowText offset row ++ tail = asciiText "0x" ++
      (hexWord offset ++ (asciiText ": " ++ (byteTexts row ++ (asciiOf '\n' :: tail)))) := by
    simp only [rowText, List.append_assoc, List.singleton_append]
  have front : asciiText "0x" = [asciiOf '0', asciiOf 'x'] := by decide
  have colon : asciiText ": " = [asciiOf ':', asciiOf ' '] := by decide
  have number := (hexWord_spells offset).read _ ends
  rw [colon] at number
  have row := readRowBytes_texts row tail (Nat.lt_succ_of_le short)
  rw [text, readRow, front, colon]
  simp only [List.cons_append, List.nil_append, List.drop_succ_cons, List.drop_zero,
    List.take_succ_cons, List.take_zero] at number ⊢
  simp only [number, List.drop_succ_cons, List.drop_zero, List.take_succ_cons, List.take_zero,
    and_self, ↓reduceIte, row, Option.map_some]

/-- The rows of a dump read back as the bytes. -/
theorem readRows_dumpText (m : Mem) (addr n k rows : Nat) {fuel : Nat} (enough : rows < fuel)
    (all : n ≤ 16 * (k + rows)) (some : 16 * (k + rows) < n + 16) :
    readRows fuel (16 * k) (dumpText m addr n k rows) =
      .some ((bytes m (addr + 16 * k) (n - 16 * k)).map UInt8.toNat) := by
  induction rows generalizing k fuel with
  | zero =>
      cases fuel with
      | zero => exact absurd enough (Nat.not_lt_zero _)
      | succ fuel =>
          have done : n - 16 * k = 0 := by omega
          rw [done]
          rfl
  | succ rows ih =>
      cases fuel with
      | zero => exact absurd enough (Nat.not_lt_zero _)
      | succ fuel =>
          have short : (bytes m (addr + 16 * k) (min 16 (n - 16 * k))).length ≤ 16 := by
            rw [bytes_length]
            exact Nat.min_le_left _ _
          have first : dumpText m addr n k (rows + 1) =
              rowText (16 * k) (bytes m (addr + 16 * k) (min 16 (n - 16 * k))) ++
                dumpText m addr n (k + 1) rows := by
            rw [dumpText, List.range'_succ, List.flatMap_cons]
            rfl
          have present : rowText (16 * k) (bytes m (addr + 16 * k) (min 16 (n - 16 * k))) ++
              dumpText m addr n (k + 1) rows ≠ [] := by
            rw [rowText]
            exact List.append_ne_nil_of_left_ne_nil (List.append_ne_nil_of_left_ne_nil (by decide) _) _
          rw [first, readRows, if_neg present, readRow_text _ short]
          simp only [Option.bind_eq_bind, Option.bind_some, ↓reduceIte, List.length_map,
            bytes_length]
          cases rows with
          | zero =>
              have last : min 16 (n - 16 * k) = n - 16 * k := by omega
              have nothing : readRows fuel (16 * k + min 16 (n - 16 * k))
                  (dumpText m addr n (k + 1) 0) = .some [] := by
                cases fuel with
                | zero => exact absurd enough (by omega)
                | succ fuel => rfl
              rw [nothing, last]
              simp
          | succ rows =>
              have full : min 16 (n - 16 * k) = 16 := by omega
              have count : n - 16 * k = 16 + (n - 16 * (k + 1)) := by omega
              have rest := ih (k + 1) (Nat.lt_of_succ_lt_succ enough) (by omega) (by omega)
              have next : 16 * k + 16 = 16 * (k + 1) := by omega
              rw [full, next, rest, count, bytes_append, List.map_append, Nat.add_assoc, next]
              rfl

theorem dumpText_length (m : Mem) (addr n k rows : Nat) :
    rows ≤ (dumpText m addr n k rows).length := by
  induction rows generalizing k with
  | zero => exact Nat.zero_le _
  | succ rows ih =>
      rw [dumpText, List.range'_succ, List.flatMap_cons, List.length_append]
      have later := ih (k + 1)
      have line : 1 ≤ (rowText (16 * k) (bytes m (addr + 16 * k) (min 16 (n - 16 * k)))).length := by
        simp only [rowText, List.length_append, List.length_singleton]
        omega
      rw [dumpText] at later
      omega

end Reading

section Formats

variable (floats : FloatText) (strings : Mem)

theorem pointer_meaning (w : UInt32) (args : List UInt32) :
    (Piece.directive ⟨[], .none, .none, .none, asciiOf 'p'⟩).meaning floats strings (w :: args) =
      .ok (hexWord w.toNat, args) := by
  have short : (digitList 16 w.toNat false).length ≤ 8 :=
    digitList_length (by decide) (by decide) w.toNat_lt
  have number : Number [] (digitsText true (digitList 16 w.toNat false)) := by
    refine ⟨by decide, ?_, absurd rfl⟩
    have spells := spells_zeros true (le_refl 16) (by decide) 0
      (digitList_lt (by decide : 2 ≤ 16) w.toNat false)
    exact spells.numerals
  have fits : Fits [] (digitsText true (digitList 16 w.toNat false)) 0 8
      { zeropad := true, uppercase := true } := by
    refine ⟨?_, show 8 ≤ ntoaBufferSize by decide⟩
    rw [digitsText_length]
    exact Nat.le_trans short (by decide)
  have text : ntoaText w.toNat false 16 0 8 { zeropad := true, uppercase := true } =
      standardText [] (digitsText true (digitList 16 w.toNat false)) 0 8
        { zeropad := true, uppercase := true } := by
    rw [ntoaText_plain _ _ (by decide) _ _ rfl]
    exact (plainText_standard_iff number fun _ => rfl).mpr fits
  have specifier : (Piece.directive ⟨[], .none, .none, .none, asciiOf 'p'⟩).meaning floats strings
      (w :: args) =
        .ok (ntoaText w.toNat false 16 0 8 { zeropad := true, uppercase := true }, args) := rfl
  rw [specifier, text]
  simp [standardText, hexWord]

theorem formatted_offset (w : UInt32) : formatted floats strings (asciiText "0x%p: ") [w] =
    .ok (asciiText "0x" ++ (hexWord w.toNat ++ asciiText ": "), []) := by
  have pieces : (parse (asciiText "0x%p: ")).1 = [.literal (asciiOf '0'), .literal (asciiOf 'x'),
      .directive ⟨[], .none, .none, .none, asciiOf 'p'⟩, .literal (asciiOf ':'),
      .literal (asciiOf ' ')] := by decide
  have complete : Complete (asciiText "0x%p: ") := by decide
  have front : asciiText "0x" = [asciiOf '0', asciiOf 'x'] := by decide
  have colon : asciiText ": " = [asciiOf ':', asciiOf ' '] := by decide
  have literal (c : UInt8) (args : List UInt32) : (Piece.literal c).meaning floats strings args =
      .ok ([c], args) := rfl
  rw [formatted, pieces, front, colon]
  simp only [execute, literal, pointer_meaning, ok_bind, complete, ↓reduceIte, pure, Except.pure,
    List.cons_append, List.nil_append]

theorem formatted_byte (b : UInt8) : formatted floats strings (asciiText " %02x") [b.toUInt32] =
    .ok (asciiOf ' ' :: hexByte b, []) := by
  have pieces : (parse (asciiText " %02x")).1 = [.literal (asciiOf ' '),
      .directive ⟨[.zero], .number [asciiOf '2'], .none, .none, asciiOf 'x'⟩] := by decide
  have complete : Complete (asciiText " %02x") := by decide
  have literal (c : UInt8) (args : List UInt32) : (Piece.literal c).meaning floats strings args =
      .ok ([c], args) := rfl
  rw [formatted, pieces]
  simp only [execute, literal, hex_meaning, ok_bind, complete, ↓reduceIte, pure, Except.pure,
    List.cons_append, List.nil_append, List.append_nil]

theorem formatted_line : formatted floats strings (asciiText "\n") [] =
    .ok ([asciiOf '\n'], []) := by
  have pieces : (parse (asciiText "\n")).1 = [.literal (asciiOf '\n')] := by decide
  have complete : Complete (asciiText "\n") := by decide
  have literal : (Piece.literal (asciiOf '\n')).meaning floats strings [] =
      .ok ([asciiOf '\n'], []) := rfl
  rw [formatted, pieces]
  simp only [execute, literal, ok_bind, complete, ↓reduceIte, pure, Except.pure, List.append_nil]

end Formats

section Rows

variable {floats : FloatText} {strings : Mem} {stack : UInt32} {color : UInt8} {s : Console}
  {p : Page} {m : Mem} {addr n idx : UInt32}

theorem hexByte_nonzero (b : UInt8) : 0 ∉ hexByte b :=
  fun zero => absurd ((hexByte_spells b).numerals 0 zero) (by decide)

theorem hexWord_nonzero (n : Nat) : 0 ∉ hexWord n :=
  fun zero => absurd ((hexWord_spells n).numerals 0 zero) (by decide)

/-- The bytes of a row, as the code finds them. -/
def rowBytes (m : Mem) (addr idx n : UInt32) (k : Nat) : List UInt8 :=
  (List.range' k (min 16 (n.toNat - idx.toNat) - k)).map fun i =>
    m (addr + idx + UInt32.ofNat i).toNat

/-- The rows with the numbers from `k` on, with the bytes as the code finds them. -/
def rowTexts (m : Mem) (addr n : UInt32) (k rows : Nat) : List UInt8 :=
  (List.range' k rows).flatMap fun j =>
    rowText (16 * j) (rowBytes m addr (UInt32.ofNat (16 * j)) n 0)

theorem dumpBytes_shows (onStack : stack ≠ 0) (room : idx.toNat + 16 ≤ 2 ^ 32) {left k : Nat}
    (whole : k + left = 16) (refines : Refines color s p) :
    ∃ t, dumpBytes floats strings stack m addr n idx left (UInt32.ofNat k) s = .ok t ∧
      Refines color t ((byteTexts (rowBytes m addr idx n k)).foldl Page.putch p) := by
  induction left generalizing k s p with
  | zero =>
      have done : rowBytes m addr idx n k = [] := by
        rw [rowBytes, show min 16 (n.toNat - idx.toNat) - k = 0 by omega]
        rfl
      rw [done]
      exact ⟨s, rfl, refines⟩
  | succ left ih =>
      have place : (idx + UInt32.ofNat k).toNat = idx.toNat + k := by
        rw [UInt32.toNat_add, UInt32.toNat_ofNat_of_lt' (by omega : k < 2 ^ 32)]
        omega
      rw [dumpBytes]
      by_cases inside : idx + UInt32.ofNat k < n
      · have less := UInt32.lt_iff_toNat_lt.mp inside
        have first : rowBytes m addr idx n k = m (addr + idx + UInt32.ofNat k).toNat ::
            rowBytes m addr idx n (k + 1) := by
          have count : min 16 (n.toNat - idx.toNat) - k =
              min 16 (n.toNat - idx.toNat) - (k + 1) + 1 := by omega
          rw [rowBytes, count, List.range'_succ, List.map_cons]
          rfl
        obtain ⟨t, shown, refines'⟩ := printf_page onStack refines
          (formatted_byte floats strings (m (addr + idx + UInt32.ofNat k).toNat)) (by
            simp only [List.mem_cons, hexByte_nonzero, or_false]
            decide)
        have next : UInt32.ofNat k + 1 = UInt32.ofNat (k + 1) := (UInt32.ofNat_add k 1).symm
        obtain ⟨t', rest, last⟩ := ih (by omega : k + 1 + left = 16) refines'
        refine ⟨t', ?_, ?_⟩
        · rw [if_pos inside, shown, ok_bind, next, rest]
        · rw [← List.foldl_append] at last
          rw [first]
          exact last
      · have beyond := Nat.le_of_not_lt (mt UInt32.lt_iff_toNat_lt.mpr inside)
        have done : rowBytes m addr idx n k = [] := by
          rw [rowBytes, show min 16 (n.toNat - idx.toNat) - k = 0 by omega]
          rfl
        rw [if_neg inside, done]
        exact ⟨s, rfl, refines⟩

/-- A round of the loop shows a row. -/
theorem dumpRow_shows (onStack : stack ≠ 0) (room : idx.toNat + 16 ≤ 2 ^ 32)
    (refines : Refines color s p) :
    ∃ t, dumpRow floats strings stack m addr n idx s = .ok t ∧
      Refines color t ((rowText idx.toNat (rowBytes m addr idx n 0)).foldl Page.putch p) := by
  obtain ⟨t₁, shown₁, refines₁⟩ := printf_page onStack refines
    (formatted_offset floats strings idx) (by
      simp only [List.mem_append, not_or, hexWord_nonzero, not_false_eq_true, true_and]
      decide)
  obtain ⟨t₂, shown₂, refines₂⟩ := dumpBytes_shows onStack room (by decide : 0 + 16 = 16) refines₁
  obtain ⟨t₃, shown₃, refines₃⟩ := printf_page onStack refines₂
    (formatted_line floats strings) (by decide)
  refine ⟨t₃, ?_, ?_⟩
  · rw [dumpRow, shown₁, ok_bind]
    rw [show (0 : UInt32) = UInt32.ofNat 0 from rfl, shown₂, ok_bind, shown₃]
  · rw [← List.foldl_append, ← List.foldl_append] at refines₃
    rw [rowText]
    simpa only [List.append_assoc] using refines₃

theorem rowBytes_eq (m : Mem) (memory : addr.toNat + n.toNat ≤ 2 ^ 32) {k : Nat}
    (inside : 16 * k < n.toNat) :
    rowBytes m addr (UInt32.ofNat (16 * k)) n 0 =
      bytes m (addr.toNat + 16 * k) (min 16 (n.toNat - 16 * k)) := by
  have bound := n.toNat_lt
  have place : (UInt32.ofNat (16 * k)).toNat = 16 * k :=
    UInt32.toNat_ofNat_of_lt' (by omega : 16 * k < 2 ^ 32)
  rw [rowBytes, bytes, place, Nat.sub_zero, ← List.range_eq_range']
  apply List.map_congr_left
  intro i member
  have small := List.mem_range.mp member
  congr 1
  rw [UInt32.toNat_add, UInt32.toNat_add, place,
    UInt32.toNat_ofNat_of_lt' (by omega : i < 2 ^ 32)]
  omega

/-- Of an object that does not wrap, the code finds the bytes. -/
theorem rowTexts_eq (m : Mem) (memory : addr.toNat + n.toNat ≤ 2 ^ 32) {k rows : Nat}
    (some : 16 * (k + rows) < n.toNat + 16) :
    rowTexts m addr n k rows = dumpText m addr.toNat n.toNat k rows := by
  apply List.flatMap_congr
  intro j member
  obtain ⟨i, small, rfl⟩ := List.mem_range'.mp member
  rw [rowBytes_eq m memory (by omega)]

/-- The rows that are left, one after the other. -/
theorem dumpLoop_shows (onStack : stack ≠ 0) (short : n.toNat ≤ 0xFFFFFFF0) {rows k fuel : Nat}
    (enough : rows < fuel) (all : n.toNat ≤ 16 * (k + rows))
    (some : 16 * (k + rows) < n.toNat + 16) (refines : Refines color s p) :
    ∃ t, dumpLoop floats strings stack m addr n fuel (UInt32.ofNat (16 * k)) s = .ok t ∧
      Refines color t ((rowTexts m addr n k rows).foldl Page.putch p) := by
  induction rows generalizing k fuel s p with
  | zero =>
      cases fuel with
      | zero => exact absurd enough (Nat.not_lt_zero _)
      | succ fuel =>
          have place : (UInt32.ofNat (16 * k)).toNat = 16 * k :=
            UInt32.toNat_ofNat_of_lt' (by omega : 16 * k < 2 ^ 32)
          have done : ¬ UInt32.ofNat (16 * k) < n := by
            rw [UInt32.lt_iff_toNat_lt, place]
            omega
          exact ⟨s, if_neg done, refines⟩
  | succ rows ih =>
      cases fuel with
      | zero => exact absurd enough (Nat.not_lt_zero _)
      | succ fuel =>
          have place : (UInt32.ofNat (16 * k)).toNat = 16 * k :=
            UInt32.toNat_ofNat_of_lt' (by omega : 16 * k < 2 ^ 32)
          have more : UInt32.ofNat (16 * k) < n := by
            rw [UInt32.lt_iff_toNat_lt, place]
            omega
          obtain ⟨t, shown, refines'⟩ := dumpRow_shows onStack (by rw [place]; omega) refines
          rw [place] at refines'
          have next : UInt32.ofNat (16 * k) + 0x10 = UInt32.ofNat (16 * (k + 1)) :=
            (UInt32.ofNat_add (16 * k) 16).symm
          have left : k + 1 + rows = k + (rows + 1) := by omega
          rw [← left] at all some
          obtain ⟨t', rest, last⟩ := ih (Nat.lt_of_succ_lt_succ enough) all some refines'
          refine ⟨t', ?_, ?_⟩
          · rw [dumpLoop, if_pos more, shown, ok_bind, next, rest]
          · rw [← List.foldl_append] at last
            rw [rowTexts, List.range'_succ, List.flatMap_cons]
            exact last

/-- Behind `0xFFFFFFF0` bytes the index wraps to zero before it reaches `n`. -/
theorem dumpLoop_diverges (onStack : stack ≠ 0) (long : 0xFFFFFFF0 < n.toNat) (fuel k : Nat)
    (refines : Refines color s p) :
    dumpLoop floats strings stack m addr n fuel (UInt32.ofNat (16 * k)) s = .error .diverges := by
  induction fuel generalizing k s p with
  | zero => rfl
  | succ fuel ih =>
      have place : (UInt32.ofNat (16 * k)).toNat = 16 * k % 2 ^ 32 := UInt32.toNat_ofNat'
      have more : UInt32.ofNat (16 * k) < n := by
        rw [UInt32.lt_iff_toNat_lt, place]
        omega
      obtain ⟨t, shown, refines'⟩ := dumpRow_shows onStack (by rw [place]; omega) refines
      have next : UInt32.ofNat (16 * k) + 0x10 = UInt32.ofNat (16 * (k + 1)) :=
        (UInt32.ofNat_add (16 * k) 16).symm
      rw [dumpLoop, if_pos more, shown, ok_bind, next, ih (k + 1) refines']

end Rows

/-- `dump` ends exactly for up to `0xFFFFFFF0` bytes, and what it shows of an object that does not
wrap then reads back as its bytes. -/
theorem dump_reads_back_iff (floats : FloatText) (strings : Mem) (stack : UInt32) (m : Mem)
    (addr n : UInt32) (color : UInt8) (s : Console) (p : Page) (onStack : stack ≠ 0)
    (refines : Refines color s p) :
    ((∃ t, dump floats strings stack m addr n s = .ok t) ↔ n.toNat ≤ 0xFFFFFFF0) ∧
      (addr.toNat + n.toNat ≤ 2 ^ 32 → ∀ t, dump floats strings stack m addr n s = .ok t →
        ∃ text, Refines color t (text.foldl Page.putch p) ∧
          readDump text = some ((bytes m addr.toNat n.toNat).map UInt8.toNat)) := by
  by_cases short : n.toNat ≤ 0xFFFFFFF0
  · have rows : n.toNat ≤ 16 * (0 + (n.toNat + 15) / 16) ∧
        16 * (0 + (n.toNat + 15) / 16) < n.toNat + 16 := by omega
    have enough : (n.toNat + 15) / 16 < 2 ^ 28 + 1 := by omega
    have run : ∃ t, dump floats strings stack m addr n s = .ok t ∧ Refines color t
        ((rowTexts m addr n 0 ((n.toNat + 15) / 16)).foldl Page.putch p) :=
      dumpLoop_shows onStack short enough rows.1 rows.2 refines
    obtain ⟨t, shown, shows⟩ := run
    refine ⟨⟨fun _ => short, fun _ => ⟨t, shown⟩⟩, ?_⟩
    intro memory t' same
    rw [shown] at same
    cases same
    rw [rowTexts_eq m memory rows.2] at shows
    refine ⟨_, shows, ?_⟩
    have lines := dumpText_length m addr.toNat n.toNat 0 ((n.toNat + 15) / 16)
    exact readRows_dumpText m addr.toNat n.toNat 0 _ (Nat.lt_succ_of_le lines) rows.1 rows.2
  · have never : dump floats strings stack m addr n s = .error .diverges :=
      dumpLoop_diverges onStack (Nat.lt_of_not_le short) (2 ^ 28 + 1) 0 refines
    refine ⟨⟨fun ⟨t, done⟩ => ?_, fun fits => absurd fits short⟩, fun _ t done => ?_⟩
    · rw [never] at done
      cases done
    · rw [never] at done
      cases done

/-- A dump of 18 bytes takes two rows; one of almost all the memory never ends. -/
theorem dump_some_and_everything :
    let s : Console :=
      { mem := fun _ => 0, csrX := 0, csrY := 0, attrib := 0xf, crtc := ⟨0, fun _ => 0⟩ }
    let m : Mem := fun x => UInt8.ofNat (x + 7)
    ∃ cleared, s.cls = .ok cleared ∧
      (∃ t text, dump ⟨fun _ _ _ _ => [], fun _ _ _ _ => []⟩ (fun _ => 0) 0x1000 m 0xF8 18
          cleared = .ok t ∧
        Refines s.color t (text.foldl Page.putch Page.empty) ∧
        readDump text = some [255, 0, 1, 2, 3, 4, 5, 6, 7, 8, 9, 10, 11, 12, 13, 14, 15, 16]) ∧
      ¬ ∃ t, dump ⟨fun _ _ _ _ => [], fun _ _ _ _ => []⟩ (fun _ => 0) 0x1000 m 0 0xFFFFFFF1
        cleared = .ok t := by
  intro s m
  obtain ⟨cleared, clsDone, start⟩ := cls_refines s
  have some := dump_reads_back_iff ⟨fun _ _ _ _ => [], fun _ _ _ _ => []⟩ (fun _ => 0) 0x1000
    m 0xF8 18 s.color cleared Page.empty (by decide) start
  have everything := dump_reads_back_iff ⟨fun _ _ _ _ => [], fun _ _ _ _ => []⟩ (fun _ => 0) 0x1000
    m 0 0xFFFFFFF1 s.color cleared Page.empty (by decide) start
  obtain ⟨t, done⟩ := some.1.mpr (by decide)
  obtain ⟨text, shows, reads⟩ := some.2 (by decide) t done
  refine ⟨cleared, clsDone, ⟨t, text, done, shows, reads.trans ?_⟩, ?_⟩
  · decide
  · exact fun ends => absurd (everything.1.mp ends) (by decide)

end FrogOS
