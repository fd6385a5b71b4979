import FrogOS.AddressText
import FrogOS.PrintfScan

set_option autoImplicit false

namespace FrogOS.Printf

open ByteMemory BoundedAccess Numeral

variable {β : Type}

/-- A format of a report, and the line that its numbers make. -/
structure Form (β : Type) where
  pieces : List Piece
  decode : List Int → Option β

/-- The line at the start of a text in the first format that is found there, and the text behind. -/
def readLine : List (Form β) → List UInt8 → Option (β × List UInt8)
  | [], _ => none
  | form :: forms, text =>
      match scan form.pieces text with
      | some (numbers, rest) => (form.decode numbers).map fun line => (line, rest)
      | none => readLine forms text

def readLines (forms : List (Form β)) : Nat → List UInt8 → Option (List β)
  | 0, _ => none
  | fuel + 1, text =>
      if text = [] then some []
      else do
        let (line, text) ← readLine forms text
        let lines ← readLines forms fuel text
        return line :: lines

/-- The lines of a report. -/
def readReport (forms : List (Form β)) (text : List UInt8) : Option (List β) :=
  readLines forms (text.length + 1) text

/-- No text that the second format finds its numbers in does for the first one: they differ in a
literal, or the first one has a number where the second one has a character of no number. -/
def Excludes : List Piece → List Piece → Prop
  | .literal c :: pieces, .literal d :: others => c ≠ d ∨ Excludes pieces others
  | .directive d :: pieces, .directive e :: others => d.base = e.base ∧ Excludes pieces others
  | .directive d :: .literal c :: _, .literal e :: _ =>
      c ≠ e ∧ e ≠ asciiOf ' ' ∧ e ≠ asciiOf '-' ∧ e ≠ asciiOf '+' ∧ ∀ digit ∈ digitValue e, d.base ≤ digit
  | _, _ => False

instance decidableExcludes : (pieces others : List Piece) → Decidable (Excludes pieces others)
  | .literal c :: pieces, .literal d :: others =>
      have := decidableExcludes pieces others
      inferInstanceAs (Decidable (c ≠ d ∨ Excludes pieces others))
  | .directive d :: pieces, .directive e :: others =>
      have := decidableExcludes pieces others
      inferInstanceAs (Decidable (d.base = e.base ∧ Excludes pieces others))
  | .directive d :: .literal c :: _, .literal e :: _ =>
      inferInstanceAs (Decidable (c ≠ e ∧ e ≠ asciiOf ' ' ∧ e ≠ asciiOf '-' ∧ e ≠ asciiOf '+' ∧
        ∀ digit ∈ digitValue e, d.base ≤ digit))
  | [.directive _], .literal _ :: _ => inferInstanceAs (Decidable False)
  | .directive _ :: .directive _ :: _, .literal _ :: _ => inferInstanceAs (Decidable False)
  | .literal _ :: _, .directive _ :: _ => inferInstanceAs (Decidable False)
  | [], _ => inferInstanceAs (Decidable False)
  | .literal _ :: _, [] => inferInstanceAs (Decidable False)
  | .directive _ :: _, [] => inferInstanceAs (Decidable False)

theorem readNumber_foreign {base : Nat} {c : UInt8} (space : c ≠ asciiOf ' ') (minus : c ≠ asciiOf '-')
    (plus : c ≠ asciiOf '+') (ends : ∀ digit ∈ digitValue c, base ≤ digit) (text : List UInt8) :
    readNumber base (c :: text) = (0, c :: text) := by
  have none : readDigits base 0 (c :: text) = (0, c :: text) := by
    apply readDigits_ends
    intro d head
    cases head
    exact ends
  rw [readNumber, List.dropWhile_cons_of_neg (by simpa using space), readSign, if_neg minus,
    if_neg plus, none]
  rfl

theorem scan_excluded {pieces others : List Piece} (excludes : Excludes pieces others)
    {text : List UInt8} (found : (scan others text).isSome) : scan pieces text = none := by
  induction pieces generalizing others text with
  | nil => exact absurd excludes (by simp [Excludes])
  | cons piece pieces ih =>
      cases others with
      | nil => cases piece <;> exact absurd excludes (by simp [Excludes])
      | cons other others =>
          cases piece with
          | literal c =>
              cases other with
              | directive e => exact absurd excludes (by simp [Excludes])
              | literal d =>
                  cases text with
                  | nil => rfl
                  | cons b text =>
                      rw [scan] at found ⊢
                      by_cases here : b = c
                      · rw [if_pos here]
                        rcases excludes with differ | later
                        · rw [if_neg (fun same => differ (here.symm.trans same))] at found
                          cases found
                        · split at found
                          · exact ih later found
                          · cases found
                      · rw [if_neg here]
          | directive d =>
              cases other with
              | directive e =>
                  obtain ⟨base, later⟩ := excludes
                  rw [scan, Option.isSome_map, ← base] at found
                  rw [scan, ih later found]
                  rfl
              | literal e =>
                  cases text with
                  | nil => cases found
                  | cons b text =>
                      rw [scan] at found
                      split at found
                      · rename_i same
                        cases pieces with
                        | nil => exact absurd excludes (by simp [Excludes])
                        | cons next pieces =>
                            cases next with
                            | directive _ => exact absurd excludes (by simp [Excludes])
                            | literal c =>
                                obtain ⟨differ, space, minus, plus, ends⟩ := excludes
                                rw [same, scan, readNumber_foreign space minus plus ends, scan,
                                  if_neg differ.symm]
                                rfl
                      · cases found

/-- The form that a line was written in is the first one that is found. -/
theorem readLine_found {before after : List (Form β)} {form : Form β}
    (excluded : ∀ other ∈ before, Excludes other.pieces form.pieces) {text rest : List UInt8}
    {numbers : List Int} {line : β} (found : scan form.pieces text = some (numbers, rest))
    (decoded : form.decode numbers = some line) :
    readLine (before ++ form :: after) text = some (line, rest) := by
  induction before with
  | nil => simp only [List.nil_append, readLine, found, decoded, Option.map_some]
  | cons other before ih =>
      have none := scan_excluded (excluded other List.mem_cons_self)
        (Option.isSome_of_eq_some found)
      rw [List.cons_append, readLine, none]
      exact ih fun form member => excluded form (List.mem_cons_of_mem other member)

section Calls

variable (floats : FloatText) (strings : Mem) (forms : List (Form β))

/-- A call of `printf` writes a text without a zero byte, and whatever stands behind it, it reads as
the line. -/
def WritesLine (call : List UInt8 × List UInt32) (line : β) : Prop :=
  ∃ text, formatted floats strings call.1 call.2 = .ok (text, []) ∧ 0 ∉ text ∧
    ∀ tail, readLine forms (text ++ tail) = some (line, tail)

variable {forms}

theorem writesLine {before after : List (Form β)} {format : List UInt8}
    {decode : List Int → Option β} {args : List UInt32} {numbers : List Int} {line : β}
    (split : forms = before ++ ⟨(parse format).1, decode⟩ :: after)
    (excluded : ∀ other ∈ before, Excludes other.pieces (parse format).1)
    (complete : Complete format) (separate : Separate (parse format).1)
    (noZero : .literal 0 ∉ (parse format).1)
    (read : values (parse format).1 args = .ok (numbers, []))
    (decoded : decode numbers = some line) :
    WritesLine floats strings forms (format, args) line := by
  obtain ⟨text, written, nonzero, scans⟩ :=
    formatted_scans floats strings complete separate read
  refine ⟨text, written, nonzero noZero, ?_⟩
  intro tail
  rw [split]
  exact readLine_found excluded (scans tail) decoded

variable {floats strings}

/-- A report reads back as its lines. -/
theorem report_reads {calls : List (List UInt8 × List UInt32)} {lines : List β}
    (empty : readLine forms [] = none)
    (writes : List.Forall₂ (WritesLine floats strings forms) calls lines) :
    ∃ texts : List (List UInt8), readReport forms texts.flatten = some lines ∧
      List.Forall₂ (fun call text => formatted floats strings call.1 call.2 = .ok (text, []) ∧
        0 ∉ text) calls texts := by
  have all : ∃ texts : List (List UInt8),
      List.Forall₂ (fun call text => formatted floats strings call.1 call.2 = .ok (text, []) ∧
        0 ∉ text) calls texts ∧
      lines.length ≤ texts.flatten.length ∧
      ∀ fuel, lines.length < fuel → readLines forms fuel texts.flatten = some lines := by
    induction writes with
    | nil =>
        refine ⟨[], .nil, Nat.zero_le _, ?_⟩
        intro fuel enough
        cases fuel with
        | zero => exact absurd enough (Nat.lt_irrefl 0)
        | succ fuel => rfl
    | cons head tail ih =>
        rename_i call line calls lines
        obtain ⟨text, written, nonzero, reads⟩ := head
        obtain ⟨texts, written', more, reads'⟩ := ih
        -- Nothing is no line.
        have some : text ≠ [] := by
          rintro rfl
          have none := reads []
          rw [List.nil_append, empty] at none
          cases none
        have long := List.length_pos_iff.mpr some
        refine ⟨text :: texts, .cons ⟨written, nonzero⟩ written', ?_, ?_⟩
        · rw [List.flatten_cons, List.length_append, List.length_cons]
          omega
        · intro fuel enough
          cases fuel with
          | zero => exact absurd enough (Nat.not_lt_zero _)
          | succ fuel =>
              rw [List.flatten_cons, readLines,
                if_neg (List.append_ne_nil_of_left_ne_nil some _), reads]
              simp only [Option.bind_eq_bind, Option.bind_some,
                reads' fuel (Nat.lt_of_succ_lt_succ enough)]
              rfl
  obtain ⟨texts, written, more, reads⟩ := all
  exact ⟨texts, reads _ (Nat.lt_succ_of_le more), written⟩

end Calls

end FrogOS.Printf
