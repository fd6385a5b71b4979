import FrogOS.PrintfSyntax

set_option autoImplicit false

namespace FrogOS.Printf

open ByteMemory BoundedAccess Emission Numeral

section WellFormed

/-- The characters with which a field would go on. -/
def Count.takes : Count → UInt8 → Bool
  | none, c => isDigit c ∨ c = asciiOf '*'
  | number _, c => isDigit c
  | star, _ => false

def Count.precisionTakes : Count → UInt8 → Bool
  | none, c => c = asciiOf '.'
  | number digits, c => isDigit c ∨ digits = [] ∧ c = asciiOf '*'
  | star, _ => false

def Length.takes : Length → UInt8 → Bool
  | none, c =>
      c = asciiOf 'l' ∨ c = asciiOf 'h' ∨ c = asciiOf 't' ∨ c = asciiOf 'j' ∨ c = asciiOf 'z'
  | l, c => c = asciiOf 'l'
  | h, c => c = asciiOf 'h'
  | _, _ => false

def Flag.isFlag (c : UInt8) : Bool := (Flag.ofChar c).isSome

/-- A number is digits only. -/
def Count.Digits (count : Count) : Prop := ∀ digits, count = .number digits →
  ∀ c ∈ digits, isDigit c

theorem Count.digits_none : Count.none.Digits := by
  intro digits same
  cases same

theorem Count.digits_star : Count.star.Digits := by
  intro digits same
  cases same

/-- The fields can be told apart, and the last character belongs to none of them. -/
structure Directive.WellFormed (d : Directive) : Prop where
  width : d.width.Digits
  precision : d.precision.Digits
  present : ∀ digits, d.width = .number digits → digits ≠ [] ∧ ¬ Flag.isFlag (peek digits)
  afterLength : d.length.takes d.spec = false
  afterPrecision : d.length = .none → d.precision.precisionTakes d.spec = false
  afterWidth : d.length = .none → d.precision = .none → d.width.takes d.spec = false
  afterFlags : d.length = .none → d.precision = .none → d.width = .none → ¬ Flag.isFlag d.spec
  nonzero : d.spec ≠ 0

def Piece.WellFormed : Piece → Prop
  | literal c => c ≠ 0 ∧ c ≠ asciiOf '%'
  | directive d => d.WellFormed

end WellFormed

section Reading

variable {rest : List UInt8}

/-! What is read back is what was written, up to where it ends. -/

theorem Flag.ofChar_char (flag : Flag) : Flag.ofChar flag.char = some flag := by
  cases flag <;> rfl

theorem parseFlags_text (flags : List Flag) (stops : ¬ Flag.isFlag (peek rest)) :
    parseFlags (flags.map Flag.char ++ rest) = (flags, rest) := by
  induction flags with
  | nil =>
      cases rest with
      | nil => rfl
      | cons c rest =>
          have other : Flag.ofChar c = none := Option.not_isSome_iff_eq_none.mp stops
          simp only [List.map_nil, List.nil_append, parseFlags, other]
  | cons flag flags ih =>
      rw [List.map_cons, List.cons_append, parseFlags, Flag.ofChar_char]
      simp only [ih]

theorem takeWhile_digits {digits : List UInt8} (all : ∀ c ∈ digits, isDigit c)
    (stops : isDigit (peek rest) = false) :
    (digits ++ rest).takeWhile isDigit = digits ∧ (digits ++ rest).dropWhile isDigit = rest := by
  have none : rest.takeWhile isDigit = [] ∧ rest.dropWhile isDigit = rest := by
    cases rest with
    | nil => exact ⟨rfl, rfl⟩
    | cons c rest =>
        have other : ¬ isDigit c := Bool.not_eq_true _ ▸ stops
        exact ⟨List.takeWhile_cons_of_neg other, List.dropWhile_cons_of_neg other⟩
  constructor
  · rw [List.takeWhile_append_of_pos all, none.1, List.append_nil]
  · rw [List.dropWhile_append_of_pos all, none.2]

theorem peek_append {text : List UInt8} (some : text ≠ []) : peek (text ++ rest) = peek text := by
  cases text with
  | nil => exact absurd rfl some
  | cons c text => rfl

theorem parseCount_text (count : Count) (digits : count.Digits)
    (present : ∀ ds, count = .number ds → ds ≠ []) (stops : count.takes (peek rest) = false) :
    parseCount (count.text ++ rest) = (count, rest) := by
  cases count with
  | none =>
      obtain ⟨notDigit, notStar⟩ : isDigit (peek rest) = false ∧ peek rest ≠ asciiOf '*' := by
        simpa [Count.takes] using stops
      simp only [Count.text, List.nil_append, parseCount, notDigit, notStar, Bool.false_eq_true,
        ↓reduceIte]
  | number ds =>
      have all := digits ds rfl
      have some := present ds rfl
      have first : isDigit (peek (ds ++ rest)) := by
        rw [peek_append some]
        cases ds with
        | nil => exact absurd rfl some
        | cons c ds => exact all c List.mem_cons_self
      obtain ⟨taken, dropped⟩ := takeWhile_digits all stops
      simp only [Count.text, parseCount, first, ↓reduceIte, taken, dropped]
  | star => rfl

theorem parsePrecision_text {count : Count} (digits : count.Digits)
    (stops : count.precisionTakes (peek rest) = false) :
    parsePrecision (count.precisionText ++ rest) = (count, rest) := by
  cases count with
  | none =>
      have notDot : peek rest ≠ asciiOf '.' := by simpa [Count.precisionTakes] using stops
      simp only [Count.precisionText, List.nil_append, parsePrecision, notDot, ↓reduceIte]
  | number ds =>
      have inner : ¬ isDigit (peek rest) ∧ (ds = [] → peek rest ≠ asciiOf '*') := by
        simpa [Count.precisionTakes] using stops
      show parsePrecision (asciiOf '.' :: (ds ++ rest)) = _
      simp only [parsePrecision, peek, ↓reduceIte, List.tail_cons]
      cases ds with
      | nil =>
          have empty : parseCount ([] ++ rest) = (.none, rest) :=
            parseCount_text .none Count.digits_none (fun _ same => by cases same)
              (by simpa [Count.takes] using And.intro inner.1 (inner.2 rfl))
          rw [empty]
      | cons c ds =>
          have read : parseCount (c :: ds ++ rest) = (.number (c :: ds), rest) :=
            parseCount_text (.number (c :: ds)) digits
              (fun _ same => by cases same; exact List.cons_ne_nil c ds)
              (by simpa [Count.takes] using inner.1)
          rw [read]
  | star => rfl

theorem parseLength_text (length : Length) (stops : length.takes (peek rest) = false) :
    parseLength (length.text ++ rest) = (length, rest) := by
  cases length with
  | none =>
      cases rest with
      | nil => rfl
      | cons c rest =>
          obtain ⟨notL, notH, notT, notJ, notZ⟩ : c ≠ asciiOf 'l' ∧ c ≠ asciiOf 'h' ∧
              c ≠ asciiOf 't' ∧ c ≠ asciiOf 'j' ∧ c ≠ asciiOf 'z' := by
            simpa only [not_or, peek] using of_decide_eq_false stops
          simp only [Length.text, List.nil_append, parseLength, notL, notH, notT, notJ, notZ,
            ↓reduceIte]
  | l =>
      have notL : peek rest ≠ asciiOf 'l' := by simpa [Length.takes] using stops
      show parseLength (asciiOf 'l' :: rest) = _
      simp only [parseLength, ↓reduceIte, notL]
  | ll => rfl
  | h =>
      have notH : peek rest ≠ asciiOf 'h' := by simpa [Length.takes] using stops
      have other : asciiOf 'h' ≠ asciiOf 'l' := by decide
      show parseLength (asciiOf 'h' :: rest) = _
      simp only [parseLength, other, ↓reduceIte, notH]
  | hh => rfl
  | t => rfl
  | j => rfl
  | z => rfl

/-- The first character of a length is none of an earlier field. -/
theorem Length.peek_text {length : Length} (some : length ≠ .none) (rest : List UInt8) :
    let c := peek (length.text ++ rest)
    c ≠ asciiOf '.' ∧ c ≠ asciiOf '*' ∧ isDigit c = false ∧ Flag.isFlag c = false := by
  have first : peek (length.text ++ rest) = peek length.text := by
    apply peek_append
    cases length <;> first | exact absurd rfl some | exact List.cons_ne_nil _ _
  simp only [first]
  cases length <;> first | exact absurd rfl some | decide

theorem Count.peek_precisionText {count : Count} (some : count ≠ .none) (rest : List UInt8) :
    let c := peek (count.precisionText ++ rest)
    c ≠ asciiOf '*' ∧ isDigit c = false ∧ Flag.isFlag c = false := by
  have first : peek (count.precisionText ++ rest) = asciiOf '.' := by
    cases count <;> first | exact absurd rfl some | rfl
  simp only [first]
  decide

theorem parseDirective_text {d : Directive} (wellFormed : d.WellFormed) (rest : List UInt8) :
    parseDirective (d.text ++ rest) = some (d, rest) := by
  obtain ⟨flags, width, precision, length, spec⟩ := d
  obtain ⟨widthDigits, precisionDigits, present, afterLength, afterPrecision, afterWidth,
    afterFlags, nonzero⟩ := wellFormed
  simp only at *
  have lengthRead : parseLength (length.text ++ spec :: rest) = (length, spec :: rest) :=
    parseLength_text length afterLength
  have precisionRead : parsePrecision (precision.precisionText ++ (length.text ++ spec :: rest)) =
      (precision, length.text ++ spec :: rest) := by
    apply parsePrecision_text precisionDigits
    by_cases none : length = .none
    · subst none
      exact afterPrecision rfl
    · obtain ⟨notDot, notStar, notDigit, -⟩ := Length.peek_text none (spec :: rest)
      cases precision <;> simp [Count.precisionTakes, notDot, notStar, notDigit]
  have widthRead : parseCount (width.text ++ (precision.precisionText ++
      (length.text ++ spec :: rest))) =
        (width, precision.precisionText ++ (length.text ++ spec :: rest)) := by
    apply parseCount_text width widthDigits fun ds same => (present ds same).1
    by_cases noPrecision : precision = .none
    · subst noPrecision
      by_cases none : length = .none
      · subst none
        exact afterWidth rfl rfl
      · obtain ⟨-, notStar, notDigit, -⟩ := Length.peek_text none (spec :: rest)
        cases width <;> simp [Count.takes, Count.precisionText, notStar, notDigit]
    · obtain ⟨notStar, notDigit, -⟩ :=
        Count.peek_precisionText noPrecision (length.text ++ spec :: rest)
      cases width <;> simp [Count.takes, notStar, notDigit]
  have flagsRead : parseFlags (flags.map Flag.char ++ (width.text ++ (precision.precisionText ++
      (length.text ++ spec :: rest)))) =
        (flags, width.text ++ (precision.precisionText ++ (length.text ++ spec :: rest))) := by
    apply parseFlags_text
    cases width with
    | none =>
        by_cases noPrecision : precision = .none
        · subst noPrecision
          by_cases none : length = .none
          · subst none
            exact afterFlags rfl rfl rfl
          · obtain ⟨-, -, -, notFlag⟩ := Length.peek_text none (spec :: rest)
            simpa [Count.precisionText, Count.text] using notFlag
        · obtain ⟨-, -, notFlag⟩ :=
            Count.peek_precisionText noPrecision (length.text ++ spec :: rest)
          simpa [Count.text] using notFlag
    | number ds =>
        obtain ⟨some, notFlag⟩ := present ds rfl
        show ¬ Flag.isFlag (peek (ds ++ _))
        rw [peek_append some]
        exact notFlag
    | star =>
        show ¬ Flag.isFlag (asciiOf '*')
        decide
  have text : Directive.text ⟨flags, width, precision, length, spec⟩ ++ rest =
      flags.map Flag.char ++ (width.text ++ (precision.precisionText ++
        (length.text ++ spec :: rest))) := by
    simp only [Directive.text, List.append_assoc, List.singleton_append]
  rw [text, parseDirective]
  simp only [flagsRead, widthRead, precisionRead, lengthRead]

end Reading

section Writing

/-! What was read spells the text that it was read from. -/

theorem Flag.char_ofChar {c : UInt8} {flag : Flag} (read : Flag.ofChar c = some flag) :
    flag.char = c := by
  simp only [Flag.ofChar] at read
  split_ifs at read <;> cases read <;> simp_all [Flag.char]

theorem parseFlags_spells (format : List UInt8) :
    format = (parseFlags format).1.map Flag.char ++ (parseFlags format).2 ∧
      ¬ Flag.isFlag (peek (parseFlags format).2) := by
  induction format with
  | nil => exact ⟨rfl, by decide⟩
  | cons c format ih =>
      rw [parseFlags]
      split
      · rename_i flag read
        refine ⟨?_, ih.2⟩
        rw [List.map_cons, List.cons_append, Flag.char_ofChar read, ← ih.1]
      · rename_i none
        refine ⟨rfl, ?_⟩
        rw [peek, Flag.isFlag, none]
        exact Bool.false_ne_true

theorem peek_dropWhile (format : List UInt8) :
    isDigit (peek (format.dropWhile isDigit)) = false := by
  induction format with
  | nil => rfl
  | cons c format ih =>
      by_cases digit : isDigit c
      · rwa [List.dropWhile_cons_of_pos digit]
      · rw [List.dropWhile_cons_of_neg digit]
        exact Bool.not_eq_true _ ▸ digit

theorem parseCount_spells (format : List UInt8) :
    format = (parseCount format).1.text ++ (parseCount format).2 ∧
      (parseCount format).1.Digits ∧
      (parseCount format).1.takes (peek (parseCount format).2) = false ∧
      ∀ digits, (parseCount format).1 = .number digits → digits ≠ [] ∧ peek digits = peek format := by
  rw [parseCount]
  split
  · rename_i digit
    refine ⟨List.takeWhile_append_dropWhile.symm, ?_, peek_dropWhile format, ?_⟩
    · intro digits same c member
      cases same
      exact List.all_eq_true.mp List.all_takeWhile c member
    · intro digits same
      cases same
      cases format with
      | nil => exact absurd digit (by decide)
      | cons c format =>
          have first : isDigit c := digit
          rw [List.takeWhile_cons_of_pos first]
          exact ⟨List.cons_ne_nil _ _, rfl⟩
  split
  · rename_i star
    refine ⟨?_, Count.digits_star, rfl, fun _ same => by cases same⟩
    cases format with
    | nil => exact absurd star (by decide)
    | cons c format =>
        have first : c = asciiOf '*' := star
        rw [first]
        rfl
  · rename_i notDigit notStar
    refine ⟨rfl, Count.digits_none, ?_, fun _ same => by cases same⟩
    simpa [Count.takes] using And.intro notDigit notStar

theorem parsePrecision_spells (format : List UInt8) :
    format = (parsePrecision format).1.precisionText ++ (parsePrecision format).2 ∧
      (parsePrecision format).1.Digits ∧
      (parsePrecision format).1.precisionTakes (peek (parsePrecision format).2) = false := by
  rw [parsePrecision]
  split
  · rename_i dot
    obtain ⟨rest, rfl⟩ : ∃ rest, format = asciiOf '.' :: rest := by
      cases format with
      | nil => exact absurd dot (by decide)
      | cons c rest =>
          have first : c = asciiOf '.' := dot
          exact ⟨rest, by rw [first]⟩
    obtain ⟨spells, digits, stops, present⟩ := parseCount_spells rest
    rw [List.tail_cons]
    generalize parseCount rest = read at *
    obtain ⟨count, tail⟩ := read
    cases count with
    | none =>
        refine ⟨congrArg (List.cons _) spells, ?_, ?_⟩
        · intro ds same c member
          cases same
          cases member
        · simpa [Count.takes, Count.precisionTakes] using stops
    | number ds =>
        have notEmpty := (present ds rfl).1
        refine ⟨congrArg (List.cons _) spells, digits, ?_⟩
        simpa [Count.takes, Count.precisionTakes, notEmpty] using stops
    | star => exact ⟨congrArg (List.cons _) spells, Count.digits_star, rfl⟩
  · rename_i notDot
    refine ⟨rfl, Count.digits_none, ?_⟩
    simpa [Count.precisionTakes] using notDot

theorem parseLength_spells (format : List UInt8) :
    format = (parseLength format).1.text ++ (parseLength format).2 ∧
      (parseLength format).1.takes (peek (parseLength format).2) = false := by
  cases format with
  | nil => exact ⟨rfl, by decide⟩
  | cons c format =>
      have second (d : UInt8) (same : peek format = d) (present : d ≠ 0) :
          format = d :: format.tail := by
        cases format with
        | nil => exact absurd same.symm present
        | cons e format => rw [← same]; rfl
      simp only [parseLength]
      split
      · rename_i first
        rw [first]
        split
        · rename_i next
          refine ⟨?_, rfl⟩
          exact congrArg (List.cons _) (second _ next (by decide))
        · rename_i other
          exact ⟨rfl, by simpa [Length.takes] using other⟩
      split
      · rename_i first
        rw [first]
        split
        · rename_i next
          refine ⟨?_, rfl⟩
          exact congrArg (List.cons _) (second _ next (by decide))
        · rename_i other
          exact ⟨rfl, by simpa [Length.takes] using other⟩
      split
      · rename_i first
        rw [first]
        exact ⟨rfl, rfl⟩
      split
      · rename_i first
        rw [first]
        exact ⟨rfl, rfl⟩
      split
      · rename_i first
        rw [first]
        exact ⟨rfl, rfl⟩
      · rename_i notL notH notT notJ notZ
        refine ⟨rfl, decide_eq_false ?_⟩
        simp only [peek, notL, notH, notT, notJ, notZ, or_self, not_false_eq_true]

theorem parseDirective_spells {format rest : List UInt8} {d : Directive}
    (parsed : parseDirective format = some (d, rest)) :
    format = d.text ++ rest ∧ (d.spec ≠ 0 → d.WellFormed) := by
  obtain ⟨flagsText, notFlag⟩ := parseFlags_spells format
  obtain ⟨widthText, widthDigits, afterWidth, present⟩ :=
    parseCount_spells (parseFlags format).2
  obtain ⟨precisionText, precisionDigits, afterPrecision⟩ :=
    parsePrecision_spells (parseCount (parseFlags format).2).2
  obtain ⟨lengthText, afterLength⟩ :=
    parseLength_spells (parsePrecision (parseCount (parseFlags format).2).2).2
  simp only [parseDirective] at parsed
  generalize parseFlags format = flagged at *
  obtain ⟨flags, format₁⟩ := flagged
  generalize parseCount format₁ = counted at *
  obtain ⟨width, format₂⟩ := counted
  generalize parsePrecision format₂ = counted at *
  obtain ⟨precision, format₃⟩ := counted
  generalize parseLength format₃ = measured at *
  obtain ⟨length, format₄⟩ := measured
  cases format₄ with
  | nil => cases parsed
  | cons spec format₄ =>
      cases parsed
      simp only at *
      constructor
      · rw [flagsText, widthText, precisionText, lengthText]
        simp only [Directive.text, List.append_assoc, List.singleton_append]
      · intro nonzero
        -- A field that is absent leaves the next character to the one before it.
        refine ⟨widthDigits, precisionDigits, ?_, afterLength, ?_, ?_, ?_, nonzero⟩
        · intro digits same
          obtain ⟨some, first⟩ := present digits same
          rw [first]
          exact ⟨some, notFlag⟩
        · rintro rfl
          rw [lengthText] at afterPrecision
          exact afterPrecision
        · rintro rfl rfl
          rw [precisionText, lengthText] at afterWidth
          exact afterWidth
        · rintro rfl rfl rfl
          rw [widthText, precisionText, lengthText] at notFlag
          exact notFlag

end Writing

section Format

/-- The pieces of a format spell it up to its terminator, or up to the directive it ends in. -/
theorem parseLoop_spells (fuel : Nat) {format : List UInt8} (cstring : 0 ∉ format) :
    format = textOf (parseLoop fuel format).1 ++ (parseLoop fuel format).2 ∧
      ∀ piece ∈ (parseLoop fuel format).1, piece.WellFormed := by
  induction fuel generalizing format with
  | zero => exact ⟨rfl, fun _ member => by cases member⟩
  | succ fuel ih =>
      rw [parseLoop]
      split
      · exact ⟨rfl, fun _ member => by cases member⟩
      rename_i more
      obtain ⟨c, format, rfl⟩ : ∃ c rest, format = c :: rest := by
        cases format with
        | nil => exact absurd rfl more
        | cons c rest => exact ⟨c, rest, rfl⟩
      have tail : 0 ∉ format := fun member => cstring (List.mem_cons_of_mem c member)
      split
      · rename_i literal
        obtain ⟨spells, wellFormed⟩ := ih tail
        refine ⟨congrArg (List.cons c) spells, ?_⟩
        intro piece member
        rcases List.mem_cons.mp member with rfl | later
        · exact ⟨more, literal⟩
        · exact wellFormed piece later
      rename_i percent
      have first : c = asciiOf '%' := not_not.mp percent
      split
      · exact ⟨rfl, fun _ member => by cases member⟩
      rename_i d rest parsed
      obtain ⟨text, wellFormed⟩ := parseDirective_spells parsed
      rw [List.tail_cons] at text
      have behind : 0 ∉ rest := by
        rw [text] at tail
        exact fun member => tail (List.mem_append_right _ member)
      have spec : d.spec ∈ format := by
        rw [text]
        exact List.mem_append_left _ (by simp [Directive.text])
      obtain ⟨spells, later⟩ := ih behind
      refine ⟨?_, ?_⟩
      · rw [first, text]
        conv_lhs => rw [spells]
        simp only [textOf, List.flatMap_cons, Piece.text, List.cons_append, List.append_assoc]
      · intro piece member
        rcases List.mem_cons.mp member with rfl | other
        · exact wellFormed fun zero => tail (zero ▸ spec)
        · exact later piece other

/-- Well-formed pieces are read back from what they spell. -/
theorem parseLoop_textOf {fuel : Nat} {pieces : List Piece}
    (wellFormed : ∀ piece ∈ pieces, piece.WellFormed) (enough : (textOf pieces).length < fuel) :
    parseLoop fuel (textOf pieces) = (pieces, []) := by
  induction pieces generalizing fuel with
  | nil =>
      obtain ⟨fuel, rfl⟩ : ∃ k, fuel = k + 1 := ⟨fuel - 1, by omega⟩
      rfl
  | cons piece pieces ih =>
      obtain ⟨fuel, rfl⟩ : ∃ k, fuel = k + 1 := ⟨fuel - 1, by omega⟩
      have here := wellFormed piece List.mem_cons_self
      have rest := fun p member => wellFormed p (List.mem_cons_of_mem piece member)
      have length : (textOf (piece :: pieces)).length =
          piece.text.length + (textOf pieces).length := by
        rw [textOf, List.flatMap_cons, List.length_append]
        rfl
      cases piece with
      | literal c =>
          have one : (Piece.literal c).text.length = 1 := rfl
          rw [show textOf (.literal c :: pieces) = c :: textOf pieces from rfl, parseLoop]
          simp only [peek, here.1, here.2, ↓reduceIte, ne_eq, not_false_eq_true, List.tail_cons]
          rw [ih rest (by omega)]
      | directive d =>
          have some : (Piece.directive d).text.length = d.text.length + 1 := rfl
          have percent : asciiOf '%' ≠ 0 := by decide
          rw [show textOf (.directive d :: pieces) = asciiOf '%' :: (d.text ++ textOf pieces) from rfl,
            parseLoop]
          simp only [peek, percent, ↓reduceIte, ne_eq, not_true_eq_false, List.tail_cons,
            parseDirective_text here]
          rw [ih rest (by omega)]

theorem parse_textOf {pieces : List Piece} (wellFormed : ∀ piece ∈ pieces, piece.WellFormed) :
    parse (textOf pieces) = (pieces, []) :=
  parseLoop_textOf wellFormed (Nat.lt_succ_self _)

/-- The formats that the code reads up to their terminator are the texts of well-formed pieces, and
none is the text of two lists of them. -/
theorem complete_iff_unique_pieces (format : List UInt8) (cstring : 0 ∉ format) :
    (Complete format ↔
      ∃! pieces : List Piece, (∀ piece ∈ pieces, piece.WellFormed) ∧ textOf pieces = format) ∧
    ∀ pieces : List Piece, (∀ piece ∈ pieces, piece.WellFormed) → textOf pieces = format →
      (parse format).1 = pieces := by
  have read (pieces : List Piece) (wellFormed : ∀ piece ∈ pieces, piece.WellFormed)
      (spells : textOf pieces = format) : (parse format).1 = pieces := by
    rw [← spells, parse_textOf wellFormed]
  refine ⟨⟨?_, ?_⟩, read⟩
  · intro complete
    obtain ⟨spells, wellFormed⟩ := parseLoop_spells (format.length + 1) cstring
    have ends : (parse format).2 = [] := by
      cases left : (parse format).2 with
      | nil => rfl
      | cons c rest =>
          have zero : c = 0 := by
            have first : peek (parse format).2 = 0 := complete
            rwa [left] at first
          have behind : (parseLoop (format.length + 1) format).2 = c :: rest := left
          have member : c ∈ format := by
            rw [spells, behind]
            exact List.mem_append_right _ List.mem_cons_self
          exact absurd (zero ▸ member) cstring
    have whole : textOf (parse format).1 = format := by
      conv_rhs => rw [spells]
      rw [show (parseLoop (format.length + 1) format).2 = [] from ends, List.append_nil]
      rfl
    exact ⟨(parse format).1, ⟨wellFormed, whole⟩, fun other both => (read other both.1 both.2).symm⟩
  · rintro ⟨pieces, ⟨wellFormed, spells⟩, -⟩
    rw [Complete, ← spells, parse_textOf wellFormed]
    rfl

/-- `%02x` is one directive, and `%l` is none. -/
theorem padded_hex_unique_pieces :
    (∃! pieces : List Piece, (∀ piece ∈ pieces, piece.WellFormed) ∧
      textOf pieces = [asciiOf '%', asciiOf '0', asciiOf '2', asciiOf 'x']) ∧
    ¬ ∃! pieces : List Piece, (∀ piece ∈ pieces, piece.WellFormed) ∧
      textOf pieces = [asciiOf '%', asciiOf 'l'] := by
  have hex := complete_iff_unique_pieces [asciiOf '%', asciiOf '0', asciiOf '2', asciiOf 'x']
    (by decide)
  have long := complete_iff_unique_pieces [asciiOf '%', asciiOf 'l'] (by decide)
  exact ⟨hex.1.mp (by decide), fun unique => absurd (long.1.mpr unique) (by decide)⟩

end Format

end FrogOS.Printf
