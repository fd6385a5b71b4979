import FrogOS.Conio

set_option autoImplicit false

namespace FrogOS

open ByteMemory BoundedAccess StringOps

/-- A screen of unboundedly many rows of 80 columns, with the highest row the
cursor has reached. A cell that was never written has no character. -/
structure Page where
  cells : Nat → Nat → Option UInt8
  row : Nat
  col : Nat
  highest : Nat

namespace Page

def empty : Page where
  cells := fun _ _ => none
  row := 0
  col := 0
  highest := 0

/-- A character at the cursor, which moves on. -/
def write (p : Page) (c : UInt8) : Page :=
  { p with
    cells := fun i j => if i = p.row ∧ j = p.col then some c else p.cells i j
    col := p.col + 1 }

/-- Backspace, tab, carriage return, newline, and the printable bytes. -/
def place (p : Page) (c : UInt8) : Page :=
  if c = 0x08 then { p with col := p.col - 1 }
  else if c = 0x09 then { p with col := 8 * (p.col / 8 + 1) }
  else if c = 0x0D then { p with col := 0 }
  else if c = 0x0A then { p with col := 0, row := p.row + 1 }
  else if 0x20 ≤ c then p.write c
  else p

def wrap (p : Page) : Page :=
  if 80 ≤ p.col then { p with col := 0, row := p.row + 1 } else p

def reach (p : Page) : Page := { p with highest := max p.highest p.row }

def putch (p : Page) (c : UInt8) : Page := ((p.place c).wrap).reach

/-- The page some bytes make. -/
def written (text : List UInt8) : Page := text.foldl putch empty

/-- The cursor is in a column, and it never left a row for an earlier one. -/
structure Valid (p : Page) : Prop where
  inside : p.col < 80
  lowest : p.row = p.highest

theorem place_bounds (p : Page) (inside : p.col < 80) (c : UInt8) :
    (p.place c).highest = p.highest ∧ (p.place c).col ≤ 80 ∧
      ((p.place c).row = p.row ∨ (p.place c).row = p.row + 1 ∧ (p.place c).col = 0) := by
  unfold place
  split
  · have column : p.col - 1 ≤ 80 := by omega
    exact ⟨rfl, column, Or.inl rfl⟩
  split
  · have column : 8 * (p.col / 8 + 1) ≤ 80 := by omega
    exact ⟨rfl, column, Or.inl rfl⟩
  split
  · exact ⟨rfl, Nat.zero_le 80, Or.inl rfl⟩
  split
  · exact ⟨rfl, Nat.zero_le 80, Or.inr ⟨rfl, rfl⟩⟩
  split
  · have column : p.col + 1 ≤ 80 := by omega
    exact ⟨rfl, column, Or.inl rfl⟩
  · exact ⟨rfl, Nat.le_of_lt inside, Or.inl rfl⟩

/-- Before the page notes how far the cursor has come. -/
theorem wrap_bounds (p : Page) (inside : p.col < 80) (c : UInt8) :
    ((p.place c).wrap).highest = p.highest ∧ ((p.place c).wrap).col < 80 ∧
      p.row ≤ ((p.place c).wrap).row ∧ ((p.place c).wrap).row ≤ p.row + 1 := by
  have placed := p.place_bounds inside c
  unfold wrap
  split
  · show (p.place c).highest = p.highest ∧ 0 < 80 ∧ p.row ≤ (p.place c).row + 1 ∧
      (p.place c).row + 1 ≤ p.row + 1
    omega
  · omega

theorem putch_valid {p : Page} (valid : p.Valid) (c : UInt8) : (p.putch c).Valid := by
  have wrapped := p.wrap_bounds valid.inside c
  have lowest := valid.lowest
  constructor
  · exact wrapped.2.1
  · show ((p.place c).wrap).row = max ((p.place c).wrap).highest ((p.place c).wrap).row
    omega

end Page

open Console

/-- A video cell shows a cell of the page. A cell never written is blank. -/
def Shown (color : UInt8) (cell : UInt16) : Option UInt8 → Prop
  | none => cell = glyph color 0 ∨ cell = glyph color 0x20
  | some c => cell = glyph color c

/-- The screen shows the 25 rows of the page from row `first` on. -/
def Showing (color : UInt8) (first : Nat) (s : Console) (p : Page) : Prop :=
  ∀ i j, i < 25 → j < 80 → Shown color (s.cell i j) (p.cells (first + i) j)

/-- The screen shows rows of the page, with the cursor where the page has it. -/
structure Drawn (color : UInt8) (first : Nat) (s : Console) (p : Page) : Prop where
  ink : s.color = color
  column : s.csrX = Int32.ofNat p.col
  line : s.csrY = Int32.ofNat (p.row - first)
  above : first ≤ p.row
  showing : Showing color first s p
  below : ∀ i j, first + 25 ≤ i → p.cells i j = none

section Cells

variable {x y i j : Nat}

theorem position_toNat (inColumn : x < 80) (inRow : y < 25) :
    (Int32.ofNat y * 80 + Int32.ofNat x).toUInt32.toNat = 80 * y + x := by
  have width : (80 : Int32).toUInt32 = 80 := rfl
  rw [Int32.toUInt32_add, Int32.toUInt32_mul, Int32.toUInt32_ofNat', Int32.toUInt32_ofNat', width]
  simp only [UInt32.toNat_add, UInt32.toNat_mul, UInt32.toNat_ofNat', UInt32.toNat_ofNat]
  omega

theorem location_toNat (inColumn : x < 80) (inRow : y < 25) :
    (video + 2 * (Int32.ofNat y * 80 + Int32.ofNat x).toUInt32).toNat =
      video.toNat + 2 * (80 * y + x) := by
  rw [UInt32.toNat_add, UInt32.toNat_mul, position_toNat inColumn inRow]
  simp only [video, UInt32.toNat_ofNat]
  omega

/-- The tests of `putch` for the right margin and of `scroll` for the row behind the last. -/
theorem margin_iff (atMost : x ≤ 80) : (80 : Int32) ≤ Int32.ofNat x ↔ 80 ≤ x :=
  Int32.ofNat_le_iff_le (a := 80) (by omega) (by omega)

theorem bottom_iff (atMost : y ≤ 25) : (25 : Int32) ≤ Int32.ofNat y ↔ 25 ≤ y :=
  Int32.ofNat_le_iff_le (a := 25) (by omega) (by omega)

theorem cell_holds (inColumn : x < 80) (inRow : y < 25) :
    videoCells.Holds (video.toNat + 2 * (80 * y + x)) 2 := by
  constructor
  · exact Nat.le_add_right _ _
  · show video.toNat + 2 * (80 * y + x) + 2 ≤ video.toNat + 2 * (80 * 25)
    omega

/-- A stored character is in its own cell and in no other one. -/
theorem load16_store_cell (m : Mem) (value : UInt16) (inColumn : x < 80) (inside : j < 80) :
    load16 (store16 m (video.toNat + 2 * (80 * y + x)) value) (video.toNat + 2 * (80 * i + j)) =
      if i = y ∧ j = x then value else load16 m (video.toNat + 2 * (80 * i + j)) := by
  split
  · rename_i here
    rw [here.1, here.2, load16_store16]
  · rename_i elsewhere
    apply load16_congr
    apply (store16_frame m (video.toNat + 2 * (80 * y + x)) value).agree
    omega

end Cells

section Words

theorem ofNat_pred {x : Nat} (positive : x ≠ 0) : Int32.ofNat x - 1 = Int32.ofNat (x - 1) := by
  have succ : x = x - 1 + 1 := by omega
  rw [succ, Int32.ofNat_add, Nat.add_sub_cancel]
  exact Int32.add_sub_cancel _ _

theorem ofNat_eq_zero {x : Nat} (inside : x < 80) : Int32.ofNat x = 0 ↔ x = 0 := by
  have order : Int32.ofNat x ≤ Int32.ofNat 0 ↔ x ≤ 0 :=
    Int32.ofNat_le_iff_le (by omega) (by omega)
  constructor
  · intro zero
    have least : Int32.ofNat x ≤ Int32.ofNat 0 := zero ▸ Int32.le_refl 0
    exact Nat.le_zero.mp (order.mp least)
  · intro zero
    rw [zero]
    rfl

/-- Rounding up to the next multiple of eight, as `putch` does it with a mask. -/
theorem ofNat_tab : ∀ x, x < 80 →
    (Int32.ofNat x + 8) &&& ~~~(8 - 1) = Int32.ofNat (8 * (x / 8 + 1)) := by
  decide +kernel

end Words

namespace Console

/-- The variables are a column and a row. -/
structure At (column row : Nat) (s : Console) : Prop where
  column : s.csrX = Int32.ofNat column
  row : s.csrY = Int32.ofNat row

section Variables

variable {x y : Nat} {s : Console}

/-- What the cases of `putch` do to the variables and the video memory. -/
theorem At.place_cases (here : At x y s) (inColumn : x < 80) (inRow : y < 25) (c : UInt8) :
    (c = 0x08 ∧ s.place c = .ok { s with csrX := Int32.ofNat (x - 1) }) ∨
    (c = 0x09 ∧ s.place c = .ok { s with csrX := Int32.ofNat (8 * (x / 8 + 1)) }) ∨
    (c = 0x0D ∧ s.place c = .ok { s with csrX := 0 }) ∨
    (c = 0x0A ∧ s.place c = .ok { s with csrX := 0, csrY := Int32.ofNat (y + 1) }) ∨
    ((c ≠ 0x08 ∧ c ≠ 0x09 ∧ c ≠ 0x0D ∧ c ≠ 0x0A) ∧
      (0x20 ≤ c ∧ s.place c = .ok { s with
          mem := store16 s.mem (video.toNat + 2 * (80 * y + x)) (glyph s.color c)
          csrX := Int32.ofNat (x + 1) } ∨
        ¬ 0x20 ≤ c ∧ s.place c = .ok s)) := by
  have column := here.column
  have row := here.row
  unfold Console.place
  by_cases backspace : c = 0x08
  · refine Or.inl ⟨backspace, ?_⟩
    rw [if_pos backspace]
    by_cases margin : x = 0
    · have stays : s.csrX = 0 := column.trans ((ofNat_eq_zero inColumn).mpr margin)
      rw [if_neg (fun moves => moves stays), margin, Nat.zero_sub, ← margin, ← column]
      rfl
    · have moves : s.csrX ≠ 0 := by
        rw [column]
        exact fun zero => margin ((ofNat_eq_zero inColumn).mp zero)
      rw [if_pos moves, column, ofNat_pred margin]
      rfl
  rw [if_neg backspace]
  by_cases tab : c = 0x09
  · refine Or.inr (Or.inl ⟨tab, ?_⟩)
    rw [if_pos tab, column, ofNat_tab x inColumn]
    rfl
  rw [if_neg tab]
  by_cases carriage : c = 0x0D
  · refine Or.inr (Or.inr (Or.inl ⟨carriage, ?_⟩))
    rw [if_pos carriage]
    rfl
  rw [if_neg carriage]
  by_cases newline : c = 0x0A
  · refine Or.inr (Or.inr (Or.inr (Or.inl ⟨newline, ?_⟩)))
    have next : s.csrY + 1 = Int32.ofNat (y + 1) := by
      rw [row]
      exact (Int32.ofNat_add y 1).symm
    rw [if_pos newline, next]
    rfl
  refine Or.inr (Or.inr (Or.inr (Or.inr ⟨⟨backspace, tab, carriage, newline⟩, ?_⟩)))
  rw [if_neg newline]
  by_cases printable : 0x20 ≤ c
  · have next : s.csrX + 1 = Int32.ofNat (x + 1) := by
      rw [column]
      exact (Int32.ofNat_add x 1).symm
    have location : (video + 2 * (s.csrY * 80 + s.csrX).toUInt32).toNat =
        video.toNat + 2 * (80 * y + x) := by
      rw [column, row, location_toNat inColumn inRow]
    have stored := Object.store16_ok (m := s.mem) (cell_holds inColumn inRow) (glyph s.color c)
    refine Or.inl ⟨printable, ?_⟩
    rw [if_pos printable]
    simp only [location, or_att, stored, ok_bind, next]
    rfl
  · refine Or.inr ⟨printable, ?_⟩
    rw [if_neg printable]
    rfl

/-- A full row is followed by the next. -/
theorem At.wrap_cases (here : At x y s) (atMost : x ≤ 80) :
    80 ≤ x ∧ s.wrap = { s with csrX := 0, csrY := Int32.ofNat (y + 1) } ∨
      ¬ 80 ≤ x ∧ s.wrap = s := by
  have edge : (80 : Int32) ≤ s.csrX ↔ 80 ≤ x := by
    rw [here.column]
    exact margin_iff atMost
  unfold Console.wrap
  by_cases full : 80 ≤ x
  · have next : s.csrY + 1 = Int32.ofNat (y + 1) := by
      rw [here.row]
      exact (Int32.ofNat_add y 1).symm
    rw [if_pos (edge.mpr full), next]
    exact Or.inl ⟨full, rfl⟩
  · rw [if_neg (fun above => full (edge.mp above))]
    exact Or.inr ⟨full, rfl⟩

/-- The row behind the last is the one `scroll` is for. -/
theorem At.scroll_cases (here : At x y s) (atMost : y ≤ 25) :
    y = 25 ∧ s.csrY = 25 ∨ y < 25 ∧ s.scroll = .ok s := by
  by_cases last : y = 25
  · refine Or.inl ⟨last, ?_⟩
    rw [here.row, last]
    rfl
  · have inside : ¬ s.csrY ≥ 25 := by
      rw [here.row]
      exact fun reached => absurd ((bottom_iff atMost).mp reached) (by omega)
    refine Or.inr ⟨by omega, ?_⟩
    unfold Console.scroll
    rw [if_neg inside]
    rfl

end Variables

end Console

section Steps

variable {color : UInt8} {first : Nat} {s : Console} {p : Page}

/-- The cursor goes to another column, on both sides. -/
theorem Drawn.toColumn (drawn : Drawn color first s p) {x : Int32} {k : Nat}
    (column : x = Int32.ofNat k) : Drawn color first { s with csrX := x } { p with col := k } where
  ink := drawn.ink
  column := column
  line := drawn.line
  above := drawn.above
  showing := drawn.showing
  below := drawn.below

theorem Drawn.at (drawn : Drawn color first s p) : At p.col (p.row - first) s :=
  ⟨drawn.column, drawn.line⟩

/-- The cursor goes to the margin of the next row, on both sides. -/
theorem Drawn.newline (drawn : Drawn color first s p) :
    Drawn color first { s with csrX := 0, csrY := Int32.ofNat (p.row - first + 1) }
      { p with col := 0, row := p.row + 1 } where
  ink := drawn.ink
  column := rfl
  line := congrArg Int32.ofNat (Nat.succ_sub drawn.above).symm
  above := Nat.le_succ_of_le drawn.above
  showing := drawn.showing
  below := drawn.below

/-- Moving the display's cursor changes none of it. -/
theorem Drawn.moveCsr (drawn : Drawn color first s p) :
    Drawn color first (Console.moveCsr s) p where
  ink := drawn.ink
  column := drawn.column
  line := drawn.line
  above := drawn.above
  showing := drawn.showing
  below := drawn.below

/-- A printable byte goes to the cell at the cursor, in both. -/
theorem Drawn.write (drawn : Drawn color first s p) (inside : p.col < 80)
    (onScreen : p.row < first + 25) (c : UInt8) :
    Drawn color first { s with
      mem := store16 s.mem (video.toNat + 2 * (80 * (p.row - first) + p.col)) (glyph s.color c)
      csrX := Int32.ofNat (p.col + 1) } (p.write c) := by
  have above := drawn.above
  rw [drawn.ink]
  constructor
  · exact drawn.ink
  · rfl
  · exact drawn.line
  · exact above
  · intro i j row column
    have before := drawn.showing i j row column
    show Shown color (load16 (store16 _ _ _) _) (if first + i = p.row ∧ j = p.col then _ else _)
    rw [load16_store_cell _ _ inside column]
    by_cases here : i = p.row - first ∧ j = p.col
    · have there : first + i = p.row ∧ j = p.col := by omega
      rw [if_pos here, if_pos there]
      rfl
    · have elsewhere : ¬ (first + i = p.row ∧ j = p.col) := by omega
      rw [if_neg here, if_neg elsewhere]
      exact before
  · intro i j behind
    have elsewhere : ¬ (i = p.row ∧ j = p.col) := by omega
    show (if i = p.row ∧ j = p.col then _ else _) = none
    rw [if_neg elsewhere]
    exact drawn.below i j behind

/-- Each of the cases of `putch` does to the screen what it does to the page. -/
theorem Drawn.place (drawn : Drawn color first s p) (inside : p.col < 80)
    (onScreen : p.row < first + 25) (c : UInt8) :
    ∃ t, s.place c = .ok t ∧ Drawn color first t (p.place c) := by
  rcases drawn.at.place_cases inside (by omega) c with ⟨rfl, done⟩ | ⟨rfl, done⟩ | ⟨rfl, done⟩ |
    ⟨rfl, done⟩ | ⟨⟨backspace, tab, carriage, newline⟩, ⟨printable, done⟩ | ⟨silent, done⟩⟩
  · exact ⟨_, done, drawn.toColumn rfl⟩
  · exact ⟨_, done, drawn.toColumn rfl⟩
  · exact ⟨_, done, drawn.toColumn rfl⟩
  · exact ⟨_, done, drawn.newline⟩
  all_goals
    refine ⟨_, done, ?_⟩
    unfold Page.place
    rw [if_neg backspace, if_neg tab, if_neg carriage, if_neg newline]
  · rw [if_pos printable]
    exact drawn.write inside onScreen c
  · rw [if_neg silent]
    exact drawn

theorem Drawn.wrap (drawn : Drawn color first s p) (atMost : p.col ≤ 80) :
    Drawn color first s.wrap p.wrap := by
  unfold Page.wrap
  rcases drawn.at.wrap_cases atMost with ⟨full, wraps⟩ | ⟨short, stays⟩
  · rw [if_pos full, wraps]
    exact drawn.newline
  · rw [if_neg short, stays]
    exact drawn

/-- `scroll` on the row behind the last one moves every row up and blanks the last. -/
theorem scroll_full (s : Console) (last : s.csrY = 25) :
    ∃ m', s.scroll = .ok { s with mem := m', csrY := 24 } ∧
      (∀ i j, i < 24 → j < 80 →
        load16 m' (video.toNat + 2 * (80 * i + j)) = s.cell (i + 1) j) ∧
      ∀ j, j < 80 → load16 m' (video.toNat + 2 * (80 * 24 + j)) = glyph s.color 0x20 := by
  have source : videoCells.Holds (video.toNat + 160) 3840 := by decide
  have target : videoCells.Holds video.toNat 3840 := by decide
  have bottom : videoCells.Holds (video.toNat + 3840) (2 * 80) := by decide
  have copied : memcpy s.mem video (video + 2 * (1 * 80)) ((25 - 1) * 80 * 2) =
      .ok (blit s.mem video.toNat s.mem (video.toNat + 160) 3840) :=
    Object.repMovsb_ok source target (by decide)
  obtain ⟨m', done, frame, blanked⟩ :=
    Object.repStosw_ok (blit s.mem video.toNat s.mem (video.toNat + 160) 3840)
      (0x20 ||| s.att).toUInt16 bottom
  have filled : memsetw (blit s.mem video.toNat s.mem (video.toNat + 160) 3840)
      (video + 2 * ((25 - 1) * 80)) (0x20 ||| s.att).toUInt16 80 = .ok m' := done
  refine ⟨m', ?_, ?_, ?_⟩
  · have reached : s.csrY ≥ 25 := by rw [last]; exact Int32.le_refl 25
    have lines : (s.csrY - 25 + 1).toUInt32 = 1 := by rw [last]; rfl
    unfold Console.scroll
    rw [if_pos reached]
    simp only [lines, copied, filled, ok_bind]
    rfl
  · intro i j row column
    have kept : Agree (video.toNat + 2 * (80 * i + j)) 2
        (blit s.mem video.toNat s.mem (video.toNat + 160) 3840) m' := by
      apply frame.agree
      omega
    have below : video.toNat + 160 + 2 * (80 * i + j) = video.toNat + 2 * (80 * (i + 1) + j) := by
      omega
    rw [load16_congr kept, Object.load16_blit (by omega), below]
    rfl
  · intro j column
    have position : video.toNat + 2 * (80 * 24 + j) = video.toNat + 3840 + 2 * j := by omega
    rw [position, blanked j column]
    exact or_att s 0x20

/-- Behind the last row the screen moves on by one row of the page. -/
theorem Drawn.scroll (drawn : Drawn color first s p) (atMost : p.row ≤ first + 25) :
    ∃ t, s.scroll = .ok t ∧ Drawn color (max first (p.row - 24)) t p := by
  have above := drawn.above
  rcases drawn.at.scroll_cases (by omega) with ⟨behind, last⟩ | ⟨inside, done⟩
  · have next : max first (p.row - 24) = first + 1 := by omega
    obtain ⟨m', done, moved, blanked⟩ := scroll_full s last
    rw [next]
    refine ⟨_, done, ?_⟩
    constructor
    · exact drawn.ink
    · exact drawn.column
    · have line : p.row - (first + 1) = 24 := by omega
      rw [line]
      rfl
    · omega
    · intro i j row column
      show Shown color (load16 m' _) _
      by_cases bottom : i = 24
      · have empty : p.cells (first + 1 + i) j = none := drawn.below _ j (by omega)
        rw [empty, bottom, blanked j column, drawn.ink]
        exact Or.inr rfl
      · have same : first + 1 + i = first + (i + 1) := by omega
        rw [moved i j (by omega) column, same]
        exact drawn.showing (i + 1) j (by omega) column
    · intro i j below
      exact drawn.below i j (by omega)
  · have next : max first (p.row - 24) = first := by omega
    rw [next]
    exact ⟨s, done, drawn⟩

/-- The screen shows the last rows the cursor has been in. -/
def Refines (color : UInt8) (s : Console) (p : Page) : Prop :=
  p.Valid ∧ Drawn color (p.highest - 24) s p

theorem putch_refines (refines : Refines color s p) (c : UInt8) :
    ∃ t, s.putch c = .ok t ∧ Refines color t (p.putch c) := by
  obtain ⟨valid, drawn⟩ := refines
  have lowest := valid.lowest
  have placed := p.place_bounds valid.inside c
  have wrapped := p.wrap_bounds valid.inside c
  obtain ⟨afterPlace, placeDone, drawnPlace⟩ := drawn.place valid.inside (by omega) c
  obtain ⟨afterScroll, scrollDone, drawnScroll⟩ :=
    (drawnPlace.wrap placed.2.1).scroll (by omega)
  have window : (p.putch c).highest - 24 =
      max (p.highest - 24) (((p.place c).wrap).row - 24) := by
    show max ((p.place c).wrap).highest ((p.place c).wrap).row - 24 = _
    omega
  refine ⟨moveCsr afterScroll, ?_, Page.putch_valid valid c, ?_⟩
  · unfold Console.putch
    rw [placeDone, ok_bind, scrollDone, ok_bind]
    rfl
  · rw [window]
    have moved := drawnScroll.moveCsr
    exact ⟨moved.ink, moved.column, moved.line, moved.above, moved.showing, moved.below⟩

theorem putchAll_refines (refines : Refines color s p) (text : List UInt8) :
    ∃ t, s.putchAll text = .ok t ∧ Refines color t (text.foldl Page.putch p) := by
  induction text generalizing s p with
  | nil => exact ⟨s, rfl, refines⟩
  | cons c text ih =>
      obtain ⟨t, done, next⟩ := putch_refines refines c
      obtain ⟨last, rest, refined⟩ := ih next
      refine ⟨last, ?_, refined⟩
      unfold Console.putchAll at rest ⊢
      rw [List.foldlM_cons, done, ok_bind]
      exact rest

/-- `cls` shows the page nothing has been written on. -/
theorem cls_refines (s : Console) : ∃ t, s.cls = .ok t ∧ Refines s.color t Page.empty := by
  have whole : videoCells.Holds video.toNat (2 * (80 * 25)) := by decide
  obtain ⟨m', done, frame, filled⟩ := Object.repStosw_ok s.mem s.att.toUInt16 whole
  have cleared : memsetw s.mem video s.att.toUInt16 (80 * 25) = .ok m' := done
  have blank : s.att.toUInt16 = glyph s.color 0 := by
    rw [← or_att]
    exact congrArg UInt32.toUInt16 UInt32.zero_or.symm
  refine ⟨moveCsr { s with mem := m', csrX := 0, csrY := 0 }, ?_, ?_, ?_⟩
  · unfold Console.cls
    rw [cleared]
    rfl
  · constructor
    · exact Nat.zero_lt_succ 79
    · rfl
  · constructor
    · rfl
    · rfl
    · rfl
    · exact Nat.le_refl 0
    · intro i j row column
      apply Or.inl
      rw [← blank]
      exact filled (80 * i + j) (by omega)
    · intro i j below
      rfl

/-- Whatever bytes `putch` gets after `cls`, no access leaves the video cells, and
they show the last 25 rows of the page these bytes make. -/
theorem terminal_shows_page (s : Console) (text : List UInt8) :
    ∃ t, (s.cls >>= fun cleared => cleared.putchAll text) = .ok t ∧
      Showing s.color ((Page.written text).highest - 24) t (Page.written text) := by
  obtain ⟨cleared, clsDone, start⟩ := cls_refines s
  obtain ⟨t, done, refines⟩ := putchAll_refines start text
  refine ⟨t, ?_, refines.2.showing⟩
  rw [clsDone, ok_bind]
  exact done

end Steps

end FrogOS
