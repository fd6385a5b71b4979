import FrogOS.Terminal

set_option autoImplicit false

namespace FrogOS

open ByteMemory BoundedAccess StringOps

/-- The calls that draw. -/
inductive ConsoleCall
  | cls
  | putch (c : UInt8)

namespace Console

def call (s : Console) : ConsoleCall → Except Fault Console
  | .cls => s.cls
  | .putch c => s.putch c

/-- One call after the other. A call that accesses anything but the video cells has no result. -/
def callAll (s : Console) (calls : List ConsoleCall) : Except Fault Console :=
  calls.foldlM call s

/-- The variables are those of a cell of the screen, and the hardware draws the cursor there. -/
structure OnScreen (s : Console) : Prop where
  left : 0 ≤ s.csrX
  right : s.csrX < 80
  above : 0 ≤ s.csrY
  below : s.csrY < 25
  cursor : (s.crtc.cursor : Int) = 80 * s.csrY.toInt + s.csrX.toInt

section Variables

variable {x y : Nat} {s : Console}

theorem ofNat_between {n : Nat} (inside : x < n) (small : n < 2 ^ 31) :
    0 ≤ Int32.ofNat x ∧ Int32.ofNat x < Int32.ofNat n :=
  ⟨(Int32.ofNat_le_iff_le (a := 0) (by omega) (by omega)).mpr (Nat.zero_le x),
    (Int32.ofNat_lt_iff_lt (by omega) small).mpr inside⟩

/-- On the screen `move_csr` programs the cell of the variables. -/
theorem At.moveCsr (here : At x y s) (inColumn : x < 80) (inRow : y < 25) :
    At x y (Console.moveCsr s) ∧ OnScreen (Console.moveCsr s) := by
  obtain ⟨left, right⟩ := ofNat_between inColumn (by decide)
  obtain ⟨above, below⟩ := ofNat_between inRow (by decide)
  have column := here.column
  have row := here.row
  refine ⟨⟨column, row⟩, ?_, ?_, ?_, ?_, ?_⟩
  · exact column ▸ left
  · exact column ▸ right
  · exact row ▸ above
  · exact row ▸ below
  · rw [moveCsr_cursor]
    change _ = 80 * s.csrY.toInt + s.csrX.toInt
    rw [column, row, position_toNat inColumn inRow, Int32.toInt_ofNat_of_lt (by omega),
      Int32.toInt_ofNat_of_lt (by omega)]
    omega

end Variables

section Calls

variable {x y : Nat} {s : Console}

/-- Each of the cases of `putch` keeps the row, but for a newline, and at most fills it. -/
theorem At.place (here : At x y s) (inColumn : x < 80) (inRow : y < 25) (c : UInt8) :
    ∃ t x' y', s.place c = .ok t ∧ At x' y' t ∧ x' ≤ 80 ∧ (y' = y ∨ y' = y + 1 ∧ x' = 0) := by
  have row := here.row
  rcases here.place_cases inColumn inRow c with ⟨-, done⟩ | ⟨-, done⟩ | ⟨-, done⟩ | ⟨-, done⟩ |
    ⟨-, ⟨-, done⟩ | ⟨-, done⟩⟩
  · exact ⟨_, x - 1, y, done, ⟨rfl, row⟩, by omega, Or.inl rfl⟩
  · exact ⟨_, 8 * (x / 8 + 1), y, done, ⟨rfl, row⟩, by omega, Or.inl rfl⟩
  · exact ⟨_, 0, y, done, ⟨rfl, row⟩, by omega, Or.inl rfl⟩
  · exact ⟨_, 0, y + 1, done, ⟨rfl, rfl⟩, by omega, Or.inr ⟨rfl, rfl⟩⟩
  · exact ⟨_, x + 1, y, done, ⟨rfl, row⟩, by omega, Or.inl rfl⟩
  · exact ⟨s, x, y, done, here, by omega, Or.inl rfl⟩

/-- A full row is followed by the next. -/
theorem At.wrap (here : At x y s) (atMost : x ≤ 80) :
    ∃ x' y', At x' y' s.wrap ∧ x' < 80 ∧ y' ≤ y + 1 ∧ (x < 80 → y' = y) := by
  rcases here.wrap_cases atMost with ⟨full, wraps⟩ | ⟨short, stays⟩
  · rw [wraps]
    exact ⟨0, y + 1, ⟨rfl, rfl⟩, by omega, Nat.le_refl _, fun inside => absurd full (by omega)⟩
  · rw [stays]
    exact ⟨x, y, here, by omega, by omega, fun _ => rfl⟩

/-- `scroll` brings the row behind the last back to the last. -/
theorem At.scroll (here : At x y s) (atMost : y ≤ 25) :
    ∃ t y', s.scroll = .ok t ∧ At x y' t ∧ y' < 25 := by
  rcases here.scroll_cases atMost with ⟨-, behind⟩ | ⟨inside, done⟩
  · obtain ⟨m', done, -⟩ := scroll_full s behind
    exact ⟨_, 24, done, ⟨here.column, rfl⟩, by omega⟩
  · exact ⟨s, y, done, here, inside⟩

/-- A call draws inside the screen and ends there. -/
theorem At.call (here : At x y s) (inColumn : x < 80) (inRow : y < 25) (request : ConsoleCall) :
    ∃ t x' y', s.call request = .ok t ∧ At x' y' t ∧ x' < 80 ∧ y' < 25 ∧ OnScreen t := by
  cases request with
  | cls =>
      have whole : videoCells.Holds video.toNat (2 * (80 * 25)) := by decide
      obtain ⟨m', done, -⟩ := Object.repStosw_ok s.mem s.att.toUInt16 whole
      have cleared : memsetw s.mem video s.att.toUInt16 (80 * 25) = .ok m' := done
      have corner : At 0 0 { s with mem := m', csrX := 0, csrY := 0 } := ⟨rfl, rfl⟩
      obtain ⟨moved, onScreen⟩ := corner.moveCsr (by decide) (by decide)
      refine ⟨_, 0, 0, ?_, moved, by decide, by decide, onScreen⟩
      rw [Console.call, Console.cls, cleared]
      rfl
  | putch c =>
      obtain ⟨placed, x₁, y₁, placeDone, atPlaced, most, rows⟩ := here.place inColumn inRow c
      obtain ⟨x₂, y₂, atWrapped, narrow, next, same⟩ := atPlaced.wrap most
      obtain ⟨scrolled, y₃, scrollDone, atScrolled, low⟩ := atWrapped.scroll (by omega)
      obtain ⟨moved, onScreen⟩ := atScrolled.moveCsr narrow low
      refine ⟨_, x₂, y₃, ?_, moved, narrow, low, onScreen⟩
      rw [Console.call, Console.putch, placeDone, ok_bind, scrollDone, ok_bind]
      rfl

theorem At.callAll (here : At x y s) (inColumn : x < 80) (inRow : y < 25)
    (calls : List ConsoleCall) :
    ∃ t, s.callAll calls = .ok t ∧ (calls ≠ [] → OnScreen t) := by
  induction calls generalizing s x y with
  | nil => exact ⟨s, rfl, fun some => absurd rfl some⟩
  | cons request calls ih =>
      obtain ⟨t, x', y', done, next, column, row, onScreen⟩ := here.call inColumn inRow request
      obtain ⟨last, rest, ends⟩ := ih next column row
      refine ⟨last, ?_, fun _ => ?_⟩
      · rw [Console.callAll, List.foldlM_cons, done]
        exact rest
      · cases calls with
        | nil =>
            cases rest
            exact onScreen
        | cons request calls => exact ends (List.cons_ne_nil _ _)

end Calls

end Console

open Console

/-- From the variables' initial values on, with any colour and whatever is in the video memory and
the display's registers, every sequence of calls stays inside the video cells and leaves the cursor
on the screen, in the variables and in the hardware. -/
theorem terminal_stays_on_screen (mem : Mem) (attrib : Int32) (crtc : Crtc)
    (before : List ConsoleCall) (last : ConsoleCall) :
    ∃ t, callAll { mem, csrX := 0, csrY := 0, attrib, crtc } (before ++ [last]) = .ok t ∧
      OnScreen t := by
  have start : At 0 0 { mem, csrX := 0, csrY := 0, attrib, crtc } := ⟨rfl, rfl⟩
  obtain ⟨t, done, onScreen⟩ := start.callAll (by decide) (by decide) (before ++ [last])
  exact ⟨t, done, onScreen (List.append_ne_nil_of_right_ne_nil _ (List.cons_ne_nil _ _))⟩

end FrogOS
