import FrogOS.StringOps

set_option autoImplicit false

namespace FrogOS

open ByteMemory BoundedAccess StringOps

/-- The display's registers behind an index port and a data port. -/
structure Crtc where
  index : UInt8
  registers : UInt8 → UInt8

def Crtc.outportb (d : Crtc) (port : UInt16) (value : UInt8) : Crtc :=
  if port = 0x3D4 then { d with index := value }
  else if port = 0x3D5 then
    { d with registers := fun i => if i = d.index then value else d.registers i }
  else d

/-- The cell the hardware draws the cursor on. -/
def Crtc.cursor (d : Crtc) : Nat := 2 ^ 8 * (d.registers 14).toNat + (d.registers 15).toNat

/-- The memory and the display as `conio.c` uses them, with its variables. -/
structure Console where
  mem : Mem
  csrX : Int32
  csrY : Int32
  attrib : Int32
  crtc : Crtc

namespace Console

def video : UInt32 := 0xC00B8000

/-- The video cells: 25 rows of 80 of them, two bytes each. -/
def videoCells : Object where
  base := video.toNat
  size := 2 * (80 * 25)

def memcpy (m : Mem) (dest src n : UInt32) : Except Fault Mem :=
  videoCells.repMovsb n.toNat dest.toNat src.toNat m

def memsetw (m : Mem) (s : UInt32) (c : UInt16) (n : UInt32) : Except Fault Mem :=
  videoCells.repStosw c n.toNat s.toNat m

/-- `attrib << 8`, which the shifts and the stores take as an unsigned number. -/
def att (s : Console) : UInt32 := (s.attrib <<< 8).toUInt32

def moveCsr (s : Console) : Console :=
  let temp : UInt32 := (s.csrY * 80 + s.csrX).toUInt32
  let high := (s.crtc.outportb 0x3D4 14).outportb 0x3D5 (temp >>> 8).toUInt8
  { s with crtc := (high.outportb 0x3D4 15).outportb 0x3D5 temp.toUInt8 }

def cls (s : Console) : Except Fault Console := do
  let mem ← memsetw s.mem video s.att.toUInt16 (80 * 25)
  pure (moveCsr { s with mem := mem, csrX := 0, csrY := 0 })

def scroll (s : Console) : Except Fault Console :=
  let blank : UInt32 := 0x20 ||| s.att
  if s.csrY ≥ 25 then do
    let temp : UInt32 := (s.csrY - 25 + 1).toUInt32
    let moved ← memcpy s.mem video (video + 2 * (temp * 80)) ((25 - temp) * 80 * 2)
    let mem ← memsetw moved (video + 2 * ((25 - temp) * 80)) blank.toUInt16 80
    pure { s with mem := mem, csrY := 25 - 1 }
  else pure s

/-- The part of `putch` that depends on the byte. -/
def place (s : Console) (c : UInt8) : Except Fault Console :=
  if c = 0x08 then pure (if s.csrX ≠ 0 then { s with csrX := s.csrX - 1 } else s)
  else if c = 0x09 then pure { s with csrX := (s.csrX + 8) &&& ~~~(8 - 1) }
  else if c = 0x0D then pure { s with csrX := 0 }
  else if c = 0x0A then pure { s with csrX := 0, csrY := s.csrY + 1 }
  else if c ≥ 0x20 then do
    let location : UInt32 := video + 2 * (s.csrY * 80 + s.csrX).toUInt32
    let mem ← videoCells.store16 s.mem location.toNat (c.toUInt32 ||| s.att).toUInt16
    pure { s with mem := mem, csrX := s.csrX + 1 }
  else pure s

def wrap (s : Console) : Console :=
  if s.csrX ≥ 80 then { s with csrX := 0, csrY := s.csrY + 1 } else s

def putch (s : Console) (c : UInt8) : Except Fault Console := do
  let placed ← place s c
  let scrolled ← scroll (wrap placed)
  pure (moveCsr scrolled)

/-- One byte after the other. -/
def putchAll (s : Console) (text : List UInt8) : Except Fault Console :=
  text.foldlM putch s

/-- The video cell in a row and a column. -/
def cell (s : Console) (row column : Nat) : UInt16 :=
  load16 s.mem (video.toNat + 2 * (80 * row + column))

/-- The byte `attrib` puts next to every character. -/
def color (s : Console) : UInt8 := s.attrib.toUInt32.toUInt8

/-- A character with an attribute, as a video cell holds it. -/
def glyph (color c : UInt8) : UInt16 := UInt16.ofNat (c.toNat + 2 ^ 8 * color.toNat)

/-- `move_csr` programs the cell that the variables stand for, as far as 16 bits go. -/
theorem moveCsr_cursor (s : Console) :
    (moveCsr s).crtc.cursor = (s.csrY * 80 + s.csrX).toUInt32.toNat % 2 ^ 16 := by
  show 2 ^ 8 * ((s.csrY * 80 + s.csrX).toUInt32 >>> 8).toUInt8.toNat +
    (s.csrY * 80 + s.csrX).toUInt32.toUInt8.toNat = _
  rw [UInt32.toNat_toUInt8, UInt32.toNat_toUInt8, UInt32.toNat_shiftRight]
  show 2 ^ 8 * (((s.csrY * 80 + s.csrX).toUInt32.toNat >>> 8) % 2 ^ 8) + _ = _
  rw [Nat.shiftRight_eq_div_pow]
  omega

theorem att_toNat (s : Console) : s.att.toNat = (2 ^ 8 * s.attrib.toUInt32.toNat) % 2 ^ 32 := by
  have shifted : s.att = s.attrib.toUInt32 <<< 8 := rfl
  rw [shifted, UInt32.toNat_shiftLeft]
  show s.attrib.toUInt32.toNat <<< 8 % 2 ^ 32 = _
  rw [Nat.shiftLeft_eq, Nat.mul_comm]

/-- A byte joined to the shifted attribute is a character with that attribute. -/
theorem or_att (s : Console) (c : UInt8) :
    (c.toUInt32 ||| s.att).toUInt16 = glyph s.color c := by
  have byte := c.toNat_lt
  have aligned : ∃ a, s.att.toNat = a <<< 8 ∧ a % 2 ^ 8 = s.color.toNat := by
    refine ⟨s.attrib.toUInt32.toNat % 2 ^ 24, ?_, ?_⟩
    · rw [att_toNat, Nat.shiftLeft_eq]
      omega
    · show _ = s.attrib.toUInt32.toUInt8.toNat
      rw [UInt32.toNat_toUInt8]
      omega
  obtain ⟨a, shifted, low⟩ := aligned
  apply UInt16.toNat_inj.mp
  rw [UInt32.toNat_toUInt16, UInt32.toNat_or, UInt8.toNat_toUInt32, shifted, Nat.or_comm,
    ← Nat.shiftLeft_add_eq_or_of_lt byte, Nat.shiftLeft_eq]
  simp only [glyph, UInt16.toNat_ofNat']
  omega

end Console

end FrogOS
