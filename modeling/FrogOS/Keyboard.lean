import FrogOS.KbdQueue
import FrogOS.BoundedAccess

set_option autoImplicit false

namespace FrogOS

open BoundedAccess

/-! Modifier bits and key codes of conio.h. -/

def kbdShift : UInt32 := 0x1
def kbdCtrl : UInt32 := 0x2
def kbdAlt : UInt32 := 0x4
def kbdInsert : UInt32 := 0x8

def keyPause : UInt8 := 0x80
def keyPrtsc : UInt8 := 0x81
def keyLeftctrl : UInt8 := 0x82
def keyLeftshft : UInt8 := 0x83
def keyRghtshft : UInt8 := 0x84
def keyLeftalt : UInt8 := 0x85
def keyCapslock : UInt8 := 0x86
def keyF1 : UInt8 := 0x87
def keyF2 : UInt8 := 0x88
def keyF3 : UInt8 := 0x89
def keyF4 : UInt8 := 0x8A
def keyF5 : UInt8 := 0x8B
def keyF6 : UInt8 := 0x8C
def keyF7 : UInt8 := 0x8D
def keyF8 : UInt8 := 0x8E
def keyF9 : UInt8 := 0x8F
def keyF10 : UInt8 := 0x90
def keyF11 : UInt8 := 0x91
def keyF12 : UInt8 := 0x92
def keyNumlock : UInt8 := 0x93
def keyScrllock : UInt8 := 0x94
def keyHome : UInt8 := 0x95
def keyUp : UInt8 := 0x96
def keyPgup : UInt8 := 0x97
def keyLeft : UInt8 := 0x98
def keyRight : UInt8 := 0x99
def keyDown : UInt8 := 0x9A
def keyPgdown : UInt8 := 0x9B
def keyDelete : UInt8 := 0x9C
def keyGui : UInt8 := 0x9D
def keyRghtgui : UInt8 := 0x9E
def keyApps : UInt8 := 0x9F
def keyEnd : UInt8 := 0xA0

def ascii (chars : List Char) : List UInt8 := chars.map Char.toUInt8

/-- The table `scancodes`, a row of the source a line. -/
def scancodes : List UInt8 :=
  [0, 27] ++ ascii ['1', '2', '3', '4', '5', '6', '7', '8', '9', '0', '-', '='] ++ [8, 9] ++
  ascii ['q', 'w', 'e', 'r', 't', 'y', 'u', 'i', 'o', 'p', '[', ']'] ++
    [10, keyLeftctrl] ++ ascii ['a', 's'] ++
  ascii ['d', 'f', 'g', 'h', 'j', 'k', 'l', ';'] ++ [39, 0x60, keyLeftshft] ++
    ascii ['|', 'z', 'x', 'c', 'v'] ++
  ascii ['b', 'n', 'm', ',', '.', '/'] ++ [keyRghtshft] ++ ascii ['*'] ++ [keyLeftalt] ++
    ascii [' '] ++ [keyCapslock, keyF1] ++
  [keyF2, keyF3, keyF4, keyF5] ++
  [keyF6, keyF7, keyF8, keyF9, keyF10, keyNumlock, keyScrllock] ++ ascii ['7', '8', '9', '-'] ++
  ascii ['4', '5', '6', '+', '1'] ++
  ascii ['2', '3', '0', '.'] ++ [0, 0, 0, keyF11, keyF12]

/-- The table `shift_scancodes`, a row of the source a line. -/
def shiftScancodes : List UInt8 :=
  [0, 27] ++ ascii ['!', '@', '#', '$', '%', '^', '&', '*', '(', ')', '_', '+'] ++ [8, 9] ++
  ascii ['Q', 'W', 'E', 'R', 'T', 'Y', 'U', 'I', 'O', 'P'] ++ [0x7B, 0x7D] ++
    [10, keyLeftctrl] ++ ascii ['A', 'S'] ++
  ascii ['D', 'F', 'G', 'H', 'J', 'K', 'L', ':'] ++ [34] ++ ascii ['~'] ++ [keyLeftshft] ++
    [0x5C] ++ ascii ['Z', 'X', 'C', 'V'] ++
  ascii ['B', 'N', 'M', '<', '>', '?'] ++ [keyRghtshft] ++ ascii ['*'] ++ [keyLeftalt] ++
    ascii [' '] ++ [keyCapslock, keyF1] ++
  [keyF2, keyF3, keyF4, keyF5] ++
  [keyF6, keyF7, keyF8, keyF9, keyF10, keyNumlock, keyScrllock] ++ ascii ['7', '8', '9', '-'] ++
  ascii ['4', '5', '6', '+', '1'] ++
  ascii ['2', '3', '0', '.'] ++ [0, 0, 0, keyF11, keyF12]

/-- The decoder's globals and the queue it fills. -/
structure Kbd where
  kbdState : UInt32
  kbdShiftstate : UInt32
  queue : KbdQueue
  /-- The arguments of the calls of `kbd_enqueue` so far, in order. -/
  enqueued : List UInt32

def kbdStart : Kbd where
  kbdState := 0
  kbdShiftstate := 0
  queue := kbdQueueStart
  enqueued := []

/-- Why `decode` has no result: it reads behind a table, or its calls nest too deep. -/
inductive DecodeFault
  | outsideTable (index : Nat)
  | nesting
deriving DecidableEq, Repr

/-- The argument the macro `ENQUEUE` passes on. -/
def event (shiftstate : UInt32) (c : UInt8) : UInt32 :=
  shiftstate <<< (8 : UInt32) ||| c.toUInt32

/-- The macro `ENQUEUE`. -/
def Kbd.enqueue (k : Kbd) (c : UInt8) : Kbd :=
  { k with
    queue := kbdEnqueue k.queue (event k.kbdShiftstate c)
    enqueued := k.enqueued ++ [event k.kbdShiftstate c] }

/-- The statements in the cases of `decode`'s three switches: `|=`, `&=~` and `^=`
on `kbd_shiftstate`, `ENQUEUE`, or a mere `break`. -/
inductive Stroke
  | set (mask : UInt32)
  | clear (mask : UInt32)
  | toggle (mask : UInt32)
  | key (c : UInt8)
  | nothing
deriving DecidableEq, Repr

def Stroke.perform (k : Kbd) : Stroke → Kbd
  | .set mask => { k with kbdShiftstate := k.kbdShiftstate ||| mask }
  | .clear mask => { k with kbdShiftstate := k.kbdShiftstate &&& ~~~mask }
  | .toggle mask => { k with kbdShiftstate := k.kbdShiftstate ^^^ mask }
  | .key c => k.enqueue c
  | .nothing => k

/-- The switch for a byte after E0. -/
def extendedStroke (c : UInt8) : Stroke :=
  if c = 0x1D then .set kbdCtrl
  else if c = 0x38 then .set kbdAlt
  else if c = 0x47 then .key keyHome
  else if c = 0x48 then .key keyUp
  else if c = 0x49 then .key keyPgup
  else if c = 0x4B then .key keyLeft
  else if c = 0x4D then .key keyRight
  else if c = 0x4F then .key keyEnd
  else if c = 0x50 then .key keyDown
  else if c = 0x51 then .key keyPgdown
  else if c = 0x52 then .toggle kbdInsert
  else if c = 0x53 then .key keyDelete
  else if c = 0x5B then .key keyGui
  else if c = 0x5C then .key keyRghtgui
  else if c = 0x5D then .key keyApps
  else if c = 0x9D then .clear kbdCtrl
  else if c = 0xB8 then .clear kbdAlt
  else .nothing

/-- The switch for a key that goes down. -/
def makeStroke (decoded : UInt8) : Stroke :=
  if decoded = keyLeftctrl then .set kbdCtrl
  else if decoded = keyCapslock then .toggle kbdShift
  else if decoded = keyLeftshft ∨ decoded = keyRghtshft then .set kbdShift
  else if decoded = keyLeftalt then .set kbdAlt
  else if decoded = 0 then .nothing
  else .key decoded

/-- The switch for a key that goes up. -/
def breakStroke (decoded : UInt8) : Stroke :=
  if decoded = keyLeftctrl then .clear kbdCtrl
  else if decoded = keyLeftshft ∨ decoded = keyRghtshft then .clear kbdShift
  else if decoded = keyLeftalt then .clear kbdAlt
  else .nothing

def readTable (table : List UInt8) (c : UInt8) : Except DecodeFault UInt8 :=
  match table[c.toNat]? with
  | some decoded => .ok decoded
  | none => .error (.outsideTable c.toNat)

/-- The branch of `decode` for a byte with nothing before it. -/
def plainStroke (shiftstate : UInt32) (c : UInt8) : Except DecodeFault Stroke :=
  if c &&& 0x80 = 0 then do
    let decoded ← readTable (if shiftstate &&& kbdShift ≠ 0 then shiftScancodes else scancodes) c
    .ok (makeStroke decoded)
  else do
    let decoded ← readTable scancodes (c &&& 0x7F)
    .ok (breakStroke decoded)

/-- The body of `decode`; `again` is the recursive call in its last branch. -/
def decodeWith (again : UInt8 → Kbd → Except DecodeFault Kbd) (c : UInt8) (k : Kbd) :
    Except DecodeFault Kbd :=
  let state := k.kbdState
  if (state = 0 ∧ c = 0xE0) ∨ (state = 0 ∧ c = 0xE1) ∨ (state = 0xE1 ∧ c = 0x1D) ∨
      (state = 0x1D ∧ c = 0x45) ∨ (state = 0x2E1 ∧ c = 0x9D) then
    .ok { k with kbdState := c.toUInt32 }
  else if state = 0x45 ∧ c = 0xE1 then .ok { k with kbdState := 0x2E1 }
  else if state = 0x9D ∧ c = 0xC5 then .ok { k.enqueue keyPause with kbdState := 0 }
  else if state = 0xE02A ∧ c = 0xE0 then .ok { k with kbdState := 0x2AE0 }
  else if state = 0x2AE0 ∧ c = 0x37 then .ok { k.enqueue keyPrtsc with kbdState := 0 }
  else if state = 0xE0 ∧ c = 0x2A then .ok { k with kbdState := 0xE02A }
  else if state = 0xE0 then .ok { (extendedStroke c).perform k with kbdState := 0 }
  else if state = 0 then do
    let stroke ← plainStroke k.kbdShiftstate c
    .ok { stroke.perform k with kbdState := 0 }
  else again c { k with kbdState := 0 }

/-- `decode` with at most `depth` calls inside each other. -/
def decodeNested : Nat → UInt8 → Kbd → Except DecodeFault Kbd
  | 0, _, _ => .error .nesting
  | depth + 1, c, k => decodeWith (decodeNested depth) c k

/-- Two calls are enough: the recursive call starts with `kbd_state` 0. -/
def decode (c : UInt8) (k : Kbd) : Except DecodeFault Kbd := decodeNested 2 c k

/-- `kbd_handler` for one byte of the keyboard after the other. -/
def decodeAll (stream : List UInt8) (k : Kbd) : Except DecodeFault Kbd :=
  stream.foldlM (fun k c => decode c k) k

end FrogOS
