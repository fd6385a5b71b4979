import Mathlib.Logic.Function.Basic
import FrogOS.ByteMemory

set_option autoImplicit false

namespace FrogOS.X86Stack

open ByteMemory

inductive Reg
  | eax | ecx | edx | ebx | esp | ebp | esi | edi
deriving DecidableEq, Repr

inductive Seg
  | ds | es | fs | gs
deriving DecidableEq, Repr

/-- The registers of a program that runs in 32-bit protected mode. -/
structure Cpu where
  reg : Reg → UInt32
  seg : Seg → UInt16
  cs : UInt16
  eip : UInt32
  eflags : UInt32

structure Machine where
  cpu : Cpu
  mem : Mem

/-- The address of the word number `k` of a stack, the top being number 0. -/
def wordAt (esp : UInt32) (k : Nat) : Nat := (esp.toNat + 4 * k) % 2 ^ 32

/-- A word of the stack. Of a selector it has only the lower half. -/
inductive Slot
  | word (value : UInt32)
  | selector (value : UInt16)
deriving DecidableEq, Repr

def Slot.At : Slot → Mem → Nat → Prop
  | word value, m, address => load32 m address = value
  | selector value, m, address => load16 m address = value

/-- The stack starts with these words. -/
def Stacked (m : Mem) (esp : UInt32) (slots : List Slot) : Prop :=
  ∀ k (slot : Slot), slots[k]? = some slot → slot.At m (wordAt esp k)

/-- A selector on the stack. Processors differ in whether they clear the upper half of the word or
leave it as it was. -/
def storeSelector (clears : Bool) (m : Mem) (address : Nat) (value : UInt16) : Mem :=
  if clears then store32 m address value.toUInt32 else store16 m address value

section Words

variable {m m' : Mem} {esp : UInt32} {slots : List Slot} {k j : Nat} {clears : Bool}

@[simp] theorem wordAt_zero (esp : UInt32) : wordAt esp 0 = esp.toNat :=
  Nat.mod_eq_of_lt esp.toNat_lt

theorem wordAt_add (esp n : UInt32) (k j : Nat) (words : n.toNat = 4 * j) :
    wordAt (esp + n) k = wordAt esp (j + k) := by
  unfold wordAt
  rw [UInt32.toNat_add, words]
  omega

theorem wordAt_push (esp : UInt32) (k : Nat) : wordAt (esp - 4) (k + 1) = wordAt esp k := by
  unfold wordAt
  rw [UInt32.toNat_sub, show (4 : UInt32).toNat = 4 from rfl]
  omega

/-- Different words do not overlap, however the stack lies and even if it wraps around. -/
theorem wordAt_apart (esp : UInt32) (other : k ≠ j) (near : k < j + 2 ^ 30)
    (near' : j < k + 2 ^ 30) :
    wordAt esp k + 4 ≤ wordAt esp j ∨ wordAt esp j + 4 ≤ wordAt esp k := by
  unfold wordAt
  omega

theorem Slot.At.congr {slot : Slot} {address : Nat} (holds : slot.At m address)
    (same : Agree address 4 m m') : slot.At m' address := by
  cases slot with
  | word value => exact (load32_congr same).trans holds
  | selector value =>
      exact (load16_congr fun x lower upper => same x lower (by omega)).trans holds

/-- The word holds the slot as well if it is only known as a whole. -/
theorem Slot.At.same {slot : Slot} {address : Nat} (holds : slot.At m address)
    (same : load32 m' address = load32 m address) : slot.At m' address := by
  cases slot with
  | word value => exact same.trans holds
  | selector value =>
      have low : load16 m' address = load16 m address := by
        rw [← load32_low, same, load32_low]
      exact low.trans holds

theorem storeSelector_at (m : Mem) (address : Nat) (value : UInt16) :
    load16 (storeSelector clears m address value) address = value := by
  cases clears with
  | false => exact load16_store16 m address value
  | true =>
      have stored := load16_store32_low m address value.toUInt32
      rw [UInt16.toNat_toUInt32, UInt16.ofNat_toNat] at stored
      exact stored

theorem storeSelector_frame (m : Mem) (address : Nat) (value : UInt16) :
    Frame address 4 m (storeSelector clears m address value) := by
  cases clears with
  | false => exact (store16_frame m address value).mono (Nat.le_refl _) (by omega)
  | true => exact store32_frame m address value.toUInt32

/-- One more word on the stack. -/
theorem Stacked.push {slot : Slot} (stacked : Stacked m esp slots)
    (frame : Frame (esp - 4).toNat 4 m m') (top : slot.At m' (esp - 4).toNat)
    (short : slots.length < 2 ^ 29) : Stacked m' (esp - 4) (slot :: slots) := by
  intro k other found
  cases k with
  | zero =>
      rw [← Option.some.inj found, wordAt_zero]
      exact top
  | succ k =>
      rw [List.getElem?_cons_succ] at found
      have inside : k < slots.length := (List.getElem?_eq_some_iff.mp found).1
      have apart := wordAt_apart (esp - 4) (k := 0) (j := k + 1) (by omega) (by omega) (by omega)
      rw [wordAt_zero, wordAt_push] at apart
      rw [wordAt_push]
      exact (stacked k other found).congr (frame.agree apart.symm)

theorem Stacked.pop {slot : Slot} (stacked : Stacked m esp (slot :: slots)) :
    Stacked m (esp + 4) slots := by
  intro k other found
  rw [wordAt_add esp 4 k 1 rfl, Nat.add_comm]
  exact stacked (k + 1) other found

theorem Stacked.word {value : UInt32} (stacked : Stacked m esp slots)
    (found : slots[k]? = some (.word value)) : load32 m (wordAt esp k) = value :=
  stacked k _ found

theorem Stacked.selector {value : UInt16} (stacked : Stacked m esp slots)
    (found : slots[k]? = some (.selector value)) : (load32 m (wordAt esp k)).toUInt16 = value :=
  (load32_low m _).trans (stacked k _ found)

end Words

inductive Instr
  | cli
  | pushImm (value : UInt32)
  | pushReg (r : Reg)
  | pushSeg (g : Seg)
  | pushal
  | movImm (r : Reg) (value : UInt32)
  | movReg (dst src : Reg)
  | movSeg (g : Seg) (r : Reg)
  | popReg (r : Reg)
  | popSeg (g : Seg)
  | popal
  | addImm (r : Reg) (value : UInt32)
  | iret
deriving DecidableEq, Repr

namespace Cpu

def setReg (c : Cpu) (r : Reg) (value : UInt32) : Cpu :=
  { c with reg := Function.update c.reg r value }

def setSeg (c : Cpu) (g : Seg) (value : UInt16) : Cpu :=
  { c with seg := Function.update c.seg g value }

end Cpu

namespace Machine

def esp (s : Machine) : UInt32 := s.cpu.reg .esp

def setReg (s : Machine) (r : Reg) (value : UInt32) : Machine :=
  { s with cpu := s.cpu.setReg r value }

def setSeg (s : Machine) (g : Seg) (value : UInt16) : Machine :=
  { s with cpu := s.cpu.setSeg g value }

/-- The word number `k` of the stack. -/
def word (s : Machine) (k : Nat) : UInt32 := load32 s.mem (wordAt s.esp k)

def push (s : Machine) (value : UInt32) : Machine where
  cpu := s.cpu.setReg .esp (s.esp - 4)
  mem := store32 s.mem (s.esp - 4).toNat value

def pushSelector (clears : Bool) (s : Machine) (value : UInt16) : Machine where
  cpu := s.cpu.setReg .esp (s.esp - 4)
  mem := storeSelector clears s.mem (s.esp - 4).toNat value

def pushal (s : Machine) : Machine :=
  [.eax, .ecx, .edx, .ebx, .esp, .ebp, .esi, .edi].foldl (fun t r => t.push (s.cpu.reg r)) s

/-- The saved `%esp` is skipped. -/
def popal (s : Machine) : Machine :=
  let reg : Reg → UInt32
    | .edi => s.word 0
    | .esi => s.word 1
    | .ebp => s.word 2
    | .esp => s.esp + 32
    | .ebx => s.word 4
    | .edx => s.word 5
    | .ecx => s.word 6
    | .eax => s.word 7
  { s with cpu := { s.cpu with reg := reg } }

def iret (s : Machine) : Machine :=
  { s with
    cpu := { s.cpu.setReg .esp (s.esp + 12) with
      eip := s.word 0, cs := (s.word 1).toUInt16, eflags := s.word 2 } }

end Machine

/-- One instruction. The instructions of a list follow each other, so `eip` counts only where the
processor saves or loads it. The arithmetic flags of `add` are left out. -/
def step (clears : Bool) (s : Machine) : Instr → Machine
  | .cli => { s with cpu := { s.cpu with eflags := s.cpu.eflags &&& ~~~0x200 } }
  | .pushImm value => s.push value
  | .pushReg r => s.push (s.cpu.reg r)
  | .pushSeg g => s.pushSelector clears (s.cpu.seg g)
  | .pushal => s.pushal
  | .movImm r value => s.setReg r value
  | .movReg dst src => s.setReg dst (s.cpu.reg src)
  | .movSeg g r => s.setSeg g (s.cpu.reg r).toUInt16
  | .popReg r => (s.setReg .esp (s.esp + 4)).setReg r (s.word 0)
  | .popSeg g => (s.setReg .esp (s.esp + 4)).setSeg g (s.word 0).toUInt16
  | .popal => s.popal
  | .addImm r value => s.setReg r (s.cpu.reg r + value)
  | .iret => s.iret

def run (clears : Bool) (code : List Instr) (s : Machine) : Machine := code.foldl (step clears) s

/-- A gate of the IDT, as far as the processor uses it to enter a handler. -/
structure Gate where
  selector : UInt16
  offset : UInt32

/-- An interrupt without a change of privilege, through an interrupt gate: IF, TF, NT, RF and VM
are cleared. -/
def deliver (clears : Bool) (gate : Gate) (error : Option UInt32) (s : Machine) : Machine :=
  let t := ((s.push s.cpu.eflags).pushSelector clears s.cpu.cs).push s.cpu.eip
  let t := match error with
    | some code => t.push code
    | none => t
  { t with cpu := { t.cpu with
      cs := gate.selector, eip := gate.offset, eflags := t.cpu.eflags &&& ~~~0x34300 } }

section Registers

variable {r : Reg}

@[simp] theorem setReg_same (s : Machine) (r : Reg) (value : UInt32) :
    (s.setReg r value).cpu.reg r = value := Function.update_self _ _ _

@[simp] theorem push_esp (s : Machine) (value : UInt32) : (s.push value).esp = s.esp - 4 :=
  setReg_same s .esp (s.esp - 4)

@[simp] theorem pushSelector_esp (clears : Bool) (s : Machine) (value : UInt16) :
    (s.pushSelector clears value).esp = s.esp - 4 := setReg_same s .esp (s.esp - 4)

theorem push_other (s : Machine) (value : UInt32) (other : r ≠ .esp) :
    (s.push value).cpu.reg r = s.cpu.reg r :=
  Function.update_of_ne other _ _

end Registers

/-- The machine `t` is `s` with some words pushed, its other registers and its segments as they
were. -/
structure Pushed (s : Machine) (slots : List Slot) (t : Machine) : Prop where
  esp : t.esp = s.esp - 4 * UInt32.ofNat slots.length
  reg : ∀ r, r ≠ .esp → t.cpu.reg r = s.cpu.reg r
  seg : t.cpu.seg = s.cpu.seg
  stack : Stacked t.mem t.esp slots

namespace Pushed

variable {s t : Machine} {slots : List Slot}

theorem refl (s : Machine) : Pushed s [] s where
  esp := by simp
  reg _ _ := rfl
  seg := rfl
  stack _ _ found := absurd found (by simp)

theorem lower (esp : UInt32) (n : Nat) :
    esp - 4 * UInt32.ofNat n - 4 = esp - 4 * UInt32.ofNat (n + 1) := by
  rw [UInt32.ofNat_add]
  grind

theorem word (pushed : Pushed s slots t) (value : UInt32) (short : slots.length < 2 ^ 29) :
    Pushed s (.word value :: slots) (t.push value) where
  esp := by rw [push_esp, pushed.esp, lower, List.length_cons]
  reg r other := (push_other t value other).trans (pushed.reg r other)
  seg := pushed.seg
  stack := by
    rw [push_esp]
    exact pushed.stack.push (store32_frame _ _ value) (load32_store32 _ _ value) short

theorem selector (pushed : Pushed s slots t) (clears : Bool) (value : UInt16)
    (short : slots.length < 2 ^ 29) :
    Pushed s (.selector value :: slots) (t.pushSelector clears value) where
  esp := by rw [pushSelector_esp, pushed.esp, lower, List.length_cons]
  reg r other := (Function.update_of_ne other _ _).trans (pushed.reg r other)
  seg := pushed.seg
  stack := by
    rw [pushSelector_esp]
    exact pushed.stack.push (storeSelector_frame _ _ value) (storeSelector_at _ _ value) short

/-- Loading other registers than the general ones and the segments changes nothing. -/
theorem flags (pushed : Pushed s slots t) (cs : UInt16) (eip eflags : UInt32) :
    Pushed s slots { t with cpu := { t.cpu with cs := cs, eip := eip, eflags := eflags } } where
  esp := pushed.esp
  reg := pushed.reg
  seg := pushed.seg
  stack := pushed.stack

theorem cli (pushed : Pushed s slots t) (clears : Bool) : Pushed s slots (step clears t .cli) :=
  pushed.flags t.cpu.cs t.cpu.eip _

theorem segment (pushed : Pushed s slots t) (clears : Bool) (g : Seg)
    (short : slots.length < 2 ^ 29) :
    Pushed s (.selector (s.cpu.seg g) :: slots) (step clears t (.pushSeg g)) := by
  rw [← pushed.seg]
  exact pushed.selector clears _ short

theorem pushal (pushed : Pushed s slots t) (short : slots.length < 2 ^ 28) :
    Pushed s (.word (s.cpu.reg .edi) :: .word (s.cpu.reg .esi) :: .word (s.cpu.reg .ebp) ::
      .word t.esp :: .word (s.cpu.reg .ebx) :: .word (s.cpu.reg .edx) :: .word (s.cpu.reg .ecx) ::
      .word (s.cpu.reg .eax) :: slots) t.pushal := by
  rw [← pushed.reg .edi (by decide), ← pushed.reg .esi (by decide),
    ← pushed.reg .ebp (by decide), ← pushed.reg .ebx (by decide), ← pushed.reg .edx (by decide),
    ← pushed.reg .ecx (by decide), ← pushed.reg .eax (by decide)]
  have words (regs : List Reg) (u : Machine) (done : List Slot) (pushed : Pushed s done u)
      (short : done.length + regs.length < 2 ^ 29) :
      Pushed s ((regs.map fun r => .word (t.cpu.reg r)).reverse ++ done)
        (regs.foldl (fun u r => u.push (t.cpu.reg r)) u) := by
    induction regs generalizing u done with
    | nil => exact pushed
    | cons r regs ih =>
        have rest := ih (u.push (t.cpu.reg r)) (.word (t.cpu.reg r) :: done)
          (pushed.word _ (by simp at short; omega)) (by simp at short ⊢; omega)
        simpa using rest
  exact words [.eax, .ecx, .edx, .ebx, .esp, .ebp, .esi, .edi] t slots pushed
    (by simp; omega)

/-- An interrupt saves where it came from. -/
theorem deliver (clears : Bool) (gate : Gate) (error : Option UInt32) (s : Machine) :
    Pushed s ((error.map Slot.word).toList ++
      [.word s.cpu.eip, .selector s.cpu.cs, .word s.cpu.eflags])
      (deliver clears gate error s) := by
  have saved := (((refl s).word s.cpu.eflags (by decide)).selector clears s.cpu.cs
    (by simp)).word s.cpu.eip (by simp)
  cases error with
  | none => exact saved.flags _ _ _
  | some code => exact (saved.word code (by simp)).flags _ _ _

end Pushed

end FrogOS.X86Stack
