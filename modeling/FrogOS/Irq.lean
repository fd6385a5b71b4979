import FrogOS.LinkedChain
import Mathlib.Data.Nat.Bitwise

set_option autoImplicit false

namespace FrogOS

open LinkedChain

/-- The part of an 8259 that the masks depend on: its mask register, and how many
initialization words it still expects. -/
structure Pic8259 where
  imr : UInt8
  awaiting : Nat
deriving DecidableEq, Repr

/-- A write to the command port. A first initialization word clears the masks and
announces two more words, or three if its lowest bit is set. -/
def Pic8259.command (p : Pic8259) (data : UInt8) : Pic8259 :=
  if data &&& 0x10 ≠ 0 then { imr := 0, awaiting := if data &&& 1 ≠ 0 then 3 else 2 } else p

/-- A write to the data port: an initialization word if one is expected, otherwise the masks. -/
def Pic8259.data (p : Pic8259) (data : UInt8) : Pic8259 :=
  match p.awaiting with
  | 0 => { p with imr := data }
  | more + 1 => { p with awaiting := more }

/-- The two controllers. -/
structure Pics where
  master : Pic8259
  slave : Pic8259
deriving DecidableEq, Repr

def outportb (p : Pics) (port : UInt16) (data : UInt8) : Pics :=
  if port = 0x20 then { p with master := p.master.command data }
  else if port = 0x21 then { p with master := p.master.data data }
  else if port = 0xA0 then { p with slave := p.slave.command data }
  else if port = 0xA1 then { p with slave := p.slave.data data }
  else p

/-- The data port reads as the masks. -/
def inportb (p : Pics) (port : UInt16) : UInt8 :=
  if port = 0x21 then p.master.imr else if port = 0xA1 then p.slave.imr else 0xFF

/-- The writes of `set_irqs` to the controllers. -/
def setIrqs (p : Pics) : Pics :=
  let p := outportb p 0x20 0x11
  let p := outportb p 0xA0 0x11
  let p := outportb p 0x21 0x20
  let p := outportb p 0xA1 0x28
  let p := outportb p 0x21 0x04
  let p := outportb p 0xA1 0x02
  let p := outportb p 0x21 0x01
  let p := outportb p 0xA1 0x01
  let p := outportb p 0x21 0xfb
  outportb p 0xA1 0xff

def irqSetMask (irq : UInt8) (p : Pics) : Pics :=
  let (port, irq) : UInt16 × UInt8 := if irq ≥ 8 then (0xA1, irq - 8) else (0x21, irq)
  let value := ((inportb p port).toUInt32 ||| (1 : UInt32) <<< irq.toUInt32).toUInt8
  outportb p port value

def irqClearMask (irq : UInt8) (p : Pics) : Pics :=
  if irq ≥ 16 then p
  else
    let (port, irq) : UInt16 × UInt8 := if irq ≥ 8 then (0xA1, irq - 8) else (0x21, irq)
    let value := ((inportb p port).toUInt32 &&& ~~~((1 : UInt32) <<< irq.toUInt32)).toUInt8
    outportb p port value

/-- `irq_handlers`, the `next` fields of the handlers, and the controllers. -/
structure IrqState where
  irqHandlers : Nat → UInt32
  next : UInt32 → UInt32
  pics : Pics

/-- The table `irq_handlers` has 18 entries. -/
def irqCount : Nat := 18

def setNext (next : UInt32 → UInt32) (handler value : UInt32) : UInt32 → UInt32 :=
  fun x => if x = handler then value else next x

def setHead (heads : Nat → UInt32) (irq : Nat) (value : UInt32) : Nat → UInt32 :=
  fun i => if i = irq then value else heads i

/-- `none` for an `irq` outside the table. -/
def installIrqHandler (s : IrqState) (irq : Nat) (handler : UInt32) : Option IrqState :=
  if irq < irqCount then
    let pics := if s.irqHandlers irq = 0 then irqClearMask (UInt8.ofNat irq) s.pics else s.pics
    some
      { irqHandlers := setHead s.irqHandlers irq handler
        next := setNext s.next handler (s.irqHandlers irq)
        pics := pics }
  else none

/-- The loop of `uninstall_irq_handler`; `none` when it takes `fuel` rounds or more. -/
def unlinkLoop (handler : UInt32) : Nat → UInt32 → (UInt32 → UInt32) → Option (UInt32 → UInt32)
  | 0, _, _ => none
  | fuel + 1, ptr, next =>
      if ptr = 0 then some next
      else if next ptr = handler then some (setNext next ptr (next handler))
      else unlinkLoop handler fuel (next ptr) next

/-- What `uninstall_irq_handler` does with interrupts disabled. -/
def unlinkHandler (fuel : Nat) (s : IrqState) (irq : Nat) (handler : UInt32) : Option IrqState :=
  if s.irqHandlers irq = handler then
    some { s with irqHandlers := setHead s.irqHandlers irq (s.next handler) }
  else (unlinkLoop handler fuel (s.irqHandlers irq) s.next).map fun next => { s with next := next }

def uninstallIrqHandler (fuel : Nat) (s : IrqState) (irq : Nat) (handler : UInt32) :
    Option IrqState :=
  if irq < irqCount then
    (unlinkHandler fuel s irq handler).map fun s =>
      if s.irqHandlers irq = 0 ∧ irq ≠ 2 then
        { s with pics := irqSetMask (UInt8.ofNat irq) s.pics }
      else s
  else none

/-- The mask bit of an interrupt line. -/
def Pics.masked (p : Pics) (irq : Nat) : Bool :=
  if irq < 8 then p.master.imr.toNat.testBit irq else p.slave.imr.toNat.testBit (irq - 8)

/-- Both controllers take writes to their data ports as masks. -/
def Pics.Ready (p : Pics) : Prop := p.master.awaiting = 0 ∧ p.slave.awaiting = 0

section Bits

variable (value : UInt8) (k : UInt8) (i : Nat)

theorem shifted_testBit (small : k.toNat < 32) :
    ((1 : UInt32) <<< k.toUInt32).toNat.testBit i = decide (k.toNat = i ∧ i < 32) := by
  rw [UInt32.toNat_shiftLeft, UInt8.toNat_toUInt32]
  change ((1 <<< (k.toNat % 32)) % 2 ^ 32).testBit i = _
  rw [Nat.mod_eq_of_lt small, Nat.testBit_mod_two_pow, Nat.shiftLeft_eq, Nat.one_mul,
    Nat.testBit_two_pow]
  grind

theorem or_bit (small : k.toNat < 32) (inside : i < 8) :
    ((value.toUInt32 ||| (1 : UInt32) <<< k.toUInt32).toUInt8).toNat.testBit i =
      (value.toNat.testBit i || decide (k.toNat = i)) := by
  rw [UInt32.toNat_toUInt8, Nat.testBit_mod_two_pow, UInt32.toNat_or, Nat.testBit_or,
    UInt8.toNat_toUInt32, shifted_testBit k i small]
  grind

theorem and_not_bit (small : k.toNat < 32) (inside : i < 8) :
    ((value.toUInt32 &&& ~~~((1 : UInt32) <<< k.toUInt32)).toUInt8).toNat.testBit i =
      (value.toNat.testBit i && !decide (k.toNat = i)) := by
  have wide := (((1 : UInt32) <<< k.toUInt32)).toNat_lt
  rw [UInt32.toNat_toUInt8, Nat.testBit_mod_two_pow, UInt32.toNat_and, Nat.testBit_and,
    UInt8.toNat_toUInt32, UInt32.toNat_not]
  change (decide (i < 8) && (value.toNat.testBit i &&
    (2 ^ 32 - 1 - ((1 : UInt32) <<< k.toUInt32).toNat).testBit i)) = _
  rw [Nat.sub_sub, Nat.add_comm 1, Nat.testBit_two_pow_sub_succ wide, shifted_testBit k i small]
  grind

end Bits

section Masks

variable {p : Pics} {irq i : Nat}

theorem outportb_master (ready : p.Ready) (data : UInt8) :
    outportb p 0x21 data = { p with master := ⟨data, 0⟩ } := by
  obtain ⟨⟨imr, awaiting⟩, slave⟩ := p
  have idle : awaiting = 0 := ready.1
  subst idle
  rfl

theorem outportb_slave (ready : p.Ready) (data : UInt8) :
    outportb p 0xA1 data = { p with slave := ⟨data, 0⟩ } := by
  obtain ⟨master, imr, awaiting⟩ := p
  have idle : awaiting = 0 := ready.2
  subst idle
  rfl

theorem ofNat_toNat (inside : irq < irqCount) : (UInt8.ofNat irq).toNat = irq := by
  unfold irqCount at inside
  exact UInt8.toNat_ofNat_of_lt (by omega : irq < 256)

theorem ofNat_ge_eight (inside : irq < irqCount) : UInt8.ofNat irq ≥ 8 ↔ 8 ≤ irq := by
  rw [ge_iff_le, UInt8.le_iff_toNat_le, ofNat_toNat inside]
  rfl

theorem ofNat_sub_toNat (inside : irq < irqCount) (high : 8 ≤ irq) :
    (UInt8.ofNat irq - 8).toNat = irq - 8 := by
  have le := (ofNat_ge_eight inside).mpr high
  rw [UInt8.toNat_sub_of_le _ _ le, ofNat_toNat inside]
  rfl

/-- A new mask for the slave that differs by one operation on the line's bit: `f` says what
the operation makes of a bit, of the line's own and of another one. -/
theorem masked_slave (f : Bool → Bool → Bool) (same : ∀ b, f b false = b) {value : UInt8}
    (high : 8 ≤ irq) (bits : ∀ i, i < 8 →
      value.toNat.testBit i = f (p.slave.imr.toNat.testBit i) (decide (irq - 8 = i)))
    (line : i < 16) :
    ({ p with slave := ⟨value, 0⟩ } : Pics).masked i = f (p.masked i) (decide (irq = i)) := by
  by_cases low : i < 8
  · have other : irq ≠ i := by omega
    simp [Pics.masked, low, other, same]
  · have place : irq - 8 = i - 8 ↔ irq = i := by omega
    simp only [Pics.masked, low, ↓reduceIte]
    rw [bits _ (by omega)]
    simp only [place]

theorem masked_master (f : Bool → Bool → Bool) (same : ∀ b, f b false = b) {value : UInt8}
    (low : irq < 8) (bits : ∀ i, i < 8 →
      value.toNat.testBit i = f (p.master.imr.toNat.testBit i) (decide (irq = i))) :
    ({ p with master := ⟨value, 0⟩ } : Pics).masked i = f (p.masked i) (decide (irq = i)) := by
  by_cases inside : i < 8
  · simp only [Pics.masked, inside, ↓reduceIte]
    exact bits i inside
  · have other : irq ≠ i := by omega
    simp [Pics.masked, inside, other, same]

/-- Setting the mask of a line sets its bit and no other; line 16 has none. -/
theorem irqSetMask_spec (ready : p.Ready) (inside : irq < irqCount) :
    (irqSetMask (UInt8.ofNat irq) p).Ready ∧ ∀ i, i < 16 →
      (irqSetMask (UInt8.ofNat irq) p).masked i = (p.masked i || decide (irq = i)) := by
  have bound : irq < 18 := inside
  by_cases high : 8 ≤ irq
  · have number := ofNat_sub_toNat inside high
    have written : irqSetMask (UInt8.ofNat irq) p = { p with slave :=
        ⟨(p.slave.imr.toUInt32 ||| (1 : UInt32) <<< (UInt8.ofNat irq - 8).toUInt32).toUInt8, 0⟩ } := by
      rw [irqSetMask, if_pos ((ofNat_ge_eight inside).mpr high)]
      exact outportb_slave ready _
    rw [written]
    refine ⟨⟨ready.1, rfl⟩, ?_⟩
    intro i line
    apply masked_slave _ Bool.or_false high _ line
    intro j small
    rw [or_bit _ _ _ (by omega) small, number]
  · have number := ofNat_toNat inside
    have written : irqSetMask (UInt8.ofNat irq) p = { p with master :=
        ⟨(p.master.imr.toUInt32 ||| (1 : UInt32) <<< (UInt8.ofNat irq).toUInt32).toUInt8, 0⟩ } := by
      rw [irqSetMask, if_neg (mt (ofNat_ge_eight inside).mp high)]
      exact outportb_master ready _
    rw [written]
    refine ⟨⟨rfl, ready.2⟩, ?_⟩
    intro i line
    apply masked_master _ Bool.or_false (Nat.lt_of_not_le high)
    intro j small
    rw [or_bit _ _ _ (by omega) small, number]

/-- Clearing the mask of a line clears its bit and no other; line 16 has none. -/
theorem irqClearMask_spec (ready : p.Ready) (inside : irq < irqCount) :
    (irqClearMask (UInt8.ofNat irq) p).Ready ∧ ∀ i, i < 16 →
      (irqClearMask (UInt8.ofNat irq) p).masked i = (p.masked i && !decide (irq = i)) := by
  have bound : irq < 18 := inside
  have number := ofNat_toNat inside
  have kept : ∀ b, (b && !false) = b := Bool.and_true
  have beyond : UInt8.ofNat irq ≥ 16 ↔ 16 ≤ irq := by
    rw [ge_iff_le, UInt8.le_iff_toNat_le, number]
    rfl
  by_cases software : 16 ≤ irq
  · rw [irqClearMask, if_pos (beyond.mpr software)]
    refine ⟨ready, ?_⟩
    intro i line
    have other : irq ≠ i := by omega
    simp [other]
  by_cases high : 8 ≤ irq
  · have below := ofNat_sub_toNat inside high
    have written : irqClearMask (UInt8.ofNat irq) p = { p with slave :=
        ⟨(p.slave.imr.toUInt32 &&&
          ~~~((1 : UInt32) <<< (UInt8.ofNat irq - 8).toUInt32)).toUInt8, 0⟩ } := by
      rw [irqClearMask, if_neg (mt beyond.mp software), if_pos ((ofNat_ge_eight inside).mpr high)]
      exact outportb_slave ready _
    rw [written]
    refine ⟨⟨ready.1, rfl⟩, ?_⟩
    intro i line
    apply masked_slave (fun b own => b && !own) kept high _ line
    intro j small
    rw [and_not_bit _ _ _ (by omega) small, below]
  · have written : irqClearMask (UInt8.ofNat irq) p = { p with master :=
        ⟨(p.master.imr.toUInt32 &&&
          ~~~((1 : UInt32) <<< (UInt8.ofNat irq).toUInt32)).toUInt8, 0⟩ } := by
      rw [irqClearMask, if_neg (mt beyond.mp software),
        if_neg (mt (ofNat_ge_eight inside).mp high)]
      exact outportb_master ready _
    rw [written]
    refine ⟨⟨rfl, ready.2⟩, ?_⟩
    intro i line
    apply masked_master (fun b own => b && !own) kept (Nat.lt_of_not_le high)
    intro j small
    rw [and_not_bit _ _ _ (by omega) small, number]

end Masks

end FrogOS
